import HintCheck.Class.Outline
import HintCheck.Hint.Outline
import HintCheck.Proofs.Exactness
import HintCheck.Proofs.Termination
import HintCheck.Proofs.Weakening
import HintCheck.Session
import HintCheck.Wrapper.Outline
import HintCheck.Proofs.Transparency
import HintCheck.Proofs.Recollection
import HintCheck.Proofs.Registration
import HintCheck.Proofs.Diagnosis
import HintCheck.Proofs.Explanation
import HintCheck.Proofs.Canonicity
import HintCheck.Proofs.Idempotence
import HintCheck.Proofs.Ancestry
import HintCheck.Proofs.Arguments
import HintCheck.Proofs.Wrapping
import HintCheck.Proofs.Sampling
import HintCheck.Proofs.Instantiation
import HintCheck.Proofs.Disjunction
import HintCheck.Proofs.Keeping
import HintCheck.Proofs.Settling
import HintCheck.Proofs.Construction
import HintCheck.Proofs.Binding
import HintCheck.Proofs.Assignment
import HintCheck.Proofs.Balancing
import HintCheck.Proofs.Writing
import HintCheck.Proofs.Compiling
import HintCheck.Proofs.Formation
import HintCheck.Proofs.Comparison
import HintCheck.Proofs.Smallness
import HintCheck.Proofs.Equivalence
import HintCheck.Proofs.Indifference
import HintCheck.Proofs.Subclassing
import HintCheck.Proofs.Variadics
import HintCheck.Proofs.Forwarding
import HintCheck.Proofs.Guarding
import HintCheck.Proofs.Inheritance
import HintCheck.Proofs.Layering
import HintCheck.Proofs.Literals
import HintCheck.Proofs.Marking
