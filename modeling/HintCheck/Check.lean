import HintCheck.Reference

/-!
Checks: trees of tests on one value and on the values inside it. A node says which variable holds
the value under test and which hint it tests, and keeps the classes, references, validators and
literals that it tests against, with the names under which a scope binds them.
-/
namespace HintCheck

/-- The name of something that a check closes over. -/
structure ScopeKey where
  text : String
deriving DecidableEq, Repr

/-- A class tested against. -/
inductive ClassOperand where
  /-- Its own name can be written anywhere. -/
  | inline (c : ClassId)
  | bound (key : ScopeKey) (c : ClassId)
deriving DecidableEq, Repr

def ClassOperand.target : ClassOperand → ClassId
  | inline c | bound _ c => c

def ClassOperand.key? : ClassOperand → Option ScopeKey
  | inline _ => none
  | bound key _ => some key

/-- A reference tested against. -/
structure ReferenceOperand where
  key : ScopeKey
  reference : Reference
deriving DecidableEq, Repr

/-- A literal value tested against; the ones that cannot be written have a name in the scope. -/
structure LiteralOperand where
  value : Value
  key : Option ScopeKey

structure ValidatorOperand where
  key : ScopeKey
  validator : Validator

/-- What a node tests: the variable that holds the value, and the hint as written. -/
structure Subject where
  pith : String
  hint : String
deriving DecidableEq, Repr

/-- A check. -/
inductive Check where
  /-- Accepts every value. -/
  | pass (s : Subject)
  /-- Accepts no value. -/
  | fail (s : Subject)
  | isInstance (s : Subject) (classes : List ClassOperand)
  | isSubclass (s : Subject) (classes : List ClassOperand)
  | forwardInstance (s : Subject) (ref : ReferenceOperand)
  | forwardSubclass (s : Subject) (ref : ReferenceOperand)
  /-- One of the members accepts. -/
  | any (s : Subject) (members : List Check)
  /-- All parts accept. -/
  | all (s : Subject) (parts : List Check)
  /-- The origin, then the item at a random position or all items. -/
  | sequence (s : Subject) (origin : List ClassOperand) (item : Check) (exhaustive : Bool)
  /-- The origin, then the first item or all items. -/
  | reiterable (s : Subject) (origin : List ClassOperand) (item : Check) (exhaustive : Bool)
  /-- The origin, then the first pair or all pairs. -/
  | mapping (s : Subject) (origin : List ClassOperand) (key value : Option Check)
      (exhaustive : Bool)
  /-- The origin, the length, then the positions that have a check. -/
  | tupleFixed (s : Subject) (origin : List ClassOperand) (len : Nat) (items : List (Nat × Check))
  | literal (s : Subject) (values : List LiteralOperand)
  /-- The check inside, then the validators. -/
  | validators (s : Subject) (child : Check) (validators : List ValidatorOperand)
  /-- The attribute, if the value has it. -/
  | attr (s : Subject) (name : String) (child : Check)
  /-- A dictionary that holds all of the keys. -/
  | typedDict (s : Subject) (origin : List ClassOperand) (required : List String)

namespace Check

def subject : Check → Subject
  | pass s | fail s | isInstance s _ | isSubclass s _ | forwardInstance s _ | forwardSubclass s _
  | any s _ | all s _ | sequence s _ _ _ | reiterable s _ _ _ | mapping s _ _ _ _
  | tupleFixed s _ _ _ | literal s _ | validators s _ _ | attr s _ _ | typedDict s _ _ => s

/-- The same test said of another subject. -/
def about (s : Subject) : Check → Check
  | pass _ => pass s
  | fail _ => fail s
  | isInstance _ classes => isInstance s classes
  | isSubclass _ classes => isSubclass s classes
  | forwardInstance _ ref => forwardInstance s ref
  | forwardSubclass _ ref => forwardSubclass s ref
  | any _ members => any s members
  | all _ parts => all s parts
  | sequence _ origin item exhaustive => sequence s origin item exhaustive
  | reiterable _ origin item exhaustive => reiterable s origin item exhaustive
  | mapping _ origin key value exhaustive => mapping s origin key value exhaustive
  | tupleFixed _ origin len items => tupleFixed s origin len items
  | literal _ values => literal s values
  | validators _ child vs => validators s child vs
  | attr _ name child => attr s name child
  | typedDict _ origin required => typedDict s origin required

def isPass : Check → Bool
  | pass _ => true
  | _ => false

/-- The names of the classes that need one. -/
def classKeys (classes : List ClassOperand) : List ScopeKey :=
  classes.filterMap ClassOperand.key?

mutual

/-- The names that a check refers to, in the order in which it is written. -/
def scopeKeys : Check → List ScopeKey
  | pass _ | fail _ => []
  | isInstance _ classes | isSubclass _ classes => classKeys classes
  | forwardInstance _ ref | forwardSubclass _ ref => [ref.key]
  | any _ nodes | all _ nodes => scopeKeysAll nodes
  | sequence _ origin item _ | reiterable _ origin item _ => classKeys origin ++ scopeKeys item
  | mapping _ origin key value _ => classKeys origin ++ scopeKeysOption key ++ scopeKeysOption value
  | tupleFixed _ origin _ items => classKeys origin ++ scopeKeysItems items
  | literal _ values => values.filterMap LiteralOperand.key
  | validators _ child vs => scopeKeys child ++ vs.map ValidatorOperand.key
  | attr _ _ child => scopeKeys child
  | typedDict _ origin _ => classKeys origin
termination_by structural c => c

def scopeKeysAll : List Check → List ScopeKey
  | [] => []
  | c :: rest => scopeKeys c ++ scopeKeysAll rest
termination_by structural cs => cs

def scopeKeysOption : Option Check → List ScopeKey
  | none => []
  | some c => scopeKeys c
termination_by structural c => c

def scopeKeysItems : List (Nat × Check) → List ScopeKey
  | [] => []
  | (_, c) :: rest => scopeKeys c ++ scopeKeysItems rest
termination_by structural items => items

end

end Check
end HintCheck
