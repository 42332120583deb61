import HintCheck.Check
import HintCheck.Signature

/-!
The scope of a wrapper: everything that its checks close over, each under a generated name. A class
has one name, and so has a reference to one name in one module.
-/
namespace HintCheck

/-- What a name of a scope is bound to. -/
inductive ScopeEntry where
  | cls (c : ClassId)
  | reference (ref : Reference)
  | validator (v : Validator)
  /-- A literal value that cannot be written. -/
  | literal (v : Value)
  /-- The default of a parameter. -/
  | default (v : Value)

/-- The names of a wrapper, in the order in which they were bound. -/
structure Scope where
  entries : List (ScopeKey × ScopeEntry)
  classes : List (ClassId × ScopeKey)
  /-- The names of references, by what they refer to and the module that it is looked up in. -/
  references : List ((String × Option String) × ScopeKey)
  nextPith : Nat
  nextKey : Nat

namespace Scope

def empty : Scope :=
  ⟨[], [], [], 0, 0⟩

/-- What a name is bound to. -/
def get? (scope : Scope) (key : ScopeKey) : Option ScopeEntry :=
  scope.entries.lookup key

def contains (scope : Scope) (key : ScopeKey) : Bool :=
  (scope.get? key).isSome

/-- A new variable for a value inside the value under test. -/
def freshPith (scope : Scope) : String × Scope :=
  ("__hg_pith_" ++ toString scope.nextPith, { scope with nextPith := scope.nextPith + 1 })

/-- Binds something under a new name that tells its kind. -/
def insert (scope : Scope) (kind : String) (entry : ScopeEntry) : ScopeKey × Scope :=
  let key : ScopeKey := ⟨"__hg_" ++ kind ++ "_" ++ toString scope.nextKey⟩
  (key, { scope with entries := scope.entries ++ [(key, entry)], nextKey := scope.nextKey + 1 })

/-- Binds a class, or finds the name that it already has. -/
def bindClass (scope : Scope) (c : ClassId) : ScopeKey × Scope :=
  match scope.classes.lookup c with
  | some key => (key, scope)
  | none =>
    let (key, scope) := scope.insert "type" (.cls c)
    (key, { scope with classes := scope.classes ++ [(c, key)] })

/-- Binds a reference, or finds the earlier one to the same name in the same module. -/
def bindReference (scope : Scope) (ref : Reference) (module : Option String) :
    ReferenceOperand × Scope :=
  let add : ReferenceOperand × Scope :=
    let (key, scope) := scope.insert "fwd" (.reference ref)
    (⟨key, ref⟩, { scope with references := scope.references ++ [((ref.name, module), key)] })
  match scope.references.lookup (ref.name, module) with
  | none => add
  | some key =>
    match scope.get? key with
    | some (.reference known) => (⟨key, known⟩, scope)
    | _ => add

def bindValidator (scope : Scope) (v : Validator) : ScopeKey × Scope :=
  scope.insert "validator" (.validator v)

def bindLiteral (scope : Scope) (v : Value) : ScopeKey × Scope :=
  scope.insert "literal" (.literal v)

/-- The name of the default of a parameter. -/
def defaultKey (param : String) : ScopeKey :=
  ⟨defaultName param⟩

/-- Binds the default of a parameter. -/
def bindDefault (scope : Scope) (param : String) (v : Value) : Scope :=
  { scope with entries := scope.entries ++ [(defaultKey param, .default v)] }

end Scope
end HintCheck
