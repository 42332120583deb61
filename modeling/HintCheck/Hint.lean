import HintCheck.Hint.Form
import HintCheck.Validator
import HintCheck.Value.Equality

/-!
Type hints: what stands in an annotation. There is one hint for each class and one for each bare
special form. Every other declared hint is an object of its own and carries a label; a hint that is
only built in passing carries none. Type variables, new types and extensions mean something only as
the object they are, so they always have a label.
-/
namespace HintCheck

/-- What a subscripted hint is a subscription of. -/
inductive Subscriptable where
  | form (f : SpecialForm)
  | cls (c : ClassId)
deriving DecidableEq, Repr

inductive Variance where
  | invariant
  | covariant
  | contravariant
deriving DecidableEq, Repr

/-- A type hint. -/
inductive Hint where
  /-- A class. -/
  | cls (c : ClassId)
  /-- A bare special form. -/
  | form (f : SpecialForm)
  /-- The value `None` used as a hint. -/
  | none (label : Option Nat)
  /-- A quoted annotation. -/
  | quoted (label : Option Nat) (name : String)
  /-- A subscription. -/
  | subscription (label : Option Nat) (origin : Subscriptable) (args : List Hint)
  /-- A union written with `|`. -/
  | union (label : Option Nat) (members : List Hint)
  | typeVar (label : Nat) (name : String) (variance : Variance) (bound : Option Hint)
      (constraints : List Hint)
  | paramSpec (label : Nat) (name : String)
  | typeVarTuple (label : Nat) (name : String)
  /-- A reference to a class by name, perhaps in a given module. -/
  | forwardRef (label : Option Nat) (name : String) (module : Option String)
  | newType (label : Nat) (name module : String) (supertype : Hint)
  /-- A value in the place of a hint, such as a member of a literal. -/
  | value (label : Option Nat) (v : Value)
  /-- A validator among the metadata of an annotated hint. -/
  | validator (label : Option Nat) (v : Validator)
  /-- The parameter list of a callable hint. -/
  | params (label : Option Nat) (hints : List Hint)
  /-- An object of another library that stands for the hint it substitutes. -/
  | extension (label : Nat) (shown : String)

/-- The identity of a hint object. -/
inductive HintId where
  | cls (c : ClassId)
  | form (f : SpecialForm)
  | label (n : Nat)
deriving DecidableEq, Repr

namespace Hint

instance : Inhabited Hint := ⟨Hint.none Option.none⟩

instance : Coe Builtin Hint := ⟨fun b => Hint.cls b⟩

/-- The identity of a hint, if it is an object that can be met again. -/
def id? : Hint → Option HintId
  | cls c => some (.cls c)
  | form f => some (.form f)
  | none label | quoted label _ | subscription label _ _ | union label _ | forwardRef label _ _
  | value label _ | validator label _ | params label _ => label.map .label
  | typeVar label _ _ _ _ | paramSpec label _ | typeVarTuple label _ | newType label _ _ _
  | extension label _ => some (.label label)

/-- Whether two hints are one object. -/
def isSame (a b : Hint) : Bool :=
  match a.id?, b.id? with
  | some i, some j => i == j
  | _, _ => false

/-- Gives a hint that has no identity the label `n`. -/
def labelled (n : Nat) : Hint → Hint
  | none Option.none => none (some n)
  | quoted Option.none name => quoted (some n) name
  | subscription Option.none origin args => subscription (some n) origin args
  | union Option.none members => union (some n) members
  | forwardRef Option.none name module => forwardRef (some n) name module
  | value Option.none v => value (some n) v
  | validator Option.none v => validator (some n) v
  | params Option.none hints => params (some n) hints
  | h => h

/-- The form of a bare special form. -/
def bareForm? : Hint → Option Form
  | form f => some f.form
  | _ => Option.none

/-- The form of a subscripted special form. -/
def subscriptedForm? : Hint → Option Form
  | subscription _ (.form f) _ => some f.form
  | _ => Option.none

def class? : Hint → Option ClassId
  | cls c => some c
  | _ => Option.none

def isSubscripted : Hint → Bool
  | subscription _ _ _ => true
  | _ => false

/-- The hints inside a subscription, a union or a parameter list. -/
def args : Hint → List Hint
  | subscription _ _ args => args
  | union _ members => members
  | params _ hints => hints
  | _ => []

/-- The run-time class that a subscription starts from. -/
def origin? : Hint → Option ClassId
  | subscription _ (.cls c) _ => some c
  | subscription _ (.form f) _ => f.form.origin?.map ClassId.builtin
  | _ => Option.none

def isTypeVar : Hint → Bool
  | typeVar _ _ _ _ _ | paramSpec _ _ | typeVarTuple _ _ => true
  | _ => false

def isUnion : Hint → Bool
  | union _ _ => true
  | subscription _ (.form f) _ => f.form == .union
  | _ => false

/-- The hint that every value satisfies. -/
def object : Hint :=
  cls Builtin.object

/-- A subscription, where there is one: of a class or of a bare special form. -/
def subscript? (label : Option Nat) (h : Hint) (args : List Hint) : Option Hint :=
  match h with
  | form f => some (subscription label (.form f) args)
  | cls c => some (subscription label (.cls c) args)
  | _ => Option.none

/-- `typing.Form[args]`. -/
def typing (label : Option Nat) (f : Form) (args : List Hint) : Hint :=
  subscription label (.form (.standard f)) args

/-- `Class[args]`. -/
def generic (label : Option Nat) (c : ClassId) (args : List Hint) : Hint :=
  subscription label (.cls c) args

/-- `tuple[item, ...]`, the ellipsis with a label of its own. -/
def tupleOf (label dots : Option Nat) (item : Hint) : Hint :=
  generic label Builtin.tuple [item, value dots .ellipsis]

mutual

/-- Structural equality: the same object, or the same spelling with equal parts. -/
def structEq : Hint → Hint → Bool
  | cls a, cls b => a == b
  | form a, form b => a == b
  | none _, none _ => true
  | quoted _ a, quoted _ b => a == b
  | subscription _ o xs, subscription _ p ys => o == p && structEqList xs ys
  | union _ xs, union _ ys => structEqList xs ys
  | params _ xs, params _ ys => structEqList xs ys
  | forwardRef _ a m, forwardRef _ b n => a == b && m == n
  | value _ v, value _ w => v.structEq w
  | validator _ v, validator _ w => v.label == w.label
  | a, b => a.isSame b
termination_by structural a => a

def structEqList : List Hint → List Hint → Bool
  | [], [] => true
  | x :: xs, y :: ys => structEq x y && structEqList xs ys
  | _, _ => false
termination_by structural xs => xs

end

mutual

/-- The type variables of a hint that `found` does not hold yet are put after it, in order. -/
def collectTypeVars : Hint → List Hint → List Hint
  | subscription _ _ args, found => collectAll args found
  | union _ members, found => collectAll members found
  | params _ hints, found => collectAll hints found
  | h, found =>
    if h.isTypeVar && !(found.any fun t => t.isSame h) then found ++ [h] else found
termination_by structural h => h

def collectAll : List Hint → List Hint → List Hint
  | [], found => found
  | h :: rest, found => collectAll rest (collectTypeVars h found)
termination_by structural hints => hints

end

/-- The type variables that a hint mentions, each once. -/
def typeVars (h : Hint) : List Hint :=
  h.collectTypeVars []

mutual

/-- How deep hints are nested in a hint, declarations of type variables and new types included. -/
def depth : Hint → Nat
  | subscription _ _ args => depthAll args + 1
  | union _ members => depthAll members + 1
  | params _ hints => depthAll hints + 1
  | typeVar _ _ _ bound constraints => max (depthOption bound) (depthAll constraints) + 1
  | newType _ _ _ supertype => depth supertype + 1
  | _ => 1
termination_by structural h => h

def depthAll : List Hint → Nat
  | [] => 0
  | h :: rest => max (depth h) (depthAll rest)
termination_by structural hints => hints

def depthOption : Option Hint → Nat
  | Option.none => 0
  | some h => depth h
termination_by structural h => h

end

end Hint
end HintCheck
