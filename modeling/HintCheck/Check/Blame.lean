import HintCheck.Check.Verdict
import HintCheck.Hint.Text

/-!
Explaining a failed check. The tree is walked again on the same value and with the same random
number, down to the innermost value that fails, and the way to it is written as a path.
-/
namespace HintCheck

/-- The longest text of a value that is shown in full. -/
def maxShown : Nat := 80

/-- A text cut to `maxShown` characters, the last three of them dots. -/
def abridged (text : String) : String :=
  if text.length ≤ maxShown then text
  else String.ofList (text.toList.take (maxShown - 3)) ++ "..."

/-- The innermost failure under a value. -/
structure Failure where
  /-- The way from the value to the failing one inside it; empty if it is the value itself. -/
  path : String
  typeName : String
  shown : String
  reason : String
deriving DecidableEq, Repr

namespace Failure

/-- The failure of a value. -/
def of (cat : Catalog) (path : String) (v : Value) (reason : String) : Failure :=
  ⟨path, v.typeName cat, abridged (v.text cat), reason⟩

/-- The failure in words, with `root` as the name of the value that the path starts from. -/
def describe (f : Failure) (root : String) : String :=
  let said := f.typeName ++ " " ++ f.shown ++ " " ++ f.reason
  if f.path.isEmpty then said else root ++ f.path ++ " " ++ said

end Failure

namespace Check

variable {m : Type → Type} [Monad m] [MonadExcept ReferenceError m]

/-- The names of classes as alternatives. -/
def classNames (cat : Catalog) (classes : List ClassOperand) : String :=
  " or ".intercalate (classes.map fun c => (cat.get c.target).name)

def notInstance (cat : Catalog) (classes : List ClassOperand) : String :=
  "not instance of " ++ classNames cat classes

/-- The verdict, where a reference that cannot be resolved counts as a rejection. -/
def acceptsOrFails (o : Oracle m) (c : Check) (v : Value) : m Bool :=
  tryCatch (accepts o c v) fun (_ : ReferenceError) => pure false

/-- The value gets past the outermost test of a check, so that its failure lies further inside. -/
def passesOutermost (o : Oracle m) : Check → Value → m Bool
  | sequence _ origin _ _, v | reiterable _ origin _ _, v | mapping _ origin _ _ _, v
  | tupleFixed _ origin _ _, v | typedDict _ origin _, v => pure (o.catalog.isInstanceOf v origin)
  | validators _ child _, v => do
    if ← acceptsOrFails o child v then pure true else passesOutermost o child v
  | all _ (first :: _), v => acceptsOrFails o first v
  | _, _ => pure false

/-- The first failure found in a list. -/
def firstFailure {α : Type} (find : α → m (Option Failure)) : List α → m (Option Failure)
  | [] => pure none
  | a :: rest => do
    match ← find a with
    | some failure => pure (some failure)
    | none => firstFailure find rest

/-- The items of a list with their positions. -/
def indexed {α : Type} (index : Nat) : List α → List (Nat × α)
  | [] => []
  | a :: rest => (index, a) :: indexed (index + 1) rest

/-- The items of a sequence that its check looks at, with their positions. -/
def visited (random : UInt32) (exhaustive : Bool) (v : Value) : List (Nat × Value) :=
  let items := v.items
  if exhaustive then indexed 0 items
  else
    let index := sampleIndex random items.length
    (items[index]?.map fun item => (index, item)).toList

mutual

/-- The innermost failure of a value that a check rejects; `path` leads to the value. -/
def blame (o : Oracle m) : Check → Value → String → m (Option Failure)
  | pass _, _, _ => pure none
  | fail s, v, path => pure (some (.of o.catalog path v ("returned despite " ++ s.hint)))
  | isInstance s classes, v, path => do
    if ← accepts o (isInstance s classes) v then return none
    return some (.of o.catalog path v (notInstance o.catalog classes))
  | isSubclass s classes, v, path => do
    if ← accepts o (isSubclass s classes) v then return none
    return some (.of o.catalog path v ("not subclass of " ++ classNames o.catalog classes))
  | forwardInstance s ref, v, path => do
    if ← accepts o (forwardInstance s ref) v then return none
    return some (.of o.catalog path v ("not instance of " ++ ref.reference.name))
  | forwardSubclass s ref, v, path => do
    if ← accepts o (forwardSubclass s ref) v then return none
    return some (.of o.catalog path v ("not subclass of " ++ ref.reference.name))
  | any s members, v, path => do
    if ← accepts o (any s members) v then return none
    match ← blameMembers o members v path with
    | some failure => return some failure
    | none => return some (.of o.catalog path v ("matches no member of " ++ s.hint))
  | all s parts, v, path => do
    if ← accepts o (all s parts) v then return none
    match ← blameParts o parts v path with
    | some failure => return some failure
    | none => return some (.of o.catalog path v ("not instance of " ++ s.hint))
  | sequence s origin item exhaustive, v, path => do
    if ← accepts o (sequence s origin item exhaustive) v then return none
    if !o.catalog.isInstanceOf v origin then
      return some (.of o.catalog path v (notInstance o.catalog origin))
    firstFailure (fun entry => blame o item entry.2 (path ++ "[" ++ toString entry.1 ++ "]"))
      (visited o.random exhaustive v)
  | reiterable s origin item exhaustive, v, path => do
    if ← accepts o (reiterable s origin item exhaustive) v then return none
    if !o.catalog.isInstanceOf v origin then
      return some (.of o.catalog path v (notInstance o.catalog origin))
    firstFailure (fun entry => blame o item entry.2 (path ++ " item " ++ toString entry.1))
      (indexed 0 v.items)
  | mapping s origin key value exhaustive, v, path => do
    if ← accepts o (mapping s origin key value exhaustive) v then return none
    if !o.catalog.isInstanceOf v origin then
      return some (.of o.catalog path v (notInstance o.catalog origin))
    firstFailure
      (fun pair => do
        match ← blameOption o key pair.1 (path ++ " key") with
        | some failure => pure (some failure)
        | none => blameOption o value pair.2 (path ++ "[" ++ pair.1.text o.catalog ++ "]"))
      (v.pairs?.getD [])
  | tupleFixed s origin len items, v, path => do
    if ← accepts o (tupleFixed s origin len items) v then return none
    if !o.catalog.isInstanceOf v origin then
      return some (.of o.catalog path v (notInstance o.catalog origin))
    let actual := v.len?.getD 0
    if actual ≠ len then
      return some (.of o.catalog path v ("length " ++ toString actual ++ " not " ++ toString len))
    blameItems o items v path
  | literal s values, v, path => do
    if ← accepts o (literal s values) v then return none
    return some (.of o.catalog path v ("not in " ++ s.hint))
  | validators s child vs, v, path => do
    if ← accepts o (validators s child vs) v then return none
    match ← blame o child v path with
    | some failure => return some failure
    | none =>
      return (vs.find? fun x => !x.validator.holds o.catalog v).map fun x =>
        .of o.catalog path v ("violates validator " ++ x.validator.text o.catalog)
  | attr s name child, v, path => do
    if ← accepts o (attr s name child) v then return none
    match o.catalog.attr? v name with
    | some a => blame o child a (path ++ "." ++ name)
    | none => return none
  | typedDict s origin required, v, path => do
    if ← accepts o (typedDict s origin required) v then return none
    if !o.catalog.isInstanceOf v origin then
      return some (.of o.catalog path v (notInstance o.catalog origin))
    return (required.find? fun key => !v.hasKey key).map fun key =>
      .of o.catalog path v ("missing required key '" ++ key ++ "'")
termination_by structural c => c

/-- The failure of the first member of a union whose outermost test the value passes: it says more
than that no member matches. -/
def blameMembers (o : Oracle m) : List Check → Value → String → m (Option Failure)
  | [], _, _ => pure none
  | c :: rest, v, path => do
    if ← passesOutermost o c v then
      match ← blame o c v path with
      | some failure => return some failure
      | none => blameMembers o rest v path
    else blameMembers o rest v path
termination_by structural cs => cs

/-- The failure of the first part that has one. -/
def blameParts (o : Oracle m) : List Check → Value → String → m (Option Failure)
  | [], _, _ => pure none
  | c :: rest, v, path => do
    match ← blame o c v path with
    | some failure => return some failure
    | none => blameParts o rest v path
termination_by structural cs => cs

def blameOption (o : Oracle m) : Option Check → Value → String → m (Option Failure)
  | none, _, _ => pure none
  | some c, v, path => blame o c v path
termination_by structural c => c

/-- The failure of the first position that has one. -/
def blameItems (o : Oracle m) : List (Nat × Check) → Value → String → m (Option Failure)
  | [], _, _ => pure none
  | (index, c) :: rest, v, path => do
    match v.at? index with
    | none => blameItems o rest v path
    | some x =>
      match ← blame o c x (path ++ "[" ++ toString index ++ "]") with
      | some failure => return some failure
      | none => blameItems o rest v path
termination_by structural items => items

end

/-- The innermost failure of a value, if the check rejects it. -/
def diagnose (o : Oracle m) (c : Check) (v : Value) : m (Option Failure) :=
  blame o c v ""

end Check
end HintCheck
