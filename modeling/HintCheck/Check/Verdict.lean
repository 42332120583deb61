import HintCheck.Check

/-!
The verdict of a check on a value. Tests run from left to right and stop as soon as the verdict is
known. One random number, drawn once for all checks of a call, selects the item of each sequence
that is sampled.

References are looked up by the caller, in a monad of the caller's choice: `Except ReferenceError`
when nothing is remembered between two uses of a reference, and a state over it when what was
resolved is to be kept.
-/
namespace HintCheck

/-- The position sampled in a container of `len` items. -/
def sampleIndex (random : UInt32) (len : Nat) : Nat :=
  random.toNat % len

/-- The item of a sequence that the random number selects. -/
def Value.sample? (v : Value) (random : UInt32) : Option Value :=
  v.len?.bind fun len => if 0 < len then v.at? (sampleIndex random len) else Option.none

/-- The value is an instance of one of the operands. -/
def Catalog.isInstanceOf (cat : Catalog) (v : Value) (classes : List ClassOperand) : Bool :=
  classes.any fun c => cat.isInstance v c.target

/-- The value is a class below one of the operands. -/
def Catalog.isSubclassOf (cat : Catalog) (v : Value) (classes : List ClassOperand) : Bool :=
  match v with
  | .type sub => classes.any fun c => cat.isSubclass sub c.target
  | _ => false

/-- A singleton and an instance are literals as the object they are. Any other literal is matched by
an equal value of its class or of a subclass, but a truth value matches no number. -/
def LiteralOperand.matchedBy (cat : Catalog) (literal : LiteralOperand) (v : Value) : Bool :=
  match literal.value with
  | .none | .bool _ | .inst _ _ _ _ => v.isSame literal.value
  | value =>
    match v with
    | .bool _ => false
    | v => cat.isInstance v value.classOf && v.equals value

/-- What a check asks of its caller. -/
structure Oracle (m : Type → Type) where
  catalog : Catalog
  random : UInt32
  /-- The class that a reference denotes; `none` if it is ignored. -/
  resolve : ReferenceOperand → m (Option ClassId)

namespace Check

variable {m : Type → Type} [Monad m]

/-- The conjunction of two tests; the second runs only if the first holds. -/
def both (a : m Bool) (b : Unit → m Bool) : m Bool := do
  if ← a then b () else pure false

/-- All tests hold; none runs after one that fails. -/
def allOf {α : Type} (test : α → m Bool) : List α → m Bool
  | [] => pure true
  | a :: rest => both (test a) fun _ => allOf test rest

mutual

/-- Whether a check accepts a value. -/
def accepts (o : Oracle m) : Check → Value → m Bool
  | pass _, _ => pure true
  | fail _, _ => pure false
  | isInstance _ classes, v => pure (o.catalog.isInstanceOf v classes)
  | isSubclass _ classes, v => pure (o.catalog.isSubclassOf v classes)
  | forwardInstance _ ref, v => do
    return o.catalog.isReferenceInstance v (← o.resolve ref)
  | forwardSubclass _ ref, v =>
    match v with
    | .type sub => do return o.catalog.isReferenceSubclass sub (← o.resolve ref)
    | _ => pure false
  | any _ members, v => acceptsAny o members v
  | all _ parts, v => acceptsAll o parts v
  | sequence _ origin item exhaustive, v =>
    if !o.catalog.isInstanceOf v origin then pure false
    else if exhaustive then allOf (accepts o item) v.items
    else
      match v.sample? o.random with
      | some x => accepts o item x
      | none => pure true
  | reiterable _ origin item exhaustive, v =>
    if !o.catalog.isInstanceOf v origin then pure false
    else if exhaustive then allOf (accepts o item) v.items
    else
      match v.first? with
      | some x => accepts o item x
      | none => pure true
  | mapping _ origin key value exhaustive, v =>
    if !o.catalog.isInstanceOf v origin then pure false
    else
      let pairs := v.pairs?.getD []
      let sampled := if exhaustive then pairs else pairs.take 1
      allOf (fun pair => both (acceptsOption o key pair.1) fun _ => acceptsOption o value pair.2)
        sampled
  | tupleFixed _ origin len items, v =>
    if !o.catalog.isInstanceOf v origin || v.len? != some len then pure false
    else acceptsItems o items v
  | literal _ values, v => pure (values.any fun l => l.matchedBy o.catalog v)
  | validators _ child vs, v => do
    if ← accepts o child v then pure (vs.all fun x => x.validator.holds o.catalog v)
    else pure false
  | attr _ name child, v =>
    match o.catalog.attr? v name with
    | some a => accepts o child a
    | none => pure true
  | typedDict _ origin required, v =>
    pure (o.catalog.isInstanceOf v origin && required.all v.hasKey)
termination_by structural c => c

/-- Some member accepts the value; none is asked after one that does. -/
def acceptsAny (o : Oracle m) : List Check → Value → m Bool
  | [], _ => pure false
  | c :: rest, v => do
    if ← accepts o c v then pure true else acceptsAny o rest v
termination_by structural cs => cs

/-- All parts accept the value; none is asked after one that does not. -/
def acceptsAll (o : Oracle m) : List Check → Value → m Bool
  | [], _ => pure true
  | c :: rest, v => do
    if ← accepts o c v then acceptsAll o rest v else pure false
termination_by structural cs => cs

/-- A check that is not there accepts everything. -/
def acceptsOption (o : Oracle m) : Option Check → Value → m Bool
  | none, _ => pure true
  | some c, v => accepts o c v
termination_by structural c => c

/-- The items at the given positions are accepted by their checks. -/
def acceptsItems (o : Oracle m) : List (Nat × Check) → Value → m Bool
  | [], _ => pure true
  | (index, c) :: rest, v =>
    match v.at? index with
    | none => acceptsItems o rest v
    | some x => do
      if ← accepts o c x then acceptsItems o rest v else pure false
termination_by structural items => items

end

end Check
end HintCheck
