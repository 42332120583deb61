import HintCheck.Check.Build
import HintCheck.Check.Verdict

/-!
The meaning of a classified hint: the test of values that its check performs, read off the hint
without a check in between. Variables, names and scopes play no part in it; what remains is which
tests are made, in which order, and why some hints have none. A hint inside that every value
satisfies means no test, and a test that is not there is passed.
-/
namespace HintCheck

/-- A test of values. -/
abbrev Test (m : Type → Type) := Value → m Bool

/-- What a reader of hints knows: what the builder reads, and what there is when values are tested:
the classes of that time, the random number, and the classes that references denote. -/
structure Reading (m : Type → Type) extends Builder where
  world : Catalog
  random : UInt32
  /-- The class that a reference denotes; `none` if it is ignored. -/
  resolve : Reference → m (Option ClassId)

/-- How the test of a classified hint is read; `none` is a hint that every value satisfies. -/
abbrev Sense (m : Type → Type) := Context → Classified → Except HintError (Option (Test m))

namespace Test

variable {m : Type → Type} [Monad m]

/-- The test that every value passes. -/
def pass : Test m :=
  fun _ => pure true

/-- The first test passed decides; none is made after it. -/
def anyOf : List (Test m) → Test m
  | [], _ => pure false
  | t :: rest, v => do
    if ← t v then pure true else anyOf rest v

/-- All tests are passed; none is made after one that is not. -/
def allOf (tests : List (Test m)) : Test m :=
  fun v => Check.allOf (fun t => t v) tests

/-- A test, and then one of all selected values inside. -/
def andEach {α : Type} (outer : Test m) (select : Value → List α) (inner : α → m Bool) : Test m :=
  fun v => Check.both (outer v) fun _ => Check.allOf inner (select v)

/-- The items from a position on pass their tests, as far as there are items. -/
def positions (v : Value) : Nat → List (Option (Test m)) → m Bool
  | _, [] => pure true
  | index, t :: rest =>
    Check.both
      (match v.at? index with
        | some x => t.getD pass x
        | none => pure true)
      fun _ => positions v (index + 1) rest

end Test

namespace Reading

variable {m : Type → Type} [Monad m] (r : Reading m)

/-! ### Values and the values inside them -/

def exhaustive : Bool :=
  r.conf.thoroughness == .exhaustive

/-- The items of a sequence that are tested. -/
def sampledItems (v : Value) : List Value :=
  if r.exhaustive then v.items else (v.sample? r.random).toList

/-- The items that are tested where no item can be reached but the first. -/
def firstItems (v : Value) : List Value :=
  if r.exhaustive then v.items else v.first?.toList

/-- The pairs of a dictionary that are tested. -/
def firstPairs (v : Value) : List (Value × Value) :=
  let pairs := v.pairs?.getD []
  if r.exhaustive then pairs else pairs.take 1

def instanceOf (classes : List ClassId) : Test m :=
  fun v => pure (r.world.isInstanceOfAny v classes)

/-- A class below the given one. -/
def subclassOf (c : ClassId) : Test m :=
  fun v =>
    match v with
    | .type sub => pure (r.world.isSubclass sub c)
    | _ => pure false

/-- An instance of what a reference denotes. -/
def referenceInstance (ref : Reference) : Test m :=
  fun v => do return r.world.isReferenceInstance v (← r.resolve ref)

/-- A class below what a reference denotes. -/
def referenceSubclass (ref : Reference) : Test m :=
  fun v =>
    match v with
    | .type sub => do return r.world.isReferenceSubclass sub (← r.resolve ref)
    | _ => pure false

/-- The attribute passes a test, if the value has it. -/
def ofAttribute (name : String) (t : Test m) : Test m :=
  fun v =>
    match r.world.attr? v name with
    | some a => t a
    | none => pure true

/-! ### Hints inside -/

/-- The classes that a check starts from. -/
def originClasses (c : Classified) : Except HintError (List ClassId) :=
  match c.origin with
  | some origin => .ok (Builder.widened r.conf origin)
  | none => .error (.unsupported (c.hint.text r.catalog))

/-- The reference that a hint stands for. -/
def reference (ctx : Context) (h : Hint) : Except HintError Reference :=
  match Reference.ofHint? ctx h with
  | none => .error (.unsupported (h.text r.catalog))
  | some ref => .ok ref

/-- The test of a hint inside. -/
def inside (sense : Sense m) (ctx : Context) (h : Hint) : Except HintError (Option (Test m)) := do
  let c ← h.classify r.catalog r.substitutes ctx.nested
  sense ctx.nested c

/-- The tests of the members of a union: one equal to the member before it is left out, and `none`
means that every value satisfies some member. -/
def members (member : Hint → Except HintError (Option (Test m))) :
    Option Hint → List Hint → Except HintError (Option (List (Test m)))
  | _, [] => pure (some [])
  | previous, h :: rest =>
    if previous.any fun p => p.structEq h then members member previous rest
    else do
      match ← member h with
      | none => return none
      | some t => return (← members member (some h) rest).map (t :: ·)

/-! ### Containers -/

def tuple (sense : Sense m) (ctx : Context) (c : Classified) :
    Except HintError (Option (Test m)) := do
  let classes ← r.originClasses c
  let items ← c.children.mapM (r.inside sense ctx)
  return some fun v =>
    Check.both (pure (r.world.isInstanceOfAny v classes && v.len? == some c.children.length))
      fun _ => Test.positions v 0 items

/-- A container with one hint for the selected items. -/
def container (sense : Sense m) (ctx : Context) (c : Classified) (select : Value → List Value) :
    Except HintError (Option (Test m)) := do
  let classes ← r.originClasses c
  match c.children with
  | [] => return some (r.instanceOf classes)
  | h :: _ =>
    let item ← r.inside sense ctx h
    return some (.andEach (r.instanceOf classes) select (item.getD .pass))

def mapping (sense : Sense m) (ctx : Context) (c : Classified) :
    Except HintError (Option (Test m)) := do
  let classes ← r.originClasses c
  match c.children with
  | [keyHint, valueHint] =>
    let key ← r.inside sense ctx keyHint
    let value ← r.inside sense ctx valueHint
    return some (.andEach (r.instanceOf classes) r.firstPairs fun pair =>
      Check.both (key.getD .pass pair.1) fun _ => value.getD .pass pair.2)
  | _ => return some (r.instanceOf classes)

/-! ### Classes as values -/

/-- The tests of a class that a classified argument of `type` asks for; `member` reads the members
of a union. -/
def subclassTestsOf (ctx : Context) (member : Hint → Except HintError (List (Test m)))
    (c : Classified) : Except HintError (List (Test m)) :=
  match c.sign with
  | .ignorable => return []
  | .union => do
    let tests ← c.children.mapM member
    return tests.flatten
  | .forwardRef => do
    let ref ← r.reference ctx.nested c.hint
    return [r.referenceSubclass ref]
  | _ =>
    match c.origin with
    | none => return []
    | some origin => return [r.subclassOf origin]

theorem subclassTestsOf_other (ctx : Context) (member : Hint → Except HintError (List (Test m)))
    {c : Classified} (notIgnorable : c.sign ≠ .ignorable) (notUnion : c.sign ≠ .union)
    (notReference : c.sign ≠ .forwardRef) :
    r.subclassTestsOf ctx member c =
      match c.origin with
      | none => return []
      | some origin => return [r.subclassOf origin] := by
  rw [subclassTestsOf]
  split <;> simp_all

/-- The tests of a class that the argument of `type` asks for. -/
def subclassTests (ctx : Context) : Nat → Hint → Except HintError (List (Test m))
  | 0, h => .error (.endless (h.text r.catalog))
  | bound + 1, h => do
    let c ← h.classify r.catalog r.substitutes ctx.nested
    r.subclassTestsOf ctx (subclassTests ctx bound) c

/-- A class, and a subclass of what the argument of `type` asks for. -/
def classValue (ctx : Context) (c : Classified) : Except HintError (Option (Test m)) := do
  let tests ← match c.children with
    | [] => pure []
    | h :: _ => r.subclassTests ctx (r.unionBound ctx h) h
  match tests with
  | [] => return some (r.instanceOf [Builtin.type])
  | tests => return some fun v =>
      Check.both (r.instanceOf [Builtin.type] v) fun _ => Test.anyOf tests v

/-! ### Generic classes -/

/-- The test of one attribute. -/
def field (sense : Sense m) (ctx : Context) (entry : String × Hint) :
    Except HintError (Option (Test m)) := do
  return (← r.inside sense ctx entry.2).map (r.ofAttribute entry.1)

/-- An instance of a generic class, whose bases and attributes are read with the type parameters
bound. -/
def genericClass (sense : Sense m) (ctx : Context) (c : ClassId)
    (substitutions : List (Hint × Hint)) (supers : List Hint) :
    Except HintError (Option (Test m)) := do
  let bound := ctx.bindAll substitutions
  let bases ← supers.mapM (r.inside sense bound)
  let fields ← (Builder.boundFields r.catalog c substitutions).mapM (r.field sense bound)
  return some fun v =>
    Check.both (r.instanceOf [c] v) fun _ =>
      Test.allOf (bases.filterMap id ++ fields.filterMap id) v

/-! ### All hints -/

/-- The test that the strategy of a classified hint asks for; `sense` reads the hints inside. -/
def shape (sense : Sense m) (ctx : Context) (c : Classified) :
    Except HintError (Option (Test m)) :=
  let shown := c.hint.text r.catalog
  match c.sign.strategy.emit, c.data with
  | .pass, _ => return none
  | .fail, _ => return some fun _ => pure false
  | .isInstance, _ | .originOnly, _ => do
    let classes ← r.originClasses c
    return some (r.instanceOf classes)
  | .union, _ => do
    let tests ← members (r.inside sense ctx) none c.children
    return tests.map Test.anyOf
  | .literal, .literals values =>
    return some fun v => pure (values.any fun l => LiteralOperand.matchedBy r.world ⟨l, none⟩ v)
  | .literal, _ => .error (.malformed shown "literal without values")
  | .validators, .annotated validators inner => do
    let child ← sense ctx inner
    return some fun v =>
      Check.both (child.getD .pass v) fun _ => pure (validators.all fun x => x.holds r.world v)
  | .tupleFixed, _ => r.tuple sense ctx c
  | .sequence, _ => r.container sense ctx c r.sampledItems
  | .reiterable, _ => r.container sense ctx c r.firstItems
  | .mapping, _ => r.mapping sense ctx c
  | .isSubclass, _ => r.classValue ctx c
  | .generic, .generic cls substitutions supers => r.genericClass sense ctx cls substitutions supers
  | .forwardRef, _ => do
    let ref ← r.reference ctx c.hint
    return some (r.referenceInstance ref)
  | .typedDict, .typedDict required =>
    return some fun v =>
      pure (r.world.isInstanceOfAny v [Builtin.dict] && required.all v.hasKey)
  | .validators, _ | .generic, _ | .typedDict, _ | .reduced, _ => .error (.unsupported shown)

/-- The meaning of a classified hint with room for `room` hints nested in each other. -/
def meaningWithin : Nat → Sense m
  | 0, _, c => .error (.nesting (c.hint.text r.catalog) maxNesting)
  | room + 1, ctx, c => r.shape (meaningWithin room) ctx c

/-- The meaning of a classified hint. -/
def meaning : Sense m :=
  r.meaningWithin (maxNesting + 1)

end Reading
end HintCheck
