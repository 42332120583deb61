import HintCheck.Proofs.Arguments
import HintCheck.Proofs.Disjunction
import HintCheck.Proofs.Room

/-!
Classes as values. The argument of `type` asks for tests of a class: to be below the origin of a
hint, or below what a reference denotes; a union asks for what its members ask for. A hint that
names no class asks for nothing, and where nothing is asked for, every class passes. So a hint that
names no class means one thing where it stands alone and another thing in a union: alone it lets
every class pass, in a union it counts for nothing. Apart from such members `type` distributes over
unions.
-/
namespace HintCheck

open Hint

namespace Hint

variable {cat : Catalog} {subs : Substitutes} {ctx : Context} {names : Naming} {h x : Hint}
  {c : Classified}

/-! ### Hints that name a class -/

variable (cat subs ctx) in
/-- The hint names a class that other classes may be below: it is a reference or it has an origin,
or it is a union and a member names one. -/
inductive NamesClass : Hint → Prop
  | reference {h : Hint} {c : Classified} (classified : h.classify cat subs ctx.nested = .ok c)
    (isReference : c.sign = .forwardRef) : NamesClass h
  | origin {h : Hint} {c : Classified} (classified : h.classify cat subs ctx.nested = .ok c)
    (notIgnorable : c.sign ≠ .ignorable) (notUnion : c.sign ≠ .union)
    (hasOrigin : c.origin.isSome = true) : NamesClass h
  | member {h x : Hint} {c : Classified} (classified : h.classify cat subs ctx.nested = .ok c)
    (isUnion : c.sign = .union) (member : x ∈ c.children) (names : NamesClass x) : NamesClass h

theorem namesClass_of_classified (classified : h.classify cat subs ctx.nested = .ok c) :
    h.NamesClass cat subs ctx ↔ c.sign = .forwardRef ∨
      (c.sign ≠ .ignorable ∧ c.sign ≠ .union ∧ c.origin.isSome = true) ∨
      (c.sign = .union ∧ ∃ x ∈ c.children, x.NamesClass cat subs ctx) := by
  constructor
  · intro names
    cases names with
    | reference found isReference =>
      cases classified.symm.trans found
      exact .inl isReference
    | origin found notIgnorable notUnion hasOrigin =>
      cases classified.symm.trans found
      exact .inr (.inl ⟨notIgnorable, notUnion, hasOrigin⟩)
    | member found isUnion member names =>
      cases classified.symm.trans found
      exact .inr (.inr ⟨isUnion, _, member, names⟩)
  · rintro (isReference | ⟨notIgnorable, notUnion, hasOrigin⟩ | ⟨isUnion, x, member, names⟩)
    · exact .reference classified isReference
    · exact .origin classified notIgnorable notUnion hasOrigin
    · exact .member classified isUnion member names

theorem hasSign_type : Builtin.type.hasSign (fun sign => sign == .type) = true := by
  decide +kernel

theorem classify_type {label : Option Nat}
    (classified : (generic label Builtin.type [h]).classify cat subs ctx.nested = .ok c) :
    c = .container .type (generic label Builtin.type [h]) (some Builtin.type) [h] := by
  have rests (reduce : Hint → Except HintError Reduced) :
      (generic label Builtin.type [h]).step cat ctx.nested reduce = .ok ⟨Option.none, []⟩ := rfl
  have isReduced := canonical_of_rests rfl rfl (rests fun _ => .ok ⟨object, []⟩)
  obtain ⟨sign, spelled, isType⟩ := sign?_generic cat hasSign_type label [h]
  obtain rfl := eq_of_beq isType
  rw [classify, classifyWithin_proper rfl, isReduced] at classified
  obtain ⟨_, same, classified⟩ := ok_of_bind classified
  cases same
  obtain ⟨inner, isInner, same⟩ := ok_of_bind classified
  cases same
  rw [classifyReduced_settled rfl, classifyCanonical, spelled] at isInner
  have byArity : (if [h].any isDots = true then Except.error _ else .ok _) = .ok inner := isInner
  split at byArity
  · cases byArity
  · exact (Except.ok.inj byArity).symm

end Hint

namespace Reading

variable {m : Type → Type} [Monad m] {r : Reading m} {ctx : Context} {names : Naming} {h x : Hint}
  {tests : List (Test m)}

/-! ### What the argument of `type` asks for -/

theorem subclassTestsOf_mono {first second : Hint → Except HintError (List (Test m))}
    {c : Classified} (widens : ∀ x t, first x = .ok t → second x = .ok t)
    (asks : r.subclassTestsOf ctx first c = .ok tests) :
    r.subclassTestsOf ctx second c = .ok tests := by
  unfold subclassTestsOf at asks ⊢
  split at asks
  · exact asks
  · obtain ⟨parts, isParts, isFlat⟩ := ok_of_bind asks
    have wider := mapM_eq_ok_iff.mpr ((mapM_eq_ok_iff.mp isParts).imp widens)
    rw [wider]
    exact isFlat
  · exact asks
  · exact asks

theorem subclassTests_succ {bound : Nat} (asks : r.subclassTests ctx bound h = .ok tests) :
    r.subclassTests ctx (bound + 1) h = .ok tests := by
  induction bound generalizing h tests with
  | zero => cases asks
  | succ bound ih =>
    rw [subclassTests] at asks ⊢
    obtain ⟨c, classified, asks⟩ := ok_of_bind asks
    rw [classified]
    exact subclassTestsOf_mono (fun _ _ => ih) asks

theorem subclassTests_mono {few more : Nat} (notMore : few ≤ more)
    (asks : r.subclassTests ctx few h = .ok tests) : r.subclassTests ctx more h = .ok tests := by
  induction notMore with
  | refl => exact asks
  | step _ ih => exact subclassTests_succ ih

theorem subclassTestsOf_annotate (member : Hint → Except HintError (List (Test m)))
    (reduced : Reduced) (inner : Classified) :
    r.subclassTestsOf ctx member (h.annotate reduced inner) =
      r.subclassTestsOf ctx member (x.annotate reduced inner) := by
  unfold annotate
  split <;> rfl

variable (r ctx) in
/-- The hint asks for the tests of a class, with whatever room for extensions and unions. -/
def Asks (h : Hint) (tests : List (Test m)) : Prop :=
  ∃ reduced few inner bound, h.canonical r.catalog ctx.nested = .ok reduced ∧
    classifyReduced r.catalog r.substitutes few ctx.nested reduced.hint = .ok inner ∧
    r.subclassTestsOf ctx (r.subclassTests ctx bound) (h.annotate reduced inner) = .ok tests

variable (r ctx) in
/-- The hint asks for the test, among others. -/
def AsksFor (h : Hint) (t : Test m) : Prop :=
  ∃ tests, r.Asks ctx h tests ∧ t ∈ tests

theorem asks_of_subclassTests {bound : Nat} (asks : r.subclassTests ctx bound h = .ok tests) :
    r.Asks ctx h tests := by
  cases bound with
  | zero => cases asks
  | succ bound =>
    obtain ⟨c, classified, asks⟩ := ok_of_bind asks
    obtain ⟨reduced, few, inner, isReduced, isInner, rfl⟩ := classify_cases classified
    exact ⟨reduced, few, inner, bound, isReduced, isInner, asks⟩

namespace Asks

theorem ofCanonical (asks : r.Asks ctx h tests)
    (same : x.canonical r.catalog ctx.nested = h.canonical r.catalog ctx.nested) :
    r.Asks ctx x tests := by
  obtain ⟨reduced, few, inner, bound, isReduced, isInner, found⟩ := asks
  exact ⟨reduced, few, inner, bound, same.trans isReduced, isInner,
    (subclassTestsOf_annotate _ reduced inner).trans found⟩

/-- However much room there was, a hint asks for the same. -/
theorem unique {others : List (Test m)} (asks : r.Asks ctx h tests)
    (asksToo : r.Asks ctx h others) : tests = others := by
  obtain ⟨reduced, few, inner, bound, isReduced, isInner, found⟩ := asks
  obtain ⟨_, _, _, boundToo, isOther, isInnerToo, foundToo⟩ := asksToo
  cases isReduced.symm.trans isOther
  cases classifyReduced_unique isInner isInnerToo
  have first := subclassTestsOf_mono
    (fun _ _ => subclassTests_mono (Nat.le_max_left bound boundToo)) found
  have second := subclassTestsOf_mono
    (fun _ _ => subclassTests_mono (Nat.le_max_right bound boundToo)) foundToo
  exact Except.ok.inj (first.symm.trans second)

theorem asksFor_iff (asks : r.Asks ctx h tests) {t : Test m} : r.AsksFor ctx h t ↔ t ∈ tests :=
  ⟨fun ⟨_, asksToo, member⟩ => asks.unique asksToo ▸ member, fun member => ⟨tests, asks, member⟩⟩

/-- A hint that every value satisfies asks for nothing. -/
theorem of_isIgnorable (asks : r.Asks ctx h tests)
    (isReduced : h.canonical r.catalog ctx.nested = .ok ⟨x, []⟩)
    (ignorable : x.isIgnorable r.catalog = true) : tests = [] := by
  obtain ⟨_, few, inner, bound, isOther, isInner, found⟩ := asks
  cases isReduced.symm.trans isOther
  obtain ⟨k, rfl, isRoot⟩ := isIgnorable_cases ignorable
  cases isInner.symm.trans (classifyCanonical_root isRoot)
  exact (Except.ok.inj found).symm

/-- A hint with a union for its canonical form asks for what the members of that union ask for. -/
theorem of_isUnion (asks : r.Asks ctx h tests)
    (isReduced : h.canonical r.catalog ctx.nested = .ok ⟨x, []⟩) (isUnion : x.isUnion = true)
    {t : Test m} : t ∈ tests ↔ ∃ c ∈ x.args, r.AsksFor ctx c t := by
  obtain ⟨_, few, inner, bound, isOther, isInner, found⟩ := asks
  cases isReduced.symm.trans isOther
  cases classifyReduced_of_isUnion isUnion isInner
  obtain ⟨parts, isParts, isFlat⟩ := ok_of_bind found
  cases isFlat
  have each : x.args.Forall₂ (fun c part => r.Asks ctx c part) parts :=
    (mapM_eq_ok_iff.mp isParts).imp fun _ _ => asks_of_subclassTests
  clear isParts found
  generalize x.args = members at each ⊢
  induction each with
  | nil => simp
  | cons asks _ ih => simp [asks.asksFor_iff, ih]

end Asks

/-! ### Unions -/

variable (r ctx) in
/-- What is contributed to a union asks for the tests; what every value satisfies asks for none. -/
def Gathers (found : Option (List Hint)) (tests : List (Test m)) : Prop :=
  match found with
  | Option.none => tests = []
  | some hints => ∀ t, t ∈ tests ↔ ∃ c ∈ hints, r.AsksFor ctx c t

/-- A hint asks for what it contributes to unions. -/
theorem Asks.gathers (asks : r.Asks ctx h tests) {reduced : Reduced}
    (isReduced : h.canonical r.catalog ctx.nested = .ok reduced) :
    r.Gathers ctx (memberForms r.catalog h reduced) tests := by
  unfold memberForms
  split
  · simp [Gathers, asks.asksFor_iff]
  next noValidators =>
  obtain ⟨x, validators⟩ := reduced
  obtain rfl : validators = [] := by simpa using noValidators
  split
  · next ignorable => exact asks.of_isIgnorable isReduced ignorable
  split
  · next isUnion => exact fun t => asks.of_isUnion isReduced isUnion
  · next notUnion =>
    have itself := canonical_canonical isReduced (by simpa using notUnion)
    simp [Gathers, (asks.ofCanonical (itself.trans isReduced.symm)).asksFor_iff]

/-- A hint asks for what the members that it is flattened to contribute to unions. -/
theorem Asks.gathers_flatten (bound : ∀ entry ∈ ctx.bindings, entry.2.WellNamed names)
    (named : h.WellNamed names) (asks : r.Asks ctx h tests) {found : Option (List Hint)}
    (forms : unionForms r.catalog (canonical r.catalog ctx.nested) h.flatten = .ok found) :
    r.Gathers ctx found tests := by
  obtain ⟨reduced, _, _, _, isReduced, _⟩ := id asks
  cases isUnion : h.isUnion with
  | false =>
    have gathers := asks.gathers isReduced
    rw [flatten_other isUnion, unionForms_cons, isReduced] at forms
    dsimp only [bind, Except.bind] at forms
    cases contributed : memberForms r.catalog h reduced with
    | none =>
      rw [contributed] at forms gathers
      cases forms
      exact gathers
    | some mine =>
      rw [contributed] at forms gathers
      cases forms
      simpa [Gathers] using gathers
  | true =>
    obtain ⟨_, _, formsToo, comesTo⟩ := canonical_union bound named isUnion isReduced
    rw [flatten_union isUnion] at forms
    cases forms.symm.trans formsToo
    cases comesTo with
    | every => exact asks.of_isIgnorable isReduced rfl
    | single isOnly =>
      simp [Gathers, (asks.ofCanonical (isOnly.trans isReduced.symm)).asksFor_iff]
    | several isSeveral => exact fun t => asks.of_isUnion isReduced isSeveral

/-- What several hints contribute to a union asks for what one of them asks for. -/
theorem gathers_flattenAll (bound : ∀ entry ∈ ctx.bindings, entry.2.WellNamed names)
    {hints : List Hint} (named : ∀ h ∈ hints, h.WellNamed names)
    (asks : ∀ h ∈ hints, ∃ tests, r.Asks ctx h tests) {members : List Hint}
    (forms : unionForms r.catalog (canonical r.catalog ctx.nested) (flattenAll hints) =
      .ok (some members)) {t : Test m} :
    (∃ c ∈ members, r.AsksFor ctx c t) ↔ ∃ h ∈ hints, r.AsksFor ctx h t := by
  induction hints generalizing members with
  | nil =>
    cases forms
    simp
  | cons h rest ih =>
    obtain ⟨tests, first⟩ := asks h (by simp)
    rw [flattenAll, unionForms_append] at forms
    obtain ⟨_ | mine, isMine, forms⟩ := ok_of_bind forms
    · cases forms
    obtain ⟨_ | more, isMore, forms⟩ := ok_of_bind forms
    · cases forms
    cases forms
    have gathers := first.gathers_flatten bound (named h (by simp)) isMine t
    have others := ih (fun d member => named d (List.mem_cons_of_mem h member))
      (fun d member => asks d (List.mem_cons_of_mem h member)) isMore
    simp [or_and_right, exists_or, ← gathers, others, first.asksFor_iff]

/-- Where the members of a union contribute what every value satisfies, one of them asks for
nothing. -/
theorem exists_asks_nil (bound : ∀ entry ∈ ctx.bindings, entry.2.WellNamed names)
    {hints : List Hint} (named : ∀ h ∈ hints, h.WellNamed names)
    (asks : ∀ h ∈ hints, ∃ tests, r.Asks ctx h tests)
    (forms : unionForms r.catalog (canonical r.catalog ctx.nested) (flattenAll hints) =
      .ok Option.none) : ∃ h ∈ hints, r.Asks ctx h [] := by
  induction hints with
  | nil => cases forms
  | cons h rest ih =>
    obtain ⟨tests, first⟩ := asks h (by simp)
    rw [flattenAll, unionForms_append] at forms
    obtain ⟨_ | mine, isMine, forms⟩ := ok_of_bind forms
    · obtain rfl : tests = [] := first.gathers_flatten bound (named h (by simp)) isMine
      exact ⟨h, by simp, first⟩
    obtain ⟨_ | more, isMore, forms⟩ := ok_of_bind forms
    · obtain ⟨d, member, asksNil⟩ := ih (fun d member => named d (List.mem_cons_of_mem h member))
        (fun d member => asks d (List.mem_cons_of_mem h member)) isMore
      exact ⟨d, List.mem_cons_of_mem h member, asksNil⟩
    · cases forms

/-- A union asks for what its members ask for, unless every value satisfies it. -/
theorem Asks.union (bound : ∀ entry ∈ ctx.bindings, entry.2.WellNamed names)
    (named : h.WellNamed names) (isUnion : h.isUnion = true) (asks : r.Asks ctx h tests)
    (members : ∀ x ∈ h.args, ∃ mine, r.Asks ctx x mine) :
    h.canonical r.catalog ctx.nested = .ok ⟨object, []⟩ ∧ (∃ x ∈ h.args, r.Asks ctx x []) ∨
      h.args ≠ [] ∧ ∀ t, r.AsksFor ctx h t ↔ ∃ x ∈ h.args, r.AsksFor ctx x t := by
  obtain ⟨reduced, _, _, _, isReduced, _⟩ := id asks
  obtain ⟨occupied, found, forms, comesTo⟩ := canonical_union bound named isUnion isReduced
  have namedToo : ∀ x ∈ h.args, x.WellNamed names := by
    rw [← parts_union isUnion]
    exact named.part
  cases found with
  | none =>
    cases comesTo
    exact .inl ⟨isReduced, exists_asks_nil bound namedToo members forms⟩
  | some hints =>
    refine .inr ⟨fun empty => occupied (by rw [empty]; rfl), fun t => ?_⟩
    have gathers := gathers_flattenAll bound namedToo members forms (t := t)
    rw [← flatten_union isUnion] at forms
    rw [asks.asksFor_iff, ← gathers]
    exact asks.gathers_flatten bound named forms t

/-! ### Tests and the classes that are named -/

theorem subclassTestsOf_cases {member : Hint → Except HintError (List (Test m))} {c : Classified}
    (asks : r.subclassTestsOf ctx member c = .ok tests) :
    c.sign = .ignorable ∧ tests = [] ∨
      (c.sign = .union ∧ ∃ parts, c.children.Forall₂ (fun x part => member x = .ok part) parts ∧
        tests = parts.flatten) ∨
      (c.sign = .forwardRef ∧ ∃ t, tests = [t]) ∨
      ((c.sign ≠ .ignorable ∧ c.sign ≠ .union ∧ c.sign ≠ .forwardRef) ∧
        tests = (c.origin.map r.subclassOf).toList) := by
  by_cases ignorable : c.sign = .ignorable
  · rw [subclassTestsOf, ignorable] at asks
    exact .inl ⟨ignorable, (Except.ok.inj asks).symm⟩
  by_cases union : c.sign = .union
  · rw [subclassTestsOf, union] at asks
    obtain ⟨parts, isParts, isFlat⟩ := ok_of_bind asks
    exact .inr (.inl ⟨union, parts, mapM_eq_ok_iff.mp isParts, (Except.ok.inj isFlat).symm⟩)
  by_cases reference : c.sign = .forwardRef
  · rw [subclassTestsOf, reference] at asks
    obtain ⟨ref, _, isTest⟩ := ok_of_bind asks
    exact .inr (.inr (.inl ⟨reference, _, (Except.ok.inj isTest).symm⟩))
  · rw [subclassTestsOf_other r ctx member ignorable union reference] at asks
    refine .inr (.inr (.inr ⟨⟨ignorable, union, reference⟩, ?_⟩))
    cases origin : c.origin <;> rw [origin] at asks <;> exact (Except.ok.inj asks).symm

theorem exists_iff_flatten_ne_nil {α β : Type} {Q : α → Prop} {xs : List α} {parts : List (List β)}
    (each : xs.Forall₂ (fun x part => Q x ↔ part ≠ []) parts) :
    (∃ x ∈ xs, Q x) ↔ parts.flatten ≠ [] := by
  induction each with
  | nil => simp
  | cons first _ ih => simp [first, ih, List.append_eq_nil_iff, imp_iff_not_or]

/-- A hint asks for tests if and only if it names a class. -/
theorem namesClass_iff {bound : Nat} (asks : r.subclassTests ctx bound h = .ok tests) :
    h.NamesClass r.catalog r.substitutes ctx ↔ tests ≠ [] := by
  induction bound generalizing h tests with
  | zero => cases asks
  | succ bound ih =>
    obtain ⟨c, classified, asks⟩ := ok_of_bind asks
    rw [namesClass_of_classified classified]
    rcases subclassTestsOf_cases asks with ⟨sign, rfl⟩ | ⟨sign, parts, each, rfl⟩ |
      ⟨sign, t, rfl⟩ | ⟨⟨notIgnorable, notUnion, notReference⟩, rfl⟩
    · simp [sign]
    · simp only [sign, exists_iff_flatten_ne_nil (each.imp fun _ _ => ih)]
      simp
    · simp [sign]
    · simp [notIgnorable, notUnion, notReference, Option.isSome_iff_ne_none]

/-- A class, and a subclass of what is asked for if anything is. -/
theorem testWithin_type [LawfulMonad m] {room : Nat} {label : Option Nat} {t : Option (Test m)}
    (tested : r.testWithin room ctx.nested (.generic label Builtin.type [h]) = .ok t) :
    ∃ bound tests, r.subclassTests ctx bound h = .ok tests ∧
      ∀ k, t.getD .pass (.type k) =
        if tests = [] then pure true else Test.anyOf tests (.type k) := by
  obtain ⟨c, classified, means⟩ := ok_of_bind tested
  cases classify_type classified
  cases room with
  | zero => cases means
  | succ room =>
    have isClass (k : ClassId) : r.world.isInstanceOfAny (.type k) [Builtin.type] = true := by
      simp [Catalog.isInstanceOfAny, Catalog.isInstance, Catalog.isSubclass, Value.classOf]
    obtain ⟨tests, asks, isTest⟩ := ok_of_bind means
    refine ⟨_, tests, (subclassTests_nested r ctx _ h).trans asks, fun k => ?_⟩
    cases tests with
    | nil =>
      cases isTest
      simp [Reading.instanceOf, isClass]
    | cons first others =>
      cases isTest
      simp [Reading.instanceOf, isClass, Check.both]

end Reading

theorem Test.anyOf_iff {ε : Type} {tests : List (Test (Except ε))} {v : Value} {b : Bool}
    (verdict : Test.anyOf tests v = .ok b) : b = true ↔ ∃ t ∈ tests, t v = .ok true := by
  induction tests with
  | nil =>
    cases verdict
    simp
  | cons t rest ih =>
    obtain ⟨first, passes, others⟩ := ok_of_bind verdict
    cases first with
    | true =>
      cases others
      simp [passes]
    | false => simp [passes, ih others]

/-! ### Checks of classes -/

theorem Frame.exists_verdict {f : Frame} {built : Except HintError (Check × Scope)} {v : Value}
    {b : Bool} (decided : (built.toOption.any fun made =>
      (f.verdict made v).toOption.any (· == b)) = true) :
    ∃ made, built = .ok made ∧ f.verdict made v = .ok b := by
  obtain ⟨made, built, verdict⟩ := ok_of_any decided
  obtain ⟨c, verdict, same⟩ := ok_of_any verdict
  exact ⟨made, built, eq_of_beq same ▸ verdict⟩

namespace Session

variable {s : Session} {ctx : Context} {scope : Scope} {names : Naming} {h u : Hint}

/-- The check was generated for `type` with the hint as its argument. -/
def ChecksType (s : Session) (ctx : Context) (scope : Scope) (names : Naming) (h : Hint)
    (made : Check × Scope) : Prop :=
  ∃ label pith, (Hint.generic label Builtin.type [h]).WellNamed names ∧
    ((buildCheck ctx pith (.generic label Builtin.type [h]) scope).run.run s).1 = .ok made

section Verdicts
variable (grown : s.cache.Grown names s.catalog s.substitutes) (wellKept : scope.WellKept)
  (notParam : ∀ kind, ctx.position ≠ .param kind)
include grown wellKept notParam

/-- A class passes if the hint names none, or if it passes a test that the hint asks for. -/
theorem ChecksType.passes_iff {made : Check × Scope} (checks : s.ChecksType ctx scope names h made)
    {f : Frame} {k : ClassId} (ends : ∃ b, f.verdict made (.type k) = .ok b) :
    (∃ tests, (s.reading ctx.conf scope f).Asks ctx h tests) ∧
      (h.NamesClass s.catalog s.substitutes ctx ↔
        ∃ t, (s.reading ctx.conf scope f).AsksFor ctx h t) ∧
      (f.verdict made (.type k) = .ok true ↔ (h.NamesClass s.catalog s.substitutes ctx →
        ∃ t, (s.reading ctx.conf scope f).AsksFor ctx h t ∧ t (.type k) = .ok true)) := by
  obtain ⟨label, pith, named, built⟩ := checks
  have alike := buildCheck_verdict wellKept named grown ctx pith f
  rw [built] at alike
  obtain ⟨t, tested, decides⟩ := alike.ok_left
  rw [Reading.testWithin_nested _ notParam] at tested
  obtain ⟨bound, tests, asked, means⟩ := Reading.testWithin_type tested
  have asks := Reading.asks_of_subclassTests asked
  have naming : h.NamesClass s.catalog s.substitutes ctx ↔ tests ≠ [] :=
    Reading.namesClass_iff asked
  refine ⟨⟨tests, asks⟩, ?_, ?_⟩ <;> simp only [naming, asks.asksFor_iff]
  · exact ⟨List.exists_mem_of_ne_nil tests, fun ⟨_, member⟩ => List.ne_nil_of_mem member⟩
  obtain ⟨b, verdict⟩ := ends
  rw [decides, means] at verdict ⊢
  split at verdict
  · next empty => simp [empty, pure, Except.pure]
  · next occupied => simp [occupied, verdict, Test.anyOf_iff verdict]

section Union
variable (bindings : ∀ entry ∈ ctx.bindings, entry.2.WellNamed names) (isUnion : u.isUnion = true)
  {made : Check × Scope} (checks : s.ChecksType ctx scope names u made)
  {part : Hint → Check × Scope} (parts : ∀ h ∈ u.args, s.ChecksType ctx scope names h (part h))
  {f : Frame} {k : ClassId} (ends : ∃ b, f.verdict made (.type k) = .ok b)
  (endToo : ∀ h ∈ u.args, ∃ b, f.verdict (part h) (.type k) = .ok b)

include parts endToo in
/-- Where it stands alone, a hint that names no class lets every class pass. -/
theorem passes_of_nameless (member : h ∈ u.args)
    (nameless : ¬ h.NamesClass s.catalog s.substitutes ctx) :
    f.verdict (part h) (.type k) = .ok true :=
  ((parts h member).passes_iff grown wellKept notParam (endToo h member)).2.2.mpr
    fun names => (nameless names).elim

include checks ends in
theorem passes_of_object (isObject : u.canonical s.catalog ctx.nested = .ok ⟨Hint.object, []⟩) :
    f.verdict made (.type k) = .ok true := by
  obtain ⟨⟨tests, asks⟩, naming, decides⟩ := checks.passes_iff grown wellKept notParam ends
  refine decides.mpr fun names => ?_
  obtain ⟨t, asked⟩ := naming.mp names
  rw [asks.asksFor_iff, asks.of_isIgnorable isObject rfl] at asked
  cases asked

include bindings isUnion checks parts ends endToo in
/-- Either every value satisfies the union, and then a member names no class; or the members that
name a class decide. -/
theorem passes_union :
    (u.canonical s.catalog ctx.nested = .ok ⟨Hint.object, []⟩ ∧
      ∃ h ∈ u.args, ¬ h.NamesClass s.catalog s.substitutes ctx) ∨
    u.args ≠ [] ∧ (f.verdict made (.type k) = .ok true ↔
      ((∃ h ∈ u.args, h.NamesClass s.catalog s.substitutes ctx) →
        ∃ h ∈ u.args, h.NamesClass s.catalog s.substitutes ctx ∧
          f.verdict (part h) (.type k) = .ok true)) := by
  have members (h : Hint) (member : h ∈ u.args) :=
    (parts h member).passes_iff grown wellKept notParam (endToo h member)
  obtain ⟨⟨tests, asks⟩, naming, decides⟩ := checks.passes_iff grown wellKept notParam ends
  obtain ⟨_, _, namedType, _⟩ := checks
  have named : u.WellNamed names := namedType.part u (List.mem_singleton_self u)
  rcases asks.union bindings named isUnion fun h member => (members h member).1 with
    ⟨isObject, x, member, asksNothing⟩ | ⟨occupied, gathers⟩
  · refine .inl ⟨isObject, x, member, fun names => ?_⟩
    obtain ⟨t, asked⟩ := (members x member).2.1.mp names
    rw [asksNothing.asksFor_iff] at asked
    cases asked
  refine .inr ⟨occupied, ?_⟩
  simp only [naming, gathers] at decides
  rw [decides]
  refine imp_congr ⟨?_, ?_⟩ ⟨?_, ?_⟩
  · rintro ⟨t, h, member, asked⟩
    exact ⟨h, member, (members h member).2.1.mpr ⟨t, asked⟩⟩
  · rintro ⟨h, member, names⟩
    obtain ⟨t, asked⟩ := (members h member).2.1.mp names
    exact ⟨t, h, member, asked⟩
  · rintro ⟨t, ⟨h, member, asked⟩, passes⟩
    have names := (members h member).2.1.mpr ⟨t, asked⟩
    exact ⟨h, member, names, (members h member).2.2.mpr fun _ => ⟨t, asked, passes⟩⟩
  · rintro ⟨h, member, names, passes⟩
    obtain ⟨t, asked, passes⟩ := (members h member).2.2.mp passes names
    exact ⟨t, ⟨h, member, asked⟩, passes⟩

end Union
end Verdicts

/-- A union as the argument of `type` lets a class pass only if a member lets it pass. It looks at
the members that name a class and at no others, unless there are none or every value satisfies the
union. A member that names no class lets every class pass where it stands alone; so what passes for
a member passes for the union if and only if it passes anyway or every member names a class. -/
theorem buildCheck_subclasses (grown : s.cache.Grown names s.catalog s.substitutes)
    (wellKept : scope.WellKept) (notParam : ∀ kind, ctx.position ≠ .param kind)
    (bindings : ∀ entry ∈ ctx.bindings, entry.2.WellNamed names) (isUnion : u.isUnion = true)
    {made : Check × Scope} (checks : s.ChecksType ctx scope names u made)
    {part : Hint → Check × Scope} (parts : ∀ h ∈ u.args, s.ChecksType ctx scope names h (part h))
    {f : Frame} {k : ClassId} (ends : ∃ b, f.verdict made (.type k) = .ok b)
    (endToo : ∀ h ∈ u.args, ∃ b, f.verdict (part h) (.type k) = .ok b) :
    (f.verdict made (.type k) = .ok true →
      ∃ h ∈ u.args, f.verdict (part h) (.type k) = .ok true) ∧
    (f.verdict made (.type k) = .ok true ↔
      u.canonical s.catalog ctx.nested = .ok ⟨Hint.object, []⟩ ∨
      (∀ h ∈ u.args, ¬ h.NamesClass s.catalog s.substitutes ctx) ∨
      ∃ h ∈ u.args, h.NamesClass s.catalog s.substitutes ctx ∧
        f.verdict (part h) (.type k) = .ok true) ∧
    (((∃ h ∈ u.args, f.verdict (part h) (.type k) = .ok true) →
        f.verdict made (.type k) = .ok true) ↔
      f.verdict made (.type k) = .ok true ∨
        ∀ h ∈ u.args, h.NamesClass s.catalog s.substitutes ctx) := by
  have alone {h : Hint} := passes_of_nameless grown wellKept notParam parts endToo (h := h)
  have ofObject := passes_of_object grown wellKept notParam checks ends
  rcases passes_union grown wellKept notParam bindings isUnion checks parts ends endToo with
    ⟨isObject, h, member, nameless⟩ | ⟨occupied, decides⟩
  · exact ⟨fun _ => ⟨h, member, alone member nameless⟩,
      ⟨fun _ => .inl isObject, fun _ => ofObject isObject⟩,
      ⟨fun _ => .inl (ofObject isObject), fun _ _ => ofObject isObject⟩⟩
  refine ⟨fun passes => ?_, ⟨fun passes => .inr ?_, ?_⟩, ⟨fun implies => ?_, ?_⟩⟩
  · by_cases named : ∃ h ∈ u.args, h.NamesClass s.catalog s.substitutes ctx
    · obtain ⟨h, member, _, passes⟩ := decides.mp passes named
      exact ⟨h, member, passes⟩
    · obtain ⟨h, member⟩ := List.exists_mem_of_ne_nil _ occupied
      exact ⟨h, member, alone member fun names => named ⟨h, member, names⟩⟩
  · by_cases named : ∃ h ∈ u.args, h.NamesClass s.catalog s.substitutes ctx
    · exact .inr (decides.mp passes named)
    · exact .inl fun h member names => named ⟨h, member, names⟩
  · rintro (isObject | nameless | passes)
    · exact ofObject isObject
    · exact decides.mpr fun ⟨h, member, names⟩ => (nameless h member names).elim
    · exact decides.mpr fun _ => passes
  · by_cases every : ∀ h ∈ u.args, h.NamesClass s.catalog s.substitutes ctx
    · exact .inr every
    · push Not at every
      obtain ⟨h, member, nameless⟩ := every
      exact .inl (implies ⟨h, member, alone member nameless⟩)
  · rintro (passes | every) ⟨h, member, passesToo⟩
    · exact passes
    · exact decides.mpr fun _ => ⟨h, member, every h member, passesToo⟩

/-- A class below one of the members of a union inside passes for the union, because it passes for
a member. -/
theorem buildCheck_subclasses_nested :
    let literal := Hint.typing none .literal [.value none (.int 1)]
    let inner := Hint.union none [Builtin.int, Builtin.str]
    let u := Hint.typing none .union [literal, inner]
    let build (h : Hint) := ((buildCheck (.bare .standard) "obj"
      (.generic none Builtin.type [h]) .empty).run.run start).1
    let f := Frame.new start.around 0 start.calls rfl
    ∃ made first second, build u = .ok made ∧ build literal = .ok first ∧
      build inner = .ok second ∧ f.verdict made (.type Builtin.bool) = .ok true ∧
      (f.verdict first (.type Builtin.bool) = .ok true ∨
        f.verdict second (.type Builtin.bool) = .ok true) := by
  intro literal inner u build f
  let names : Naming := ⟨fun _ => Builtin.object, fun _ => .instanceOf []⟩
  have namedLiteral : literal.WellNamed names := .ofArgs (by simpa using .ofValue _)
  have namedInner : inner.WellNamed names := by
    have each : ∀ m ∈ [Hint.cls Builtin.int, Hint.cls Builtin.str], m.WellNamed names := by
      simpa using ⟨.ofClass _, .ofClass _⟩
    exact .ofParts rfl nofun each
  have named : u.WellNamed names := .ofArgs (by simpa using ⟨namedLiteral, namedInner⟩)
  have checks {h : Hint} (named : h.WellNamed names) {made : Check × Scope}
      (built : build h = .ok made) : start.ChecksType (.bare .standard) .empty names h made :=
    ⟨none, "obj", .ofArgs (by simpa using named), built⟩
  obtain ⟨made, built, passes⟩ : ∃ made, build u = .ok made ∧
      f.verdict made (.type Builtin.bool) = .ok true := Frame.exists_verdict (by decide +kernel)
  obtain ⟨first, builtFirst, passesFirst⟩ : ∃ made, build literal = .ok made ∧
      f.verdict made (.type Builtin.bool) = .ok true := Frame.exists_verdict (by decide +kernel)
  obtain ⟨second, builtSecond, passesSecond⟩ : ∃ made, build inner = .ok made ∧
      f.verdict made (.type Builtin.bool) = .ok true := Frame.exists_verdict (by decide +kernel)
  let part (h : Hint) : Check × Scope := if h.isSubscripted then first else second
  have parts : ∀ h ∈ [literal, inner],
      start.ChecksType (.bare .standard) .empty names h (part h) :=
    List.forall_mem_cons.mpr ⟨checks namedLiteral builtFirst,
      List.forall_mem_singleton.mpr (checks namedInner builtSecond)⟩
  have ends : ∀ h ∈ [literal, inner], ∃ b, f.verdict (part h) (.type Builtin.bool) = .ok b :=
    List.forall_mem_cons.mpr ⟨⟨_, passesFirst⟩, List.forall_mem_singleton.mpr ⟨_, passesSecond⟩⟩
  obtain ⟨h, member, passesToo⟩ := (buildCheck_subclasses .empty Scope.wellKept_empty
    (fun _ same => by cases same) (List.forall_mem_nil _) rfl (checks named built) parts
    ⟨_, passes⟩ ends).1 passes
  refine ⟨made, first, second, built, builtFirst, builtSecond, passes, ?_⟩
  rcases List.mem_pair.mp member with rfl | rfl
  · exact .inl passesToo
  · exact .inr passesToo

/-- A literal names no class, so every class passes for it; in a union with a class it counts for
nothing, and what passed for the literal does not pass for the union. -/
theorem buildCheck_subclasses_literal :
    let literal := Hint.typing none .literal [.value none (.int 1)]
    let build (h : Hint) := ((buildCheck (.bare .standard) "obj"
      (.generic none Builtin.type [h]) .empty).run.run start).1
    let f := Frame.new start.around 0 start.calls rfl
    ∃ made first second,
      build (.typing none .union [literal, Builtin.int]) = .ok made ∧
      build literal = .ok first ∧ build Builtin.int = .ok second ∧
      f.verdict made (.type Builtin.str) = .ok false ∧
      f.verdict first (.type Builtin.str) = .ok true ∧
      f.verdict second (.type Builtin.str) = .ok false := by
  intro literal build f
  obtain ⟨made, built, rejects⟩ : ∃ made, build (.typing none .union [literal, Builtin.int]) =
      .ok made ∧ f.verdict made (.type Builtin.str) = .ok false :=
    Frame.exists_verdict (by decide +kernel)
  obtain ⟨first, builtFirst, accepts⟩ : ∃ made, build literal = .ok made ∧
      f.verdict made (.type Builtin.str) = .ok true := Frame.exists_verdict (by decide +kernel)
  obtain ⟨second, builtSecond, rejectsToo⟩ : ∃ made, build Builtin.int = .ok made ∧
      f.verdict made (.type Builtin.str) = .ok false := Frame.exists_verdict (by decide +kernel)
  exact ⟨made, first, second, built, builtFirst, builtSecond, rejects, accepts, rejectsToo⟩

end Session
end HintCheck
