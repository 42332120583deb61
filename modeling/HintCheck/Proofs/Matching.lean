import HintCheck.Proofs.Entering
import HintCheck.Proofs.Replacement
import HintCheck.Proofs.Verdicts

/-!
Hints that are spelled alike mean the same. No variable is replaced here: one hint is read twice, or
two hints of which the one is spelled like the other, and what both readings find is one test. So
the room that was left for a hint makes no difference to the test that it means, and a member of a
union that is left out because it equals the one before would not have decided anything.
-/
namespace HintCheck

open Hint

/-- Hints whose labels and values tell them apart, with all that they lead to. -/
structure Legible (cat : Catalog) (subs : Substitutes) (names : Naming) (values : Value → Prop)
    (P : Hint → Prop) : Prop where
  hereditary : Hereditary cat subs P
  named : ∀ {h : Hint}, P h → h.WellNamed names
  holds : ∀ {h : Hint}, P h → h.WithValues values
  distinct : ∀ v w, values v → values w → v.structEq w = true → v = w

/-- Contexts for the same place, in which variables are bound to hints that are spelled alike. -/
structure Context.Matching (names : Naming) (P : Hint → Prop) (bound plain : Context) : Prop
    extends bound.Counterparts names plain where
  keeps : bound.Keeps P
  same : ∀ v, Option.Rel Matches (bound.binding? v) (plain.binding? v)

theorem matches_refl (h : Hint) : Matches h h :=
  renders_self fun _ _ => rfl

namespace Context.Matching

variable {names : Naming} {P : Hint → Prop} {ctx bound plain : Context}

theorem refl (named : ∀ entry ∈ ctx.bindings, entry.2.WellNamed names) (keeps : ctx.Keeps P) :
    ctx.Matching names P ctx where
  module := rfl
  classes := rfl
  locals := rfl
  named := named
  namedToo := named
  keeps := keeps
  same v := by
    cases ctx.binding? v with
    | none => exact .none
    | some h => exact .some (matches_refl h)

theorem bindAll (matching : bound.Matching names P plain) (params : List Hint) {xs ys : List Hint}
    (named : ∀ x ∈ xs, x.WellNamed names) (namedToo : ∀ y ∈ ys, y.WellNamed names)
    (holds : ∀ x ∈ xs, P x) (each : xs.Forall₂ Matches ys) :
    (bound.bindAll (params.zip xs)).Matching names P (plain.bindAll (params.zip ys)) where
  toCounterparts := matching.toCounterparts.bindAll
    (fun _ member => named _ (List.of_mem_zip member).2)
    fun _ member => namedToo _ (List.of_mem_zip member).2
  keeps := matching.keeps.bindAll fun _ member => holds _ (List.of_mem_zip member).2
  same v := by
    rw [binding?_bindAll_eq, binding?_bindAll_eq]
    have given := rel_givenBy params each v
    revert given
    generalize givenBy (params.zip xs) v = first
    generalize givenBy (params.zip ys) v = second
    intro given
    cases given with
    | some same => exact .some same
    | none => exact matching.same v

end Context.Matching

namespace Legible

variable {cat : Catalog} {subs : Substitutes} {names : Naming} {values : Value → Prop}
  {P : Hint → Prop}

/-- Hints can be read beside hints that are spelled alike. -/
def mirror (legible : Legible cat subs names values P) : Mirror where
  catalog := cat
  substitutes := subs
  names := names
  values := values
  Paired given bound plain := given = (fun _ => Option.none) ∧ bound.Matching names P plain
  Ready given bound plain h := given = (fun _ => Option.none) ∧
    (∀ v, Option.Rel Matches (bound.binding? v) (plain.binding? v)) ∧ P h
  distinct := legible.distinct
  counterparts paired := paired.2.toCounterparts
  named ready := legible.named ready.2.2
  holds ready := legible.holds ready.2.2
  arg ready member := ⟨ready.1, ready.2.1, legible.hereditary.ofArgs ready.2.2 _ member⟩
  passes paired := by
    have passes := legible.hereditary.passes paired.2.keeps
    have ofHolds {h : Hint} (holds : P h) : _ ∧ _ ∧ P h := ⟨paired.1, paired.2.same, holds⟩
    exact ⟨fun ready opens => ofHolds (passes.opens ready.2.2 opens),
      fun ready isUnion member => ofHolds (passes.member ready.2.2 isUnion member), id,
      fun each => ofHolds (passes.respelled fun m member => (each m member).2.2),
      ofHolds passes.object⟩
  replaced ready _ isGiven := by
    rw [ready.1] at isGiven
    cases isGiven
  kept ready _ _ := by
    rw [ready.1]
    exact ready.2.1 _
  declared paired _ _ _ := paired.1 ▸ matches_refl _
  literal ready _ _ _ := by rw [ready.1]
  substitute paired ready found :=
    ⟨⟨ready.1, ready.2.1, legible.hereditary.substitute ready.2.2 found⟩,
      paired.1 ▸ matches_refl _⟩
  supplied := by
    rintro _ bound plain h k args ⟨rfl, matching⟩ ready origin _ each named
    have holds := legible.hereditary.ofArgs ready.2.2
    have inner := matching.bindAll (cat.get k).typeParams
      (fun a member => legible.named (holds a member)) named holds each
    refine ⟨_, ⟨rfl, inner⟩, fun d member => ⟨⟨rfl, inner.same, ?_⟩, matches_refl d⟩⟩
    exact legible.hereditary.declaration ready.2.2 (.inr origin)
      (Catalog.mem_declarations_of_mem_body member)
  bare := by
    rintro _ bound plain h k ⟨rfl, matching⟩ ready isClass
    have inner : (bound.bindAll []).Matching names P (plain.bindAll []) :=
      matching.bindAll [] (fun _ member => by cases member) (fun _ member => by cases member)
        (fun _ member => by cases member) .nil
    refine ⟨_, ⟨rfl, inner⟩, fun d member => ⟨⟨rfl, inner.same, ?_⟩, matches_refl d⟩⟩
    exact legible.hereditary.declaration ready.2.2 (.inl isClass)
      (List.mem_append_right _ member)

end Legible

/-! ### Readings -/

/-- A hint is classified by way of its canonical form. -/
theorem Hint.classify_cases {cat : Catalog} {subs : Substitutes} {ctx : Context} {h : Hint}
    {c : Classified} (classified : h.classify cat subs ctx.nested = .ok c) :
    ∃ reduced few inner, h.canonical cat ctx.nested = .ok reduced ∧
      classifyReduced cat subs few ctx.nested reduced.hint = .ok inner ∧
      c = h.annotate reduced inner := by
  unfold classify at classified
  cases proper : h.isProper with
  | true =>
    rw [classifyWithin_proper proper] at classified
    obtain ⟨reduced, isReduced, annotated⟩ := ok_of_bind classified
    obtain ⟨inner, isInner, isAnnotated⟩ := ok_of_bind annotated
    exact ⟨reduced, _, inner, isReduced, isInner, (Except.ok.inj isAnnotated).symm⟩
  | false =>
    cases h with
    | extension label shown =>
      exact ⟨_, maxSubstitutions + 1, c, canonical_extension _ _ label shown, classified, rfl⟩
    | value | validator | params => cases classified
    | _ => cases proper

namespace Reading

section Any
variable {m : Type → Type} [Monad m] (r : Reading m) (ctx : Context) {h x : Hint}

/-- The canonical form of the hint is classified with some room for extensions, and means the test
with some room for hints inside. -/
def ReadsAs (h : Hint) (t : Option (Test m)) : Prop :=
  ∃ reduced few room c, h.canonical r.catalog ctx.nested = .ok reduced ∧
    classifyReduced r.catalog r.substitutes few ctx.nested reduced.hint = .ok c ∧
    r.meaningWithin room ctx.nested (h.annotate reduced c) = .ok t

variable {r ctx}

theorem readsAs_of_testWithin {room : Nat} {t : Option (Test m)}
    (tested : r.testWithin room ctx.nested h = .ok t) : r.ReadsAs ctx h t := by
  obtain ⟨c, classified, means⟩ := ok_of_bind tested
  obtain ⟨reduced, few, inner, isReduced, isInner, rfl⟩ := classify_cases classified
  exact ⟨reduced, few, room, inner, isReduced, isInner, means⟩

/-- What is put on a hint are its validators, however it is spelled. -/
theorem meaningWithin_annotate (room : Nat) (reduced : Reduced) (c : Classified)
    {t : Option (Test m)} (means : r.meaningWithin room ctx (h.annotate reduced c) = .ok t) :
    r.meaningWithin room ctx (x.annotate reduced c) = .ok t := by
  unfold annotate at means ⊢
  split
  · next none => rwa [if_pos none] at means
  · next some =>
    rw [if_neg some] at means
    cases room with
    | zero => cases means
    | succ room => exact means

/-- Hints with one canonical form are read alike. -/
theorem ReadsAs.ofCanonical {t : Option (Test m)} (reads : r.ReadsAs ctx h t)
    (same : x.canonical r.catalog ctx.nested = h.canonical r.catalog ctx.nested) :
    r.ReadsAs ctx x t := by
  obtain ⟨reduced, few, room, c, isReduced, classified, means⟩ := reads
  exact ⟨reduced, few, room, c, same.trans isReduced, classified,
    meaningWithin_annotate _ _ _ means⟩

end Any

/-- Hints that are spelled alike are read as one test. -/
theorem ReadsAs.unique {ε : Type} {r : Reading (Except ε)} {names : Naming} {values : Value → Prop}
    {P : Hint → Prop} {ctx : Context} {h x : Hint} {t u : Option (Test (Except ε))}
    (legible : Legible r.catalog r.substitutes names values P)
    (matching : ctx.Matching names P ctx) (holds : P h) (named : x.WellNamed names)
    (same : Matches h x) (first : r.ReadsAs ctx h t) (second : r.ReadsAs ctx x u) : t = u := by
  have fits : r.Fits legible.mirror := ⟨rfl, rfl⟩
  have excuses : Mirror.Excuses fun _ => True :=
    ⟨fun _ _ => trivial, fun _ => trivial, fun _ _ => trivial⟩
  have paired : legible.mirror.Paired (fun _ => Option.none) ctx ctx := ⟨rfl, matching⟩
  have twins : legible.mirror.Twins (fun _ => Option.none) ctx ctx h x :=
    ⟨⟨rfl, matching.same, holds⟩, same, named⟩
  obtain ⟨reduced, few, room, c, isReduced, classified, means⟩ := first
  obtain ⟨other, more, space, d, isOther, classifiedToo, meansToo⟩ := second
  have canonical : Ends _ _ (h.canonical r.catalog ctx.nested) :=
    twins.canonical paired excuses other isOther
  rw [isReduced] at canonical
  have forms : legible.mirror.FormsAlike (fun _ => Option.none) ctx ctx reduced other := canonical
  have classifies :
      Ends _ _ (classifyReduced r.catalog r.substitutes few ctx.nested reduced.hint) :=
    Mirror.alike_classifyReduced paired excuses forms.twins forms.notVariable
      (fun _ => Mirror.alike_classifyWithin paired excuses _ _) d classifiedToo
  rw [classified] at classifies
  have alike : legible.mirror.ClassifiedAlike (fun _ => Option.none) ctx ctx c d := classifies
  have senses := Mirror.same_meaningWithin fits excuses room space paired
    (alike.annotate (h := h) (x := x) forms.validators) u meansToo
  rw [means] at senses
  exact senses

end Reading
end HintCheck
