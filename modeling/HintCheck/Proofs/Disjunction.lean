import HintCheck.Proofs.Matching

/-!
A union accepts what its members accept. On the way to its check the members of a union are
flattened, brought to canonical form, spelled anew and put in the place of members that turn out to
be unions; a union that every value satisfies is not tested at all, and a member that equals the one
before is left out. None of this changes what is accepted: a value passes the check of the union if
and only if it passes the check of a member. So the order, the grouping and the repetition of the
members play no part.
-/
namespace HintCheck

open Hint

/-- A union in canonical form is classified as a union of its members. -/
theorem Hint.classifyCanonical_of_isUnion {cat : Catalog} {y : Hint} (isUnion : y.isUnion = true)
    {c : Classified} (classified : y.classifyCanonical cat = .ok c) :
    c = .container .union y Option.none y.args := by
  have spelled : y.sign? cat = some .union ∨
      y.sign? cat = Option.none ∧ y.origin? = Option.none := by
    rcases isUnion_cases isUnion with ⟨label, members, rfl⟩ | ⟨label, f, members, isForm, rfl⟩
    · exact .inl rfl
    · by_cases home : f.module = .dataclasses
      · right
        obtain ⟨module, form⟩ := f
        subst isForm home
        have unknown : Spelling.subscribedSign? (SpecialForm.text ⟨.dataclasses, .union⟩) =
          Option.none := by decide +kernel
        have noBracket : '[' ∉ (Subscriptable.text cat (.form ⟨.dataclasses, .union⟩)).toList :=
          SpecialForm.noBracket _
        refine ⟨?_, rfl⟩
        rw [sign?, Spelling.sign?_subscription, Spelling.stem_eq_self noBracket]
        simp [kindSign?, origin?, Form.origin?, Subscriptable.text, unknown]
      · exact .inl (sign?_subscription label (.form f) members f.noBracket
          (sign_of_union isForm home))
  rw [classifyCanonical] at classified
  rcases spelled with spelled | ⟨spelled, noOrigin⟩
  · rw [spelled] at classified
    dsimp only at classified
    split at classified
    · cases classified
    · exact (Except.ok.inj classified).symm
  · rw [spelled] at classified
    dsimp only at classified
    rw [classifyUserGeneric, noOrigin] at classified
    cases classified

theorem Hint.classifyReduced_of_isUnion {cat : Catalog} {subs : Substitutes} {few : Nat}
    {ctx : Context} {y : Hint} (isUnion : y.isUnion = true) {c : Classified}
    (classified : classifyReduced cat subs few ctx y = .ok c) :
    c = .container .union y Option.none y.args := by
  have direct : classifyReduced cat subs few ctx y = y.classifyCanonical cat := by
    cases y <;> first | rfl | cases isUnion
  rw [direct] at classified
  exact classifyCanonical_of_isUnion isUnion classified

/-- A canonical form that is no union is its own canonical form. -/
theorem Hint.canonical_canonical {cat : Catalog} {ctx : Context} {h : Hint} {r : Reduced}
    (isReduced : h.canonical cat ctx.nested = .ok r) (notUnion : r.hint.isUnion = false) :
    r.hint.canonical cat ctx.nested = .ok ⟨r.hint, []⟩ := by
  rw [canonical, nestingBound_eq, Nat.add_right_comm] at isReduced
  obtain ⟨found, rests⟩ := rests_iterate (canonicalWithin_nested.mp isReduced)
  exact canonical_of_rests rfl notUnion rests

theorem Hint.iterate_more {cat : Catalog} {ctx : Context}
    {reduce : Hint → Except HintError Reduced} {steps : Nat} {h : Hint}
    {validators : List Validator} {r : Reduced}
    (done : iterate cat ctx reduce steps h validators = .ok (some r)) :
    iterate cat ctx reduce (steps + 1) h validators = .ok (some r) := by
  induction steps generalizing h validators with
  | zero => cases done
  | succ steps ih =>
    rw [iterate_succ] at done ⊢
    rcases stepped : h.step cat ctx reduce with e | ⟨_ | next, found⟩ <;> rw [stepped] at done
    · cases done
    · exact done
    · exact ih done

namespace Hint

variable {cat : Catalog} {ctx : Context} {names : Naming} {h : Hint}

/-! ### What a union comes to -/

theorem unionForms_canonical (bound : ∀ entry ∈ ctx.bindings, entry.2.WellNamed names)
    {flat : List Hint} (named : ∀ m ∈ flat, m.WellNamed names) {room : Nat}
    {found : Option (List Hint)}
    (forms : unionForms cat (canonicalWithin cat room ctx.nested) flat = .ok found) :
    unionForms cat (canonical cat ctx.nested) flat = .ok found :=
  unionForms_wider (fun m member _ => canonical_of_canonicalWithin bound (named m member)) forms

/-- Members that stay as they are contribute themselves. -/
theorem unionForms_stable (bound : ∀ entry ∈ ctx.bindings, entry.2.WellNamed names) {room : Nat}
    {members : List Hint} (named : ∀ m ∈ members, m.WellNamed names)
    (stable : ∀ m ∈ members, Stable cat (canonicalWithin cat room ctx.nested) m) :
    unionForms cat (canonical cat ctx.nested) members = .ok (some members) := by
  induction members with
  | nil => rfl
  | cons m rest ih =>
    have contributes :
        ∃ r, m.canonical cat ctx.nested = .ok r ∧ memberForms cat m r = some [m] := by
      have first := stable m (by simp)
      obtain ⟨notIgnorable, itself | ⟨r, isReduced, hasValidators⟩⟩ :=
        first.canonical bound (named m (by simp))
      · exact ⟨_, itself, by simp [memberForms, notIgnorable, first.notUnion]⟩
      · exact ⟨r, isReduced, by simp [memberForms, hasValidators]⟩
    obtain ⟨r, isReduced, itself⟩ := contributes
    have others := ih (fun m member => named m (List.mem_cons_of_mem _ member))
      fun m member => stable m (List.mem_cons_of_mem _ member)
    rw [unionForms_cons, isReduced]
    dsimp only [bind, Except.bind]
    rw [itself, others]
    rfl

variable (cat ctx) in
/-- What a union comes to, by what its members contribute. -/
inductive ComesTo : Option (List Hint) → Reduced → Prop
  /-- Every value satisfies some member. -/
  | every : ComesTo Option.none ⟨object, []⟩
  | single {only : Hint} {reduced : Reduced}
    (isReduced : only.canonical cat ctx.nested = .ok reduced) : ComesTo (some [only]) reduced
  | several {y : Hint} (isUnion : y.isUnion = true) : ComesTo (some y.args) ⟨y, []⟩

/-- The canonical form of a union is what its members contribute. -/
theorem canonical_union (bound : ∀ entry ∈ ctx.bindings, entry.2.WellNamed names)
    (named : h.WellNamed names) (isUnion : h.isUnion = true) {reduced : Reduced}
    (isReduced : h.canonical cat ctx.nested = .ok reduced) :
    flattenAll h.args ≠ [] ∧
      ∃ found, unionForms cat (canonical cat ctx.nested) (flattenAll h.args) = .ok found ∧
        ComesTo cat ctx found reduced := by
  obtain ⟨room, isBound⟩ : ∃ room, h.nestingBound ctx.nested = room + 1 :=
    ⟨_, by rw [nestingBound_eq, Nat.add_right_comm]⟩
  rw [canonical, isBound, canonicalWithin_nested] at isReduced
  have canonizes := canonizes_canonicalWithin cat bound room
  have each := wellNamed_flattenAll named isUnion
  obtain ⟨steps, limit⟩ := exists_maxSteps
  have occupied : flattenAll h.args ≠ [] := fun empty => by
    rw [limit, iterate_succ, step_union _ isUnion, stepUnion, empty] at isReduced
    cases isReduced
  refine ⟨occupied, ?_⟩
  rcases forms : unionForms cat (canonicalWithin cat room ctx.nested) (flattenAll h.args) with
    e | _ | members
  · rw [limit, iterate_error isUnion occupied forms] at isReduced
    cases isReduced
  · rw [limit, iterate_every isUnion occupied forms] at isReduced
    cases isReduced
    exact ⟨_, unionForms_canonical bound each forms, .every⟩
  by_cases single : members.length = 1
  · obtain ⟨only, rfl⟩ := List.length_eq_one_iff.mp single
    have stepped := step_single canonizes named isUnion forms rfl ctx.nested occupied
    rw [limit, iterate_succ, stepped] at isReduced
    have namedOnly := (wellNamed_forms canonizes named isUnion forms only (by simp)).1
    have alone : canonicalWithin cat (room + 1) ctx.nested only = .ok reduced := by
      rw [canonicalWithin_nested, limit]
      exact iterate_more isReduced
    exact ⟨_, unionForms_canonical bound each forms,
      .single (canonical_of_canonicalWithin bound namedOnly alone)⟩
  rcases iterate_several canonizes named isUnion forms single ctx.nested occupied maxSteps [] with
    tooMany | ⟨y, isLast, settled⟩
  · rw [tooMany] at isReduced
    cases isReduced
  rw [isLast] at isReduced
  cases isReduced
  rcases settled with rfl | ⟨rfl, _⟩
  · obtain ⟨respelled, args⟩ := isUnion_respelled h members
    have comesTo := @ComesTo.several cat ctx _ respelled
    rw [args] at comesTo
    exact ⟨_, unionForms_canonical bound each forms, comesTo⟩
  · -- The union has taken no step, so its members are those that it was written with.
    obtain ⟨_, rests⟩ := rests_iterate isLast
    obtain ⟨_, stable⟩ := canonizes.of_rests named isUnion rests
    rw [flattenAll_of_notUnion fun m member => (stable m member).notUnion] at each ⊢
    exact ⟨_, unionForms_stable bound each stable, .several isUnion⟩

end Hint

namespace Reading

variable {ε : Type} {r : Reading (Except ε)} {ctx : Context} {h x : Hint} {v : Value} {b : Bool}

/-! ### Acceptance -/

variable (r ctx) in
/-- The hint can be read as a test that the value passes. -/
def Accepts (h : Hint) (v : Value) : Prop :=
  ∃ t, r.ReadsAs ctx h t ∧ t.getD .pass v = .ok true

variable (r ctx) in
/-- One of the members accepts the value, unless every value is accepted anyway. -/
def AcceptsSome (members : Option (List Hint)) (v : Value) : Prop :=
  ∀ hints, members = some hints → ∃ c ∈ hints, r.Accepts ctx c v

variable (r ctx) in
/-- Of what the hint contributes to a union, something accepts the value. -/
def AcceptsAsMember (h : Hint) (v : Value) : Prop :=
  ∃ reduced, h.canonical r.catalog ctx.nested = .ok reduced ∧
    r.AcceptsSome ctx (memberForms r.catalog h reduced) v

theorem acceptsSome_none : r.AcceptsSome ctx Option.none v := nofun

theorem acceptsSome_some {hints : List Hint} :
    r.AcceptsSome ctx (some hints) v ↔ ∃ c ∈ hints, r.Accepts ctx c v :=
  ⟨fun accepts => accepts hints rfl, fun accepts _ same => by cases same; exact accepts⟩

theorem accepts_congr
    (same : x.canonical r.catalog ctx.nested = h.canonical r.catalog ctx.nested) :
    r.Accepts ctx h v ↔ r.Accepts ctx x v :=
  ⟨fun ⟨t, reads, passes⟩ => ⟨t, reads.ofCanonical same, passes⟩,
    fun ⟨t, reads, passes⟩ => ⟨t, reads.ofCanonical same.symm, passes⟩⟩

theorem acceptsAsMember_iff {reduced : Reduced}
    (isReduced : h.canonical r.catalog ctx.nested = .ok reduced) :
    r.AcceptsAsMember ctx h v ↔ r.AcceptsSome ctx (memberForms r.catalog h reduced) v := by
  constructor
  · rintro ⟨other, isOther, accepts⟩
    cases isReduced.symm.trans isOther
    exact accepts
  · exact fun accepts => ⟨reduced, isReduced, accepts⟩

/-- Every value is accepted where the canonical form is the hint that all values satisfy. -/
theorem accepts_of_isIgnorable (isReduced : h.canonical r.catalog ctx.nested = .ok ⟨x, []⟩)
    (ignorable : x.isIgnorable r.catalog = true) : r.Accepts ctx h v := by
  obtain ⟨c, rfl, isRoot⟩ := isIgnorable_cases ignorable
  exact ⟨Option.none, ⟨_, 0, 1, _, isReduced, classifyCanonical_root isRoot, rfl⟩, rfl⟩

/-- What the members of a union contribute accepts what one of them accepts. -/
theorem acceptsSome_unionForms {flat : List Hint} {found : Option (List Hint)}
    (forms : unionForms r.catalog (canonical r.catalog ctx.nested) flat = .ok found) :
    r.AcceptsSome ctx found v ↔ ∃ m ∈ flat, r.AcceptsAsMember ctx m v := by
  induction flat generalizing found with
  | nil =>
    cases forms
    simp [acceptsSome_some]
  | cons m rest ih =>
    rw [unionForms_cons] at forms
    obtain ⟨reduced, isReduced, forms⟩ := ok_of_bind forms
    have first := acceptsAsMember_iff (v := v) isReduced
    rw [List.exists_mem_cons_iff, first]
    cases contributed : memberForms r.catalog m reduced with
    | none =>
      rw [contributed] at forms
      cases forms
      simp [acceptsSome_none]
    | some mine =>
      rw [contributed] at forms
      obtain ⟨more, further, isFound⟩ := ok_of_bind forms
      cases isFound
      rw [← ih further]
      cases more with
      | none => simp [acceptsSome_none]
      | some more => simp [acceptsSome_some, or_and_right, exists_or]

section Legible
variable {names : Naming} {values : Value → Prop} {P : Hint → Prop}
  (legible : Legible r.catalog r.substitutes names values P) (matching : ctx.Matching names P ctx)
include legible matching

/-- A hint that means a test accepts what passes it. -/
theorem accepts_iff (holds : P h) {room : Nat} {t : Option (Test (Except ε))}
    (tested : r.testWithin room ctx.nested h = .ok t) (verdict : t.getD .pass v = .ok b) :
    r.Accepts ctx h v ↔ b = true := by
  have reads := readsAs_of_testWithin tested
  constructor
  · rintro ⟨u, others, passes⟩
    rw [← reads.unique legible matching holds (legible.named holds) (matches_refl h) others,
      verdict] at passes
    exact Except.ok.inj passes
  · rintro rfl
    exact ⟨t, reads, verdict⟩

/-! ### Tests of the members -/

omit legible matching in
/-- Where no tests are left, some member means none. -/
theorem exists_of_members_none {member : Hint → Except HintError (Option (Test (Except ε)))}
    {previous : Option Hint} {hints : List Hint}
    (found : members member previous hints = .ok Option.none) :
    ∃ c ∈ hints, member c = .ok Option.none := by
  induction hints generalizing previous with
  | nil => cases found
  | cons c rest ih =>
    rw [members] at found
    split at found
    · obtain ⟨d, inRest, none⟩ := ih found
      exact ⟨d, List.mem_cons_of_mem _ inRest, none⟩
    · obtain ⟨t, means, found⟩ := ok_of_bind found
      cases t with
      | none => exact ⟨c, by simp, means⟩
      | some t =>
        obtain ⟨more, others, isNone⟩ := ok_of_bind found
        cases more with
        | some more => cases isNone
        | none =>
          obtain ⟨d, inRest, none⟩ := ih others
          exact ⟨d, List.mem_cons_of_mem _ inRest, none⟩

/-- After a member that does not accept the value, the tests of the others decide whether one of
them does. -/
theorem anyOf_members_iff {room : Nat} {hints : List Hint} (each : ∀ c ∈ hints, P c)
    {previous : Option Hint}
    (rejects : ∀ p, previous = some p → P p ∧ ∃ t,
      r.testWithin room ctx.nested p = .ok t ∧ t.getD .pass v = .ok false)
    {tests : List (Test (Except ε))}
    (found : members (r.testWithin room ctx.nested) previous hints = .ok (some tests))
    (verdict : Test.anyOf tests v = .ok b) : b = true ↔ ∃ c ∈ hints, r.Accepts ctx c v := by
  induction hints generalizing previous tests with
  | nil =>
    cases found
    cases verdict
    simp
  | cons c rest ih =>
    have holds := each c (by simp)
    have others := fun d member => each d (List.mem_cons_of_mem c member)
    rw [members] at found
    split at found
    · next equal =>
      obtain ⟨p, isPrevious, equal⟩ := Option.any_eq_true _ _ |>.mp equal
      obtain ⟨holdsToo, t, tested, passes⟩ := rejects p isPrevious
      have same := matches_of_structEq legible.distinct equal (legible.named holdsToo)
        (legible.named holds) (legible.holds holdsToo) (legible.holds holds)
      have rejected : ¬ r.Accepts ctx c v := by
        rintro ⟨u, reads, accepts⟩
        have unique := (readsAs_of_testWithin tested).unique legible matching holdsToo
          (legible.named holds) same reads
        rw [← unique, passes] at accepts
        cases accepts
      rw [ih others rejects found verdict]
      simp [rejected]
    · obtain ⟨t, tested, found⟩ := ok_of_bind found
      cases t with
      | none => cases found
      | some t =>
        obtain ⟨more, further, isSome⟩ := ok_of_bind found
        cases more with
        | none => cases isSome
        | some more =>
          cases isSome
          rw [Test.anyOf] at verdict
          obtain ⟨first, passes, verdict⟩ := ok_of_bind verdict
          have decides := accepts_iff legible matching holds tested passes
          cases first with
          | true =>
            cases verdict
            exact ⟨fun _ => ⟨c, by simp, decides.mpr rfl⟩, fun _ => rfl⟩
          | false =>
            have rejected : ¬ r.Accepts ctx c v := fun accepts => by cases decides.mp accepts
            have rejects (p : Hint) (same : some c = some p) : P p ∧ ∃ t,
                r.testWithin room ctx.nested p = .ok t ∧ t.getD .pass v = .ok false := by
              cases same
              exact ⟨holds, _, tested, passes⟩
            rw [ih others rejects further verdict]
            simp [rejected]

/-- A hint with a union for its canonical form accepts what a member of that union accepts. -/
theorem canonicalUnion_iff (holds : P h) {y : Hint}
    (isReduced : h.canonical r.catalog ctx.nested = .ok ⟨y, []⟩) (isUnion : y.isUnion = true)
    {t : Option (Test (Except ε))} (reads : r.ReadsAs ctx h t)
    (verdict : t.getD .pass v = .ok b) : b = true ↔ ∃ c ∈ y.args, r.Accepts ctx c v := by
  have each : ∀ c ∈ y.args, P c := by
    have ends := legible.hereditary.ofCanonical matching.keeps.nested holds
    rw [isReduced] at ends
    exact legible.hereditary.ofArgs ends
  obtain ⟨reduced, few, room, c, isOther, classified, means⟩ := reads
  cases isReduced.symm.trans isOther
  cases classifyReduced_of_isUnion isUnion classified
  cases room with
  | zero => cases means
  | succ room =>
    have shape : (do
        let tests ← members (r.testWithin room ctx.nested) Option.none y.args
        return tests.map Test.anyOf) = .ok t := means
    obtain ⟨tests, found, isTest⟩ := ok_of_bind shape
    cases isTest
    cases tests with
    | none =>
      cases verdict
      obtain ⟨c, member, isPass⟩ := exists_of_members_none found
      exact ⟨fun _ => ⟨c, member, _, readsAs_of_testWithin isPass, rfl⟩, fun _ => rfl⟩
    | some tests =>
      exact anyOf_members_iff legible matching each (fun _ same => by cases same) found verdict

/-! ### Contributions of the members -/

/-- A hint accepts what it contributes to unions. -/
theorem member_iff (holds : P h) {room : Nat}
    {t : Option (Test (Except ε))} (tested : r.testWithin room ctx.nested h = .ok t)
    (verdict : t.getD .pass v = .ok b) : b = true ↔ r.AcceptsAsMember ctx h v := by
  have decides := accepts_iff legible matching holds tested verdict
  have reads := readsAs_of_testWithin tested
  obtain ⟨reduced, few, _, c, isReduced, classified, _⟩ := reads
  rw [acceptsAsMember_iff isReduced]
  unfold memberForms
  split
  · rw [acceptsSome_some]
    simp [decides]
  next noValidators =>
  obtain ⟨x, validators⟩ := reduced
  obtain rfl : validators = [] := by simpa using noValidators
  split
  · next ignorable =>
    have accepts := accepts_of_isIgnorable (v := v) isReduced ignorable
    simp [decides.mp accepts, acceptsSome_none]
  split
  · next isUnion =>
    rw [acceptsSome_some]
    exact canonicalUnion_iff legible matching holds isReduced isUnion
      (readsAs_of_testWithin tested) verdict
  · next notUnion =>
    have itself := canonical_canonical isReduced (by simpa using notUnion)
    rw [acceptsSome_some]
    simp [← decides, accepts_congr (itself.trans isReduced.symm)]

/-- A union accepts what its members contribute. -/
theorem union_iff (holds : P h) (isUnion : h.isUnion = true) {room : Nat}
    {t : Option (Test (Except ε))} (tested : r.testWithin room ctx.nested h = .ok t)
    (verdict : t.getD .pass v = .ok b) :
    b = true ↔ ∃ m ∈ flattenAll h.args, r.AcceptsAsMember ctx m v := by
  have decides := accepts_iff legible matching holds tested verdict
  have reads := readsAs_of_testWithin tested
  obtain ⟨reduced, _, _, _, isReduced, _⟩ := id reads
  obtain ⟨_, found, forms, comesTo⟩ :=
    canonical_union matching.named (legible.named holds) isUnion isReduced
  rw [← acceptsSome_unionForms forms]
  cases comesTo with
  | every =>
    have accepts := accepts_of_isIgnorable (v := v) isReduced rfl
    simp [acceptsSome_none, decides.mp accepts]
  | single isOnly =>
    rw [acceptsSome_some, ← decides, accepts_congr (isOnly.trans isReduced.symm)]
    simp
  | several isSeveral =>
    rw [acceptsSome_some]
    exact canonicalUnion_iff legible matching holds isReduced isSeveral reads verdict

/-- A hint accepts what the members that it is flattened to contribute to unions. -/
theorem flatten_iff (holds : P h) {room : Nat} {t : Option (Test (Except ε))}
    (tested : r.testWithin room ctx.nested h = .ok t) (verdict : t.getD .pass v = .ok b) :
    b = true ↔ ∃ m ∈ h.flatten, r.AcceptsAsMember ctx m v := by
  cases isUnion : h.isUnion with
  | true =>
    rw [flatten_union isUnion]
    exact union_iff legible matching holds isUnion tested verdict
  | false =>
    rw [flatten_other isUnion, member_iff legible matching holds tested verdict]
    simp

end Legible
end Reading

/-! ### Checks of unions -/

/-- The labels and the values of all that the hint leads to tell hints apart. -/
def Hint.LegibleIn (cat : Catalog) (subs : Substitutes) (ctx : Context) (names : Naming)
    (values : Value → Prop) (h : Hint) : Prop :=
  ∀ y, h.Reaches cat subs ctx y →
    y.WellNamed names ∧ ∀ label v, y = .value label v → v.OrDots values

theorem legible_legibleIn (cat : Catalog) (subs : Substitutes) (ctx : Context) (names : Naming)
    {values : Value → Prop}
    (distinct : ∀ v w, values v → values w → v.structEq w = true → v = w) :
    Legible cat subs names (Value.OrDots values) (LegibleIn cat subs ctx names values) := by
  have hereditary : Hereditary cat subs (LegibleIn cat subs ctx names values) := by
    refine hereditary_reaches fun h made parts => ⟨?_, fun label v same => ?_⟩
    · exact made.wellNamed fun p member => (parts p member).1
    · subst same
      cases made
      exact .inl rfl
  refine ⟨hereditary, fun holds => (holds _ .refl).1, fun {h} holds => ?_,
    Value.distinct_orDots distinct⟩
  induction h using induction_parts with
  | step h ih =>
    exact .intro (holds h .refl).2 fun a member =>
      ih a (mem_parts_of_mem_args member) (hereditary.ofArgs holds a member)

theorem legibleIn_optional {cat : Catalog} {subs : Substitutes} {ctx : Context} {names : Naming}
    {values : Value → Prop} {h : Hint} (legible : h.LegibleIn cat subs ctx names values) :
    LegibleIn cat subs ctx names values (.typing none .optional [h]) := by
  intro y reaches
  rcases reaches.cases_head with rfl | ⟨z, leads, reaches⟩
  · exact ⟨.ofArgs (by simpa using (legible h .refl).1), nofun⟩
  · rcases leads with member | isVariable | _ | _ | ⟨named, _⟩ | origin
    · rw [List.mem_singleton.mp member] at reaches
      exact legible y reaches
    · cases isVariable
    · rcases named with named | named <;> cases named
    · cases origin

theorem Hint.mem_flattenAll_iff {m : Hint} {hints : List Hint} :
    m ∈ flattenAll hints ↔ ∃ h ∈ hints, m ∈ h.flatten := by
  induction hints with
  | nil => simp [flattenAll]
  | cons h rest ih => simp [flattenAll, ih]

namespace Session

variable {s : Session} {ctx : Context} {scope : Scope} {names : Naming} {u : Hint}

/-- The check of a union accepts a value if and only if the check of a member accepts it, and the
checks of unions of the same members agree, however the members are ordered, grouped and
repeated. -/
theorem buildCheck_disjunction {values : Value → Prop}
    (distinct : ∀ v w, values v → values w → v.structEq w = true → v = w)
    (bindings : ∀ entry ∈ ctx.bindings, entry.2.WellNamed names)
    (grown : s.cache.Grown names s.catalog s.substitutes) (wellKept : scope.WellKept)
    (notParam : ∀ kind, ctx.position ≠ .param kind) (isUnion : u.isUnion = true)
    (legible : u.LegibleIn s.catalog s.substitutes ctx names values) {made : Check × Scope}
    (built : ∃ pith, ((buildCheck ctx pith u scope).run.run s).1 = .ok made) {f : Frame}
    {v : Value} {b : Bool} (verdict : f.verdict made v = .ok b) :
    (∀ part : Hint → Check × Scope,
      (∀ h ∈ u.args, ∃ pith, ((buildCheck ctx pith h scope).run.run s).1 = .ok (part h)) →
      (∀ h ∈ u.args, ∃ c, f.verdict (part h) v = .ok c) →
      (b = true ↔ ∃ h ∈ u.args, f.verdict (part h) v = .ok true)) ∧
    ∀ (w : Hint) (other : Check × Scope) (c : Bool),
      w.LegibleIn s.catalog s.substitutes ctx names values →
      (∀ m, m ∈ w.flatten ↔ m ∈ u.flatten) →
      (∃ pith, ((buildCheck ctx pith w scope).run.run s).1 = .ok other) →
      f.verdict other v = .ok c → c = b := by
  let r := s.reading ctx.conf scope f
  have reads : Legible r.catalog r.substitutes names (Value.OrDots values)
      (LegibleIn s.catalog s.substitutes ctx names values) :=
    legible_legibleIn s.catalog s.substitutes ctx names distinct
  have matching : ctx.Matching names (LegibleIn s.catalog s.substitutes ctx names values) ctx :=
    .refl bindings keeps_reaches
  -- The verdict of a check by what its hint is flattened to.
  have flat {h : Hint} {result : Check × Scope} {c : Bool}
      (legible : h.LegibleIn s.catalog s.substitutes ctx names values)
      (built : ∃ pith, ((buildCheck ctx pith h scope).run.run s).1 = .ok result)
      (verdict : f.verdict result v = .ok c) :
      c = true ↔ ∃ m ∈ h.flatten, r.AcceptsAsMember ctx m v := by
    obtain ⟨pith, built⟩ := built
    have alike := buildCheck_verdict wellKept (legible h .refl).1 grown ctx pith f
    rw [built] at alike
    obtain ⟨t, tested, decides⟩ := alike.ok_left
    rw [Reading.testWithin_nested _ notParam] at tested
    exact Reading.flatten_iff reads matching legible tested (decides v ▸ verdict)
  refine ⟨fun part parts verdicts => ?_, fun w other c legibleToo members builtToo verdictToo => ?_⟩
  · rw [flat legible built verdict, flatten_union isUnion]
    have each (h : Hint) (member : h ∈ u.args) :
        f.verdict (part h) v = .ok true ↔ ∃ m ∈ h.flatten, r.AcceptsAsMember ctx m v := by
      obtain ⟨c, verdict⟩ := verdicts h member
      rw [← flat (reads.hereditary.ofArgs legible h member) (parts h member) verdict, verdict]
      exact ⟨Except.ok.inj, fun same => same ▸ rfl⟩
    constructor
    · rintro ⟨m, inFlat, accepts⟩
      obtain ⟨h, member, inside⟩ := mem_flattenAll_iff.mp inFlat
      exact ⟨h, member, (each h member).mpr ⟨m, inside, accepts⟩⟩
    · rintro ⟨h, member, accepts⟩
      obtain ⟨m, inside, accepts⟩ := (each h member).mp accepts
      exact ⟨m, mem_flattenAll_iff.mpr ⟨h, member, inside⟩, accepts⟩
  · rw [Bool.eq_iff_iff, flat legible built verdict, flat legibleToo builtToo verdictToo]
    exact exists_congr fun m => and_congr_left fun _ => members m

/-- A text passes the check of a union with unions inside because it passes the check of one of
them, and it passes the check of the same members in another order, ungrouped and repeated. -/
theorem buildCheck_disjunction_nested :
    let inner := Hint.typing none .union [Builtin.int, Builtin.str]
    let optional := Hint.typing none .optional [Builtin.float]
    let u := Hint.union none [inner, optional]
    let w := Hint.typing none .union [optional, Builtin.str, Builtin.int, Builtin.str]
    let f := Frame.new start.around 0 start.calls rfl
    ∃ made first second other,
      ((buildCheck (.bare .standard) "obj" u .empty).run.run start).1 = .ok made ∧
      ((buildCheck (.bare .standard) "obj" inner .empty).run.run start).1 = .ok first ∧
      ((buildCheck (.bare .standard) "obj" optional .empty).run.run start).1 = .ok second ∧
      ((buildCheck (.bare .standard) "obj" w .empty).run.run start).1 = .ok other ∧
      f.verdict made (.str "a") = .ok true ∧
      (f.verdict first (.str "a") = .ok true ∨ f.verdict second (.str "a") = .ok true) ∧
      f.verdict other (.str "a") = .ok true := by
  intro inner optional u w f
  let names : Naming := ⟨fun _ => Builtin.object, fun _ => .instanceOf []⟩
  -- All but the optional hint are made in passing, so they are legible if their members are.
  let P := LegibleIn start.catalog start.substitutes (.bare .standard) names fun _ => False
  have distinct (v w : Value) (left : False) (_ : False) (_ : v.structEq w = true) : v = w :=
    left.elim
  have hereditary : Hereditary start.catalog start.substitutes P :=
    (legible_legibleIn start.catalog start.substitutes (.bare .standard) names distinct).hereditary
  have classes (b : Builtin) : P (.cls b) := hereditary.made (.builtin b) nofun
  have optionally : P optional := legibleIn_optional (classes _)
  have together (members : List Hint) (each : ∀ m ∈ members, P m) :
      P (.typing none .union members) := hereditary.made (.typing members) each
  have legible : P u := by
    have innerwise : P inner := together [Builtin.int, Builtin.str]
      (List.forall_mem_cons.mpr ⟨classes _, List.forall_mem_singleton.mpr (classes _)⟩)
    have each : ∀ m ∈ [inner, optional], P m :=
      List.forall_mem_cons.mpr ⟨innerwise, List.forall_mem_singleton.mpr optionally⟩
    exact hereditary.made (.union _) each
  have legibleToo : P w := by
    refine together _ (List.forall_mem_cons.mpr ⟨optionally, ?_⟩)
    simpa using ⟨classes .str, classes .int, classes .str⟩
  have members (m : Hint) : m ∈ w.flatten ↔ m ∈ u.flatten := by
    have reordered (p q r : Prop) : p ∨ q ∨ r ∨ q ↔ r ∨ q ∨ p := by tauto
    have ungrouped : w.flatten = [optional, .cls Builtin.str, .cls Builtin.int, .cls Builtin.str] :=
      rfl
    have grouped : u.flatten = [.cls Builtin.int, .cls Builtin.str, optional] := rfl
    rw [ungrouped, grouped]
    simp only [List.mem_cons, List.not_mem_nil, or_false]
    exact reordered _ _ _
  have runs (h : Hint) (decided : (((buildCheck (.bare .standard) "obj" h .empty).run.run
      start).1.toOption.any fun made => (f.verdict made (.str "a")).toOption.isSome) = true) :
      ∃ made, ((buildCheck (.bare .standard) "obj" h .empty).run.run start).1 = .ok made ∧
        ∃ c, f.verdict made (.str "a") = .ok c := by
    obtain ⟨made, built, isSome⟩ := ok_of_any decided
    obtain ⟨c, verdict, _⟩ := ok_of_any (Option.any_true ▸ isSome)
    exact ⟨made, built, c, verdict⟩
  obtain ⟨first, builtFirst, firstDecides⟩ := runs inner (by decide +kernel)
  obtain ⟨second, builtSecond, secondDecides⟩ := runs optional (by decide +kernel)
  obtain ⟨other, builtOther, c, otherDecides⟩ := runs w (by decide +kernel)
  obtain ⟨made, built, accepted⟩ : ∃ made,
      ((buildCheck (.bare .standard) "obj" u .empty).run.run start).1 = .ok made ∧
        (f.verdict made (.str "a")).toOption.any id = true := ok_of_any (by decide +kernel)
  obtain ⟨b, verdict, isTrue : b = true⟩ := ok_of_any accepted
  subst isTrue
  obtain ⟨disjunction, agrees⟩ := buildCheck_disjunction distinct (List.forall_mem_nil _) .empty
    Scope.wellKept_empty (fun _ => by nofun) rfl legible ⟨_, built⟩ verdict
  have passed := (disjunction (fun h => if h.isUnion then first else second)
    (List.forall_mem_cons.mpr ⟨⟨_, builtFirst⟩, List.forall_mem_singleton.mpr ⟨_, builtSecond⟩⟩)
    (List.forall_mem_cons.mpr ⟨firstDecides, List.forall_mem_singleton.mpr secondDecides⟩)).mp rfl
  have same := agrees w other c legibleToo members ⟨_, builtOther⟩ otherDecides
  subst same
  refine ⟨made, first, second, other, built, builtFirst, builtSecond, builtOther, verdict, ?_,
    otherDecides⟩
  obtain ⟨h, member, passes⟩ := passed
  rcases List.mem_pair.mp member with rfl | rfl
  · exact .inl passes
  · exact .inr passes

end Session
end HintCheck
