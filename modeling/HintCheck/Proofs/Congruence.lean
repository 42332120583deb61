import HintCheck.Proofs.Rendering

/-!
Canonical forms of rendered hints. A variable that was replaced may stand for several members of a
union at once: on the one side it is a member that is brought to canonical form, on the other side
its members are members of the union itself. What the members contribute is rendered all the same,
and with it the union that is made of them.
-/
namespace HintCheck

open Hint

namespace Hint

variable {cat : Catalog} {ctx : Context} {names : Naming} {h : Hint}
  {reduce : Hint → Except HintError Reduced}

/-! ### Steps of unions -/

/-- What one member of a union contributes. -/
def contribution (cat : Catalog) (reduce : Hint → Except HintError Reduced) (m : Hint) :
    Except HintError (Option (List Hint)) := do
  return memberForms cat m (← reduce m)

/-- What some members contribute, and then what others do, unless every value satisfies one of
them. -/
def followedBy (first rest : Except HintError (Option (List Hint))) :
    Except HintError (Option (List Hint)) := do
  match ← first with
  | Option.none => return Option.none
  | some mine => return (← rest).map (mine ++ ·)

theorem unionForms_cons_eq (m : Hint) (rest : List Hint) :
    unionForms cat reduce (m :: rest) =
      followedBy (contribution cat reduce m) (unionForms cat reduce rest) := by
  rw [unionForms_cons]
  unfold followedBy contribution
  cases reduce m with
  | error e => rfl
  | ok r => rfl

theorem followedBy_assoc (first second third : Except HintError (Option (List Hint))) :
    followedBy (followedBy first second) third = followedBy first (followedBy second third) := by
  unfold followedBy
  rcases first with _ | _ | mine
  · rfl
  · rfl
  · rcases second with _ | _ | more
    · rfl
    · rfl
    · rcases third with _ | _ | others
      · rfl
      · rfl
      · simp [bind, Except.bind, pure, Except.pure]

theorem unionForms_append (xs ys : List Hint) :
    unionForms cat reduce (xs ++ ys) =
      followedBy (unionForms cat reduce xs) (unionForms cat reduce ys) := by
  induction xs with
  | nil =>
    rw [List.nil_append]
    unfold followedBy
    rcases unionForms cat reduce ys with _ | _ | more <;> rfl
  | cons m rest ih =>
    rw [List.cons_append, unionForms_cons_eq, unionForms_cons_eq, ih, followedBy_assoc]

theorem step_of_forms (ctx : Context) (isUnion : h.isUnion = true)
    (occupied : flattenAll h.args ≠ []) :
    h.step cat ctx reduce = (do
      match ← unionForms cat reduce (flattenAll h.args) with
      | Option.none => return ⟨some object, []⟩
      | some members =>
        return ⟨if (h.joined members).structEq h then Option.none else some (h.joined members),
          []⟩) := by
  rw [step_union ctx isUnion, stepUnion_eq occupied]
  rcases unionForms cat reduce (flattenAll h.args) with _ | _ | members <;> rfl

/-- What the union is in the end, if several members are contributed to it: their union, or itself
if that is the same. -/
def Settled (u : Hint) (members : List Hint) (y : Hint) : Prop :=
  y = u.respelled members ∨ y = u ∧ (u.respelled members).structEq u = true

section Canonizes
variable (canonizes : Canonizes cat names reduce) (named : h.WellNamed names)
  (isUnion : h.isUnion = true) {members : List Hint}
  (forms : unionForms cat reduce (flattenAll h.args) = .ok (some members))
include canonizes named isUnion forms

theorem wellNamed_forms : ∀ x ∈ members, x.WellNamed names ∧ Stable cat reduce x := by
  intro x member
  obtain ⟨m, inFlat, r, mine, reduced, contributed, isMine⟩ := contributes_of_mem forms member
  exact (canonizes.forms (wellNamed_flattenAll named isUnion m inFlat) (mem_flattenAll inFlat)
    reduced contributed).2 x isMine

theorem length_forms : (flattenAll h.args).length ≤ members.length :=
  (contributesOnly_of_length forms fun m inFlat _ _ reduced contributed =>
    (canonizes.forms (wellNamed_flattenAll named isUnion m inFlat) (mem_flattenAll inFlat) reduced
      contributed).1).1

/-- A union of one member becomes what the member contributes. -/
theorem step_single {only : Hint} (single : members = [only]) (ctx : Context)
    (occupied : flattenAll h.args ≠ []) : h.step cat ctx reduce = .ok ⟨some only, []⟩ := by
  subst single
  obtain ⟨namedOnly, stable⟩ := wellNamed_forms canonizes named isUnion forms only (by simp)
  have different : only.structEq h = false := by
    by_contra equal
    have same := isUnion_congr namedOnly named (by simpa using equal)
    rw [stable.notUnion, isUnion] at same
    cases same
  rw [step_of_forms ctx isUnion occupied, forms]
  simp [bind, Except.bind, pure, Except.pure, joined, different]

/-- A union to which several members are contributed becomes their union in two steps at most, or
stays as it is. -/
theorem iterate_several (several : members.length ≠ 1) (ctx : Context)
    (occupied : flattenAll h.args ≠ []) (steps : Nat) (validators : List Validator) :
    iterate cat ctx reduce steps h validators = .ok Option.none ∨
      ∃ x, iterate cat ctx reduce steps h validators = .ok (some ⟨x, validators⟩) ∧
        h.Settled members x := by
  have each := wellNamed_forms canonizes named isUnion forms
  cases steps with
  | zero => exact .inl rfl
  | succ steps =>
    rw [iterate_succ, step_of_forms ctx isUnion occupied, forms]
    simp only [bind, Except.bind, pure, Except.pure, joined_of_length several]
    by_cases equal : (h.respelled members).structEq h = true
    · rw [if_pos equal]
      exact .inr ⟨h, rfl, .inr ⟨rfl, equal⟩⟩
    · rw [if_neg equal]
      cases steps with
      | zero => exact .inl rfl
      | succ steps =>
        have nonempty : members ≠ [] := by
          rintro rfl
          have atLeast := length_forms canonizes named isUnion forms
          exact occupied (List.length_eq_zero_iff.mp (Nat.le_zero.mp atLeast))
        have rests : (h.respelled members).step cat ctx reduce = .ok ⟨Option.none, []⟩ := by
          rw [step_union ctx (isUnion_respelled h members).1,
            stepUnion_stable nonempty several (fun x member => (each x member).2) h]
          rfl
        refine .inr ⟨_, ?_, .inl rfl⟩
        dsimp only
        rw [iterate_succ, rests]
        rfl

end Canonizes

theorem Settled.isUnion {members : List Hint} {y : Hint} (settled : h.Settled members y)
    (isUnion : h.isUnion = true) : y.isUnion = true := by
  rcases settled with rfl | ⟨rfl, _⟩
  · exact (isUnion_respelled h members).1
  · exact isUnion

theorem Settled.matches {known : Value → Prop}
    (distinct : ∀ v w, known v → known w → v.structEq w = true → v = w) {members : List Hint}
    {y : Hint} (settled : h.Settled members y) (named : h.WellNamed names)
    (each : ∀ m ∈ members, m.WellNamed names) (values : (h.respelled members).WithValues known)
    (valuesToo : h.WithValues known) : Matches (h.respelled members) y := by
  rcases settled with rfl | ⟨rfl, equal⟩
  · exact renders_self fun _ _ => rfl
  · exact matches_of_structEq distinct equal (wellNamed_respelled each y) named values valuesToo

/-- A variable that is bound leads to what it is bound to. -/
theorem iterate_bound (isVariable : h.isTypeVar = true) {a : Hint}
    (isBound : ctx.binding? h = some a) (steps : Nat) (validators : List Validator) :
    iterate cat ctx reduce (steps + 1) h validators =
      iterate cat ctx reduce steps a validators := by
  have stepped : h.step cat ctx reduce = .ok ⟨some a, []⟩ := by
    cases h with
    | typeVar | paramSpec | typeVarTuple => simp [step, typeVarMeaning, isBound]
    | _ => cases isVariable
  rw [iterate_succ, stepped]
  rfl

/-- A union that every value satisfies becomes the hint that says so. -/
theorem iterate_every (isUnion : h.isUnion = true) (occupied : flattenAll h.args ≠ [])
    (forms : unionForms cat reduce (flattenAll h.args) = .ok Option.none) (ctx : Context)
    (steps : Nat) (validators : List Validator) :
    iterate cat ctx reduce (steps + 1) h validators =
      iterate cat ctx reduce steps object validators := by
  rw [iterate_succ, step_of_forms ctx isUnion occupied, forms]
  rfl

theorem iterate_error (isUnion : h.isUnion = true) (occupied : flattenAll h.args ≠ [])
    {e : HintError} (forms : unionForms cat reduce (flattenAll h.args) = .error e) (ctx : Context)
    (steps : Nat) (validators : List Validator) :
    iterate cat ctx reduce (steps + 1) h validators = .error e := by
  rw [iterate_succ, step_of_forms ctx isUnion occupied, forms]
  rfl

end Hint

namespace Hint

theorem SameHead.isUnion {h x : Hint} (heads : SameHead h x) :
    h.isUnion = x.isUnion := by
  cases heads with
  | subscription _ _ origin => cases origin <;> rfl
  | _ => rfl

theorem SameHead.isIgnorable {cat : Catalog} {h x : Hint} (heads : SameHead h x) :
    h.isIgnorable cat = x.isIgnorable cat := by
  cases heads <;> rfl

theorem SameHead.respelled {h x : Hint} (heads : SameHead h x)
    (isUnion : h.isUnion = true) (xs ys : List Hint) :
    SameHead (h.respelled xs) (x.respelled ys) := by
  cases heads with
  | union => exact .union _ _ _ _
  | subscription => exact .subscription _ _ _ _ _
  | _ => cases isUnion

end Hint

namespace Mirror

variable {S : Mirror} {given : Hint → Option Hint} {bound plain : Context} {h x : Hint}
  {excused : HintError → Prop}

/-! ### Members side by side -/

variable (S given bound plain) in
/-- The members of a union and of its rendering: a variable that was replaced by a union has the
members of that union over against it. -/
inductive Flat : List Hint → List Hint → Prop
  | nil : Flat [] []
  | one {h x : Hint} {hs xs : List Hint} (twins : S.Twins given bound plain h x)
    (notUnion : x.isUnion = false) (rest : Flat hs xs) : Flat (h :: hs) (x :: xs)
  | many {v a u : Hint} {hs xs : List Hint} (twins : S.Twins given bound plain v u)
    (isVariable : v.isTypeVar = true) (isGiven : given v = some a) (isUnion : a.isUnion = true)
    (rest : Flat hs xs) : Flat (v :: hs) (flattenAll u.args ++ xs)

theorem Flat.append {hs ks xs ys : List Hint} (first : S.Flat given bound plain hs xs)
    (second : S.Flat given bound plain ks ys) :
    S.Flat given bound plain (hs ++ ks) (xs ++ ys) := by
  induction first with
  | nil => exact second
  | one twins notUnion _ ih => exact .one twins notUnion ih
  | many twins isVariable isGiven isUnion _ ih =>
    rw [List.append_assoc]
    exact .many twins isVariable isGiven isUnion ih

theorem Twins.isUnion (twins : S.Twins given bound plain h x)
    (kept : h.isTypeVar = true → given h = Option.none) : h.isUnion = x.isUnion := by
  rcases twins.heads kept with ⟨rfl, _⟩ | ⟨heads, _⟩
  · rfl
  · exact heads.isUnion

theorem flat_flattenAll {hs xs : List Hint}
    (each : hs.Forall₂ (fun h x => S.Flat given bound plain h.flatten x.flatten) xs) :
    S.Flat given bound plain (flattenAll hs) (flattenAll xs) := by
  induction each with
  | nil => exact .nil
  | cons head _ ih => exact head.append ih

/-- Unless it is a variable, a hint has a union for its rendering only if it is one. -/
theorem Twins.args (twins : S.Twins given bound plain h x) (notVariable : h.isTypeVar = false) :
    h.isUnion = x.isUnion ∧ h.args.Forall₂ (S.Twins given bound plain) x.args := by
  rcases twins.heads fun isVariable => by simp [notVariable] at isVariable with
    ⟨_, isVariable⟩ | ⟨heads, each⟩
  · simp [notVariable] at isVariable
  · exact ⟨heads.isUnion, each⟩

/-- The members of a hint and of its rendering. -/
theorem Twins.flat (paired : S.Paired given bound plain) (twins : S.Twins given bound plain h x) :
    S.Flat given bound plain h.flatten x.flatten := by
  induction h using induction_parts generalizing x with
  | step h ih =>
    cases isUnion : h.isUnion with
    | true =>
      obtain ⟨united, each⟩ := twins.args (notVariable_of_isUnion isUnion)
      rw [flatten_union isUnion, flatten_union (united ▸ isUnion)]
      refine flat_flattenAll (List.forall₂_iff_zip.mpr ⟨each.length_eq, fun {a b} member => ?_⟩)
      exact ih a (mem_parts_of_mem_args (List.of_mem_zip member).1)
        ((List.forall₂_iff_zip.mp each).2 member)
    | false =>
      rw [flatten_other isUnion]
      cases united : x.isUnion with
      | false =>
        rw [flatten_other united]
        exact .one twins united .nil
      | true =>
        -- The rendering of what is no union is a union: the hint is a variable that was replaced.
        rw [flatten_union united, ← List.append_nil (flattenAll x.args)]
        have kept : ¬ (h.isTypeVar = true → given h = Option.none) := fun kept => by
          rw [← twins.isUnion kept, isUnion] at united
          cases united
        obtain ⟨isVariable, isGiven⟩ := Classical.not_imp.mp kept
        obtain ⟨a, isGiven⟩ := Option.ne_none_iff_exists'.mp isGiven
        obtain ⟨_, _, free, inner⟩ := twins.replaced paired isVariable isGiven
        exact .many twins isVariable isGiven ((inner.isUnion free).trans united) .nil

/-! ### What members contribute -/

variable (S given bound plain) in
/-- The canonical forms set aside the same validators, and the one renders the other. -/
structure FormsAlike (r q : Reduced) : Prop where
  validators : r.validators = q.validators
  twins : S.Twins given bound plain r.hint q.hint
  notVariable : r.hint.isTypeVar = false

variable (given) in
/-- Hints one by one with their renderings, where there are any. -/
abbrev Rendered : Option (List Hint) → Option (List Hint) → Prop :=
  Option.Rel (List.Forall₂ (Renders given))

theorem FormsAlike.memberForms {r q : Reduced} (alike : S.FormsAlike given bound plain r q)
    (renders : Renders given h x) :
    Rendered given (memberForms S.catalog h r) (memberForms S.catalog x q) := by
  obtain ⟨heads, each⟩ := alike.twins.renders.sameHead alike.notVariable
  unfold Hint.memberForms
  rw [alike.validators, heads.isIgnorable, heads.isUnion]
  split
  · exact .some (.cons renders .nil)
  split
  · exact .none
  split
  · exact .some each
  · exact .some (.cons alike.twins.renders .nil)

theorem reproduces_followedBy {f g k l : Except HintError (Option (List Hint))}
    (first : Reproduces excused (Rendered given) f g)
    (rest : Reproduces excused (Rendered given) k l) :
    Reproduces excused (Rendered given) (followedBy f k) (followedBy g l) := by
  refine first.bind fun mine others related => ?_
  cases related with
  | none => exact .ofOk .none
  | some related =>
    refine rest.bind fun more further alike => ?_
    cases alike with
    | none => exact .ofOk .none
    | some alike => exact .ofOk (.some (List.rel_append related alike))

/-- The errors of a hint that is replaced too often or lies too deep are excused. -/
structure Excuses (excused : HintError → Prop) : Prop where
  recursion : ∀ shown limit, excused (.recursion shown limit)
  endless : ∀ shown, excused (.endless shown)
  nesting : ∀ shown limit, excused (.nesting shown limit)

/-- How hints inside others are brought to canonical form. -/
abbrev reduce (S : Mirror) (ctx : Context) (room : Nat) : Hint → Except HintError Reduced :=
  canonicalWithin S.catalog room ctx.nested

theorem reduce_succ (ctx : Context) (room : Nat) (h : Hint) :
    S.reduce ctx (room + 1) h = (do
      match ← iterate S.catalog ctx.nested (S.reduce ctx room) maxSteps h [] with
      | Option.none => throw (.recursion (h.text S.catalog) maxSteps)
      | some reduced => return reduced) := by
  rw [reduce, canonicalWithin_succ]
  rfl

variable (S given bound plain excused) in
/-- Twins have twins for their canonical forms. -/
def FindsAlike (room other : Nat) : Prop :=
  ∀ ⦃h x : Hint⦄, S.Twins given bound plain h x →
    Reproduces excused (S.FormsAlike given bound plain) (S.reduce bound room h)
      (S.reduce plain other x)

variable (S given bound plain excused) in
/-- What members contribute is rendered. -/
def JoinsAlike (room other : Nat) : Prop :=
  ∀ ⦃hs xs : List Hint⦄, S.Flat given bound plain hs xs →
    Reproduces excused (Rendered given) (unionForms S.catalog (S.reduce bound room) hs)
      (unionForms S.catalog (S.reduce plain other) xs)

variable (S given bound plain excused) in
/-- However many steps are taken from a rendering, those from the hint lead to a twin of what is
found, if they lead to anything. -/
def IteratesAlike (room other steps : Nat) : Prop :=
  ∀ ⦃more : Nat⦄ ⦃h x : Hint⦄ ⦃validators : List Validator⦄ ⦃q : Reduced⦄,
    S.Twins given bound plain h x →
    iterate S.catalog plain.nested (S.reduce plain other) more x validators = .ok (some q) →
    Ends excused (fun last => ∀ r, last = some r → S.FormsAlike given bound plain r q)
      (iterate S.catalog bound.nested (S.reduce bound room) steps h validators)

section Corresponding
variable (paired : S.Paired given bound plain)
include paired

/-- What is contributed to a union is read as the union is. -/
theorem Ready.forms (ready : S.Ready given bound plain h) (isUnion : h.isUnion = true) {room : Nat}
    {members : List Hint}
    (forms : unionForms S.catalog (S.reduce bound room) (flattenAll h.args) = .ok (some members)) :
    ∀ m ∈ members, S.Ready given bound plain m := by
  have passes := (S.passes paired).nested
  have inside (m : Hint) (ready : S.Ready given bound plain m) :
      Ends (fun _ => True) (fun r => S.Ready given bound plain r.hint) (S.reduce bound room m) :=
    passes.ofCanonicalWithin (fun start placed => by cases placed; exact ready) room
  have ends : Ends (fun _ => True)
      (fun found => ∀ members, found = some members → ∀ m ∈ members, S.Ready given bound plain m)
      (unionForms S.catalog (S.reduce bound room) (flattenAll h.args)) :=
    passes.unionForms inside (passes.flattened isUnion ready)
  rw [forms] at ends
  exact ends members rfl

/-- What a union is in the end is a twin of what its rendering is in the end. -/
theorem Twins.settled (twins : S.Twins given bound plain h x) (isUnion : h.isUnion = true)
    {hs xs : List Hint} (ready : ∀ m ∈ hs, S.Ready given bound plain m)
    (related : hs.Forall₂ (Renders given) xs) (named : ∀ m ∈ xs, m.WellNamed S.names)
    {y z : Hint} (settled : h.Settled hs y) (settledToo : x.Settled xs z) :
    S.Twins given bound plain y z := by
  have heads := (twins.renders.sameHead (notVariable_of_isUnion isUnion)).1
  have readyUnion : S.Ready given bound plain (h.respelled hs) := (S.passes paired).respelled ready
  have joined : Renders given (h.respelled hs) (x.respelled xs) := by
    refine .ofArgs (heads.respelled isUnion hs xs) ?_
    rwa [(isUnion_respelled h hs).2, (isUnion_respelled x xs).2]
  have joinedTwins : S.Twins given bound plain (h.respelled hs) (x.respelled xs) :=
    ⟨readyUnion, joined, wellNamed_respelled named x⟩
  have left := settled.matches S.distinct twins.namedToo (fun m member => S.named (ready m member))
    (S.holds readyUnion) (S.holds twins.ready)
  have right := settledToo.matches S.distinct twins.named named (joinedTwins.holdsToo paired)
    (twins.holdsToo paired)
  refine ⟨?_, (joined.matches_left left.symm).matches_right right, ?_⟩
  · rcases settled with rfl | ⟨rfl, _⟩
    · exact readyUnion
    · exact twins.ready
  · rcases settledToo with rfl | ⟨rfl, _⟩
    · exact wellNamed_respelled named x
    · exact twins.named

section Onward
variable {room other steps more : Nat} {validators : List Validator} {q : Reduced}
  (onward : S.IteratesAlike given bound plain excused room other steps)
  (twins : S.Twins given bound plain h x)
  (found : iterate S.catalog plain.nested (S.reduce plain other) (more + 1) x validators =
    .ok (some q))
include onward twins found

theorem IteratesAlike.ofOther (kept : h.isTypeVar = true → given h = Option.none)
    (notUnion : h.isUnion = false) :
    Ends excused (fun last => ∀ r, last = some r → S.FormsAlike given bound plain r q)
      (iterate S.catalog bound.nested (S.reduce bound room) (steps + 1) h validators) := by
  have reproduces : Reproduces excused (StepsAlike given)
      (h.step S.catalog bound.nested (S.reduce bound room))
      (x.step S.catalog plain.nested (S.reduce plain other)) := twins.step paired kept notUnion
  have opened := step_opens S.catalog bound.nested (S.reduce bound room) notUnion
  have openedToo := step_opens S.catalog plain.nested (S.reduce plain other)
    (twins.isUnion kept ▸ notUnion)
  rw [iterate_succ] at found ⊢
  rcases taken : x.step S.catalog plain.nested (S.reduce plain other) with e | ⟨rendered, set⟩
  · rw [taken] at found
    cases found
  have alike := reproduces _ taken
  rw [taken] at found openedToo
  rcases stepped : h.step S.catalog bound.nested (S.reduce bound room) with e | ⟨next, aside⟩
  · rw [stepped] at alike
    exact alike
  rw [stepped] at alike opened
  obtain ⟨validators, related⟩ : StepsAlike given ⟨next, aside⟩ ⟨rendered, set⟩ := alike
  dsimp only at validators related
  subst validators
  cases related with
  | none =>
    cases found
    rintro _ ⟨⟩
    have notStandIn := notStandIn_of_rests stepped
    refine ⟨rfl, twins, ?_⟩
    cases h <;> first | rfl | cases notStandIn
  | some renders =>
    refine onward ⟨twins.ready.opened paired (opened _ rfl), renders, ?_⟩ found
    exact (passes_wellNamed (S.counterparts paired).namedToo).nested.opens twins.named
      (openedToo _ rfl)

/-- Unions become what their members contribute; with several members they have come to rest then,
if they had not before. -/
theorem IteratesAlike.ofUnion (joins : S.JoinsAlike given bound plain excused room other)
    (isUnion : h.isUnion = true) :
    Ends excused (fun last => ∀ r, last = some r → S.FormsAlike given bound plain r q)
      (iterate S.catalog bound.nested (S.reduce bound room) (steps + 1) h validators) := by
  have notVariable := notVariable_of_isUnion isUnion
  have united : x.isUnion = true := (twins.args notVariable).1 ▸ isUnion
  have flat : S.Flat given bound plain (flattenAll h.args) (flattenAll x.args) := by
    rw [← flatten_union isUnion, ← flatten_union united]
    exact twins.flat paired
  have occupied : flattenAll x.args ≠ [] := fun empty => by
    rw [iterate_succ, step_union _ united, stepUnion, empty] at found
    cases found
  have occupiedToo : flattenAll h.args ≠ [] := fun empty => by
    rw [empty] at flat
    generalize flattenAll x.args = xs at flat occupied
    cases flat
    exact occupied rfl
  have canonizes := canonizes_canonicalWithin S.catalog (S.counterparts paired).named room
  have canonizesToo := canonizes_canonicalWithin S.catalog (S.counterparts paired).namedToo other
  have reproduces := joins flat
  rcases others : unionForms S.catalog (S.reduce plain other) (flattenAll x.args) with e | last
  · rw [iterate_error united occupied others] at found
    cases found
  have related := reproduces _ others
  rcases forms : unionForms S.catalog (S.reduce bound room) (flattenAll h.args) with e | first
  · rw [forms] at related
    rw [iterate_error isUnion occupiedToo forms]
    exact related
  rw [forms] at related
  cases related with
  | none =>
    rw [iterate_every united occupied others] at found
    rw [iterate_every isUnion occupiedToo forms]
    exact onward ⟨(S.passes paired).object, renders_class _, .ofClass _⟩ found
  | @some hs xs related =>
    have ready := twins.ready.forms paired isUnion forms
    have named := wellNamed_forms canonizesToo twins.named united others
    by_cases single : hs.length = 1
    · obtain ⟨m, rfl⟩ := List.length_eq_one_iff.mp single
      rcases related with _ | ⟨renders, _ | _⟩
      rw [iterate_succ, step_single canonizesToo twins.named united others rfl _ occupied] at found
      rw [iterate_succ, step_single canonizes twins.namedToo isUnion forms rfl _ occupiedToo]
      exact onward ⟨ready m (by simp), renders, (named _ (by simp)).1⟩ found
    · have several : xs.length ≠ 1 := related.length_eq ▸ single
      rcases iterate_several canonizesToo twins.named united others several plain.nested occupied
        (more + 1) validators with ended | ⟨z, ended, settledToo⟩
      · rw [ended] at found
        cases found
      rw [ended] at found
      cases found
      rcases iterate_several canonizes twins.namedToo isUnion forms single bound.nested occupiedToo
        (steps + 1) validators with ended | ⟨y, ended, settled⟩
      · rw [ended]
        rintro _ ⟨⟩
      rw [ended]
      rintro _ ⟨⟩
      exact ⟨rfl, twins.settled paired isUnion ready related (fun m member => (named m member).1)
        settled settledToo, notVariable_of_isUnion (settled.isUnion isUnion)⟩

end Onward

variable {room other : Nat}

/-- Steps from twins lead to twins. A variable that was replaced is looked up on the one side
alone. -/
theorem JoinsAlike.iterates (joins : S.JoinsAlike given bound plain excused room other)
    (steps : Nat) : S.IteratesAlike given bound plain excused room other steps := by
  induction steps with
  | zero => rintro _ _ _ _ _ _ _ _ ⟨⟩
  | succ steps ih =>
    intro more h x validators q twins found
    by_cases kept : h.isTypeVar = true → given h = Option.none
    case neg =>
      obtain ⟨isVariable, isGiven⟩ := Classical.not_imp.mp kept
      obtain ⟨a, isGiven⟩ := Option.ne_none_iff_exists'.mp isGiven
      obtain ⟨isBound, _, _, inner⟩ := twins.replaced paired isVariable isGiven
      have isNested : bound.nested.binding? h = some a := isBound
      rw [iterate_bound isVariable isNested]
      exact ih inner found
    case pos =>
      cases more with
      | zero => cases found
      | succ more =>
        cases isUnion : h.isUnion with
        | false => exact IteratesAlike.ofOther paired ih twins found kept isUnion
        | true => exact IteratesAlike.ofUnion paired ih twins found joins isUnion

variable (excuses : Excuses excused)
include excuses

theorem JoinsAlike.finds (joins : S.JoinsAlike given bound plain excused room other) :
    S.FindsAlike given bound plain excused (room + 1) (other + 1) := by
  intro h x twins q found
  have ends := joins.iterates paired maxSteps twins (canonicalWithin_nested.mp found)
  rw [reduce_succ]
  refine ends.bind fun last alike => ?_
  cases last with
  | none => exact excuses.recursion _ _
  | some r => exact alike r rfl

/-- A variable that was replaced by a union contributes to another union what the members of its
rendering contribute. -/
theorem JoinsAlike.contribution (joins : S.JoinsAlike given bound plain excused room other)
    {v a u : Hint} (twins : S.Twins given bound plain v u) (isVariable : v.isTypeVar = true)
    (isGiven : given v = some a) (isUnion : a.isUnion = true) :
    Reproduces excused (Rendered given) (contribution S.catalog (S.reduce bound (room + 1)) v)
      (unionForms S.catalog (S.reduce plain other) (flattenAll u.args)) := by
  obtain ⟨isBound, fills, _, inner⟩ := twins.replaced paired isVariable isGiven
  have notVariable := notVariable_of_isUnion isUnion
  have united : u.isUnion = true := (inner.args notVariable).1 ▸ isUnion
  have flat : S.Flat given bound plain (flattenAll a.args) (flattenAll u.args) := by
    rw [← flatten_union isUnion, ← flatten_union united]
    exact inner.flat paired
  have occupied : flattenAll a.args ≠ [] := fun empty => by
    have several := fills.several isUnion
    simp [empty] at several
  obtain ⟨steps, limit⟩ := exists_maxSteps
  intro g others
  have related := joins flat g others
  have ends : Ends excused
      (fun last => ∀ r, last = some r → Rendered given (memberForms S.catalog v r) g)
      (iterate S.catalog bound.nested (S.reduce bound room) (steps + 2) a []) := by
    rcases forms : unionForms S.catalog (S.reduce bound room) (flattenAll a.args) with e | f
    · rw [forms] at related
      rw [iterate_error isUnion occupied forms]
      exact related
    rw [forms] at related
    cases related with
    | none =>
      have rests : object.step S.catalog bound.nested (S.reduce bound room) =
          .ok ⟨Option.none, []⟩ := rfl
      rw [iterate_every isUnion occupied forms, iterate_of_rests rfl rests steps]
      rintro _ ⟨⟩
      exact .none
    | @some hs xs related =>
      have canonizes := canonizes_canonicalWithin S.catalog (S.counterparts paired).named room
      have canonizesToo :=
        canonizes_canonicalWithin S.catalog (S.counterparts paired).namedToo other
      have named := wellNamed_forms canonizesToo inner.named united others
      have several : hs.length ≠ 1 := by
        have atLeast := length_forms canonizes inner.namedToo isUnion forms
        have atLeastTwo := fills.several isUnion
        omega
      rcases iterate_several canonizes inner.namedToo isUnion forms several bound.nested occupied
        (steps + 2) [] with ended | ⟨y, ended, settled⟩
      · rw [ended]
        rintro _ ⟨⟩
      rw [ended]
      rintro _ ⟨⟩
      have twinsToo := inner.settled paired isUnion (inner.ready.forms paired isUnion forms) related
        (fun m member => (named m member).1) settled (.inl rfl)
      have united := settled.isUnion isUnion
      have notIgnorable : y.isIgnorable S.catalog = false := by
        cases y <;> first | rfl | cases united
      have contributed : memberForms S.catalog v ⟨y, []⟩ = some y.args := by
        simp [memberForms, notIgnorable, united]
      have each := (twinsToo.args (notVariable_of_isUnion united)).2
      rw [(isUnion_respelled u xs).2] at each
      rw [contributed]
      exact .some (each.imp fun _ _ twins => twins.renders)
  have isNested : bound.nested.binding? v = some a := isBound
  rw [Hint.contribution, reduce_succ, limit, iterate_bound isVariable isNested]
  refine (ends.bind fun last rendered => ?_).bind fun r rendered => rendered
  cases last with
  | none => exact excuses.recursion _ _
  | some r => exact rendered r rfl

omit paired excuses in
theorem FindsAlike.joins (finds : S.FindsAlike given bound plain excused room other)
    (contributions : ∀ {v a u : Hint}, S.Twins given bound plain v u → v.isTypeVar = true →
      given v = some a → a.isUnion = true →
      Reproduces excused (Rendered given) (contribution S.catalog (S.reduce bound room) v)
        (unionForms S.catalog (S.reduce plain other) (flattenAll u.args))) :
    S.JoinsAlike given bound plain excused room other := by
  intro hs xs flat
  induction flat with
  | nil => exact .ofOk (.some .nil)
  | one twins _ _ ih =>
    rw [unionForms_cons_eq, unionForms_cons_eq]
    refine reproduces_followedBy ?_ ih
    exact (finds twins).bind fun r q alike => .ofOk (alike.memberForms twins.renders)
  | many twins isVariable isGiven isUnion _ ih =>
    rw [unionForms_cons_eq, unionForms_append]
    exact reproduces_followedBy (contributions twins isVariable isGiven isUnion) ih

/-- Twins have twins for their canonical forms, with whatever room they are found. -/
theorem alike_canonicalWithin (room other : Nat) :
    S.FindsAlike given bound plain excused room other ∧
      S.JoinsAlike given bound plain excused room other := by
  induction room generalizing other with
  | zero =>
    have finds : S.FindsAlike given bound plain excused 0 other :=
      fun _ _ _ => .ofExcused (excuses.endless _)
    exact ⟨finds, finds.joins fun _ _ _ _ => .ofExcused (excuses.endless _)⟩
  | succ room ih =>
    have finds : S.FindsAlike given bound plain excused (room + 1) other := by
      cases other with
      | zero => exact fun _ _ _ => .ofError _
      | succ other => exact (ih other).2.finds paired excuses
    refine ⟨finds, finds.joins fun twins isVariable isGiven isUnion => ?_⟩
    exact (ih other).2.contribution paired excuses twins isVariable isGiven isUnion

end Corresponding

end Mirror
end HintCheck
