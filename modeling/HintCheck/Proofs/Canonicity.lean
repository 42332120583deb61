import HintCheck.Proofs.Nesting
import HintCheck.Proofs.Stability

/-!
Canonical forms are canonical. A canonical form takes no step, so it is of none of the kinds that
always stand for something else; a union in canonical form has several members, each of which stays
as it is. All of this is said of a way of reducing the members, and it holds whatever the room for
nested unions, because what is found with some room is found with more room.
-/
namespace HintCheck

/-- The forms that always stand for something else, or for nothing on their own. -/
def Form.isStandIn : Form → Bool
  | any | optional | annotated | typeGuard | typeIs | unpack => true
  | form => form.isQualifier

theorem Form.isStandIn_cases {form : Form} (isStandIn : form.isStandIn = true) :
    form.isQualifier = true ∨ form = .any ∨ form = .typeGuard ∨ form = .typeIs ∨
      form = .optional ∨ form = .annotated ∨ form = .unpack := by
  cases form <;> simp_all [Form.isStandIn, Form.isQualifier]

namespace Hint

variable {cat : Catalog} {ctx : Context} {names : Naming} {h : Hint}
  {reduce other : Hint → Except HintError Reduced}

/-! ### Wider ways of reducing -/

/-- What the first way of reducing finds, the second finds too. -/
def Widens (reduce other : Hint → Except HintError Reduced) : Prop :=
  ∀ m r, reduce m = .ok r → other m = .ok r

theorem unionForms_wider {flat : List Hint} {found : Option (List Hint)}
    (wider : ∀ m ∈ flat, ∀ r, reduce m = .ok r → other m = .ok r)
    (forms : unionForms cat reduce flat = .ok found) : unionForms cat other flat = .ok found := by
  induction flat generalizing found with
  | nil => exact forms
  | cons m rest ih =>
    rw [List.forall_mem_cons] at wider
    rw [unionForms_cons] at forms ⊢
    cases reduced : reduce m with
    | error e => rw [reduced] at forms; cases forms
    | ok r =>
      rw [reduced] at forms
      rw [wider.1 r reduced]
      simp only [bind, Except.bind] at forms ⊢
      cases contributed : memberForms cat m r with
      | none => rwa [contributed] at forms
      | some mine =>
        rw [contributed] at forms
        dsimp only at forms ⊢
        cases others : unionForms cat reduce rest with
        | error e => rw [others] at forms; cases forms
        | ok more => rwa [ih wider.2 others, ← others]

/-- A step of a hint that is no union looks at no member. -/
theorem step_other (notUnion : h.isUnion = false) (ctx : Context) :
    h.step cat ctx reduce = h.step cat ctx other := by
  cases h with
  | subscription label origin args =>
    cases origin with
    | cls c => rfl
    | form f =>
      have notForm : f.form ≠ .union := by simpa [isUnion] using notUnion
      unfold step stepSubscribed
      dsimp only
      split
      · rfl
      · split <;> first | rfl | exact absurd ‹_› notForm
  | union => cases notUnion
  | _ => rfl

/-- A step depends on what is found of the members of a union, and on nothing else about them. -/
theorem step_wider {s : Step}
    (wider : ∀ m ∈ flattenAll h.args, ∀ r, reduce m = .ok r → other m = .ok r)
    (stepped : h.step cat ctx reduce = .ok s) : h.step cat ctx other = .ok s := by
  cases isUnion : h.isUnion with
  | false => rwa [step_other isUnion ctx] at stepped
  | true =>
    rw [step_union ctx isUnion] at stepped ⊢
    by_cases empty : flattenAll h.args = []
    · simp only [stepUnion, empty] at stepped ⊢
      exact stepped
    rw [stepUnion_eq empty] at stepped ⊢
    cases forms : unionForms cat reduce (flattenAll h.args) with
    | error e => rw [forms] at stepped; cases stepped
    | ok found => rwa [unionForms_wider wider forms, ← forms]

/-- The steps from a hint come to an end. -/
inductive Finishes (cat : Catalog) (ctx : Context) (reduce : Hint → Except HintError Reduced) :
    Hint → Prop
  | rests {h : Hint} {found : List Validator}
      (stepped : h.step cat ctx reduce = .ok ⟨Option.none, found⟩) : Finishes cat ctx reduce h
  | moves {h next : Hint} {found : List Validator}
      (stepped : h.step cat ctx reduce = .ok ⟨some next, found⟩)
      (further : Finishes cat ctx reduce next) : Finishes cat ctx reduce h

theorem Finishes.wider (finishes : Finishes cat ctx reduce h) (wider : Widens reduce other) :
    Finishes cat ctx other h := by
  induction finishes with
  | rests stepped => exact .rests (step_wider (fun m _ => wider m) stepped)
  | moves stepped _ ih => exact .moves (step_wider (fun m _ => wider m) stepped) ih

theorem finishes_of_iterate {steps : Nat} {validators : List Validator} {r : Reduced}
    (done : iterate cat ctx reduce steps h validators = .ok (some r)) :
    Finishes cat ctx reduce h := by
  induction steps generalizing h validators with
  | zero => cases done
  | succ steps ih =>
    rw [iterate_succ] at done
    rcases stepped : h.step cat ctx reduce with e | ⟨_ | next, found⟩ <;> rw [stepped] at done
    · cases done
    · exact .rests stepped
    · exact .moves stepped (ih done)

theorem iterate_wider {steps : Nat} {validators : List Validator} {r : Reduced}
    (wider : Widens reduce other)
    (done : iterate cat ctx reduce steps h validators = .ok (some r)) :
    iterate cat ctx other steps h validators = .ok (some r) := by
  induction steps generalizing h validators with
  | zero => cases done
  | succ steps ih =>
    rw [iterate_succ] at done ⊢
    rcases stepped : h.step cat ctx reduce with e | ⟨_ | next, found⟩ <;> rw [stepped] at done
    · cases done
    · rw [step_wider (fun m _ => wider m) stepped]
      exact done
    · rw [step_wider (fun m _ => wider m) stepped]
      exact ih done

/-- A way of reducing that gets to the end takes the steps that a wider one takes. -/
theorem Finishes.iterate_eq (finishes : Finishes cat ctx reduce h) (wider : Widens reduce other)
    {steps : Nat} {validators : List Validator} {r : Reduced}
    (done : iterate cat ctx other steps h validators = .ok (some r)) :
    iterate cat ctx reduce steps h validators = .ok (some r) := by
  induction finishes generalizing steps validators with
  | rests stepped =>
    cases steps with
    | zero => cases done
    | succ steps =>
      rw [iterate_succ, step_wider (fun m _ => wider m) stepped] at done
      rw [iterate_succ, stepped]
      exact done
  | moves stepped _ ih =>
    cases steps with
    | zero => cases done
    | succ steps =>
      rw [iterate_succ, step_wider (fun m _ => wider m) stepped] at done
      rw [iterate_succ, stepped]
      exact ih done

/-! ### More room -/

theorem canonicalWithin_eq_ok {bound : Nat} {r : Reduced}
    (reduced : canonicalWithin cat (bound + 1) ctx h = .ok r) :
    ∃ start, h.placed cat ctx = .ok start ∧
      iterate cat ctx (canonicalWithin cat bound ctx.nested) maxSteps start [] = .ok (some r) := by
  rw [canonicalWithin_succ] at reduced
  cases placed : h.placed cat ctx with
  | error e => rw [placed] at reduced; cases reduced
  | ok start =>
    rw [placed] at reduced
    refine ⟨start, rfl, ?_⟩
    simp only [bind, Except.bind] at reduced
    rcases done : iterate cat ctx (canonicalWithin cat bound ctx.nested) maxSteps start [] with
      e | _ | q <;> rw [done] at reduced <;> cases reduced
    rfl

theorem canonicalWithin_of_iterate {bound : Nat} {r : Reduced} {start : Hint}
    (placed : h.placed cat ctx = .ok start)
    (done : iterate cat ctx (canonicalWithin cat bound ctx.nested) maxSteps start [] =
      .ok (some r)) :
    canonicalWithin cat (bound + 1) ctx h = .ok r := by
  rw [canonicalWithin_succ, placed]
  simp only [bind, Except.bind, done]
  rfl

/-- Inside a union, a hint is where it starts from. -/
theorem canonicalWithin_nested {bound : Nat} {r : Reduced} :
    canonicalWithin cat (bound + 1) ctx.nested h = .ok r ↔
      iterate cat ctx.nested (canonicalWithin cat bound ctx.nested) maxSteps h [] =
        .ok (some r) := by
  constructor
  · intro reduced
    obtain ⟨start, placed, done⟩ := canonicalWithin_eq_ok reduced
    cases placed
    exact done
  · intro done
    exact canonicalWithin_of_iterate rfl done

theorem canonicalWithin_widens_succ (cat : Catalog) (ctx : Context) (bound : Nat) :
    Widens (canonicalWithin cat bound ctx) (canonicalWithin cat (bound + 1) ctx) := by
  induction bound generalizing ctx with
  | zero => exact fun m r reduced => by cases reduced
  | succ bound ih =>
    intro m r reduced
    obtain ⟨start, placed, done⟩ := canonicalWithin_eq_ok reduced
    exact canonicalWithin_of_iterate placed (iterate_wider (ih ctx.nested) done)

theorem canonicalWithin_widens (cat : Catalog) (ctx : Context) {bound larger : Nat}
    (le : bound ≤ larger) :
    Widens (canonicalWithin cat bound ctx) (canonicalWithin cat larger ctx) := by
  induction le with
  | refl => exact fun m r => id
  | step _ ih => exact fun m r reduced => canonicalWithin_widens_succ cat ctx _ m r (ih m r reduced)

/-! ### What members contribute -/

theorem Stable.wider {m : Hint} (stable : Stable cat reduce m) (wider : Widens reduce other) :
    Stable cat other m := by
  obtain ⟨x, ⟨r, reduced, contributed⟩, equal⟩ := stable.stays
  exact ⟨stable.notUnion, x, ⟨r, wider m r reduced, contributed⟩, equal⟩

/-- Labels keep their meaning in canonical forms, if they have it in what variables are bound to. -/
theorem passes_wellNamed (bound : ∀ entry ∈ ctx.bindings, entry.2.WellNamed names) :
    Passes ctx (WellNamed names) (WellNamed names) where
  opens := by
    intro h x named opens
    cases opens with
    | binding _ isBound =>
      obtain ⟨id, _, found⟩ := Option.bind_eq_some_iff.mp isBound
      obtain ⟨entry, member, rfl⟩ := List.mem_map.mp (mem_of_lookup found)
      exact bound entry member
    | upper | newType | qualified | annotated => exact named.part _ (by simp [parts])
    | constraints => exact .ofArgs named.part
    | optional => exact .ofArgs (by simpa using ⟨named.part _ (by simp [parts]), .ofNone⟩)
    | superseded => exact .ofArgs named.part
    | enclosing | builtin => exact .ofClass _
  member named isUnion member := named.part _ (parts_union isUnion ▸ member)
  weaken := id
  respelled each := wellNamed_respelled each _
  object := .ofClass _

/-- A way of reducing under which canonical forms keep labels, unions have several members, and what
is contributed to a union stays as it is. -/
structure Canonizes (cat : Catalog) (names : Naming) (reduce : Hint → Except HintError Reduced) :
    Prop where
  named : ∀ {m : Hint} {r : Reduced}, m.WellNamed names → reduce m = .ok r →
    r.hint.WellNamed names
  several : ∀ {m : Hint} {r : Reduced}, m.WellNamed names → reduce m = .ok r →
    r.hint.isUnion = true → 2 ≤ r.hint.args.length
  stable : ∀ {m x : Hint}, m.WellNamed names → m.isUnion = false → Contributes cat reduce m x →
    Stable cat reduce x

theorem Canonizes.forms (canonizes : Canonizes cat names reduce) {m : Hint}
    (named : m.WellNamed names) (notUnion : m.isUnion = false) {r : Reduced} {forms : List Hint}
    (reduced : reduce m = .ok r) (contributed : memberForms cat m r = some forms) :
    forms ≠ [] ∧ ∀ x ∈ forms, x.WellNamed names ∧ Stable cat reduce x := by
  have namedForm := canonizes.named named reduced
  have each : forms ≠ [] ∧ ∀ x ∈ forms, x.WellNamed names := by
    unfold memberForms at contributed
    split at contributed
    · cases contributed
      exact ⟨by simp, by simpa using named⟩
    split at contributed
    · cases contributed
    split at contributed
    · next isUnion =>
      cases contributed
      refine ⟨fun empty => ?_, fun x member => namedForm.part x (parts_union isUnion ▸ member)⟩
      have several := canonizes.several named reduced isUnion
      rw [empty] at several
      simp at several
    · cases contributed
      exact ⟨by simp, by simpa using namedForm⟩
  exact ⟨each.1, fun x member => ⟨each.2 x member,
    canonizes.stable named notUnion ⟨r, forms, reduced, contributed, member⟩⟩⟩

theorem wellNamed_flattenAll (named : h.WellNamed names) (isUnion : h.isUnion = true) :
    ∀ m ∈ flattenAll h.args, m.WellNamed names :=
  forall_flattenAll fun p member => forall_flatten
    (fun _ isUnion named a member => named.part a (parts_union isUnion ▸ member))
    (named.part p (parts_union isUnion ▸ member))

/-- A union that takes no step has several members, and each of them stays as it is. -/
theorem Canonizes.of_rests (canonizes : Canonizes cat names reduce) (named : h.WellNamed names)
    (isUnion : h.isUnion = true) {found : List Validator}
    (rests : h.step cat ctx reduce = .ok ⟨Option.none, found⟩) :
    2 ≤ h.args.length ∧ ∀ a ∈ h.args, Stable cat reduce a :=
  stable_of_rests named isUnion rests fun m member _ _ reduced contributed =>
    canonizes.forms (wellNamed_flattenAll named isUnion m member) (mem_flattenAll member) reduced
      contributed

/-- A hint that is no union and takes no step is its own canonical form. -/
theorem iterate_of_rests (notUnion : h.isUnion = false) {found : List Validator}
    (rests : h.step cat ctx reduce = .ok ⟨Option.none, found⟩) (steps : Nat)
    (validators : List Validator) :
    iterate cat ctx other (steps + 1) h validators = .ok (some ⟨h, validators⟩) := by
  rw [iterate_succ, step_other notUnion ctx, rests]
  rfl

theorem canonizes_canonicalWithin (cat : Catalog)
    (bound : ∀ entry ∈ ctx.bindings, entry.2.WellNamed names) (room : Nat) :
    Canonizes cat names (canonicalWithin cat room ctx.nested) := by
  induction room with
  | zero =>
    refine ⟨fun _ reduced => ?_, fun _ reduced => ?_, fun _ _ contributes => ?_⟩
    · cases reduced
    · cases reduced
    · obtain ⟨_, _, reduced, _⟩ := contributes
      cases reduced
  | succ room ih =>
    have named {m : Hint} {r : Reduced} (named : m.WellNamed names)
        (reduced : canonicalWithin cat (room + 1) ctx.nested m = .ok r) :
        r.hint.WellNamed names := by
      have passes : Passes ctx.nested (WellNamed names) (WellNamed names) := passes_wellNamed bound
      have ends : Ends (fun _ => True) (fun r => r.hint.WellNamed names)
          (canonicalWithin cat (room + 1) ctx.nested m) :=
        passes.ofCanonicalWithin (fun start placed => by cases placed; exact named) (room + 1)
      rw [reduced] at ends
      exact ends
    have rests {m : Hint} {r : Reduced}
        (reduced : canonicalWithin cat (room + 1) ctx.nested m = .ok r) :
        ∃ found, r.hint.step cat ctx.nested (canonicalWithin cat room ctx.nested) =
          .ok ⟨Option.none, found⟩ :=
      rests_iterate (canonicalWithin_nested.mp reduced)
    refine ⟨named, fun namedMember reduced isUnion => ?_,
      fun namedMember notUnion contributes => ?_⟩
    · obtain ⟨found, rests⟩ := rests reduced
      exact (ih.of_rests (named namedMember reduced) isUnion rests).1
    · obtain ⟨r, forms, reduced, contributed, member⟩ := contributes
      obtain ⟨found, rests⟩ := rests reduced
      have whole := contributed
      unfold memberForms at contributed
      split at contributed
      · -- The member keeps its spelling for the sake of its validators.
        cases contributed
        obtain rfl := List.mem_singleton.mp member
        exact ⟨notUnion, _, ⟨r, reduced, whole⟩, structEq_refl _⟩
      split at contributed
      · cases contributed
      next notIgnorable =>
      split at contributed
      · next isUnion =>
        cases contributed
        exact ((ih.of_rests (named namedMember reduced) isUnion rests).2 _ member).wider
          (canonicalWithin_widens_succ cat ctx.nested room)
      · next isOther =>
        cases contributed
        obtain rfl := List.mem_singleton.mp member
        have isOther : r.hint.isUnion = false := by simpa using isOther
        have itself : canonicalWithin cat (room + 1) ctx.nested r.hint = .ok ⟨r.hint, []⟩ :=
          canonicalWithin_nested.mpr (iterate_of_rests isOther rests _ _)
        refine ⟨isOther, r.hint, ⟨⟨r.hint, []⟩, itself, ?_⟩, structEq_refl _⟩
        simp [memberForms, notIgnorable, isOther]

/-! ### Kinds that always stand for something else -/

/-- The hints that always stand for something else, or for nothing on their own. -/
def isStandIn : Hint → Bool
  | none _ | typeVar _ _ _ _ _ | paramSpec _ _ | typeVarTuple _ _ | newType _ _ _ _ => true
  | form f | subscription _ (.form f) _ => f.form.isStandIn
  | _ => false

theorem isDeprecated_standIn {f : SpecialForm} (isStandIn : f.form.isStandIn = true) :
    Spelling.isDeprecated f.text = false := by
  have current : f.form.isDeprecatedAlias = false := by
    generalize f.form = form at isStandIn
    cases form <;> first | rfl | cases isStandIn
  by_contra deprecated
  rw [Spelling.alias_of_isDeprecated (by simpa using deprecated)] at current
  cases current

theorem sign?_form (cat : Catalog) (f : SpecialForm) :
    (form f).sign? cat = Spelling.sign? f.text := by
  have text : (form f).text cat = f.text := rfl
  simp [sign?, kindSign?, origin?, text]

/-- A form that needs a subscription is not for results only. -/
theorem notReturnOnly {f : SpecialForm}
    (needs : f.form = .optional ∨ f.form = .annotated ∨ f.form = .unpack) (cat : Catalog) :
    ((form f).sign? cat).any (·.isIn .returnOnly) = false := by
  rw [sign?_form]
  obtain ⟨module, form⟩ := f
  dsimp only at needs
  rcases needs with rfl | rfl | rfl <;> cases module <;> decide +kernel

theorem stepForm_standIn {f : SpecialForm} (isStandIn : f.form.isStandIn = true) :
    stepForm cat ctx f ≠ .ok Option.none := by
  have current := isDeprecated_standIn isStandIn
  unfold stepForm
  dsimp only
  rw [current]
  rcases Form.isStandIn_cases isStandIn with isQualifier | isForm | isForm | isForm | needs
  · rw [isQualifier]
    split <;> rintro ⟨⟩
  · simp [isForm]
  · simp [isForm, Form.isQualifier]
  · simp [isForm, Form.isQualifier]
  · have results := notReturnOnly needs cat
    rcases needs with isForm | isForm | isForm <;> simp [isForm, Form.isQualifier, results]

theorem stepSubscribed_standIn {label : Option Nat} {f : SpecialForm} {args : List Hint}
    (isStandIn : f.form.isStandIn = true) (found : List Validator) :
    (subscription label (.form f) args).stepSubscribed cat reduce f args ≠
      .ok ⟨Option.none, found⟩ := by
  unfold stepSubscribed
  dsimp only
  rcases Form.isStandIn_cases isStandIn with isQualifier | isForm | isForm | isForm | isForm |
    isForm | isForm
  · rw [if_pos isQualifier]
    split <;> rintro ⟨⟩
  · simp [isForm, Form.isQualifier]
  · simp [isForm, Form.isQualifier]
  · simp [isForm, Form.isQualifier]
  · simp only [isForm, Form.isQualifier, Bool.false_eq_true, if_false]
    split <;> rintro ⟨⟩
  · simp only [isForm, Form.isQualifier, Bool.false_eq_true, if_false]
    split <;> rintro ⟨⟩
  · simp [isForm, Form.isQualifier]

/-- A hint that takes no step stands for nothing else. -/
theorem notStandIn_of_rests {found : List Validator}
    (rests : h.step cat ctx reduce = .ok ⟨Option.none, found⟩) : h.isStandIn = false := by
  by_contra standsIn
  rw [Bool.not_eq_false] at standsIn
  cases h with
  | none | typeVar | paramSpec | typeVarTuple | newType => cases rests
  | form f =>
    unfold step at rests
    dsimp only at rests
    cases stepped : stepForm cat ctx f with
    | error e => rw [stepped] at rests; cases rests
    | ok next =>
      rw [stepped] at rests
      cases rests
      exact stepForm_standIn standsIn stepped
  | subscription label origin args =>
    cases origin with
    | cls => cases standsIn
    | form f => exact stepSubscribed_standIn standsIn found rests
  | _ => cases standsIn

theorem placed_of_notStandIn (notVariadic : ctx.position.isVariadic = false)
    (notStandIn : h.isStandIn = false) : h.placed cat ctx = .ok h := by
  refine placed_of_notUnpack notVariadic fun isUnpack => ?_
  unfold subscriptedForm? at isUnpack
  split at isUnpack <;> simp_all [isStandIn, Form.isStandIn]

end Hint
end HintCheck
