import HintCheck.Proofs.Classification
import HintCheck.Proofs.Congruence

/-!
Classification of rendered hints. Hints with the same head have the same sign, whatever stands
inside them, and are classified alike: with the same origin, and with hints inside of which the ones
render the others. A variable that was replaced by an extension is brought to canonical form first,
which takes away some of the room for extensions.
-/
namespace HintCheck

open Hint

/-! ### Signs -/

namespace Hint

variable {cat : Catalog} {names : Naming} {h x : Hint}

/-- The sign depends on the head of a hint alone. -/
theorem SameHead.sign (cat : Catalog) (heads : SameHead h x) (left : h.WellNamed names)
    (right : x.WellNamed names) : h.sign? cat = x.sign? cat := by
  cases heads with
  | value l m v =>
    have spelled : (Hint.value l v).text cat = (Hint.value m v).text cat := by
      cases v <;> simp only [text]
    simp only [sign?, kindSign?, origin?, spelled]
  | @validator l m v w labels =>
    have spelled : (Hint.validator l v).text cat = (Hint.validator m w).text cat := by
      simp only [text, left.validator_eq right labels]
    simp only [sign?, kindSign?, origin?, spelled]
  | subscription l m origin xs ys =>
    have origins : (Hint.subscription l origin xs).origin? =
        (Hint.subscription m origin ys).origin? := by cases origin <;> rfl
    simp only [sign?, kindSign?, Spelling.sign?_subscription, origins]
  | params l m xs ys =>
    have spelled (label : Option Nat) (hints : List Hint) : (Hint.params label hints).text cat =
        "" ++ ("[" ++ (", ".intercalate (texts cat hints) ++ "]")) := by
      simp [text, String.append_assoc]
    simp only [sign?, kindSign?, origin?, spelled, Spelling.sign?_bracketed]
  | _ => simp only [sign?, kindSign?, Option.some_or]

theorem SameHead.origin (heads : SameHead h x) :
    h.origin? = x.origin? ∧ h.class? = x.class? ∧ h.isSubscripted = x.isSubscripted := by
  cases heads with
  | subscription _ _ origin => cases origin <;> exact ⟨rfl, rfl, rfl⟩
  | _ => exact ⟨rfl, rfl, rfl⟩

theorem any_congr {α β : Type} {p : α → Bool} {q : β → Bool} {xs : List α} {ys : List β}
    (each : xs.Forall₂ (fun x y => p x = q y) ys) : xs.any p = ys.any q := by
  induction each with
  | nil => rfl
  | cons head _ ih => rw [List.any_cons, List.any_cons, head, ih]

theorem classifyLiteral_eq (occupied : h.args ≠ []) :
    h.classifyLiteral cat = (do
      let values ← literalValues cat h h.args
      return { Classified.leaf .literal h Option.none with data := .literals values }) := by
  unfold classifyLiteral
  split
  · exact (occupied ‹_›).elim
  · cases literalValues cat h h.args <;> rfl

/-- A hint that is not replaced stands for the value that its rendering stands for. -/
theorem Renders.literalValue {given : Hint → Option Hint} (renders : Renders given h x)
    (kept : h.isTypeVar = true → given h = Option.none) :
    h.literalValue? cat = x.literalValue? cat := by
  cases renders with
  | given isVariable isGiven =>
    rw [kept isVariable] at isGiven
    cases isGiven
  | free => rfl
  | alike heads => cases heads <;> rfl

theorem literalValues_congr {hs xs : List Hint} {values : List Value}
    (each : hs.Forall₂ (fun a b => a.literalValue? cat = b.literalValue? cat) xs)
    (found : literalValues cat x xs = .ok values) : literalValues cat h hs = .ok values := by
  induction each generalizing values with
  | nil => exact found
  | @cons a b hs xs head _ ih =>
    rw [literalValues] at found ⊢
    rw [head]
    cases isValue : b.literalValue? cat with
    | none =>
      rw [isValue] at found
      cases found
    | some v =>
      rw [isValue] at found
      cases others : literalValues cat x xs with
      | error e =>
        rw [others] at found
        cases found
      | ok more =>
        rw [others] at found
        cases found
        simp only [ih others]

theorem canonical_extension (cat : Catalog) (ctx : Context) (label : Nat) (shown : String) :
    (extension label shown).canonical cat ctx.nested = .ok ⟨extension label shown, []⟩ := by
  have rests (reduce : Hint → Except HintError Reduced) :
      (extension label shown).step cat ctx.nested reduce = .ok ⟨Option.none, []⟩ := rfl
  exact canonical_of_rests rfl rfl (rests fun _ => .ok ⟨object, []⟩)

end Hint

namespace Mirror

variable {S : Mirror} {given : Hint → Option Hint} {bound plain : Context} {h x : Hint}
  {excused : HintError → Prop}

/-! ### Classified hints side by side -/

/-- The payloads of a classified hint and of its rendering. -/
inductive SameData (S : Mirror) (h x : Hint) :
    SignData Classified → SignData Classified → Prop
  | none : SameData S h x .none .none
  | literals (values : List Value) : SameData S h x (.literals values) (.literals values)
  | bare {k : ClassId} (named : h.class? = some k) :
    SameData S h x (.generic k [] (S.catalog.get k).genericBases)
      (.generic k [] (S.catalog.get k).genericBases)
  | given {k : ClassId} (origin : h.origin? = some k)
    (length : (S.catalog.get k).typeParams.length = h.args.length) :
    SameData S h x
      (.generic k ((S.catalog.get k).typeParams.zip h.args) (S.catalog.get k).genericBases)
      (.generic k ((S.catalog.get k).typeParams.zip x.args) (S.catalog.get k).genericBases)
  | typedDict (required : List String) :
    SameData S h x (.typedDict required) (.typedDict required)

variable (S given bound plain) in
/-- A hint and its rendering, classified alike. -/
inductive ClassifiedAlike : Classified → Classified → Prop
  | plain {c d : Classified} (sign : c.sign = d.sign) (origin : c.origin = d.origin)
    (twins : S.Twins given bound plain c.hint d.hint) (heads : SameHead c.hint d.hint)
    (inside : c.children.Forall₂ (S.Twins given bound plain) d.children)
    (data : S.SameData c.hint d.hint c.data d.data) : ClassifiedAlike c d
  | annotated {h x left right : Hint} {validators : List Validator} {c d : Classified}
    (inner : ClassifiedAlike c d) :
    ClassifiedAlike ⟨.annotated, h, [left], c.origin, .annotated validators c⟩
      ⟨.annotated, x, [right], d.origin, .annotated validators d⟩

theorem ClassifiedAlike.origin {c d : Classified}
    (alike : S.ClassifiedAlike given bound plain c d) : c.origin = d.origin := by
  induction alike with
  | plain _ origin => exact origin
  | annotated _ ih => exact ih

theorem ClassifiedAlike.sign {c d : Classified}
    (alike : S.ClassifiedAlike given bound plain c d) : c.sign = d.sign := by
  cases alike with
  | plain sign => exact sign
  | annotated => rfl

section Canonical
variable (twins : S.Twins given bound plain h x) (notVariable : h.isTypeVar = false)
include twins notVariable

theorem alike_leaf (sign : Sign) (origin : Option ClassId) :
    Reproduces excused (S.ClassifiedAlike given bound plain) (.ok (.leaf sign h origin))
      (.ok (.leaf sign x origin)) :=
  .ofOk (.plain rfl rfl twins (twins.renders.sameHead notVariable).1 .nil .none)

theorem alike_container (sign : Sign) (origin : Option ClassId) :
    Reproduces excused (S.ClassifiedAlike given bound plain) (.ok (.container sign h origin h.args))
      (.ok (.container sign x origin x.args)) :=
  .ofOk (.plain rfl rfl twins (twins.renders.sameHead notVariable).1 (twins.args notVariable).2
    .none)

theorem alike_typedDict :
    Reproduces excused (S.ClassifiedAlike given bound plain)
      (h.classifyTypedDict S.catalog) (x.classifyTypedDict S.catalog) := by
  have heads := (twins.renders.sameHead notVariable).1
  unfold classifyTypedDict
  rw [heads.origin.2.1]
  split
  · exact .ofError _
  · exact .ofOk (.plain rfl rfl twins heads .nil (.typedDict _))

theorem alike_bareGeneric :
    Reproduces excused (S.ClassifiedAlike given bound plain)
      (h.classifyBareGeneric S.catalog) (x.classifyBareGeneric S.catalog) := by
  have heads := (twins.renders.sameHead notVariable).1
  have classes := heads.origin.2.1
  unfold classifyBareGeneric
  rw [classes]
  cases named : x.class? with
  | none => exact .ofError _
  | some k =>
    exact .ofOk (.plain rfl rfl twins heads (twins.args notVariable).2
      (.bare (classes.trans named)))

theorem alike_userGeneric :
    Reproduces excused (S.ClassifiedAlike given bound plain)
      (h.classifyUserGeneric S.catalog) (x.classifyUserGeneric S.catalog) := by
  have heads := (twins.renders.sameHead notVariable).1
  have origins := heads.origin.1
  have each := (twins.args notVariable).2
  unfold classifyUserGeneric
  rw [origins]
  cases origin : x.origin? with
  | none => exact .ofError _
  | some k =>
    dsimp only
    rw [each.length_eq]
    split
    · exact .ofError _
    split
    · exact .ofError _
    · next equal =>
      have length := (not_not.mp equal).symm.trans each.length_eq.symm
      exact .ofOk (.plain rfl rfl twins heads each (.given (origins.trans origin) length))

theorem alike_literal (isLiteral : h.sign? S.catalog = some .literal) :
    Reproduces excused (S.ClassifiedAlike given bound plain)
      (h.classifyLiteral S.catalog) (x.classifyLiteral S.catalog) := by
  have heads := (twins.renders.sameHead notVariable).1
  have each := (twins.args notVariable).2
  by_cases empty : x.args = []
  · intro d found
    rw [classifyLiteral, empty] at found
    cases found
  have occupied : h.args ≠ [] := fun none => empty (List.length_eq_zero_iff.mp (by
    rw [← each.length_eq, none]
    rfl))
  have values : h.args.Forall₂
      (fun a b => a.literalValue? S.catalog = b.literalValue? S.catalog) x.args := by
    refine List.forall₂_iff_zip.mpr ⟨each.length_eq, fun {a b} member => ?_⟩
    exact ((List.forall₂_iff_zip.mp each).2 member).renders.literalValue
      (S.literal twins.ready isLiteral (List.of_mem_zip member).1)
  rw [classifyLiteral_eq occupied, classifyLiteral_eq empty]
  cases found : literalValues S.catalog x x.args with
  | error e => exact .ofError e
  | ok shown =>
    rw [literalValues_congr values found]
    exact .ofOk (.plain rfl rfl twins heads .nil (.literals shown))

variable (paired : S.Paired given bound plain)
include paired

theorem anyDots : h.args.any isDots = x.args.any isDots :=
  any_congr ((twins.args notVariable).2.imp fun _ _ twins => (twins.sameRole paired).dots)

theorem alike_byArity (sign : Sign) (origin : Option ClassId) :
    Reproduces excused (S.ClassifiedAlike given bound plain)
      (h.classifyByArity S.catalog sign origin) (x.classifyByArity S.catalog sign origin) := by
  have container : Reproduces excused (S.ClassifiedAlike given bound plain)
      (.ok (.container sign h origin h.args)) (.ok (.container sign x origin x.args)) :=
    alike_container twins notVariable sign origin
  have subscribed := (twins.renders.sameHead notVariable).1.origin.2.2
  have each := (twins.args notVariable).2
  unfold classifyByArity
  dsimp only
  rw [subscribed, each.length_eq, anyDots twins notVariable paired]
  split
  · exact .ofError _
  split
  · exact alike_leaf twins notVariable sign origin
  split
  case h_4 => exact container
  all_goals
    split
    · exact .ofError _
    split
    · exact .ofError _
    · exact container

theorem alike_tuple (origin : Option ClassId) :
    Reproduces excused (S.ClassifiedAlike given bound plain)
      (h.classifyTuple S.catalog origin) (x.classifyTuple S.catalog origin) := by
  have heads := (twins.renders.sameHead notVariable).1
  have each := (twins.args notVariable).2
  have dots := anyDots twins notVariable paired
  unfold classifyTuple
  dsimp only
  revert each dots
  generalize h.args = hs
  generalize x.args = xs
  intro each dots
  have fixed : Reproduces excused (S.ClassifiedAlike given bound plain)
      (if hs.any isDots then
        .error (.malformed (h.text S.catalog)
          "'...' only valid as the last of two tuple arguments")
      else .ok (.container .tupleFixed h origin hs))
      (if xs.any isDots then
        .error (.malformed (x.text S.catalog)
          "'...' only valid as the last of two tuple arguments")
      else .ok (.container .tupleFixed x origin xs)) := by
    rw [dots]
    split
    · exact .ofError _
    · exact .ofOk (.plain rfl rfl twins heads each .none)
  rcases each with _ | ⟨first, _ | ⟨second, _ | _⟩⟩
  · exact fixed
  · exact fixed
  · dsimp only
    rw [(second.sameRole paired).dots, (first.sameRole paired).dots]
    split
    · exact fixed
    split
    · exact .ofError _
    · exact .ofOk (.plain rfl rfl twins heads (.cons first .nil) .none)
  · exact fixed

/-- Hints in canonical form are classified alike. -/
theorem alike_classifyCanonical :
    Reproduces excused (S.ClassifiedAlike given bound plain)
      (h.classifyCanonical S.catalog) (x.classifyCanonical S.catalog) := by
  have heads := (twins.renders.sameHead notVariable).1
  obtain ⟨origins, classes, _⟩ := heads.origin
  have signs := heads.sign S.catalog twins.namedToo twins.named
  unfold classifyCanonical
  rw [signs, origins, classes]
  cases spelled : x.sign? S.catalog with
  | none => exact alike_userGeneric twins notVariable
  | some sign =>
    rw [spelled] at signs
    have lengths : h.args.isEmpty = x.args.isEmpty := by
      rw [Bool.eq_iff_iff, List.isEmpty_iff_length_eq_zero, List.isEmpty_iff_length_eq_zero,
        (twins.args notVariable).2.length_eq]
    dsimp only
    split
    case h_1 | h_2 | h_3 | h_4 => exact alike_leaf twins notVariable _ _
    case h_5 | h_6 =>
      rw [lengths]
      split
      · exact .ofError _
      · exact alike_container twins notVariable _ _
    case h_7 => exact alike_literal twins notVariable signs
    case h_8 | h_9 | h_10 => exact alike_tuple twins notVariable paired _
    case h_11 => exact alike_typedDict twins notVariable
    case h_12 => exact alike_bareGeneric twins notVariable
    case h_13 => exact alike_byArity twins notVariable paired _ _

end Canonical

/-! ### Classification -/

section Classification
variable (paired : S.Paired given bound plain) (excuses : Excuses excused)
include paired excuses

theorem Twins.canonical (twins : S.Twins given bound plain h x) :
    Reproduces excused (S.FormsAlike given bound plain) (h.canonical S.catalog bound.nested)
      (x.canonical S.catalog plain.nested) :=
  (alike_canonicalWithin paired excuses _ _).1 twins

omit excuses in
/-- What an extension stands for reads alike on both sides. -/
theorem Twins.ofSubstitute {label : Nat} {shown : String} {d : Hint}
    (ready : S.Ready given bound plain (extension label shown))
    (found : S.substitutes.lookup label = some d) : S.Twins given bound plain d d := by
  obtain ⟨readyToo, renders⟩ := S.substitute paired ready found
  exact ⟨readyToo, renders, S.named readyToo⟩

omit paired excuses in
theorem ClassifiedAlike.annotate {r q : Reduced} {c d : Classified}
    (alike : S.ClassifiedAlike given bound plain c d) (same : r.validators = q.validators) :
    S.ClassifiedAlike given bound plain (h.annotate r c) (x.annotate q d) := by
  unfold Hint.annotate
  rw [same]
  split
  · exact alike
  · exact .annotated alike

variable (S given bound plain excused) in
omit paired excuses in
/-- Twins are classified alike, with room for some extensions. -/
def ClassifiesAlike (room other : Nat) : Prop :=
  ∀ ⦃h x : Hint⦄, S.Twins given bound plain h x →
    Reproduces excused (S.ClassifiedAlike given bound plain)
      (h.classifyWithin S.catalog S.substitutes room bound.nested)
      (x.classifyWithin S.catalog S.substitutes other plain.nested)

/-- What canonical forms leave is classified alike. -/
theorem alike_classifyReduced {room other : Nat} (twins : S.Twins given bound plain h x)
    (notVariable : h.isTypeVar = false)
    (fewer : ∀ {less few : Nat}, room = less + 1 →
      S.ClassifiesAlike given bound plain excused less few) :
    Reproduces excused (S.ClassifiedAlike given bound plain)
      (classifyReduced S.catalog S.substitutes room bound.nested h)
      (classifyReduced S.catalog S.substitutes other plain.nested x) := by
  have canonical : Reproduces excused (S.ClassifiedAlike given bound plain)
      (h.classifyCanonical S.catalog) (x.classifyCanonical S.catalog) :=
    alike_classifyCanonical twins notVariable paired
  cases (twins.renders.sameHead notVariable).1 with
  | extension label shown =>
    cases room with
    | zero => exact .ofExcused (excuses.recursion _ _)
    | succ room =>
      cases other with
      | zero => exact .ofError _
      | succ other => exact fewer rfl twins
  | _ => exact canonical

theorem alike_classifyProper {room other : Nat} (twins : S.Twins given bound plain h x)
    (proper : h.isProper = true) (properToo : x.isProper = true)
    (fewer : ∀ {less few : Nat}, room = less + 1 →
      S.ClassifiesAlike given bound plain excused less few) :
    Reproduces excused (S.ClassifiedAlike given bound plain)
      (h.classifyWithin S.catalog S.substitutes room bound.nested)
      (x.classifyWithin S.catalog S.substitutes other plain.nested) := by
  rw [classifyWithin_proper proper, classifyWithin_proper properToo]
  refine (twins.canonical paired excuses).bind fun r q alike => ?_
  refine (alike_classifyReduced paired excuses alike.twins alike.notVariable fewer).bind
    fun c d inner => .ofOk (inner.annotate alike.validators)

/-- A variable that was replaced by an extension has the extension for its canonical form. -/
theorem alike_classifyExtension {room other : Nat} {label : Nat} {shown : String}
    (twins : S.Twins given bound plain h (extension label shown))
    (fewer : ∀ {less few : Nat}, room = less + 1 →
      S.ClassifiesAlike given bound plain excused less few) :
    Reproduces excused (S.ClassifiedAlike given bound plain)
      (h.classifyWithin S.catalog S.substitutes room bound.nested)
      ((extension label shown).classifyWithin S.catalog S.substitutes other plain.nested) := by
  cases isVariable : h.isTypeVar with
  | false =>
    cases (twins.renders.sameHead isVariable).1 with
    | extension =>
      cases room with
      | zero => exact .ofExcused (excuses.recursion _ _)
      | succ room =>
        cases other with
        | zero => exact .ofError _
        | succ other =>
          rw [classifyWithin_extension, classifyWithin_extension]
          cases found : S.substitutes.lookup label with
          | none => exact .ofError _
          | some d => exact fewer rfl (.ofSubstitute paired twins.ready found)
  | true =>
    have proper : h.isProper = true := by
      cases h <;> first | rfl | cases isVariable
    have itself := canonical_extension S.catalog plain label shown
    intro d classified
    rw [classifyWithin_proper proper]
    refine (twins.canonical paired excuses _ itself).bind fun r alike => ?_
    obtain ⟨hint, validators⟩ := r
    obtain ⟨rfl, inner, notVariable⟩ := alike
    dsimp only at inner notVariable
    cases (inner.renders.sameHead notVariable).1 with
    | extension =>
      cases room with
      | zero => exact excuses.recursion _ _
      | succ room => exact (fewer rfl inner d classified).bind fun c alike => alike

theorem alike_classifyWithin (room other : Nat) :
    S.ClassifiesAlike given bound plain excused room other := by
  induction room using Nat.strongRecOn generalizing other with
  | ind room ih =>
    intro h x twins
    have fewer {less few : Nat} (isRoom : room = less + 1) :
        S.ClassifiesAlike given bound plain excused less few :=
      ih less (by omega) few
    have proper (properToo : x.isProper = true) : h.isProper = true := by
      cases isVariable : h.isTypeVar with
      | true => cases h <;> first | rfl | cases isVariable
      | false =>
        cases (twins.renders.sameHead isVariable).1 <;> first | rfl | cases properToo
    cases x with
    | value | validator | params => cases other <;> exact .ofError _
    | extension => exact alike_classifyExtension paired excuses twins fewer
    | _ => exact alike_classifyProper paired excuses twins (proper rfl) rfl fewer

end Classification
end Mirror
end HintCheck
