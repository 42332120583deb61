import HintCheck.Proofs.Independence
import HintCheck.Proofs.Simplification
import Mathlib.Data.List.TakeWhile

namespace HintCheck

/-! ### Signs -/

/-- The sign of the subscriptions of what is spelled so. -/
def Spelling.subscribedSign? (spelling : String) : Option Sign :=
  (free.lookup spelling).or (subscribed.lookup spelling)

/-- What stands behind a bracket is not looked at. -/
theorem Spelling.stem_of_bracket {text : String} (bracket : '[' ∈ text.toList) (rest : String) :
    stem (text ++ rest) = stem text := by
  unfold stem
  rw [String.toList_append, List.takeWhile_append]
  split
  next whole =>
    have same := (List.takeWhile_prefix _).eq_of_length whole
    rw [← same] at bracket
    exact absurd (List.mem_takeWhile_imp bracket) (by decide)
  next => rfl

theorem Spelling.sign?_bracketed (text rest : String) :
    sign? (text ++ ("[" ++ rest)) = subscribedSign? (stem text) := by
  have known : stem (text ++ ("[" ++ rest)) = stem text := by
    by_cases bracket : '[' ∈ text.toList
    · exact stem_of_bracket bracket _
    · rw [stem_append bracket, stem_eq_self bracket]
      simp [String.toList_append]
  unfold sign?
  simp only [known]
  simp [String.toList_append, subscribedSign?]

theorem Hint.text_subscription (cat : Catalog) (label : Option Nat) (origin : Subscriptable)
    (args : List Hint) :
    ∃ rest, (subscription label origin args).text cat = origin.text cat ++ ("[" ++ rest) := by
  rw [Hint.text]
  split
  · exact ⟨"()]", rfl⟩
  · exact ⟨", ".intercalate (Hint.texts cat args) ++ "]", by simp only [String.append_assoc]⟩

/-- A subscription is looked up by what it is a subscription of. -/
theorem Spelling.sign?_subscription (cat : Catalog) (label : Option Nat) (origin : Subscriptable)
    (args : List Hint) :
    Spelling.sign? ((Hint.subscription label origin args).text cat) =
      subscribedSign? (stem (origin.text cat)) := by
  obtain ⟨rest, text⟩ := Hint.text_subscription cat label origin args
  rw [text, sign?_bracketed]

/-- A builtin class whose subscriptions have a sign for which `holds` is true. -/
def Builtin.hasSign (b : Builtin) (holds : Sign → Bool) : Bool :=
  !b.toClass.text.toList.contains '[' && (Spelling.subscribedSign? b.toClass.text).any holds

namespace Hint

variable {cat : Catalog}

theorem sign?_subscription (label : Option Nat) (origin : Subscriptable) (args : List Hint)
    {sign : Sign} (noBracket : '[' ∉ (origin.text cat).toList)
    (known : Spelling.subscribedSign? (origin.text cat) = some sign) :
    (subscription label origin args).sign? cat = some sign := by
  simp only [sign?, kindSign?, Spelling.sign?_subscription, Spelling.stem_eq_self noBracket, known,
    Option.none_or, Option.some_or]

theorem sign?_generic (cat : Catalog) {b : Builtin} {holds : Sign → Bool}
    (hasSign : b.hasSign holds = true) (label : Option Nat) (args : List Hint) :
    ∃ sign, (generic label b args).sign? cat = some sign ∧ holds sign = true := by
  rw [Builtin.hasSign, Bool.and_eq_true] at hasSign
  obtain ⟨sign, known, holds⟩ := Option.any_eq_true .. |>.mp hasSign.2
  have noBracket : '[' ∉ b.toClass.text.toList := by simpa using hasSign.1
  exact ⟨sign, sign?_subscription label (.cls b) args noBracket known, holds⟩

theorem hasSign_items : ∀ b ∈ Satisfaction.itemContainers,
    b.hasSign (fun sign => sign.isIn .singleArgContainer && sign != .tupleVariadic) = true := by
  decide

theorem hasSign_pairs : ∀ b ∈ Satisfaction.pairContainers,
    b.hasSign (fun sign => sign.isIn .mapping) = true := by
  decide

theorem hasSign_tuple : Builtin.tuple.hasSign (fun sign => sign == .tuple) = true := by
  decide

theorem sign_of_union {f : SpecialForm} (isUnion : f.form = .union)
    (home : f.module ≠ .dataclasses) : Spelling.subscribedSign? f.text = some .union := by
  obtain ⟨module, form⟩ := f
  subst isUnion
  cases module with
  | typing | extensions => decide
  | dataclasses => exact (home rfl).elim

theorem sign_of_literal {f : SpecialForm} (isLiteral : f.form = .literal)
    (home : f.module ≠ .dataclasses) : Spelling.subscribedSign? f.text = some .literal := by
  obtain ⟨module, form⟩ := f
  subst isLiteral
  cases module with
  | typing | extensions => decide
  | dataclasses => exact (home rfl).elim

/-! ### Classification -/

theorem Simple.notDots {h : Hint} (simple : h.Simple cat) : h.isDots = false := by
  cases simple <;> rfl

theorem Simple.noDots {hints : List Hint} (each : ∀ h ∈ hints, h.Simple cat) :
    hints.any isDots = false :=
  List.any_eq_false.mpr fun h member => by simp [(each h member).notDots]

theorem classifyCanonical_plain {c : ClassId} (isPlain : Cache.isPlainClass cat c = true) :
    (cls c).classifyCanonical cat = .ok (.leaf .isinstanceable (cls c) (some c)) := by
  simp only [Cache.isPlainClass, Bool.and_eq_true, Bool.not_eq_true'] at isPlain
  obtain ⟨⟨⟨⟨notRoot, notDict⟩, _⟩, _⟩, noBases⟩ := isPlain
  simp [classifyCanonical, sign?, kindSign?, notRoot, notDict, noBases, origin?, class?]

theorem classifyCanonical_root {c : ClassId} (isRoot : (cat.get c).root = true) :
    (cls c).classifyCanonical cat = .ok (.leaf .ignorable (cls c) (some c)) := by
  simp [classifyCanonical, sign?, kindSign?, isRoot, origin?, class?]

theorem classifyCanonical_container {h : Hint} {sign : Sign} (spelled : h.sign? cat = some sign)
    (isContainer : sign.isIn .singleArgContainer = true ∨ sign.isIn .mapping = true)
    (notTuple : sign ≠ .tupleVariadic) :
    h.classifyCanonical cat = h.classifyByArity cat sign (h.origin?.or h.class?) := by
  rw [classifyCanonical, spelled]
  cases sign <;>
    first
    | rfl
    | exact (notTuple rfl).elim
    | simp [Sign.isIn, Sign.strategy] at isContainer

/-- The number of arguments that containers take. -/
theorem arity_container {sign : Sign} :
    (sign.isIn .singleArgContainer = true → sign.strategy.arity = .one) ∧
      (sign.isIn .mapping = true → sign.strategy.arity = .two) := by
  cases sign <;> simp [Sign.isIn, Sign.strategy]

theorem notReduced_container {sign : Sign}
    (isContainer : sign.isIn .singleArgContainer = true ∨ sign.isIn .mapping = true) :
    sign.isIn .reduced = false := by
  cases sign <;> simp_all [Sign.isIn, Sign.strategy]

theorem classifyCanonical_items (label : Option Nat) {b : Builtin}
    (isContainer : b ∈ Satisfaction.itemContainers) {item : Hint} (simple : item.Simple cat) :
    ∃ sign, (generic label b [item]).sign? cat = some sign ∧
      sign.isIn .singleArgContainer = true ∧ (generic label b [item]).classifyCanonical cat =
        .ok (.container sign (generic label b [item]) (some b) [item]) := by
  obtain ⟨sign, spelled, holds⟩ :=
    sign?_generic cat (hasSign_items b isContainer) label [item]
  rw [Bool.and_eq_true, bne_iff_ne] at holds
  refine ⟨sign, spelled, holds.1, ?_⟩
  rw [classifyCanonical_container spelled (.inl holds.1) holds.2]
  simp [classifyByArity, notReduced_container (.inl holds.1), arity_container.1 holds.1, generic,
    args, isSubscripted, origin?, simple.notDots]

theorem classifyCanonical_pairs (label : Option Nat) {b : Builtin}
    (isContainer : b ∈ Satisfaction.pairContainers) {key value : Hint} (simpleKey : key.Simple cat)
    (simpleValue : value.Simple cat) :
    ∃ sign, sign.isIn .mapping = true ∧ (generic label b [key, value]).classifyCanonical cat =
      .ok (.container sign (generic label b [key, value]) (some b) [key, value]) := by
  obtain ⟨sign, spelled, holds⟩ :=
    sign?_generic cat (hasSign_pairs b isContainer) label [key, value]
  refine ⟨sign, holds, ?_⟩
  have notTuple : sign ≠ .tupleVariadic := by rintro rfl; cases holds
  rw [classifyCanonical_container spelled (.inr holds) notTuple]
  simp [classifyByArity, notReduced_container (.inr holds), arity_container.2 holds, generic, args,
    isSubscripted, origin?, simpleKey.notDots, simpleValue.notDots]

theorem classifyCanonical_tuple (label : Option Nat) (items : List Hint) :
    (generic label Builtin.tuple items).classifyCanonical cat =
      (generic label Builtin.tuple items).classifyTuple cat (some Builtin.tuple) := by
  obtain ⟨sign, spelled, holds⟩ := sign?_generic cat hasSign_tuple label items
  rw [classifyCanonical, spelled, beq_iff_eq.mp holds]
  rfl

theorem classifyTuple_fixed (label : Option Nat) {items : List Hint}
    (each : ∀ h ∈ items, h.Simple cat) (origin : Option ClassId) :
    (generic label Builtin.tuple items).classifyTuple cat origin =
      .ok (.container .tupleFixed (generic label Builtin.tuple items) origin items) := by
  have noDots := Simple.noDots each
  unfold classifyTuple
  simp only [generic, args, noDots]
  split
  case h_1 item last =>
    rw [(each last (by simp)).notDots]
    rfl
  case h_2 => rfl

theorem classifyTuple_variadic (label dots : Option Nat) {item : Hint} (simple : item.Simple cat)
    (origin : Option ClassId) :
    (tupleOf label dots item).classifyTuple cat origin =
      .ok (.container .tupleVariadic (tupleOf label dots item) origin [item]) := by
  have isDots : (value dots .ellipsis).isDots = true := rfl
  simp [classifyTuple, tupleOf, generic, args, isDots, simple.notDots]

theorem literalValues_eq {members : List Hint} (h : Hint)
    (each : ∀ m ∈ members, (m.literalValue? cat).isSome) :
    literalValues cat h members = .ok (members.filterMap (literalValue? cat)) := by
  induction members with
  | nil => rfl
  | cons m rest ih =>
    obtain ⟨v, isValue⟩ := Option.isSome_iff_exists.mp (each m (by simp))
    rw [literalValues, isValue, ih fun m member => each m (by simp [member]),
      List.filterMap_cons_some isValue]

theorem classifyCanonical_literal (label : Option Nat) {f : SpecialForm}
    (isLiteral : f.form = .literal) (home : f.module ≠ .dataclasses) {members : List Hint}
    (nonempty : members ≠ []) (each : ∀ m ∈ members, (m.literalValue? cat).isSome) :
    (subscription label (.form f) members).classifyCanonical cat =
      .ok { Classified.leaf .literal (subscription label (.form f) members) Option.none with
        data := .literals (members.filterMap (literalValue? cat)) } := by
  rw [classifyCanonical,
    sign?_subscription label (.form f) members f.noBracket (sign_of_literal isLiteral home)]
  obtain ⟨first, rest, rfl⟩ := List.exists_cons_of_ne_nil nonempty
  simp only [classifyLiteral, args, literalValues_eq _ each]

theorem classifyCanonical_union {h : Hint} (simple : h.Simple cat) (united : h.isUnion = true) :
    h.classifyCanonical cat = .ok (.container .union h Option.none h.args) := by
  have spelled : h.sign? cat = some .union := by
    cases simple with
    | pipe => rfl
    | union label isUnion home =>
      exact sign?_subscription label (.form _) _ (SpecialForm.noBracket _)
        (sign_of_union isUnion home)
    | deprecated label standsFor home =>
      exact sign?_subscription label (.form _) _ (SpecialForm.noBracket _)
        (sign_of_union (beq_iff_eq.mp united) home)
    | _ => simp_all [Hint.isUnion, Form.isQualifier, generic, tupleOf]
  have nonempty := (simple.args_of_union united).1
  rw [classifyCanonical, spelled]
  simp [nonempty]

theorem Simple.isProper {h : Hint} (simple : h.Simple cat) : h.isProper = true := by
  cases simple <;> rfl

theorem classifyReduced_settled {h : Hint} (settled : h.isSettled = true) (subs : Substitutes)
    (room : Nat) (ctx : Context) :
    classifyReduced cat subs room ctx h = h.classifyCanonical cat := by
  cases h with
  | extension => cases settled
  | _ => rfl

end Hint
end HintCheck
