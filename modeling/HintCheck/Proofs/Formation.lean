import HintCheck.Proofs.Canonicity
import HintCheck.Proofs.Faults
import HintCheck.Proofs.Sessions
import HintCheck.Proofs.Spellings

/-!
Classified hints are well formed. A hint in canonical form has few of the signs that spellings can
have, because most forms are replaced before they are looked at; what is left says enough to build a
check. So building a check fails only where a hint inside cannot be classified or is nested too
deep. All of this holds as long as no class defined is mistaken for a spelling.
-/
namespace HintCheck

/-! ### The signs of canonical forms -/

/-- The forms that have a sign and stand for nothing else. -/
theorem Form.cases_of_sign? {f : Form} {sign : Sign} (signOf : f.sign? = some sign)
    (notStandIn : f.isStandIn = false) (current : f.isDeprecatedAlias = false)
    (notBase : f ≠ .generic ∧ f ≠ .protocol) :
    f = .union ∨ f = .literal ∨ f = .noReturn ∨ f = .never ∨ f = .selfType ∨
      f = .literalString := by
  cases f <;> first
    | exact absurd notStandIn (by decide)
    | exact absurd current (by decide)
    | exact absurd notBase (by decide)
    | decide
    | cases signOf

namespace Hint

variable {cat : Catalog} {ctx : Context} {reduce : Hint → Except HintError Reduced} {h : Hint}
  {found : List Validator} {sign : Sign} {f : SpecialForm}

theorem subscribedSign?_of_form (spelled : (form f).sign? cat = some sign) :
    Spelling.subscribedSign? f.text = some sign := by
  rw [sign?_form, Spelling.sign?, Spelling.stem_eq_self f.noBracket] at spelled
  simp only [List.contains_iff_mem, f.noBracket, if_false, Option.or_none] at spelled
  rw [Spelling.subscribedSign?, spelled, Option.some_or]

theorem notDataclasses_of_home (home : f.module ∈ Spelling.modulesOf f.form)
    (superseded : f.form.isDeprecatedAlias = true) : f.module ≠ .dataclasses := by
  intro isDataclasses
  rw [isDataclasses, Spelling.modulesOf] at home
  split at home
  · next isInitVar =>
    rw [isInitVar] at superseded
    cases superseded
  · simp at home

/-- A bare form in canonical form that has a sign is one for results. -/
theorem sign_of_rests_form (rests : (form f).step cat ctx reduce = .ok ⟨Option.none, found⟩)
    (spelled : (form f).sign? cat = some sign) : sign = .noReturn := by
  obtain ⟨signOf, home⟩ := Spelling.sign_of_form (subscribedSign?_of_form spelled)
  have notStandIn : f.form.isStandIn = false := notStandIn_of_rests rests
  have stays : stepForm cat ctx f = .ok Option.none := by
    unfold step at rests
    dsimp only at rests
    cases stepped : stepForm cat ctx f <;> rw [stepped] at rests <;> cases rests
    rfl
  have notBase : f.form ≠ .generic ∧ f.form ≠ .protocol := by
    constructor <;> intro isBase <;> simp [stepForm, isBase] at stays
  have current : f.form.isDeprecatedAlias = false := by
    by_contra superseded
    rw [Bool.not_eq_false] at superseded
    have deprecated := isDeprecated_alias superseded (notDataclasses_of_home home superseded)
    simp only [Form.isDeprecatedAlias, Bool.and_eq_true] at superseded
    obtain ⟨origin, isOrigin⟩ := Option.isSome_iff_exists.mp superseded.2
    simp only [stepForm, notBase, deprecated, isOrigin] at stays
    split at stays <;> cases stays
  have notDeprecated : Spelling.isDeprecated f.text = false := by
    by_contra deprecated
    rw [Spelling.alias_of_isDeprecated (by simpa using deprecated)] at current
    cases current
  rcases Form.cases_of_sign? signOf notStandIn current notBase with
    isForm | isForm | isForm | isForm | isForm | isForm <;> rw [isForm] at signOf <;> cases signOf
  case inr.inr.inl | inr.inr.inr.inl => rfl
  all_goals
    simp [stepForm, isForm, notDeprecated, spelled, Form.isQualifier, Sign.isIn, Sign.strategy]
      at stays
  split at stays <;> cases stays

/-- A subscribed form in canonical form whose spelling has a sign is a union or a literal. -/
theorem sign_of_rests_subscribed {label : Option Nat} {args : List Hint}
    (rests : (subscription label (.form f) args).step cat ctx reduce = .ok ⟨Option.none, found⟩)
    (known : Spelling.subscribedSign? f.text = some sign) : sign = .union ∨ sign = .literal := by
  obtain ⟨signOf, home⟩ := Spelling.sign_of_form known
  have notStandIn : f.form.isStandIn = false := notStandIn_of_rests rests
  have stays : (subscription label (.form f) args).stepSubscribed cat reduce f args =
    .ok ⟨Option.none, found⟩ := rests
  have notBase : f.form ≠ .generic ∧ f.form ≠ .protocol := by
    constructor <;> intro isBase <;> simp [stepSubscribed, isBase, Form.isQualifier] at stays
  have current : f.form.isDeprecatedAlias = false := by
    by_contra superseded
    rw [Bool.not_eq_false] at superseded
    have hasOrigin := superseded
    simp only [Form.isDeprecatedAlias, Bool.and_eq_true] at hasOrigin
    obtain ⟨origin, isOrigin⟩ := Option.isSome_iff_exists.mp hasOrigin.2
    rw [stepSubscribed_alias isOrigin superseded (notDataclasses_of_home home superseded)] at stays
    cases stays
  rcases Form.cases_of_sign? signOf notStandIn current notBase with
    isForm | isForm | isForm | isForm | isForm | isForm <;> rw [isForm] at signOf <;> cases signOf
  case inl => exact .inl rfl
  case inr.inl => exact .inr rfl
  all_goals simp [stepSubscribed, isForm, Form.isQualifier] at stays

/-- A sign that leads to a complete classified hint. -/
structure Suits (h : Hint) (sign : Sign) : Prop where
  notOptional : sign ≠ .optional
  notAnnotated : sign ≠ .annotated
  origin : (h.origin?.or h.class?).isSome = true ∨
    sign = .union ∨ sign = .literal ∨ sign = .noReturn ∨ sign = .forwardRef
  reference : sign = .forwardRef → h.isReference = true

theorem suits_of_origin
    (other : sign ≠ .optional ∧ sign ≠ .annotated ∧ sign ≠ .forwardRef)
    (origin : (h.origin?.or h.class?).isSome = true ∨
      sign = .union ∨ sign = .literal ∨ sign = .noReturn) : h.Suits sign where
  notOptional := other.1
  notAnnotated := other.2.1
  origin := origin.imp_right fun free => by
    rcases free with isUnion | isLiteral | isResult
    · exact .inl isUnion
    · exact .inr (.inl isLiteral)
    · exact .inr (.inr (.inl isResult))
  reference isReference := absurd isReference other.2.2

theorem suits_superseding {b : Builtin} (member : (b, sign) ∈ Spelling.superseding)
    (origin : h.origin?.isSome = true) : h.Suits sign := by
  refine suits_of_origin (Spelling.signs_superseding _ member).2 (.inl ?_)
  rw [Option.isSome_or, origin, Bool.true_or]

theorem suits_subscribed {label : Option Nat} {origin : Subscriptable} {args : List Hint}
    (unmistakable : (subscription label origin args).IsUnmistakable cat)
    (rests : (subscription label origin args).step cat ctx reduce = .ok ⟨Option.none, found⟩)
    (spelled : (subscription label origin args).sign? cat = some sign) :
    (subscription label origin args).Suits sign := by
  simp only [sign?, kindSign?, Option.none_or, Spelling.sign?_subscription,
    Option.or_eq_some_iff] at spelled
  rcases spelled with known | ⟨_, isOrigin⟩
  · cases origin with
    | form f =>
      rw [Subscriptable.text, Spelling.stem_eq_self f.noBracket] at known
      rcases sign_of_rests_subscribed rests known with rfl | rfl
      · exact suits_of_origin (by decide) (.inr (.inl rfl))
      · exact suits_of_origin (by decide) (.inr (.inr (.inl rfl)))
    | cls c =>
      cases c with
      | builtin b =>
        have noBracket := Spelling.noBracket_class b
        change Spelling.subscribedSign? (Spelling.stem b.toClass.text) = some sign at known
        rw [Spelling.stem_eq_self noBracket] at known
        rcases Spelling.sign_of_class known with member | rfl | rfl
        · exact suits_superseding member rfl
        · exact suits_of_origin (by decide) (.inl rfl)
        · exact suits_of_origin (by decide) (.inl rfl)
      | user n =>
        have unregistered : (Spelling.subscribedSign?
          (Spelling.stem (cat.get (.user n)).text)).isSome = false := unmistakable
        rw [Subscriptable.text] at known
        rw [known] at unregistered
        cases unregistered
  · obtain ⟨c, isClass, signOf⟩ := Option.bind_eq_some_iff.mp isOrigin
    cases c with
    | builtin b => exact suits_superseding (Spelling.mem_of_lookup signOf) (by rw [isClass]; rfl)
    | user => cases signOf

/-- The sign of a canonical form suits it. -/
theorem suits_of_rests (unmistakable : h.IsUnmistakable cat)
    (rests : h.step cat ctx reduce = .ok ⟨Option.none, found⟩)
    (notExtension : ∀ label shown, h ≠ extension label shown)
    (spelled : h.sign? cat = some sign) : h.Suits sign := by
  cases proper : h.isProper with
  | false =>
    rw [sign?_of_object unmistakable proper notExtension] at spelled
    cases spelled
  | true =>
    cases h with
    | cls c =>
      rcases sign_of_class spelled with rfl | rfl | rfl | rfl <;>
        exact suits_of_origin (by decide) (.inl rfl)
    | form f =>
      obtain rfl := sign_of_rests_form rests spelled
      exact suits_of_origin (by decide) (.inr (.inr (.inr rfl)))
    | quoted | forwardRef =>
      cases spelled
      exact ⟨by decide, by decide, .inr (.inr (.inr (.inr rfl))), fun _ => rfl⟩
    | union =>
      cases spelled
      exact suits_of_origin (by decide) (.inr (.inl rfl))
    | subscription => exact suits_subscribed unmistakable rests spelled
    | none | typeVar | paramSpec | typeVarTuple | newType => cases notStandIn_of_rests rests
    | value | validator | params | extension => cases proper

/-! ### Classification -/

theorem serves_none {sign : Sign} (notLiteral : sign ≠ .literal) (notAnnotated : sign ≠ .annotated)
    (notGeneric : sign ≠ .generic) (notTypedDict : sign ≠ .typedDict) :
    (SignData.none : SignData Classified).serves sign.strategy.emit = true := by
  cases sign <;> first | rfl | contradiction

/-- A hint is complete if its arguments are as many as its sign takes. -/
theorem complete_classifyByArity {origin : Option ClassId}
    (plain : (SignData.none : SignData Classified).serves sign.strategy.emit = true)
    (notReference : sign ≠ .forwardRef)
    (present : sign.strategy.emit.needsOrigin = true → origin.isSome = true) :
    Ends (fun _ => True) Classified.IsComplete (h.classifyByArity cat sign origin) := by
  unfold classifyByArity
  dsimp only
  split
  · exact trivial
  next notReduced =>
  have notReduced : sign.isIn .reduced = false := by simpa using notReduced
  split
  · exact ⟨notReduced, present, plain, fun same => absurd same notReference, fun _ => .inl rfl,
      fun _ => Nat.zero_le 1⟩
  have container (pairs : sign.isIn .mapping = true → h.args.length = 2)
      (items : sign.isIn .singleArgContainer = true → h.args.length = 1) :
      (Classified.container sign h origin h.args).IsComplete :=
    ⟨notReduced, present, plain, fun same => absurd same notReference,
      fun isMapping => .inr (pairs isMapping), fun isContainer => (items isContainer).le⟩
  have arity := @arity_container sign
  split
  case h_4 isMany =>
    rw [isMany] at arity
    exact container (fun isMapping => by cases arity.2 isMapping)
      fun isContainer => by cases arity.1 isContainer
  all_goals
    next isArity =>
    rw [isArity] at arity
    split
    · exact trivial
    split
    · exact trivial
    next counted _ =>
    rw [ne_eq, Decidable.not_not] at counted
    exact container (fun isMapping => by cases arity.2 isMapping <;> exact counted)
      fun isContainer => by cases arity.1 isContainer <;> exact counted

theorem complete_classifyTuple {origin : Option ClassId} (present : origin.isSome = true) :
    Ends (fun _ => True) Classified.IsComplete (h.classifyTuple cat origin) := by
  have fixed (hints : List Hint) : (Classified.container .tupleFixed h origin hints).IsComplete :=
    ⟨rfl, fun _ => present, rfl, nofun, nofun, nofun⟩
  have variadic (item : Hint) : (Classified.container .tupleVariadic h origin [item]).IsComplete :=
    ⟨rfl, fun _ => present, rfl, nofun, nofun, fun _ => Nat.le_refl 1⟩
  unfold classifyTuple
  dsimp only
  split
  · split
    · split
      · exact trivial
      · exact fixed _
    split
    · exact trivial
    · exact variadic _
  · split
    · exact trivial
    · exact fixed _

theorem complete_classifyLiteral :
    Ends (fun _ => True) Classified.IsComplete (h.classifyLiteral cat) := by
  unfold classifyLiteral
  split
  · exact trivial
  split
  · exact trivial
  · exact ⟨rfl, nofun, rfl, nofun, nofun, nofun⟩

theorem complete_genericOf (c : ClassId) (substitutions : List (Hint × Hint)) :
    (h.genericOf cat c substitutions).IsComplete :=
  ⟨rfl, nofun, rfl, nofun, nofun, nofun⟩

theorem complete_classifyUserGeneric :
    Ends (fun _ => True) Classified.IsComplete (h.classifyUserGeneric cat) := by
  unfold classifyUserGeneric
  split
  · exact trivial
  dsimp only
  split
  · exact trivial
  split
  · exact trivial
  · exact complete_genericOf _ _

/-- What is classified by a sign that suits it is complete. -/
theorem complete_classifyCanonical (suits : ∀ sign, h.sign? cat = some sign → h.Suits sign) :
    Ends (fun _ => True) Classified.IsComplete (h.classifyCanonical cat) := by
  unfold classifyCanonical
  split
  · exact complete_classifyUserGeneric
  · next sign spelled =>
    have suits := suits sign spelled
    have present (notUnion : sign ≠ .union) (notLiteral : sign ≠ .literal)
        (notResult : sign ≠ .noReturn) (notReference : sign ≠ .forwardRef) :
        (h.origin?.or h.class?).isSome = true := by
      simpa [notUnion, notLiteral, notResult, notReference] using suits.origin
    dsimp only
    split
    case h_1 | h_4 => exact ⟨rfl, nofun, rfl, nofun, nofun, nofun⟩
    case h_2 => exact ⟨rfl, fun _ => present nofun nofun nofun nofun, rfl, nofun, nofun, nofun⟩
    case h_3 => exact ⟨rfl, nofun, rfl, suits.reference, nofun, nofun⟩
    case h_5 =>
      split
      · exact trivial
      · exact ⟨rfl, nofun, rfl, nofun, nofun, nofun⟩
    case h_6 => exact absurd rfl suits.notOptional
    case h_7 => exact complete_classifyLiteral
    case h_8 | h_9 | h_10 => exact complete_classifyTuple (present nofun nofun nofun nofun)
    case h_11 =>
      unfold classifyTypedDict
      split
      · exact trivial
      · exact ⟨rfl, nofun, rfl, nofun, nofun, nofun⟩
    case h_12 =>
      unfold classifyBareGeneric
      split
      · exact trivial
      · exact complete_genericOf _ _
    case h_13 =>
      exact complete_classifyByArity (serves_none ‹_› suits.notAnnotated ‹_› ‹_›) ‹_›
        fun _ => present ‹_› ‹_› ‹_› ‹_›

end Hint

/-- A classified hint is complete, and so is the hint that its validators are put on. -/
inductive Classified.WellFormed : Classified → Prop
  | intro {c : Classified} (complete : c.IsComplete)
    (inner : ∀ validators inner, c.data = .annotated validators inner → inner.WellFormed) :
    WellFormed c

namespace Hint

variable {cat : Catalog} {ctx : Context} {h : Hint}

theorem rests_canonical (cat : Catalog) (ctx : Context) (h : Hint) :
    Ends (fun _ => True)
      (fun r => ∃ reduce found, r.hint.step cat ctx reduce = .ok ⟨Option.none, found⟩)
      (h.canonical cat ctx) := by
  unfold canonical
  cases h.nestingBound ctx with
  | zero => exact trivial
  | succ bound =>
    cases reduced : canonicalWithin cat (bound + 1) ctx h with
    | error e => exact trivial
    | ok r =>
      obtain ⟨start, _, done⟩ := canonicalWithin_eq_ok reduced
      exact ⟨_, rests_iterate done⟩

theorem wellFormed_annotate {r : Reduced} {c : Classified} (wellFormed : c.WellFormed) :
    (h.annotate r c).WellFormed := by
  unfold annotate
  split
  · exact wellFormed
  · refine ⟨⟨rfl, nofun, rfl, nofun, nofun, nofun⟩, ?_⟩
    rintro _ _ ⟨⟩
    exact wellFormed

variable {subs : Substitutes} {P : Hint → Prop} (hereditary : Hereditary cat subs P)
  (clear : ∀ h, P h → h.IsUnmistakable cat)
include hereditary clear

/-- What is classified is well formed. -/
theorem wellFormed_classifyWithin (room : Nat) (keeps : ctx.Keeps P) (holds : P h) :
    Ends (fun _ => True) Classified.WellFormed (classifyWithin cat subs room ctx h) := by
  refine classifyWithin_induction cat subs
    (motive := fun ctx h x => ctx.Keeps P → P h → Ends (fun _ => True) Classified.WellFormed x)
    (fun _ _ _ _ _ => trivial) (fun _ _ _ _ _ => trivial) (fun _ _ _ _ _ => trivial)
    (fun _ _ _ _ _ found ends keeps holds => ends keeps (hereditary.substitute holds found))
    ?_ room ctx h keeps holds
  intro ctx h classifies _ cases keeps holds
  have reduces := (hereditary.ofCanonical keeps holds).and (rests_canonical cat ctx h)
  refine (reduces.mono (fun _ _ => trivial) fun _ => id).bind
    fun r ⟨holdsReduced, reduce, found, rests⟩ => ?_
  have inner : Ends (fun _ => True) Classified.WellFormed (classifies r.hint) := by
    rcases cases r.hint with ⟨notExtension, same⟩ | ⟨_, _, _, ends⟩
    · rw [same]
      have complete := complete_classifyCanonical fun _ spelled =>
        suits_of_rests (clear _ holdsReduced) rests notExtension spelled
      refine (complete.and (of_classifyCanonical cat r.hint)).mono (fun _ _ => trivial) ?_
      exact fun c ⟨complete, of⟩ => ⟨complete, fun _ _ data => (of.plain _ _ data).elim⟩
    · exact ends keeps.nested holdsReduced
  exact inner.bind fun c wellFormed => wellFormed_annotate wellFormed

theorem wellFormed_classify {c : Classified} (keeps : ctx.Keeps P) (holds : P h)
    (classified : h.classify cat subs ctx = .ok c) : c.WellFormed := by
  have ends := wellFormed_classifyWithin hereditary clear maxSubstitutions keeps holds
  rw [← classify, classified] at ends
  exact ends

end Hint

/-! ### Hints inside -/

namespace Classified

/-- The classified hints whose checks are built for a classified hint, each with its context and
with the number of checks that it is nested in. -/
inductive Nests (b : Builder) (ctx : Context) (c : Classified) :
    Nat → Context → Classified → Prop
  | refl : Nests b ctx c 0 ctx c
  | inner {n : Nat} {place : Context} {d inner : Classified} {validators : List Validator}
    (nests : Nests b ctx c n place d) (data : d.data = .annotated validators inner) :
    Nests b ctx c (n + 1) place inner
  | part {n : Nat} {place near : Context} {d found : Classified} {h : Hint}
    (nests : Nests b ctx c n place d) (part : d.Part b place near h)
    (classified : h.classify b.catalog b.substitutes near = .ok found) :
    Nests b ctx c (n + 1) near found

/-- A hint inside that cannot be classified, or one that is nested too deep, gives the error. -/
def Blames (b : Builder) (ctx : Context) (c : Classified) (e : HintError) : Prop :=
  ∃ n place d, c.Nests b ctx n place d ∧
    ((∃ near h, d.Part b place near h ∧ h.classify b.catalog b.substitutes near = .error e) ∨
      n = maxNesting + 1 ∧ e = .nesting (d.hint.text b.catalog) maxNesting)

variable {b : Builder} {P : Hint → Prop} {ctx place near : Context} {c d : Classified} {n : Nat}

/-- What is known of each classified hint whose check is built. -/
structure Known (cat : Catalog) (P : Hint → Prop) (place : Context) (d : Classified) : Prop where
  keeps : place.Keeps P
  holds : d.Holds cat P
  wellFormed : d.WellFormed

variable (hereditary : Hereditary b.catalog b.substitutes P)
  (clear : ∀ h, P h → h.IsUnmistakable b.catalog)
include hereditary clear

theorem known_classify {h : Hint} (keeps : place.Keeps P) (holds : P h)
    (classified : h.classify b.catalog b.substitutes place = .ok d) :
    Known b.catalog P place d :=
  ⟨keeps, hereditary.ofClassify keeps holds classified,
    Hint.wellFormed_classify hereditary clear keeps holds classified⟩

theorem Nests.known (known : Known b.catalog P ctx c) (nests : c.Nests b ctx n place d) :
    Known b.catalog P place d := by
  induction nests with
  | refl => exact known
  | inner _ data ih =>
    obtain ⟨keeps, holds, _, inner⟩ := ih
    exact ⟨keeps, Hereditary.ofInner holds data, inner _ _ data⟩
  | part _ part classified ih =>
    obtain ⟨keeps, holds⟩ := part.holds hereditary ih.keeps ih.holds
    exact known_classify hereditary clear keeps holds classified

end Classified

namespace Reading

open Classified

variable {m : Type → Type} (r : Reading m) {P : Hint → Prop} {ctx place near : Context}
  {c d : Classified} {n room : Nat} {h : Hint}

/-- The errors that reading a classified hint can end with. -/
abbrev Blamed (ctx : Context) (c : Classified) (e : HintError) : Prop :=
  e.isEndless = true ∨ c.Blames r.toBuilder ctx e

/-- The hint is classified, or its error is blamed. -/
theorem blamed_classify (nests : c.Nests r.toBuilder ctx n place d)
    (part : d.Part r.toBuilder place near h) :
    Ends (r.Blamed ctx c) (fun found => h.classify r.catalog r.substitutes near = .ok found)
      (h.classify r.catalog r.substitutes near) := by
  cases classified : h.classify r.catalog r.substitutes near with
  | ok found => exact rfl
  | error e => exact .inr ⟨n, place, d, nests, .inl ⟨near, h, part, classified⟩⟩

variable (hereditary : Hereditary r.catalog r.substitutes P)
  (clear : ∀ h, P h → h.IsUnmistakable r.catalog) (known : Known r.catalog P ctx c)
include hereditary clear known

theorem forgives_nested (nests : c.Nests r.toBuilder ctx n place d) :
    Forgives (r.Blamed ctx c) d := by
  obtain ⟨_, _, complete, _⟩ := Nests.known (b := r.toBuilder) hereditary clear known nests
  exact fun incomplete => absurd complete incomplete

variable [Monad m]

theorem blamed_subclassTests (nests : c.Nests r.toBuilder ctx n place d) (isType : d.sign = .type)
    (part : d.Part r.toBuilder place place.nested h) (bound : Nat) :
    Settles (r.Blamed ctx c) (r.subclassTests place bound h) := by
  induction bound generalizing h with
  | zero => exact .inl rfl
  | succ bound ih =>
    rw [subclassTests]
    refine (r.blamed_classify nests part).bind fun found classified => ?_
    exact r.settles_subclassTestsOf
      (r.forgives_nested hereditary clear known (.part nests part classified))
      fun isUnion x isMember => ih (.member isType part classified isUnion isMember)

/-- Reading the hints inside fails only where one of them cannot be classified or is nested too
deep. -/
theorem blamed_meaningWithin (nests : c.Nests r.toBuilder ctx n place d)
    (deep : n + room = maxNesting + 1) :
    Settles (r.Blamed ctx c) (r.meaningWithin room place d) := by
  induction room generalizing n place d with
  | zero => exact .inr ⟨n, place, d, nests, .inr ⟨deep, rfl⟩⟩
  | succ room ih =>
    have inside {near : Context} {h : Hint} (part : d.Part r.toBuilder place near.nested h) :
        Settles (r.Blamed ctx c) (r.inside (r.meaningWithin room) near h) :=
      (r.blamed_classify nests part).bind fun found classified =>
        ih (.part nests part classified) (by omega)
    refine r.settles_shape (r.forgives_nested hereditary clear known nests)
      (fun h isChild => ?children) (fun _ inner data => ?inner) (fun isType h isChild => ?tests)
      (fun _ _ _ data base isBase => ?bases) (fun _ _ _ data entry isField => ?fields)
    case children => exact inside (.child isChild)
    case inner => exact ih (.inner nests data) (by omega)
    case tests =>
      exact r.blamed_subclassTests hereditary clear known nests isType (.child isChild) _
    case bases => exact inside (.base data isBase)
    case fields => exact inside (.field data isField)

end Reading

/-! ### Kept classifications -/

namespace Classified

variable {b : Builder} {ctx place near : Context} {c found d : Classified} {n : Nat}

theorem Resembles.symm (alike : c.Resembles found) : found.Resembles c :=
  ⟨alike.sign.symm, alike.children.symm, alike.origin.symm, alike.data.symm,
    fun cat => (alike.text cat).symm, fun ctx => (alike.reference ctx).symm⟩

theorem Resembles.wellFormed (alike : c.Resembles found) (wellFormed : found.WellFormed) :
    c.WellFormed := by
  obtain ⟨complete, inner⟩ := wellFormed
  have isReference : c.hint.isReference = found.hint.isReference := by
    rw [← Hint.isSome_ofHint? c.hint (.bare .standard), alike.reference, Hint.isSome_ofHint?]
  refine ⟨⟨?_, ?_, ?_, ?_, ?_, ?_⟩, fun validators inside data => ?_⟩
  · exact alike.sign ▸ complete.notReduced
  · exact alike.sign ▸ alike.origin ▸ complete.origin
  · exact alike.sign ▸ alike.data ▸ complete.data
  · exact alike.sign ▸ isReference ▸ complete.reference
  · exact alike.sign ▸ alike.children ▸ complete.pairs
  · exact alike.sign ▸ alike.children ▸ complete.items
  · exact inner validators inside (alike.data ▸ data)

theorem Part.of_resembles {h : Hint} (alike : c.Resembles found) (part : c.Part b ctx near h) :
    found.Part b ctx near h := by
  induction part with
  | child isChild => exact .child (alike.children ▸ isChild)
  | member isType _ classified isUnion isMember ih =>
    exact .member (alike.sign ▸ isType) ih classified isUnion isMember
  | base data isBase => exact .base (alike.data ▸ data) isBase
  | field data isField => exact .field (alike.data ▸ data) isField

/-- Below the outermost, the same checks are built. -/
theorem Nests.of_resembles (alike : c.Resembles found) (nests : c.Nests b ctx n place d) :
    n = 0 ∧ place = ctx ∧ d = c ∨ found.Nests b ctx n place d := by
  induction nests with
  | refl => exact .inl ⟨rfl, rfl, rfl⟩
  | inner _ data ih =>
    rcases ih with ⟨rfl, rfl, rfl⟩ | nests
    · exact .inr (.inner .refl (alike.data ▸ data))
    · exact .inr (.inner nests data)
  | part _ part classified ih =>
    rcases ih with ⟨rfl, rfl, rfl⟩ | nests
    · exact .inr (.part .refl (part.of_resembles alike) classified)
    · exact .inr (.part nests part classified)

theorem Blames.of_resembles {e : HintError} (alike : c.Resembles found)
    (blames : c.Blames b ctx e) : found.Blames b ctx e := by
  obtain ⟨n, place, d, nests, reason⟩ := blames
  rcases nests.of_resembles alike with ⟨rfl, rfl, rfl⟩ | nests
  · rcases reason with ⟨near, h, part, failed⟩ | ⟨deep, _⟩
    · exact ⟨0, place, found, .refl, .inl ⟨near, h, part.of_resembles alike, failed⟩⟩
    · cases deep
  · exact ⟨n, place, d, nests, reason⟩

end Classified

namespace Session

open Classified

variable {s : Session} {ctx : Context} {h : Hint} {scope : Scope} {names : Naming} {c : Classified}

/-- A classification in a session is the one by the rules, but for a label. -/
theorem classify_resembles (named : h.WellNamed names)
    (grown : s.cache.Grown names s.catalog s.substitutes)
    (classified : ((classify ctx h).run.run s).1 = .ok c) :
    ∃ found, h.classify s.catalog s.substitutes ctx = .ok found ∧ c.Resembles found := by
  have outcome := grown.faithful.outcome named s.nextLabel ctx
  rw [classify_run] at classified
  rcases kept : s.cache.classify s.catalog s.substitutes s.nextLabel ctx h with e | result <;>
    rw [kept] at classified outcome <;> cases classified
  obtain ⟨found, isFound, relabels⟩ := outcome.ok_left
  exact ⟨found, isFound, relabels.resembles⟩

/-- If no class that the hint leads to is mistaken for a spelling, then its classification is well
formed, and so are those of the hints inside; where building the check fails, a hint inside cannot
be classified or is nested too deep. -/
theorem classified_wellFormed
    (clear : ∀ y, h.Reaches s.catalog s.substitutes ctx y → y.IsUnmistakable s.catalog)
    (wellKept : scope.WellKept) (named : h.WellNamed names)
    (grown : s.cache.Grown names s.catalog s.substitutes) (pith : String)
    (classified : ((classify ctx h).run.run s).1 = .ok c) :
    let b : Builder := ⟨s.catalog, s.substitutes, ctx.conf⟩
    (∀ n place d, c.Nests b ctx n place d → d.WellFormed) ∧
      ∀ e, ((buildCheck ctx pith h scope).run.run s).1 = .error e →
        e.isEndless = true ∨ c.Blames b ctx e := by
  intro b
  obtain ⟨found, isFound, alike⟩ := classify_resembles named grown classified
  let P : Hint → Prop :=
    fun y => ∀ z, y.Reaches s.catalog s.substitutes ctx z → z.IsUnmistakable s.catalog
  have hereditary : Hereditary s.catalog s.substitutes P :=
    hereditary_reaches fun _ made _ => made.isUnmistakable
  have unmistakable : ∀ y, P y → y.IsUnmistakable s.catalog := fun y holds => holds y .refl
  have known : Known s.catalog P ctx found :=
    known_classify (b := b) hereditary unmistakable keeps_reaches clear isFound
  constructor
  · intro n place d nests
    rcases nests.of_resembles alike with ⟨rfl, rfl, rfl⟩ | nests
    · exact alike.wellFormed known.wellFormed
    · exact (Nests.known (b := b) hereditary unmistakable known nests).wellFormed
  · intro e failed
    let r : Reading Id := ⟨b, b.catalog, 0, fun _ => none⟩
    let o : Oracle Id := ⟨s.catalog, 0, fun _ => none⟩
    have suits : o.Suits r scope := ⟨rfl, rfl, fun _ _ _ => rfl⟩
    have reader : r.toBuilder = ⟨s.catalog, s.substitutes, ctx.conf⟩ := rfl
    have performs := buildCheck_performs reader suits wellKept named grown pith
    rw [failed, isFound] at performs
    have unread : r.meaningWithin (maxNesting + 1) ctx found = .error e := performs.error_left
    have blamed :
        Reading.Settles (r.Blamed ctx found) (r.meaningWithin (maxNesting + 1) ctx found) :=
      r.blamed_meaningWithin hereditary unmistakable known .refl (Nat.zero_add _)
    rw [unread] at blamed
    exact blamed.imp_right (Blames.of_resembles alike.symm)

/-- The check of a cell of lists of options fails where the argument of the option is missing, in
the annotation of the attribute that holds the contents of the cell. -/
theorem classified_wellFormed_cell :
    let t := Hint.typeVar 0 "T" .invariant none []
    let cell : Class := ⟨"Cell", "__main__", "Cell", [Builtin.generic],
      Catalog.builtin.lineage Builtin.generic, [], [("item", t)], [t], [.typing none .generic [t]],
      .unset, [], false⟩
    let s := { start with catalog := { Catalog.builtin with defined := #[cell] } }
    let ctx := Context.bare .standard
    let h := Hint.generic none (.user 0) [.generic none Builtin.list [.form (.standard .optional)]]
    ∃ c, ((classify ctx h).run.run s).1 = .ok c ∧ c.WellFormed ∧
      ((buildCheck ctx "obj" h .empty).run.run s).1 =
        .error (.malformed "typing.Optional" "requires subscription") ∧
      c.Blames ⟨s.catalog, s.substitutes, ctx.conf⟩ ctx
        (.malformed "typing.Optional" "requires subscription") := by
  intro t cell s ctx h
  have each : ∀ k ∈ s.catalog.defined, Spelling.isRegistered k.text = false ∧ k.IsUnmistakable := by
    intro k member
    obtain rfl : k = cell := by simpa [s] using member
    exact ⟨by decide +kernel, fun bracket => absurd bracket (by decide)⟩
  let names : Naming := ⟨fun _ => Builtin.object, fun _ => .instanceOf []⟩
  have namedForm : (Hint.form (.standard .optional)).WellNamed names :=
    .intro (fun _ labelled => by cases labelled) (fun _ _ same => by cases same)
      fun _ member => by cases member
  have named : h.WellNamed names :=
    .ofArgs (by simpa using .ofArgs (by simpa using namedForm))
  have run : (((classify ctx h).run.run s).1.toOption.any fun _ => true) = true := by
    decide +kernel
  have fails : ((buildCheck ctx "obj" h .empty).run.run s).1.map (fun _ => ()) =
      .error (.malformed "typing.Optional" "requires subscription") := by
    decide +kernel
  obtain ⟨c, classified, _⟩ := ok_of_any run
  obtain ⟨wellFormed, blamed⟩ := classified_wellFormed
    (fun y _ => Hint.isUnmistakable_of_defined each y) Scope.wellKept_empty named .empty "obj"
    classified
  have failed := error_of_map fails
  refine ⟨c, classified, wellFormed 0 ctx c .refl, failed, ?_⟩
  exact (blamed _ failed).resolve_left (by decide)

/-- A class whose text only begins with a spelling, up to a bracket, is taken for the option: what
is found is replaced elsewhere and has no check. An instance of a class whose name begins so is
taken for a list without a class to start from. -/
theorem classify_mistaken :
    let t := Hint.typeVar 0 "T" .invariant none []
    let draft (name module : String) :=
      ((ClassDraft.named name).inModule module).withDeclaredBase (.typing none .generic [t])
    let cat (name module : String) : Catalog := { Catalog.builtin with
      defined := #[⟨name, module, name, [Builtin.generic], Catalog.builtin.lineage Builtin.generic,
        [], [], [t], [.typing none .generic [t]], .unset, [], false⟩] }
    let option := cat "Optional[int]" "typing"
    let list := cat "typing.List[int]" "__main__"
    let item := Value.inst 0 (.user 0) [] (some (.int 0))
    (∀ name module, Catalog.builtin.define (draft name module) = .ok (.user 0, cat name module)) ∧
    (∀ entry ∈ Spelling.free ++ Spelling.subscribed,
      entry.1 ≠ (option.get (.user 0)).text ∧ entry.1 ≠ (list.get (.user 0)).text) ∧
    (∃ c, (Hint.generic none (.user 0) [Builtin.str]).classify option [] (.bare .standard) = .ok c ∧
      c.sign.isIn .reduced = true) ∧
    ∃ c, (Hint.newType 1 "N" "__main__" (.value none item)).classify list [] (.bare .standard) =
      .ok c ∧ (c.sign.strategy.emit.needsOrigin && c.origin.isNone) = true := by
  intro t draft cat option list item
  have linearized : Catalog.builtin.linearize [Builtin.generic] =
      .ok (Catalog.builtin.lineage Builtin.generic) := by
    decide +kernel
  have defined (name module : String) :
      Catalog.builtin.define (draft name module) = .ok (.user 0, cat name module) :=
    Catalog.define_of_linearize linearized
  have reduced : (((Hint.generic none (.user 0) [Builtin.str]).classify option []
      (.bare .standard)).toOption.any fun c => c.sign.isIn .reduced) = true := by
    decide +kernel
  have missing : (((Hint.newType 1 "N" "__main__" (.value none item)).classify list []
      (.bare .standard)).toOption.any
        fun c => c.sign.strategy.emit.needsOrigin && c.origin.isNone) = true := by
    decide +kernel
  exact ⟨defined, by decide +kernel, ok_of_any reduced, ok_of_any missing⟩

end Session
end HintCheck
