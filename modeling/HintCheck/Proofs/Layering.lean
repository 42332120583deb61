import HintCheck.Proofs.Variadics

/-!
Layers. A hint can be put into layers that say nothing about the kind of value: annotations,
qualifiers, new types, and type variables that are bound to the hint or that have it as their bound.
Reduction takes the layers off one by one, from the outside, and sets their validators aside; the
validators of an inner layer come before those of an outer one. The check of the whole is the check
of the hint inside, followed by the validators.
-/
namespace HintCheck

namespace Hint

/-- The hint is the base in a number of layers, which hold the validators, those of the innermost
layer first; `given` says what type variables are bound to. -/
inductive InLayers (given : Hint → Option Hint) (base : Hint) :
    Nat → Hint → List Validator → Prop
  | base : InLayers given base 0 base []
  | annotated {n : Nat} {h : Hint} {validators : List Validator} (label : Option Nat)
    {f : SpecialForm} (isAnnotated : f.form = .annotated) (first : Hint) (more : List Hint)
    (inner : InLayers given base n h validators) :
    InLayers given base (n + 1) (subscription label (.form f) (h :: first :: more))
      (validators ++ metadataValidators (first :: more))
  | qualified {n : Nat} {h : Hint} {validators : List Validator} (label : Option Nat)
    {f : SpecialForm} (isQualifier : f.form.isQualifier = true)
    (inner : InLayers given base n h validators) :
    InLayers given base (n + 1) (subscription label (.form f) [h]) validators
  | newType {n : Nat} {h : Hint} {validators : List Validator} (label : Nat) (name module : String)
    (inner : InLayers given base n h validators) :
    InLayers given base (n + 1) (newType label name module h) validators
  | bounded {n : Nat} {h : Hint} {validators : List Validator} (label : Nat) (name : String)
    (variance : Variance) (constraints : List Hint)
    (free : given (typeVar label name variance (some h) constraints) = Option.none)
    (inner : InLayers given base n h validators) :
    InLayers given base (n + 1) (typeVar label name variance (some h) constraints) validators
  | substituted {n : Nat} {h v : Hint} {validators : List Validator}
    (isVariable : v.isTypeVar = true) (stands : given v = some h)
    (inner : InLayers given base n h validators) : InLayers given base (n + 1) v validators

variable {cat : Catalog} {subs : Substitutes} {ctx : Context} {base h : Hint} {n : Nat}
  {validators found : List Validator} {reduce : Hint → Except HintError Reduced}

namespace InLayers

variable (cat reduce) in
/-- One step takes off one layer. -/
theorem step_eq (layered : InLayers ctx.binding? base (n + 1) h validators) :
    ∃ inner deeper outer, h.step cat ctx reduce = .ok ⟨some inner, outer⟩ ∧
      InLayers ctx.binding? base n inner deeper ∧ validators = deeper ++ outer := by
  cases layered with
  | @annotated _ inner deeper label f isAnnotated first more layered =>
    refine ⟨inner, deeper, _, ?_, layered, rfl⟩
    simp [step, stepSubscribed, isAnnotated, Form.isQualifier]
  | @qualified _ inner _ label f isQualifier layered =>
    refine ⟨inner, validators, [], ?_, layered, (List.append_nil _).symm⟩
    simp [step, stepSubscribed, isQualifier]
  | @newType _ inner _ _ _ _ layered =>
    exact ⟨inner, validators, [], rfl, layered, (List.append_nil _).symm⟩
  | @bounded _ inner _ label name variance constraints free layered =>
    refine ⟨inner, validators, [], ?_, layered, (List.append_nil _).symm⟩
    simp [step, typeVarMeaning, free]
  | @substituted _ inner _ _ isVariable stands layered =>
    refine ⟨inner, validators, [], ?_, layered, (List.append_nil _).symm⟩
    cases h with
    | typeVar | paramSpec | typeVarTuple => simp [step, typeVarMeaning, stands]
    | _ => cases isVariable

/-- What has layers is a hint of its own kind, and not an unpacked one. -/
theorem isProper (layered : InLayers ctx.binding? base (n + 1) h validators) :
    h.isProper = true ∧ h.subscriptedForm? ≠ some .unpack := by
  cases layered with
  | annotated label isAnnotated => exact ⟨rfl, by simp [subscriptedForm?, isAnnotated]⟩
  | @qualified _ _ _ label f isQualifier =>
    refine ⟨rfl, fun isUnpack => ?_⟩
    rw [Option.some.inj isUnpack] at isQualifier
    cases isQualifier
  | newType | bounded => exact ⟨rfl, by simp [subscriptedForm?]⟩
  | substituted isVariable =>
    cases h with
    | typeVar | paramSpec | typeVarTuple => exact ⟨rfl, by simp [subscriptedForm?]⟩
    | _ => cases isVariable

/-- The steps through the layers come to the base, with the validators found on the way. -/
theorem iterate_eq (layered : InLayers ctx.binding? base n h validators) (steps : Nat) :
    iterate cat ctx reduce (n + steps) h found =
      iterate cat ctx reduce steps base (validators ++ found) := by
  induction n generalizing h validators found with
  | zero =>
    cases layered
    rw [Nat.zero_add, List.nil_append]
  | succ n ih =>
    obtain ⟨inner, deeper, outer, stepped, within, rfl⟩ := layered.step_eq cat reduce
    rw [Nat.add_right_comm, iterate_succ, stepped, List.append_assoc]
    exact ih within

/-- As many steps as there are layers do not come to an end. -/
theorem iterate_short (layered : InLayers ctx.binding? base n h validators) {steps : Nat}
    (few : steps ≤ n) : iterate cat ctx reduce steps h found = .ok Option.none := by
  induction steps generalizing n h validators found with
  | zero => rfl
  | succ steps ih =>
    obtain ⟨n, rfl⟩ := Nat.exists_eq_add_of_le' few
    obtain ⟨inner, deeper, outer, stepped, within, rfl⟩ := layered.step_eq cat reduce
    rw [iterate_succ, stepped]
    exact ih within (Nat.le_add_left steps n)

/-- The base of a well named hint is well named. -/
theorem wellNamed {names : Naming} (bound : ∀ entry ∈ ctx.bindings, entry.2.WellNamed names)
    (layered : InLayers ctx.binding? base n h validators) (named : h.WellNamed names) :
    base.WellNamed names := by
  induction layered with
  | base => exact named
  | annotated _ _ _ _ _ ih | qualified _ _ _ ih | newType _ _ _ _ ih | bounded _ _ _ _ _ _ ih =>
    refine ih (named.part _ ?_)
    simp [parts]
  | substituted isVariable stands _ ih =>
    exact ih ((passes_wellNamed bound).opens named (.binding isVariable stands))

end InLayers

/-! ### The base -/

variable (cat ctx) in
/-- Reduction leaves the hint as it is. -/
def IsUnchanged (h : Hint) : Prop :=
  ∃ validators, h.canonical cat ctx = .ok ⟨h, validators⟩

namespace IsUnchanged

variable (unchanged : base.IsUnchanged cat ctx)
include unchanged

/-- The hint takes no step, with the room that there is for its members. -/
theorem rests : ∃ room found, base.nestingBound ctx = room + 1 ∧
    base.step cat ctx (canonicalWithin cat room ctx.nested) = .ok ⟨Option.none, found⟩ := by
  obtain ⟨validators, isReduced⟩ := unchanged
  rw [canonical, nestingBound_eq, Nat.add_right_comm] at isReduced
  obtain ⟨start, _, done⟩ := canonicalWithin_eq_ok isReduced
  obtain ⟨found, rests⟩ := rests_iterate done
  exact ⟨_, found, by rw [nestingBound_eq, Nat.add_right_comm], rests⟩

/-- With whatever room, the hint takes no step. -/
theorem next_eq {room : Nat} {s : Step}
    (stepped : base.step cat ctx (canonicalWithin cat room ctx.nested) = .ok s) :
    s.next = Option.none := by
  obtain ⟨enough, found, _, rests⟩ := unchanged.rests
  have wider {few more : Nat} (le : few ≤ more) (m : Hint) (_ : m ∈ flattenAll base.args) :=
    canonicalWithin_widens cat ctx.nested le m
  have first := step_wider (wider (Nat.le_max_left enough room)) rests
  have second := step_wider (wider (Nat.le_max_right enough room)) stepped
  cases first.symm.trans second
  rfl

theorem notUnpack : base.subscriptedForm? ≠ some .unpack := by
  obtain ⟨room, found, _, rests⟩ := unchanged.rests
  have notStandIn := notStandIn_of_rests rests
  intro isUnpack
  unfold subscriptedForm? at isUnpack
  split at isUnpack
  · rw [isStandIn, Option.some.inj isUnpack] at notStandIn
    cases notStandIn
  · cases isUnpack

/-- The hint of a variadic parameter is spread, so it does not stay as it is. -/
theorem notVariadic : ctx.position.isVariadic = false := by
  have notUnpack := unchanged.notUnpack
  obtain ⟨validators, isReduced⟩ := unchanged
  cases position : ctx.position with
  | param kind =>
    cases isVariadic : kind.isVariadic with
    | false => exact isVariadic
    | true =>
      have here : ctx = ctx.placedAt (.param kind) := by rw [← position]; rfl
      rw [here, canonical_spread notUnpack isVariadic] at isReduced
      have same : (spreadAs kind base).hint = base :=
        congrArg Reduced.hint (Except.ok.inj isReduced)
      have within : base ∈ (spreadAs kind base).hint.parts := by
        cases kind <;> simp [spreadAs, Classified.container, tupleOf, generic, parts]
      exact absurd (same ▸ depth_lt_of_mem_parts within) (Nat.lt_irrefl _)
  | _ => rfl

end IsUnchanged

/-! ### Reduction -/

namespace InLayers

variable (layered : InLayers ctx.binding? base n h validators)
  (unchanged : base.IsUnchanged cat ctx)
include layered unchanged

theorem placed : h.placed cat ctx = .ok h := by
  refine placed_of_notUnpack unchanged.notVariadic ?_
  cases n with
  | zero => cases layered; exact unchanged.notUnpack
  | succ n => exact layered.isProper.2

/-- What reduction comes to is the base, with the validators of all layers. -/
theorem eq_of_canonical {r : Reduced} (isReduced : h.canonical cat ctx = .ok r) :
    r = ⟨base, validators⟩ := by
  rw [canonical, nestingBound_eq, Nat.add_right_comm] at isReduced
  obtain ⟨start, placed, done⟩ := canonicalWithin_eq_ok isReduced
  cases (layered.placed unchanged).symm.trans placed
  rcases Nat.lt_or_ge n maxSteps with within | beyond
  · obtain ⟨steps, isMax⟩ := Nat.exists_eq_add_of_lt within
    rw [show maxSteps = n + (steps + 1) from isMax, layered.iterate_eq, iterate_succ] at done
    rcases stepped : base.step cat ctx _ with e | ⟨next, found⟩ <;> rw [stepped] at done
    · cases done
    · cases unchanged.next_eq stepped
      cases done
      rw [List.append_nil]
  · rw [layered.iterate_short beyond] at done
    cases done

/-- With too many layers there is no canonical form. -/
theorem canonical_of_many (many : maxSteps ≤ n) :
    h.canonical cat ctx = .error (.recursion (h.text cat) maxSteps) := by
  rw [canonical, nestingBound_eq, Nat.add_right_comm, canonicalWithin_succ,
    layered.placed unchanged]
  dsimp only [bind, Except.bind]
  rw [layered.iterate_short many]
  rfl

/-- With fewer there is one. -/
theorem canonical_of_few {names : Naming} (few : n < maxSteps) (named : h.WellNamed names)
    (bound : ∀ entry ∈ ctx.bindings, entry.2.WellNamed names) :
    h.canonical cat ctx = .ok ⟨base, validators⟩ := by
  obtain ⟨steps, isMax⟩ := Nat.exists_eq_add_of_lt few
  have ended {ctx : Context} {reduce : Hint → Except HintError Reduced} {found : List Validator}
      (layered : InLayers ctx.binding? base n h validators)
      (rests : base.step cat ctx reduce = .ok ⟨Option.none, found⟩) :
      iterate cat ctx reduce maxSteps h [] = .ok (some ⟨base, validators⟩) := by
    rw [show maxSteps = n + (steps + 1) from isMax, layered.iterate_eq, iterate_succ, rests,
      List.append_nil]
    rfl
  rw [canonical, nestingBound_eq, Nat.add_right_comm]
  refine canonicalWithin_of_iterate (layered.placed unchanged) ?_
  obtain ⟨room, found, _, rests⟩ := unchanged.rests
  cases isUnion : base.isUnion with
  | false =>
    rw [step_other isUnion ctx] at rests
    exact ended layered rests
  | true =>
    -- the hint needs no more room than it has, although the base may be deeper
    rw [step_union ctx isUnion, ← step_union ctx.nested isUnion] at rests
    have reduced := canonicalWithin_nested.mpr (ended layered rests)
    have inside := canonicalWithin_of_room bound named reduced (Nat.lt_succ_of_le (Nat.le_succ _))
    obtain ⟨_, restsToo⟩ := rests_iterate (canonicalWithin_nested.mp inside)
    rw [step_union ctx.nested isUnion, ← step_union ctx isUnion] at restsToo
    exact ended layered restsToo

end InLayers

/-! ### Classification -/

theorem stepForm_nested {f : SpecialForm} {next : Option Hint}
    (stepped : stepForm cat ctx f = .ok next) : stepForm cat ctx.nested f = .ok next := by
  unfold stepForm at stepped ⊢
  dsimp only at stepped ⊢
  split at stepped
  · rwa [if_pos ‹_›]
  rw [if_neg ‹_›]
  split at stepped
  · rwa [if_pos ‹_›]
  rw [if_neg ‹_›]
  split at stepped
  · rwa [if_pos ‹_›]
  rw [if_neg ‹_›]
  split at stepped
  case h_5 =>
    -- only here the position is looked at, and only to break a rule
    split at stepped
    · split at stepped
      · cases stepped
      · simp_all [Context.nested, Context.placedAt]
    · simp_all
  all_goals simp_all [Context.nested, Context.placedAt]

/-- A step that can be taken somewhere can be taken inside. -/
theorem step_nested {s : Step} (stepped : h.step cat ctx reduce = .ok s) :
    h.step cat ctx.nested reduce = .ok s := by
  cases h with
  | form f =>
    unfold step at stepped ⊢
    dsimp only at stepped ⊢
    cases next : stepForm cat ctx f with
    | error e => rw [next] at stepped; cases stepped
    | ok next' => rwa [stepForm_nested next, ← next]
  | subscription label origin args => cases origin <;> exact stepped
  | _ => exact stepped

theorem iterate_nested {steps : Nat} {r : Reduced}
    (done : iterate cat ctx reduce steps h found = .ok (some r)) :
    iterate cat ctx.nested reduce steps h found = .ok (some r) := by
  induction steps generalizing h found with
  | zero => cases done
  | succ steps ih =>
    rw [iterate_succ] at done ⊢
    rcases stepped : h.step cat ctx reduce with e | ⟨_ | next, outer⟩ <;> rw [stepped] at done
    · cases done
    · rw [step_nested stepped]
      exact done
    · rw [step_nested stepped]
      exact ih done

/-- At a position that is not variadic, a hint has the canonical form that it has inside. -/
theorem canonical_nested (notVariadic : ctx.position.isVariadic = false) {r : Reduced}
    (isReduced : h.canonical cat ctx = .ok r) : h.canonical cat ctx.nested = .ok r := by
  rw [canonical, nestingBound_eq, Nat.add_right_comm] at isReduced ⊢
  obtain ⟨start, placed, done⟩ := canonicalWithin_eq_ok isReduced
  obtain rfl := placed_eq_ok notVariadic placed
  exact canonicalWithin_nested.mpr (iterate_nested done)

/-- At such a position a hint is classified as it is inside. -/
theorem classifyWithin_nested (notVariadic : ctx.position.isVariadic = false) {room : Nat}
    {c : Classified} (classified : h.classifyWithin cat subs room ctx = .ok c) :
    h.classifyWithin cat subs room ctx.nested = .ok c := by
  have ofProper {room : Nat} {h : Hint} (proper : h.isProper = true)
      (classified : h.classifyWithin cat subs room ctx = .ok c) :
      h.classifyWithin cat subs room ctx.nested = .ok c := by
    rw [classifyWithin_proper proper] at classified ⊢
    obtain ⟨r, isReduced, annotated⟩ := ok_of_bind classified
    rw [canonical_nested notVariadic isReduced]
    exact annotated
  induction room generalizing h with
  | zero =>
    cases proper : h.isProper with
    | true => exact ofProper proper classified
    | false =>
      cases h with
      | value | validator | params | extension => cases classified
      | _ => cases proper
  | succ room ih =>
    cases proper : h.isProper with
    | true => exact ofProper proper classified
    | false =>
      cases h with
      | extension label shown =>
        rw [classifyWithin_extension] at classified ⊢
        cases stands : subs.lookup label with
        | none => rw [stands] at classified; cases classified
        | some x =>
          rw [stands] at classified
          exact ih classified
      | value | validator | params => cases classified
      | _ => cases proper

namespace IsUnchanged

variable (unchanged : base.IsUnchanged cat ctx) {c inner : Classified}
include unchanged

theorem canonical_eq : base.canonical cat ctx = .ok ⟨base, []⟩ := by
  obtain ⟨validators, isReduced⟩ := id unchanged
  rw [isReduced, InLayers.base.eq_of_canonical unchanged isReduced]

theorem classify_eq (proper : base.isProper = true) :
    base.classify cat subs ctx = classifyReduced cat subs maxSubstitutions ctx base := by
  rw [classify, classifyWithin_proper proper, unchanged.canonical_eq]
  dsimp only [bind, Except.bind]
  cases classifyReduced cat subs maxSubstitutions ctx base <;> rfl

/-- A hint that reduction leaves as it is is classified in one way, alone and in layers. -/
theorem classified_unique (alone : base.classify cat subs ctx = .ok c)
    (isInner : classifyReduced cat subs maxSubstitutions ctx base = .ok inner) : c = inner := by
  cases proper : base.isProper with
  | true =>
    rw [unchanged.classify_eq proper] at alone
    exact Except.ok.inj (alone.symm.trans isInner)
  | false =>
    cases base with
    | extension label shown =>
      have inside := classifyWithin_nested unchanged.notVariadic alone
      exact Except.ok.inj (inside.symm.trans (steadyAt _ isInner))
    | value | validator | params => cases alone
    | _ => cases proper

end IsUnchanged
end Hint

/-! ### The validators of a check -/

namespace Builder
open Building

variable {b : Builder} {ctx : Context}

/-- The operands of validators are the validators, under their names. -/
theorem validators_of_mapM {validators : List Validator} {scope : Scope}
    {operands : List ValidatorOperand}
    (bound : (outcome (validators.mapM validatorOperand) scope).1 = .ok operands) :
    operands.map ValidatorOperand.validator = validators := by
  induction validators generalizing scope operands with
  | nil => cases bound; rfl
  | cons v rest ih =>
    rw [List.mapM_cons] at bound
    obtain ⟨operand, mid, first, bound⟩ := ok_of_outcome_bind bound
    obtain ⟨others, last, more, bound⟩ := ok_of_outcome_bind bound
    cases bound
    cases first
    rw [List.map_cons, ih (congrArg Prod.fst more)]

/-- The check of an annotated hint is the check of the hint inside, and the validators. -/
theorem buildWithin_annotated {room : Nat} {pith : String} {h x : Hint} {inner : Classified}
    {validators : List Validator} {scope : Scope} {c : Check}
    (built : (outcome (b.buildWithin (room + 1) ctx pith
      ⟨.annotated, h, [x], inner.origin, .annotated validators inner⟩) scope).1 = .ok c) :
    ∃ child mid operands, outcome (b.buildWithin room ctx pith inner) scope = (.ok child, mid) ∧
      operands.map ValidatorOperand.validator = validators ∧
      c = .validators ⟨pith, h.text b.catalog⟩ child operands := by
  obtain ⟨child, mid, isChild, built⟩ := ok_of_outcome_bind built
  obtain ⟨operands, _, bound, built⟩ := ok_of_outcome_bind built
  cases built
  exact ⟨child, mid, operands, isChild, validators_of_mapM (congrArg Prod.fst bound), rfl⟩

end Builder

/-! ### The check of a hint in layers -/

/-- The check accepts what the other one accepts and the validators hold for. -/
def Check.Restricts (c d : Check) (validators : List Validator) : Prop :=
  ∀ (m : Type → Type) [Monad m] [LawfulMonad m] (o : Oracle m) (v : Value),
    c.accepts o v =
      Check.both (d.accepts o v) fun _ => pure (validators.all fun x => x.holds o.catalog v)

theorem Check.restricts_self (c : Check) : c.Restricts c [] := by
  intro m _ _ o v
  have same : (fun b => if b = true then pure true else pure false : Bool → m Bool) = pure := by
    funext b
    cases b <;> rfl
  show _ = c.accepts o v >>= fun b => if b = true then pure true else pure false
  rw [same, bind_pure]

theorem Check.restricts_validators (s : Subject) (child : Check)
    (operands : List ValidatorOperand) :
    (Check.validators s child operands).Restricts child
      (operands.map ValidatorOperand.validator) := by
  intro m _ _ o v
  rw [Check.accepts, List.all_map]
  rfl

namespace Session

variable {s : Session} {names : Naming} {ctx : Context} {base h : Hint} {n : Nat}
  {validators : List Validator}

section Generated
variable (layered : Hint.InLayers ctx.binding? base (n + 1) h validators)
  (unchanged : base.IsUnchanged s.catalog ctx) (named : h.WellNamed names)
  (grown : s.cache.Grown names s.catalog s.substitutes)
include layered unchanged named grown

/-- The check of a hint in layers restricts the check that is built of the base. -/
theorem Generates.of_layered {pith : String} {scope after : Scope} {c : Check}
    (generates : s.Generates ctx pith h scope c after) :
    ∃ inner child mid,
      Hint.classifyReduced s.catalog s.substitutes maxSubstitutions ctx base = .ok inner ∧
      Building.outcome (Builder.build ⟨s.catalog, s.substitutes, ctx.conf⟩ ctx pith inner) scope =
        (.ok child, mid) ∧ c.Restricts child validators := by
  obtain ⟨d, classified, built⟩ := (generates_iff named grown).mp generates
  rw [Hint.classify, Hint.classifyWithin_proper layered.isProper.1] at classified
  obtain ⟨reduced, isReduced, classified⟩ := ok_of_bind classified
  obtain ⟨inner, isInner, isAnnotated⟩ := ok_of_bind classified
  cases isAnnotated
  obtain rfl := layered.eq_of_canonical unchanged isReduced
  refine ⟨inner, ?_⟩
  cases validators with
  | nil => exact ⟨c, after, isInner, built, c.restricts_self⟩
  | cons v more =>
    obtain ⟨child, mid, operands, isChild, same, rfl⟩ :=
      Builder.buildWithin_annotated (congrArg Prod.fst built)
    have same : operands.map ValidatorOperand.validator = v :: more := same
    rw [← same]
    exact ⟨child, mid, isInner, Builder.buildWithin_more (Nat.le_succ _) isChild,
      Check.restricts_validators _ child operands⟩

end Generated

/-- A hint in layers over one that reduction leaves as it is. Reduction comes to the hint inside,
with the validators of all layers, the innermost first, unless there are too many layers. The check
that is generated accepts what the check of the hint inside accepts and all validators hold for. -/
theorem layered_restricts (layered : Hint.InLayers ctx.binding? base n h validators)
    (unchanged : base.IsUnchanged s.catalog ctx) (named : h.WellNamed names)
    (bindings : ∀ entry ∈ ctx.bindings, entry.2.WellNamed names)
    (grown : s.cache.Grown names s.catalog s.substitutes) :
    (∀ r, h.canonical s.catalog ctx = .ok r → r.hint = base ∧ r.validators = validators) ∧
    h.canonical s.catalog ctx = (if n < maxSteps then .ok ⟨base, validators⟩
      else .error (.recursion (h.text s.catalog) maxSteps)) ∧
    ∀ pith scope c after, s.Generates ctx pith h scope c after →
      (base.isProper = true → ∃ d left, s.Generates ctx pith base scope d left) ∧
      ∀ d left, s.Generates ctx pith base scope d left → c.Restricts d validators := by
  refine ⟨fun r isReduced => ?_, ?_, fun pith scope c after generates => ?_⟩
  · rw [layered.eq_of_canonical unchanged isReduced]
    exact ⟨rfl, rfl⟩
  · split
    · exact layered.canonical_of_few unchanged ‹_› named bindings
    · exact layered.canonical_of_many unchanged (Nat.le_of_not_lt ‹_›)
  have namedBase := layered.wellNamed bindings named
  cases n with
  | zero =>
    cases layered
    refine ⟨fun _ => ⟨c, after, generates⟩, fun d left generatesToo => ?_⟩
    cases generates.symm.trans generatesToo
    exact c.restricts_self
  | succ n =>
    obtain ⟨inner, child, mid, isInner, built, restricts⟩ :=
      generates.of_layered layered unchanged named grown
    refine ⟨fun proper => ?_, fun d left generatesToo => ?_⟩
    · rw [← unchanged.classify_eq proper] at isInner
      exact ⟨child, mid, (generates_iff namedBase grown).mpr ⟨inner, isInner, built⟩⟩
    · obtain ⟨alone, isAlone, builtToo⟩ := (generates_iff namedBase grown).mp generatesToo
      obtain rfl := unchanged.classified_unique isAlone isInner
      cases built.symm.trans builtToo
      exact restricts

/-- Six layers over the texts, two of them with a validator. -/
theorem layered_restricts_text :
    let v : Validator := ⟨0, .negation (.equal (.str ""))⟩
    let w : Validator := ⟨1, .negation (.equal (.str "a"))⟩
    let text := Hint.typing none .annotated
      [Builtin.str, .value none (.str "shown"), .validator none v]
    let id := Hint.newType 0 "Id" "m" text
    let t := Hint.typeVar 1 "T" .invariant (some id) []
    let u := Hint.typeVar 2 "U" .invariant none []
    let h := Hint.typing none .annotated [.typing none .final [u], .validator none w]
    let ctx := (Context.bare .standard).bind u t
    h.canonical start.catalog ctx = .ok ⟨Builtin.str, [v, w]⟩ ∧
      ∃ c after d left, start.Generates ctx "obj" h .empty c after ∧
        start.Generates ctx "obj" Builtin.str .empty d left ∧ c.Restricts d [v, w] := by
  intro v w text id t u h ctx
  have ofText : Hint.InLayers ctx.binding? Builtin.str 1 text [v] := .annotated none rfl _ _ .base
  have ofId : Hint.InLayers ctx.binding? Builtin.str 2 id [v] := .newType 0 "Id" "m" ofText
  have ofT : Hint.InLayers ctx.binding? Builtin.str 3 t [v] := .bounded 1 "T" .invariant [] rfl ofId
  have ofU : Hint.InLayers ctx.binding? Builtin.str 4 u [v] := .substituted rfl rfl ofT
  have layered : Hint.InLayers ctx.binding? Builtin.str 6 h [v, w] :=
    .annotated none rfl _ [] (.qualified none rfl ofU)
  have unchanged : (Hint.cls Builtin.str).IsUnchanged start.catalog ctx := ⟨[], rfl⟩
  let names : Naming := ⟨fun n => if n = 0 then id else if n = 1 then t else u,
    fun n => if n = 0 then v.rule else w.rule⟩
  have namedValidator (x : Validator) (isRule : names.rule x.label = x.rule) :
      (Hint.validator none x).WellNamed names :=
    .intro (fun n labelled => by cases labelled) (fun label w same => by cases same; exact isRule)
      fun _ member => by cases member
  have namedText : text.WellNamed names :=
    .ofArgs (by simpa using ⟨.ofClass _, .ofValue _, namedValidator v rfl⟩)
  have namedId : id.WellNamed names :=
    .intro (fun n labelled => by cases labelled; rfl) (fun _ _ same => by simp [id] at same)
      (by simpa [id, Hint.parts] using namedText)
  have namedT : t.WellNamed names :=
    .intro (fun n labelled => by cases labelled; rfl) (fun _ _ same => by simp [t] at same)
      (by simpa [t, Hint.parts] using namedId)
  have namedU : u.WellNamed names :=
    .intro (fun n labelled => by cases labelled; rfl) (fun _ _ same => by simp [u] at same)
      (by simp [u, Hint.parts])
  have named : h.WellNamed names :=
    .ofArgs (by simpa using ⟨.ofArgs (by simpa using namedU), namedValidator w rfl⟩)
  have bindings : ∀ entry ∈ ctx.bindings, entry.2.WellNamed names := by
    intro entry member
    cases List.mem_singleton.mp member
    exact namedT
  obtain ⟨_, reduces, each⟩ := layered_restricts layered unchanged named bindings .empty
  have evaluated : (((buildCheck ctx "obj" h .empty).run.run start).1.toOption.any
      fun _ => true) = true := by decide +kernel
  obtain ⟨⟨c, after⟩, generates, _⟩ := ok_of_any evaluated
  obtain ⟨generated, restricts⟩ := each "obj" .empty c after generates
  obtain ⟨d, left, alone⟩ := generated rfl
  exact ⟨reduces, c, after, d, left, generates, alone, restricts d left alone⟩

end Session
end HintCheck
