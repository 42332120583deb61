import HintCheck.Proofs.Idempotence
import HintCheck.Proofs.Indifference
import HintCheck.Proofs.Relocation
import HintCheck.Proofs.Room
import HintCheck.Proofs.Weakening

/-!
Variadic parameters. The hint of such a parameter says what each of the values is that it takes in,
and is spread over the tuple or the dictionary in which they are bound. The check of the parameter
fails if and only if there are such values and one of them fails the check of the hint by itself.
-/
namespace HintCheck

open Hint

namespace Hint

variable {cat : Catalog} {subs : Substitutes} {ctx : Context} {kind : ParamKind} {h : Hint}
  {c : Classified}

/-! ### The hint of a variadic parameter -/

/-- How the hint of a variadic parameter is classified: as a tuple of any length or as a dictionary
with texts for keys. -/
def spreadAs (kind : ParamKind) (h : Hint) : Classified :=
  match kind with
  | .varKeyword =>
    .container .dict (generic Option.none Builtin.dict [Builtin.str, h]) (some Builtin.dict)
      [Builtin.str, h]
  | _ => .container .tupleVariadic (tupleOf Option.none Option.none h) (some Builtin.tuple) [h]

theorem hasSign_dict : Builtin.dict.hasSign (fun sign => sign == .dict) = true := by
  decide +kernel

theorem classifyCanonical_tupleOf
    (classified : (tupleOf Option.none Option.none h).classifyCanonical cat = .ok c) :
    c = spreadAs .varPositional h := by
  rw [tupleOf, classifyCanonical_tuple] at classified
  have byItem : (if h.isDots = true then Except.error _ else .ok _) = .ok c := classified
  split at byItem
  · cases byItem
  · exact (Except.ok.inj byItem).symm

theorem classifyCanonical_dict
    (classified : (generic Option.none Builtin.dict [Builtin.str, h]).classifyCanonical cat =
      .ok c) : c = spreadAs .varKeyword h := by
  obtain ⟨sign, spelled, isDict⟩ := sign?_generic cat hasSign_dict Option.none [cls Builtin.str, h]
  obtain rfl := eq_of_beq isDict
  rw [classifyCanonical, spelled] at classified
  have byArity : (if [cls Builtin.str, h].any isDots = true then Except.error _ else .ok _) =
    .ok c := classified
  split at byArity
  · cases byArity
  · exact (Except.ok.inj byArity).symm

theorem classify_str : (cls Builtin.str).classify cat subs ctx.nested =
    .ok (.leaf .isinstanceable (cls Builtin.str) (some Builtin.str)) := by
  have rests (reduce : Hint → Except HintError Reduced) :
      (cls Builtin.str).step cat ctx.nested reduce = .ok ⟨Option.none, []⟩ := rfl
  have isPlain : Cache.isPlainClass cat Builtin.str = true := rfl
  rw [classify, classifyWithin_proper rfl,
    canonical_of_rests rfl rfl (rests fun _ => .ok ⟨object, []⟩)]
  exact congrArg (· >>= pure) (classifyCanonical_plain isPlain)

/-- A hint that is not unpacked is spread, and stays so. -/
theorem canonical_spread (notUnpack : h.subscriptedForm? ≠ some .unpack)
    (isVariadic : kind.isVariadic = true) :
    h.canonical cat (ctx.placedAt (.param kind)) = .ok ⟨(spreadAs kind h).hint, []⟩ := by
  cases kind with
  | varPositional =>
    have rests (reduce : Hint → Except HintError Reduced) :
        (tupleOf Option.none Option.none h).step cat (ctx.placedAt (.param .varPositional)) reduce =
          .ok ⟨Option.none, []⟩ := by
      have dots : (value Option.none .ellipsis).subscriptedForm? = Option.none := rfl
      have noUnpack : [h, value Option.none .ellipsis].filter
          (fun a => a.subscriptedForm? == some .unpack) = [] := by simp [notUnpack, dots]
      simp [tupleOf, generic, step, stepTuple, noUnpack]
    exact canonical_of_rests (spread_varPositional notUnpack) rfl (rests fun _ => .ok ⟨object, []⟩)
  | varKeyword =>
    have rests (reduce : Hint → Except HintError Reduced) :
        (generic Option.none Builtin.dict [Builtin.str, h]).step cat
          (ctx.placedAt (.param .varKeyword)) reduce = .ok ⟨Option.none, []⟩ := rfl
    exact canonical_of_rests (spread_varKeyword notUnpack) rfl (rests fun _ => .ok ⟨object, []⟩)
  | _ => cases isVariadic

/-- A proper hint that is not unpacked is classified as what it is spread to. -/
theorem classifyWithin_spread (proper : h.isProper = true)
    (notUnpack : h.subscriptedForm? ≠ some .unpack) (isVariadic : kind.isVariadic = true)
    {room : Nat} (classified :
      h.classifyWithin cat subs room (ctx.placedAt (.param kind)) = .ok c) :
    c = spreadAs kind h := by
  rw [classifyWithin_proper proper] at classified
  obtain ⟨reduced, found, classified⟩ := ok_of_bind classified
  obtain ⟨inner, isInner, isClassified⟩ := ok_of_bind classified
  cases (canonical_spread notUnpack isVariadic).symm.trans found
  cases isClassified
  cases kind with
  | varPositional =>
    rw [classifyReduced_settled rfl] at isInner
    exact classifyCanonical_tupleOf isInner
  | varKeyword =>
    rw [classifyReduced_settled rfl] at isInner
    exact classifyCanonical_dict isInner
  | _ => cases isVariadic

/-- Where it stands alone, an unpacked hint breaks a rule. -/
theorem classifyWithin_unpack (isUnpack : h.subscriptedForm? = some .unpack) (room : Nat) :
    h.classifyWithin cat subs room ctx.nested ≠ .ok c := by
  intro classified
  cases h with
  | subscription label origin args =>
    cases origin with
    | cls => cases isUnpack
    | form f =>
      rw [classifyWithin_proper rfl] at classified
      obtain ⟨reduced, found, _⟩ := ok_of_bind classified
      obtain ⟨steps, limit⟩ := exists_maxSteps
      rw [canonical, nestingBound_eq, Nat.add_right_comm, canonicalWithin_nested, limit,
        iterate_succ] at found
      have isForm : f.form = .unpack := Option.some.inj isUnpack
      simp [step, stepSubscribed, isForm, Form.isQualifier, bind, Except.bind] at found
  | _ => cases isUnpack

/-- The hint of a variadic parameter is classified as what it is spread to, or what it stands for
is. -/
theorem classifyWithin_variadic (isVariadic : kind.isVariadic = true) {room : Nat}
    (classified : h.classifyWithin cat subs room (ctx.placedAt (.param kind)) = .ok c) :
    ∃ x : Hint, (h.isProper = true → x = h) ∧
      (∀ few d, h.classifyWithin cat subs few ctx.nested = .ok d →
        x.classifyWithin cat subs few ctx.nested = .ok d) ∧
      (x.subscriptedForm? ≠ some .unpack → c = spreadAs kind x) := by
  induction room generalizing h with
  | zero =>
    cases proper : h.isProper with
    | true =>
      exact ⟨h, fun _ => rfl, fun _ _ => id, fun notUnpack =>
        classifyWithin_spread proper notUnpack isVariadic classified⟩
    | false =>
      cases h with
      | value | validator | params | extension => cases classified
      | _ => cases proper
  | succ room ih =>
    cases proper : h.isProper with
    | true =>
      exact ⟨h, fun _ => rfl, fun _ _ => id, fun notUnpack =>
        classifyWithin_spread proper notUnpack isVariadic classified⟩
    | false =>
      cases h with
      | extension label shown =>
        rw [classifyWithin_extension] at classified
        cases stands : subs.lookup label with
        | none => rw [stands] at classified; cases classified
        | some y =>
          rw [stands] at classified
          obtain ⟨x, _, alone, spreads⟩ := ih classified
          refine ⟨x, nofun, fun few d found => ?_, spreads⟩
          cases few with
          | zero => cases found
          | succ few =>
            rw [classifyWithin_extension, stands] at found
            exact steadyAt few (alone few d found)
      | value | validator | params => cases classified
      | _ => cases proper

end Hint

/-! ### The check of a variadic parameter -/

/-- What a variadic parameter is bound to holds the values. -/
inductive Value.Packs : ParamKind → List Value → Value → Prop
  | starred (values : List Value) : Packs .varPositional values (.tuple values)
  | doubleStarred (keywords : List (String × Value)) :
    Packs .varKeyword (keywords.map Prod.snd)
      (.dict (keywords.map fun keyword => (.str keyword.1, keyword.2)))

namespace Builder
open Building

variable {b : Builder} {ctx : Context} {kind : ParamKind} {h : Hint} {scope : Scope}

theorem isInstanceOf_own {k : Builtin} {v : Value} (own : v.classOf = k) (cat : Catalog) :
    cat.isInstanceOf v [.inline k] = true := by
  simp [Catalog.isInstanceOf, ClassOperand.target, Catalog.isInstance, Catalog.isSubclass, own]

theorem originOperands_builtin {c : Classified} {k : Builtin} (origin : c.origin = some k)
    (single : widened b.conf k = [.builtin k]) (spellable : Catalog.isSpellable k = true) :
    b.originOperands c = pure [.inline k] := by
  simp [originOperands, origin, single, operand, spellable]

/-- The keys of the dictionary are texts. -/
theorem inside?_str {room : Nat} {key : Option Check} {after : Scope}
    (built : outcome (b.inside? (b.buildWithin room) ctx (.cls Builtin.str)) scope =
      (.ok key, after)) :
    ∃ s, key = some (.isInstance s [.inline Builtin.str]) := by
  obtain ⟨check, _, inside, isKey⟩ := ok_of_outcome_bind (congrArg Prod.fst built)
  obtain ⟨c, _, classified, inside⟩ := ok_of_outcome_bind (congrArg Prod.fst inside)
  rw [Builder.classify, classify_str] at classified
  cases classified
  obtain ⟨pith, _, _, made⟩ := ok_of_outcome_bind inside
  cases room with
  | zero => cases made
  | succ room =>
    obtain ⟨origin, _, isOrigin, isCheck⟩ := ok_of_outcome_bind made
    rw [originOperands_builtin rfl (by simp [widened]) rfl] at isOrigin
    cases isOrigin
    cases isCheck
    cases isKey
    exact ⟨_, rfl⟩

theorem inside_of_inside? {make : Maker} {found : Option Check} {after : Scope}
    (built : outcome (b.inside? make ctx h) scope = (.ok found, after)) :
    ∃ item d other start, h.classify b.catalog b.substitutes ctx.nested = .ok d ∧
      (outcome (make ctx.nested other d) start).1 = .ok item ∧
      found = if item.isPass then Option.none else some item := by
  obtain ⟨item, _, inside, isFound⟩ := ok_of_outcome_bind (congrArg Prod.fst built)
  obtain ⟨d, _, classified, inside⟩ := ok_of_outcome_bind (congrArg Prod.fst inside)
  obtain ⟨other, start, _, made⟩ := ok_of_outcome_bind inside
  refine ⟨item, d, other, start, ?_, made, (Except.ok.inj isFound).symm⟩
  rw [Builder.classify] at classified
  cases found : h.classify b.catalog b.substitutes ctx.nested with
  | error e => rw [found] at classified; cases classified
  | ok d' => rw [found] at classified; cases classified; rfl

theorem accepts_of_isPass {m : Type → Type} [Monad m] {c : Check} (isPass : c.isPass = true)
    (o : Oracle m) : c.accepts o = fun _ => pure true := by
  cases c with
  | pass s => rfl
  | _ => cases isPass

theorem acceptsOption_of_item {m : Type → Type} [Monad m] (o : Oracle m) (item : Check) :
    Check.acceptsOption o (if item.isPass then Option.none else some item) = item.accepts o := by
  cases isPass : item.isPass with
  | true => exact (accepts_of_isPass isPass o).symm
  | false => rfl

section Keywords
variable {m : Type → Type} [Monad m] [LawfulMonad m] {o : Oracle m}

/-- The pairs of a dictionary of keywords are accepted if the values are. -/
theorem allOf_keywords {s : Subject} (value : Option Check) (keywords : List (String × Value)) :
    Check.allOf (fun pair => Check.both
        (Check.acceptsOption o (some (.isInstance s [.inline Builtin.str])) pair.1)
        fun _ => Check.acceptsOption o value pair.2)
        (keywords.map fun keyword => (.str keyword.1, keyword.2)) =
      Check.allOf (Check.acceptsOption o value) (keywords.map Prod.snd) := by
  have isText (text : String) : o.catalog.isInstanceOf (.str text) [.inline Builtin.str] = true :=
    isInstanceOf_own rfl _
  induction keywords with
  | nil => rfl
  | cons keyword rest ih =>
    simp only [List.map_cons, Check.allOf, ih]
    simp only [Check.acceptsOption, Check.accepts, isText, Check.both_pure, if_true]

end Keywords

/-- What is bound to a variadic parameter is accepted if and only if every value in it is. -/
theorem buildWithin_spreadAs (exhaustive : b.conf.thoroughness = .exhaustive)
    (isVariadic : kind.isVariadic = true) {room : Nat} {pith : String} {c : Check}
    (built : (outcome (b.buildWithin (room + 1) (ctx.placedAt (.param kind)) pith
      (h.spreadAs kind)) scope).1 = .ok c) :
    ∃ item d other start, h.classify b.catalog b.substitutes ctx.nested = .ok d ∧
      (outcome (b.buildWithin room ctx.nested other d) start).1 = .ok item ∧
      c.isPass = false ∧ ∀ {m : Type → Type} [Monad m] [LawfulMonad m] (o : Oracle m) values v,
        Value.Packs kind values v → c.accepts o v = Check.allOf (item.accepts o) values := by
  have isExhaustive : (b.conf.thoroughness == .exhaustive) = true := beq_iff_eq.mpr exhaustive
  cases kind with
  | varPositional =>
    obtain ⟨origin, _, isOrigin, built⟩ := ok_of_outcome_bind built
    rw [originOperands_builtin rfl (by simp [widened]) rfl] at isOrigin
    cases isOrigin
    obtain ⟨found, _, inside, isCheck⟩ := ok_of_outcome_bind built
    obtain ⟨item, d, other, start, classified, made, rfl⟩ := inside_of_inside? inside
    refine ⟨item, d, other, start, classified, made, ?_⟩
    cases isPass : item.isPass with
    | true =>
      rw [isPass] at isCheck
      cases isCheck
      refine ⟨rfl, fun o values v packs => ?_⟩
      cases packs
      rw [Check.accepts, isInstanceOf_own rfl, accepts_of_isPass isPass, Check.allOf_true]
    | false =>
      rw [isPass] at isCheck
      cases isCheck
      refine ⟨rfl, fun o values v packs => ?_⟩
      cases packs
      rw [Check.accepts, isInstanceOf_own rfl, isExhaustive]
      rfl
  | varKeyword =>
    obtain ⟨origin, _, isOrigin, built⟩ := ok_of_outcome_bind built
    rw [originOperands_builtin rfl (by simp [widened]) rfl] at isOrigin
    cases isOrigin
    obtain ⟨key, _, keyInside, built⟩ := ok_of_outcome_bind built
    obtain ⟨s, rfl⟩ := inside?_str keyInside
    obtain ⟨found, _, inside, isCheck⟩ := ok_of_outcome_bind built
    obtain ⟨item, d, other, start, classified, made, rfl⟩ := inside_of_inside? inside
    refine ⟨item, d, other, start, classified, made, ?_⟩
    cases isCheck
    refine ⟨rfl, fun o values v packs => ?_⟩
    cases packs with
    | doubleStarred keywords =>
      rw [Check.accepts, isInstanceOf_own rfl, isExhaustive]
      exact (allOf_keywords _ keywords).trans
        (congrArg (Check.allOf · _) (acceptsOption_of_item o item))
  | _ => cases isVariadic

end Builder

theorem Check.allOf_id {α : Type} (test : α → Bool) (items : List α) :
    Check.allOf (m := Id) test items = items.all test := by
  induction items with
  | nil => rfl
  | cons a rest ih =>
    rw [List.all_cons, ← ih]
    simp only [Check.allOf, Check.both]
    cases test a <;> rfl

/-- The verdict of a check that needs no references and no random number. -/
def Check.verdict (cat : Catalog) (c : Check) (v : Value) : Bool :=
  c.accepts (.blind cat 0) v

namespace Session

variable {s : Session} {names : Naming} {ctx : Context} {kind : ParamKind} {h : Hint}
  {pith : String} {scope after : Scope} {c : Check}

section Generated
variable (named : h.WellNamed names) (grown : s.cache.Grown names s.catalog s.substitutes)
include named grown

/-- The check that is generated from a hint is built from what the hint is classified as. -/
theorem generates_iff : s.Generates ctx pith h scope c after ↔
    ∃ d, h.classify s.catalog s.substitutes ctx = .ok d ∧
      Building.outcome (Builder.build ⟨s.catalog, s.substitutes, ctx.conf⟩ ctx pith d) scope =
        (.ok c, after) := by
  refine ⟨outcome_of_buildCheck named grown, ?_⟩
  rintro ⟨d, classified, built⟩
  rw [Generates, buildCheck_eq named grown, classified]
  dsimp only [bind, Except.bind]
  rw [built]
  rfl

/-- The check of a variadic parameter accepts what it is bound to if and only if the check of the
hint by itself accepts each value; and unless the hint is unpacked, there is such a check. -/
theorem Generates.variadic (exhaustive : ctx.conf.thoroughness = .exhaustive)
    (isVariadic : kind.isVariadic = true)
    (generates : s.Generates (ctx.placedAt (.param kind)) pith h scope c after) :
    (h.isProper = true → h.subscriptedForm? ≠ some .unpack → ∀ other start,
      ∃ alone left, s.Generates ctx.nested other h start alone left) ∧
    ∀ other start alone left, s.Generates ctx.nested other h start alone left →
      c.isPass = false ∧ ∀ cat values v, Value.Packs kind values v →
        c.verdict cat v = values.all (alone.verdict cat) := by
  obtain ⟨d, classified, built⟩ := (generates_iff named grown).mp generates
  obtain ⟨x, itself, alike, spreads⟩ := classifyWithin_variadic isVariadic classified
  let b : Builder := ⟨s.catalog, s.substitutes, ctx.conf⟩
  have spread (notUnpack : x.subscriptedForm? ≠ some .unpack) :
      (Building.outcome (b.buildWithin (maxNesting + 1) (ctx.placedAt (.param kind)) pith
        (x.spreadAs kind)) scope).1 = .ok c := by
    rw [← spreads notUnpack]
    exact congrArg Prod.fst built
  -- what was built for the values inside is built again with all the room
  have again (cat : Catalog) {first other : String} {e : Classified} {start fresh : Scope}
      {item : Check}
      (made : (Building.outcome (b.buildWithin maxNesting ctx.nested first e) start).1 = .ok item) :
      ∃ alone, (Building.outcome (b.build ctx.nested other e) fresh).1 = .ok alone ∧
        item.accepts (.blind cat 0) = alone.accepts (.blind cat 0) := by
    obtain ⟨alone, builtAlone, same⟩ :=
      Builder.buildWithin_elsewhere (Nat.le_succ _) made other fresh
    exact ⟨alone, builtAlone, same (.blind cat 0) fun _ _ => rfl⟩
  refine ⟨fun proper notUnpack other start => ?_, fun other start alone left generatesAlone => ?_⟩
  · obtain rfl := itself proper
    obtain ⟨item, e, _, _, classifiedItem, made, _⟩ :=
      Builder.buildWithin_spreadAs exhaustive isVariadic (spread notUnpack)
    obtain ⟨alone, builtAlone, _⟩ := again s.catalog made
    exact ⟨alone, _, (generates_iff named grown).mpr ⟨e, classifiedItem, Prod.ext builtAlone rfl⟩⟩
  · obtain ⟨e, classifiedAlone, builtAlone⟩ := (generates_iff named grown).mp generatesAlone
    have classifiedToo := alike _ e classifiedAlone
    have notUnpack : x.subscriptedForm? ≠ some .unpack := fun isUnpack =>
      classifyWithin_unpack isUnpack _ classifiedToo
    obtain ⟨item, e', _, _, classifiedItem, made, isTest, accepts⟩ :=
      Builder.buildWithin_spreadAs exhaustive isVariadic (spread notUnpack)
    cases classifiedToo.symm.trans classifiedItem
    refine ⟨isTest, fun cat values v packs => ?_⟩
    obtain ⟨found, builtToo, same⟩ := again cat made
    cases (congrArg Prod.fst builtAlone).symm.trans builtToo
    rw [Check.verdict, accepts _ values v packs, same]
    exact Check.allOf_id _ values

/-- A check that has no references and tests all items gives its verdict at once. -/
theorem Generates.accepts_eq (generates : s.Generates ctx pith h scope c after)
    (sound : scope.Sound) (exhaustive : ctx.conf.thoroughness = .exhaustive)
    (closed : c.references = []) (o : Oracle Checking) (v : Value) :
    c.accepts o v = pure (c.verdict o.catalog v) := by
  obtain ⟨_, _, stands⟩ := buildCheck_stands (hereditary_true _ _) ctx.keeps_true trivial sound
    named grown generates
  have formed := (stands after fun _ _ => id).formed
  rw [exhaustive] at formed
  rw [formed.thorough.steady.accepts_eq o 0, Check.accepts_closed _ closed]
  rfl

/-- A scope in order is left in order. -/
theorem Generates.sound (generates : s.Generates ctx pith h scope c after)
    (sound : scope.Sound) : after.Sound := by
  obtain ⟨_, steps, _⟩ := buildCheck_stands (hereditary_true _ _) ctx.keeps_true trivial sound
    named grown generates
  exact steps.sound sound

end Generated

/-! ### Parameters -/

section Covered
variable {index : Nat} {params : List Parameter} {checks : List ParamCheck}
  (covered : s.ParamsCovered ctx index params scope checks after)
include covered

theorem ParamsCovered.index_le : ∀ check ∈ checks, index ≤ check.index := by
  induction covered with
  | nil => exact nofun
  | bare _ _ ih | idle _ _ _ _ ih => exact fun check member => Nat.le_of_succ_le (ih check member)
  | held _ _ _ _ ih =>
    refine List.forall_mem_cons.mpr ⟨Nat.le_refl _, fun check member => ?_⟩
    exact Nat.le_of_succ_le (ih check member)

theorem ParamsCovered.filter_earlier {earlier : Nat} (isEarlier : earlier < index) :
    checks.filter (fun check => check.index == earlier) = [] := by
  refine List.filter_eq_nil_iff.mpr fun check member => ?_
  have after := covered.index_le check member
  simp only [beq_iff_eq]
  omega

/-- The check of a parameter is the one that is generated from its hint. -/
theorem ParamsCovered.generates (grown : s.cache.Grown names s.catalog s.substitutes)
    (named : ∀ p ∈ params, ∀ h, p.hint = some h → h.WellNamed names) (sound : scope.Sound)
    {offset : Nat} {p : Parameter} (there : params[offset]? = some p) (hint : p.hint = some h) :
    ∃ c start left, start.Sound ∧ s.Generates (ctx.placedAt (.param p.kind)) p.name h start c left ∧
      (c.isPass = false → checks.filter (fun check => check.index == index + offset) =
        [⟨index + offset, p.name, c⟩]) := by
  induction covered generalizing offset with
  | nil => cases there
  | bare none _ ih =>
    obtain ⟨_, namedRest⟩ := List.forall_mem_cons.mp named
    cases offset with
    | zero =>
      cases there
      rw [none] at hint
      cases hint
    | succ offset =>
      have found := ih namedRest sound there
      rwa [Nat.add_right_comm, Nat.add_assoc] at found
  | idle hintToo generates passes _ ih =>
    obtain ⟨namedFirst, namedRest⟩ := List.forall_mem_cons.mp named
    cases offset with
    | zero =>
      cases there
      cases hintToo.symm.trans hint
      refine ⟨_, _, _, sound, generates, fun isTest => ?_⟩
      rw [passes] at isTest
      cases isTest
    | succ offset =>
      have found := ih namedRest (generates.sound (namedFirst _ hintToo) grown sound) there
      rwa [Nat.add_right_comm, Nat.add_assoc] at found
  | held hintToo generates _ others ih =>
    obtain ⟨namedFirst, namedRest⟩ := List.forall_mem_cons.mp named
    cases offset with
    | zero =>
      cases there
      cases hintToo.symm.trans hint
      refine ⟨_, _, _, sound, generates, fun _ => ?_⟩
      rw [Nat.add_zero, List.filter_cons_of_pos (by simp),
        others.filter_earlier (Nat.lt_succ_self _)]
    | succ offset =>
      obtain ⟨c, start, left, soundToo, generatesToo, filtered⟩ :=
        ih namedRest (generates.sound (namedFirst _ hintToo) grown sound) there
      rw [Nat.add_right_comm, Nat.add_assoc] at filtered
      refine ⟨c, start, left, soundToo, generatesToo, fun isTest => ?_⟩
      rw [List.filter_cons_of_neg (by simp), filtered isTest]

end Covered
end Session

namespace Signature

variable {s : Signature} {call : Call} {bound : List Bound}

/-- The values that a variadic parameter takes in: the positional arguments or the keywords that
find no other parameter. -/
def leftOver (s : Signature) (call : Call) : ParamKind → List Value
  | .varPositional => call.positional.drop (s.params.filter fun p => p.kind.acceptsPosition).length
  | .varKeyword => (call.keywords.filter fun keyword => !takes s.params keyword.1).map Prod.snd
  | _ => []

/-- A variadic parameter is bound to what is left over, and counts as passed if there is any. -/
theorem bind_leftOver (binds : s.bind call = .ok bound) {index : Nat} {p : Parameter}
    (there : s.params[index]? = some p) (isVariadic : p.kind.isVariadic = true) :
    ∃ b, bound[index]? = some b ∧ Value.Packs p.kind (s.leftOver call p.kind) b.value ∧
      b.passed = !(s.leftOver call p.kind).isEmpty := by
  have settles := settles_of_bind binds
  have length : bound.length = s.params.length := by
    simpa using congrArg List.length (names_of_settles settles)
  obtain ⟨within, isParam⟩ := List.getElem?_eq_some_iff.mp there
  obtain ⟨b, isBound⟩ : ∃ b, bound[index]? = some b :=
    ⟨_, List.getElem?_eq_getElem (length ▸ within)⟩
  have member : (p, b) ∈ s.params.zip bound :=
    List.mem_of_getElem? (List.getElem?_zip_eq_some.mpr ⟨there, isBound⟩)
  obtain ⟨t, _, rfl, settled⟩ := slot_of_mem_zip settles member
  refine ⟨b, isBound, ?_⟩
  cases kind : t.param.kind with
  | varPositional =>
    obtain ⟨value, passed⟩ := settled.starred kind
    rw [value, passed, extra, Slot.extra_fill]
    exact ⟨.starred _, rfl⟩
  | varKeyword =>
    obtain ⟨value, passed⟩ := settled.doubleStarred kind
    rw [value, passed]
    exact ⟨.doubleStarred _, by rw [leftOver, List.isEmpty_map]; rfl⟩
  | _ => rw [kind] at isVariadic; cases isVariadic

end Signature

/-- A check with a known verdict is failed by what was passed and is rejected. -/
theorem Running.demandParam_iff {o : Oracle Checking} {w : Wrapper} {function : String}
    {bound : List Bound} {p : ParamCheck} {b : Bound} {verdict : Bool}
    (there : bound[p.index]? = some b) (settled : p.check.accepts o b.value = pure verdict)
    (s : CallState) :
    (∃ e, ((demandParams o w function bound [p]).run.run s).1 = .error e) ↔
      b.passed = true ∧ verdict = false := by
  have verdictOf {found : Bool} {mid : CallState}
      (ran : (p.check.accepts o b.value).run.run s = (.ok found, mid)) : found = verdict := by
    rw [settled] at ran
    cases ran
    rfl
  unfold demandParams
  rw [there]
  dsimp only
  cases given : b.passed with
  | false =>
    constructor
    · rintro ⟨e, ends⟩
      cases ends
    · rintro ⟨passed, _⟩
      cases passed
  | true =>
    rw [if_pos rfl, run_run_bind]
    rcases demand_cases o w.conf function (.parameter p.name) p.check b.value s with
      ⟨after, accepts, met⟩ | ⟨e, after, refuses, ends⟩
    · rw [met]
      constructor
      · rintro ⟨e, ends⟩
        cases ends
      · rintro ⟨_, rejects⟩
        rw [← verdictOf accepts] at rejects
        cases rejects
    · rw [ends]
      refine ⟨fun _ => ⟨rfl, ?_⟩, fun _ => ⟨e, rfl⟩⟩
      cases refuses with
      | violates rejects _ => exact (verdictOf rejects).symm
      | unresolved fails =>
        rw [settled] at fails
        cases fails

/-- A check that accepts values packed together if each of them is admitted fails if values are left
over and one of them is not. -/
theorem Running.demandParam_leftOver {o : Oracle Checking} {w : Wrapper} {function name : String}
    {s : Signature} {call : Call} {bound : List Bound} (binds : s.bind call = .ok bound)
    {index : Nat} {p : Parameter} (there : s.params[index]? = some p)
    (isVariadic : p.kind.isVariadic = true) {c : Check} {admits : Value → Bool}
    (accepts : ∀ values v, Value.Packs p.kind values v →
      c.accepts o v = pure (values.all admits)) (calls : CallState) :
    let checked := ((demandParams o w function bound [⟨index, name, c⟩]).run.run calls).1
    (s.leftOver call p.kind = [] → checked = .ok ()) ∧
      ((∃ e, checked = .error e) ↔
        s.leftOver call p.kind ≠ [] ∧ ∃ v ∈ s.leftOver call p.kind, admits v = false) := by
  intro checked
  obtain ⟨b, isBound, packs, passed⟩ := Signature.bind_leftOver binds there isVariadic
  have isPassed : b.passed = true ↔ s.leftOver call p.kind ≠ [] := by
    rw [passed, Bool.not_eq_true', List.isEmpty_eq_false_iff]
  have fails : (∃ e, checked = .error e) ↔
      b.passed = true ∧ (s.leftOver call p.kind).all admits = false :=
    demandParam_iff isBound (accepts _ b.value packs) calls
  refine ⟨fun none => ?_, ?_⟩
  · cases ended : checked with
    | ok => rfl
    | error e => exact absurd none (isPassed.mp (fails.mp ⟨e, ended⟩).1)
  · simp only [fails, isPassed, List.all_eq_false, Bool.not_eq_true]

namespace Session

/-- A function is decorated so that all items are tested, and the hint of one of its variadic
parameters leads to no reference. The function is exempt and left as it is; or there is a check of
the hint alone, unless the hint is unpacked, and the check of the parameter fails if and only if
values are left over for it and one of them fails that check, whatever classes are known by then. -/
theorem decorate_variadic {s : Session} {names : Naming} {conf : Config} {owner : Option ClassId}
    {d : Declaration} {body : Body} {g : Callable} {index : Nat} {p : Parameter} {h : Hint}
    (exhaustive : conf.thoroughness = .exhaustive)
    (grown : s.cache.Grown names s.catalog s.substitutes)
    (namedParams : ∀ p ∈ d.signature.params, ∀ h, p.hint = some h → h.WellNamed names)
    (decorated : ((decorate conf owner (.plain d body)).run s).1.1 = .ok g)
    (there : d.signature.params[index]? = some p) (isVariadic : p.kind.isVariadic = true)
    (hint : p.hint = some h) :
    let dec : Decorator := ⟨s.around, s.substitutes, conf⟩
    let ctx := dec.contextOf owner d
    (∀ y, h.Reaches s.catalog s.substitutes ctx y → y.isReference = false) →
    dec.isExempt owner d = true ∧ g = .plain d body ∨
    (h.isProper = true → h.subscriptedForm? ≠ some .unpack → ∀ pith scope, ∃ alone after,
      s.Generates ctx.nested pith h scope alone after) ∧
    ∀ pith scope alone after, scope.Sound → s.Generates ctx.nested pith h scope alone after →
      ∃ w, g = .checked d body w ∧ ∀ around args bound, d.signature.bind args = .ok bound →
        ∀ (random other : UInt32) (label : Nat) (calls called : CallState),
          let checked := ((Running.demandParams (Running.oracle around w.label random) w d.qualname
            bound (w.params.filter fun check => check.index == index)).run.run calls).1
          let values := d.signature.leftOver args p.kind
          (values = [] → checked = .ok ()) ∧
          ((∃ e, checked = .error e) ↔ values ≠ [] ∧ ∃ v ∈ values,
            ((alone.accepts (Running.oracle around label other) v).run.run called).1 =
              .ok false) := by
  intro dec ctx closed
  rw [decorate_outcome] at decorated
  have exhaustiveHere : ctx.conf.thoroughness = .exhaustive := by cases owner <;> exact exhaustive
  have reads : dec.builder = ⟨s.catalog, s.substitutes, ctx.conf⟩ := by cases owner <;> rfl
  have named := namedParams p (List.mem_of_getElem? there) h hint
  rcases Decorator.decorate_cases (Prod.ext decorated rfl) with
    ⟨isLeft, rfl⟩ | ⟨params, mid, result, last, done, _, outcome⟩
  · rw [exhaustive] at isLeft
    exact .inl ⟨isLeft.resolve_left nofun, rfl⟩
  obtain ⟨_, covered⟩ := Decorator.paramChecks_covered reads grown namedParams grown done
  obtain ⟨c, start, left, sound, generates, filtered⟩ :=
    covered.generates grown namedParams Scope.sound_empty there hint
  obtain ⟨generated, each⟩ := generates.variadic named grown exhaustiveHere isVariadic
  refine .inr ⟨generated, fun pith scope alone after soundAlone generatesAlone => ?_⟩
  obtain ⟨isTest, accepts⟩ := each pith scope alone after generatesAlone
  have only := filtered isTest
  rw [Nat.zero_add] at only
  rcases outcome with ⟨rfl, _, _⟩ | ⟨w, rfl, rfl, _⟩
  · cases only
  refine ⟨w, rfl, fun around args bound binds random other label calls called => ?_⟩
  have closedHere := references_buildCheck closed sound.wellKept named grown generates rfl rfl
  have closedAlone := references_buildCheck closed soundAlone.wellKept named grown generatesAlone
    rfl rfl
  have settled (values : List Value) (v : Value) (packs : Value.Packs p.kind values v) :
      c.accepts (Running.oracle around w.label random) v =
        pure (values.all (alone.verdict around.catalog)) := by
    rw [generates.accepts_eq named grown sound exhaustiveHere closedHere]
    exact congrArg pure (accepts around.catalog values v packs)
  have settledAlone (v : Value) :
      ((alone.accepts (Running.oracle around label other) v).run.run called).1 =
        .ok (alone.verdict around.catalog v) := by
    rw [generatesAlone.accepts_eq named grown soundAlone exhaustiveHere closedAlone]
    rfl
  simp only [only, settledAlone, Except.ok.injEq]
  exact Running.demandParam_leftOver binds there isVariadic settled calls

/-- The last of the arguments is a text, and numbers are asked for. -/
theorem decorate_variadic_numbers :
    let rest : Parameter := ⟨"b", .varPositional, none, some Builtin.int⟩
    let d : Declaration := ⟨5, "f", "f", "m", ⟨[.plain "a" .positionalOrKeyword, rest], by decide⟩,
      none, false, none⟩
    let body := Body.argument "a"
    let conf : Config := ⟨.exhaustive, false, none⟩
    ∃ w, ((decorate conf none (.plain d body)).run start).1.1 = .ok (.checked d body w) ∧
      ∀ random calls, ∃ e, ((Running.demandParams (Running.oracle start.around w.label random) w "f"
        [⟨"a", .str "0", true⟩, ⟨"b", .tuple [.int 1, .str "2"], true⟩]
        (w.params.filter fun check => check.index == 1)).run.run calls).1 = .error e := by
  intro rest d body conf
  let ctx := Decorator.contextOf ⟨start.around, start.substitutes, conf⟩ none d
  let args : Call := ⟨[.str "0", .int 1, .str "2"], []⟩
  have evaluated : ((decorate conf none (.plain d body)).run start).1.1.toOption.any
      (fun g => g.wrapper?.isSome) = true := by decide +kernel
  have generated : ((buildCheck ctx.nested "b" Builtin.int .empty).run.run start).1.toOption.any
      (fun made => ((made.1.accepts (Running.oracle start.around 0 0) (.str "2")).run.run
        start.calls).1.toOption.any fun verdict => !verdict) = true := by decide +kernel
  let names : Naming := ⟨fun _ => Builtin.object, fun _ => .instanceOf []⟩
  have named : ∀ p ∈ d.signature.params, ∀ h, p.hint = some h → h.WellNamed names := by
    simp only [d, rest, List.forall_mem_cons, Parameter.plain, List.not_mem_nil, false_implies,
      implies_true, and_true, Option.some.injEq, reduceCtorEq, true_and]
    rintro h rfl
    exact .ofClass _
  have closed : ∀ y, (Hint.cls Builtin.int).Reaches start.catalog start.substitutes ctx y →
      y.isReference = false := by
    intro y reaches
    rcases reaches.cases_head with rfl | ⟨_, leads, _⟩
    · rfl
    · cases leads.of_made (.builtin _)
  obtain ⟨g, decorated, wrapped⟩ := ok_of_any evaluated
  obtain ⟨⟨alone, after⟩, built, rejected⟩ := ok_of_any generated
  obtain ⟨verdict, known, isRejected⟩ := ok_of_any rejected
  rw [Bool.not_eq_true'] at isRejected
  subst isRejected
  have there : d.signature.params[1]? = some rest := rfl
  obtain ⟨_, rfl⟩ | ⟨_, each⟩ := decorate_variadic rfl .empty named decorated there rfl rfl closed
  · cases wrapped
  · obtain ⟨w, rfl, fails⟩ := each "b" .empty alone after Scope.sound_empty built
    refine ⟨w, decorated, fun random calls => ?_⟩
    refine (fails start.around args _ rfl random 0 0 calls start.calls).2.mpr ?_
    exact ⟨List.cons_ne_nil _ _, .str "2", .tail _ (.head _), known⟩

end Session
end HintCheck
