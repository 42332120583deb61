import Mathlib.Data.Nat.ChineseRemainder
import HintCheck.Proofs.Decision
import HintCheck.Proofs.Sessions
import HintCheck.Proofs.Weakening

/-!
What sampling reaches. One random number selects the item of every sequence that a call looks into,
so the positions on the way to an item inside nested sequences are not independent of each other. An
offending item is found by some random number exactly if one number leaves all these positions as
remainders. Where the lengths of the sequences on the way have no common factors there is such a
number; where two sequences have the same length, only their diagonal is ever sampled.
-/
namespace HintCheck

/-- The value is indexed by position. -/
def Value.isIndexed (v : Value) : Bool :=
  match v.data with
  | list _ | tuple _ | deque _ | str _ | bytes _ => true
  | _ => false

namespace Hint

/-- Lists, sequences and tuples of any length, nested in each other, with a plain class in the
innermost one. -/
inductive Layered (cat : Catalog) : Hint → Prop
  | plain {c : ClassId} (isPlain : Cache.isPlainClass cat c = true) : Layered cat (cls c)
  | items (label : Option Nat) {b : Builtin} (isSequence : b ∈ [Builtin.list, Builtin.sequence])
      {item : Hint} (layered : Layered cat item) : Layered cat (generic label b [item])
  | tupleOf (label dots : Option Nat) {item : Hint} (layered : Layered cat item) :
      Layered cat (tupleOf label dots item)

mutual

/-- The value satisfies the hint as far as the selected items of each sequence tell. -/
def admitsOn (cat : Catalog) (tower : Bool) (select : Value → List Value) : Hint → Value → Bool
  | cls c, v => (c.kinds tower).any (cat.isInstance v)
  | subscription _ (.cls c) args, v =>
    cat.isInstance v c && (select v).all fun x => admitsFirst cat tower select args x
  | _, _ => false
termination_by structural h => h

/-- The value satisfies the first hint, if there is one. -/
def admitsFirst (cat : Catalog) (tower : Bool) (select : Value → List Value) :
    List Hint → Value → Bool
  | [], _ => true
  | item :: _, v => admitsOn cat tower select item v
termination_by structural hints => hints

end

/-- The way to a value inside that does not satisfy its hint: the sequences that are passed, and the
position in each of them. -/
inductive Offends (cat : Catalog) (tower : Bool) : Hint → Value → List (Value × Nat) → Prop
  | leaf {c : ClassId} {v : Value} (other : (c.kinds tower).any (cat.isInstance v) = false) :
      Offends cat tower (cls c) v []
  | outer {label : Option Nat} {c : ClassId} {args : List Hint} {v : Value}
      (other : cat.isInstance v c = false) :
      Offends cat tower (subscription label (.cls c) args) v []
  | inner {label : Option Nat} {c : ClassId} {item : Hint} {rest : List Hint} {v x : Value}
      {index : Nat} {path : List (Value × Nat)} (isOuter : cat.isInstance v c = true)
      (there : v.items[index]? = some x) (offends : Offends cat tower item x path) :
      Offends cat tower (subscription label (.cls c) (item :: rest)) v ((v, index) :: path)

variable {cat : Catalog} {tower : Bool} {h : Hint} {v : Value} {path : List (Value × Nat)}

theorem Layered.simple (layered : h.Layered cat) : h.Simple cat := by
  induction layered with
  | plain isPlain => exact .plain isPlain
  | items label isSequence _ ih =>
    have isContainer : ∀ b ∈ [Builtin.list, Builtin.sequence], b ∈ Satisfaction.itemContainers := by
      decide
    exact .items label (isContainer _ isSequence) ih
  | tupleOf label dots _ ih => exact .tupleOf label dots ih

theorem Offends.index_lt (offends : h.Offends cat tower v path) :
    ∀ step ∈ path, step.2 < step.1.items.length := by
  induction offends with
  | leaf | outer => simp
  | inner _ there _ ih =>
    obtain ⟨below, _⟩ := List.getElem?_eq_some_iff.mp there
    exact List.forall_mem_cons.mpr ⟨below, ih⟩

/-- A value fails on the selected items exactly if each position on the way to an offending value is
selected. -/
theorem admitsOn_eq_false {world : Catalog} {select : Value → List Value}
    (chosen : Value × Nat → Prop)
    (selects : ∀ v x, x ∈ select v ↔ ∃ index, v.items[index]? = some x ∧ chosen (v, index))
    (layered : h.Layered cat) :
    h.admitsOn world tower select v = false ↔
      ∃ path, h.Offends world tower v path ∧ ∀ step ∈ path, chosen step := by
  have ofLayer {label : Option Nat} {c : ClassId} {item : Hint} {rest : List Hint} {v : Value}
      (inside : ∀ x, item.admitsOn world tower select x = false ↔
        ∃ path, item.Offends world tower x path ∧ ∀ step ∈ path, chosen step) :
      (subscription label (.cls c) (item :: rest)).admitsOn world tower select v = false ↔
        ∃ path, (subscription label (.cls c) (item :: rest)).Offends world tower v path ∧
          ∀ step ∈ path, chosen step := by
    rw [admitsOn, Bool.and_eq_false_iff, List.all_eq_false]
    simp only [admitsFirst, Bool.not_eq_true, inside]
    constructor
    · rintro (other | ⟨x, selected, path, offends, each⟩)
      · exact ⟨[], .outer other, by simp⟩
      · cases isOuter : world.isInstance v c with
        | false => exact ⟨[], .outer isOuter, by simp⟩
        | true =>
          obtain ⟨index, there, isChosen⟩ := (selects v x).mp selected
          exact ⟨_, .inner isOuter there offends, List.forall_mem_cons.mpr ⟨isChosen, each⟩⟩
    · rintro ⟨path, offends, each⟩
      cases offends with
      | outer other => exact .inl other
      | inner isOuter there offends =>
        obtain ⟨isChosen, others⟩ := List.forall_mem_cons.mp each
        exact .inr ⟨_, (selects v _).mpr ⟨_, there, isChosen⟩, _, offends, others⟩
  induction layered generalizing v with
  | plain =>
    rw [admitsOn]
    constructor
    · exact fun other => ⟨[], .leaf other, by simp⟩
    · rintro ⟨_, offends, _⟩
      cases offends with
      | leaf other => exact other
  | items label _ _ ih => exact ofLayer fun x => ih
  | tupleOf label dots _ ih => exact ofLayer fun x => ih

end Hint

/-! ### The position that is sampled -/

/-- The position in a sequence is the one that a random number selects. -/
def SampledBy (random : UInt32) (step : Value × Nat) : Prop :=
  step.1.isIndexed = true ∧ sampleIndex random step.1.items.length = step.2

theorem Value.mem_items_iff (v x : Value) :
    x ∈ v.items ↔ ∃ index : Nat, v.items[index]? = some x ∧ True := by
  simp only [and_true, List.mem_iff_getElem?]

/-- Values that are indexed by position have their items there; others have none. -/
theorem Value.at?_eq (v : Value) :
    if v.isIndexed then v.len? = some v.items.length ∧ ∀ index, v.at? index = v.items[index]?
    else ∀ index, v.at? index = Option.none := by
  unfold isIndexed len? at? items
  cases v.data <;> simp [String.length_toList]

theorem Value.mem_sample?_iff (random : UInt32) (v x : Value) :
    x ∈ (v.sample? random).toList ↔
      ∃ index, v.items[index]? = some x ∧ SampledBy random (v, index) := by
  have reaches := v.at?_eq
  rw [Option.mem_toList, sample?]
  unfold SampledBy
  cases indexed : v.isIndexed with
  | false =>
    have nowhere : ∀ index, v.at? index = Option.none := by simpa [indexed] using reaches
    cases v.len? <;> simp [nowhere, indexed]
  | true =>
    obtain ⟨isLength, same⟩ :
        v.len? = some v.items.length ∧ ∀ index, v.at? index = v.items[index]? := by
      simpa [indexed] using reaches
    rw [isLength]
    simp only [Option.bind_some, same]
    by_cases occupied : 0 < v.items.length
    · simp [occupied, indexed]
    · have empty : v.items = [] := List.length_eq_zero_iff.mp (by omega)
      simp [empty]

/-- Where the lengths on a way have no common factors, one random number selects every position. -/
theorem exists_sampledBy {path : List (Value × Nat)}
    (below : ∀ step ∈ path, step.2 < step.1.items.length)
    (indexed : ∀ step ∈ path, step.1.isIndexed = true)
    (coprime : path.Pairwise fun a b => Nat.Coprime a.1.items.length b.1.items.length)
    (small : (path.map fun step => step.1.items.length).prod ≤ 2 ^ 32) :
    ∃ random, ∀ step ∈ path, SampledBy random step := by
  let length (step : Value × Nat) := step.1.items.length
  let found := Nat.chineseRemainderOfList Prod.snd length path coprime
  have inRange : found.val < 2 ^ 32 := by
    refine Nat.lt_of_lt_of_le (Nat.chineseRemainderOfList_lt_prod _ _ path coprime ?_) small
    exact fun step member => Nat.ne_zero_of_lt (below step member)
  refine ⟨UInt32.ofNat found.val, fun step member => ⟨indexed step member, ?_⟩⟩
  have remainder : found.val % length step = step.2 % length step := found.property step member
  rw [sampleIndex, UInt32.toNat_ofNat', Nat.mod_eq_of_lt inRange]
  exact remainder.trans (Nat.mod_eq_of_lt (below step member))

/-! ### The test of a layered hint -/

namespace Reading

variable {m : Type → Type} [Monad m] [LawfulMonad m] {r : Reading m} {names : Naming}

theorem hasSign_sequences : ∀ b ∈ [Builtin.list, Builtin.sequence],
    b.hasSign (fun sign => sign.strategy.emit == .sequence) = true := by
  decide +kernel

omit [Monad m] [LawfulMonad m] in
/-- A layered hint is classified as it stands. -/
theorem classify_layered {h : Hint} (layered : h.Layered r.catalog) (named : h.WellNamed names)
    {ctx : Context} (notVariadic : ctx.position.isVariadic = false) :
    h.classify r.catalog r.substitutes ctx = h.classifyCanonical r.catalog := by
  have simple := layered.simple
  have shape : h.isUnion = false ∧ h.isSettled = true := by
    cases layered <;> exact ⟨rfl, rfl⟩
  rw [Hint.classify, Hint.classifyWithin_proper simple.isProper,
    simple.canonical_settled named notVariadic shape.1 shape.2]
  show (do return Hint.annotate _ _ (← Hint.classifyReduced _ _ _ ctx h)) = _
  rw [Hint.classifyReduced_settled shape.2]
  cases h.classifyCanonical r.catalog <;> rfl

/-- A sequence is read by the items that are sampled. -/
theorem reads_sequence {limited : Prop} {sense : Sense m} {ctx : Context} {c : Classified}
    {origin : ClassId} {item : Hint} {holds : Value → Bool}
    (isSequence : c.sign.strategy.emit = .sequence) (isOrigin : c.origin = some origin)
    (kinds : origin.kinds r.conf.tower = [origin]) (children : c.children = [item])
    (inside : Reads limited holds (r.inside sense ctx item)) :
    Reads limited (fun v => r.world.isInstance v origin && (r.sampledItems v).all holds)
      (r.shape sense ctx c) := by
  have shaped : r.shape sense ctx c = r.container sense ctx c r.sampledItems := by
    simp only [shape, isSequence]
  rw [shaped]
  exact reads_container r.sampledItems isOrigin kinds children inside

/-- The test of a layered hint looks at the sampled item of each sequence. -/
theorem reads_layered {h : Hint} (layered : h.Layered r.catalog) (named : h.WellNamed names)
    (room : Nat) {ctx : Context} (notVariadic : ctx.position.isVariadic = false) :
    Reads True (h.admitsOn r.world r.conf.tower r.sampledItems) (do
      r.meaningWithin room ctx (← h.classify r.catalog r.substitutes ctx)) := by
  induction layered generalizing room ctx with
  | @plain c isPlain =>
    rw [classify_layered (.plain isPlain) named notVariadic, Hint.classifyCanonical_plain isPlain]
    cases room with
    | zero => exact ⟨rfl, trivial⟩
    | succ room =>
      let found := Classified.leaf .isinstanceable (.cls c) (some c)
      show Within True _
        (r.originClasses found >>= fun classes => .ok (some (r.instanceOf classes)))
      rw [originClasses_eq rfl]
      exact fun v => by rw [Hint.admitsOn]; rfl
  | @items label b isSequence item layered ih =>
    have isContainer : ∀ b ∈ [Builtin.list, Builtin.sequence], b ∈ Satisfaction.itemContainers := by
      decide
    obtain ⟨sign, spelled, _, classified⟩ :=
      Hint.classifyCanonical_items label (isContainer b isSequence) layered.simple
    obtain ⟨sign', spelled', emits⟩ :=
      Hint.sign?_generic r.catalog (hasSign_sequences b isSequence) label [item]
    obtain rfl : sign = sign' := Option.some.inj (spelled.symm.trans spelled')
    rw [classify_layered (.items label isSequence layered) named notVariadic, classified]
    cases room with
    | zero => exact ⟨rfl, trivial⟩
    | succ room =>
      have namedItem : item.WellNamed names := named.part _ (by simp [Hint.parts, Hint.generic])
      have inside : Reads True _ (r.inside (r.meaningWithin room) ctx item) := ih namedItem room rfl
      exact reads_sequence (c := .container sign (.generic label b [item]) (some b) [item])
        (beq_iff_eq.mp emits) rfl
        (kinds_container b (by simp [isContainer b isSequence]) _) rfl inside
  | @tupleOf label dots item layered ih =>
    have classified : (Hint.tupleOf label dots item).classifyCanonical r.catalog = _ :=
      (Hint.classifyCanonical_tuple label _).trans
        (Hint.classifyTuple_variadic label dots layered.simple _)
    rw [classify_layered (.tupleOf label dots layered) named notVariadic, classified]
    cases room with
    | zero => exact ⟨rfl, trivial⟩
    | succ room =>
      have namedItem : item.WellNamed names :=
        named.part _ (by simp [Hint.parts, Hint.tupleOf, Hint.generic])
      have inside : Reads True _ (r.inside (r.meaningWithin room) ctx item) := ih namedItem room rfl
      exact reads_sequence (c := .container .tupleVariadic (.tupleOf label dots item)
        (some Builtin.tuple) [item]) rfl rfl
        (kinds_container .tuple (by simp) _) rfl inside

end Reading

/-! ### Checks in a session -/

namespace Session

variable {s : Session} {ctx : Context} {h : Hint} {scope : Scope} {names : Naming}

/-- The verdict of the check of a layered hint, whatever its references would denote. -/
theorem buildCheck_layered {pith : String} {check : Check} {after : Scope}
    (built : ((buildCheck ctx pith h scope).run.run s).1 = .ok (check, after))
    (layered : h.Layered s.catalog) (named : h.WellNamed names)
    (grown : s.cache.Grown names s.catalog s.substitutes) (wellKept : scope.WellKept)
    (notVariadic : ctx.position.isVariadic = false) (around : Surroundings) (owner : Nat)
    (random : UInt32) (calls : CallState) (v : Value) :
    ((check.accepts (Running.oracle around owner random) v).run.run calls).1 =
      .ok (h.admitsOn around.catalog ctx.conf.tower (fun v =>
        if ctx.conf.thoroughness == .exhaustive then v.items else (v.sample? random).toList) v) := by
  let r : Reading (Except Unit) :=
    ⟨⟨s.catalog, s.substitutes, ctx.conf⟩, around.catalog, random, fun _ => .error ()⟩
  let blind : Oracle (Except Unit) := ⟨around.catalog, random, fun _ => .error ()⟩
  have reads : Reading.Reads True _ (do
      r.meaning ctx (← h.classify s.catalog s.substitutes ctx)) :=
    Reading.reads_layered (r := r) layered named (maxNesting + 1) notVariadic
  have performs := buildCheck_performs (r := r) (o := blind) rfl ⟨rfl, rfl, fun _ _ _ => rfl⟩
    wellKept named grown pith
  obtain ⟨t, read, performed⟩ := (built ▸ performs).ok_left
  rw [read] at reads
  have answered : check.accepts blind v =
      .ok (h.admitsOn around.catalog ctx.conf.tower r.sampledItems v) := by
    rw [performed.accepts]
    exact reads v
  have silent : (Running.oracle around owner random).silent = blind := rfl
  rw [← silent] at answered
  rw [Check.accepts_atOnce _ check v answered]
  rfl

/-- The check of every item rejects a value exactly if something inside offends. A check by sampling
rejects it with a random number exactly if that number selects each position on the way to something
that offends, and for some random number if the lengths on such a way have no common factors. -/
theorem buildCheck_sampled (layered : h.Layered s.catalog) (named : h.WellNamed names)
    (grown : s.cache.Grown names s.catalog s.substitutes) (wellKept : scope.WellKept)
    (notVariadic : ctx.position.isVariadic = false)
    (exhaustive : ctx.conf.thoroughness = .exhaustive) {conf : Config}
    (sampled : conf.thoroughness = .sampled) (tower : conf.tower = ctx.conf.tower)
    {pith other : String} {full sample : Check} {after left : Scope}
    (built : ((buildCheck ctx pith h scope).run.run s).1 = .ok (full, after))
    (builtSample : ((buildCheck (ctx.configured conf) other h scope).run.run s).1 =
      .ok (sample, left)) (around : Surroundings) (owner : Nat) (calls : CallState) (v : Value) :
    let verdict (check : Check) (random : UInt32) :=
      ((check.accepts (Running.oracle around owner random) v).run.run calls).1
    (∀ random, verdict full random = .ok false ↔
      ∃ path, h.Offends around.catalog ctx.conf.tower v path) ∧
    (∀ random, verdict sample random = .ok false ↔
      ∃ path, h.Offends around.catalog ctx.conf.tower v path ∧
        ∀ step ∈ path, SampledBy random step) ∧
    ∀ path, h.Offends around.catalog ctx.conf.tower v path →
      (∀ step ∈ path, step.1.isIndexed = true) →
      (path.Pairwise fun a b => Nat.Coprime a.1.items.length b.1.items.length) →
      (path.map fun step => step.1.items.length).prod ≤ 2 ^ 32 →
        ∃ random, verdict sample random = .ok false := by
  intro verdict
  have full_iff (random : UInt32) : verdict full random = .ok false ↔
      ∃ path, h.Offends around.catalog ctx.conf.tower v path := by
    dsimp only [verdict]
    rw [buildCheck_layered built layered named grown wellKept notVariadic, exhaustive,
      Except.ok.injEq]
    refine (Hint.admitsOn_eq_false (fun _ => True) Value.mem_items_iff layered).trans ?_
    simp
  have sample_iff (random : UInt32) : verdict sample random = .ok false ↔
      ∃ path, h.Offends around.catalog ctx.conf.tower v path ∧
        ∀ step ∈ path, SampledBy random step := by
    dsimp only [verdict]
    rw [buildCheck_layered builtSample layered named grown wellKept notVariadic,
      Except.ok.injEq]
    show h.admitsOn around.catalog conf.tower (fun v => if conf.thoroughness == .exhaustive
        then v.items else (v.sample? random).toList) v = false ↔ _
    rw [sampled, tower]
    exact Hint.admitsOn_eq_false (SampledBy random) (Value.mem_sample?_iff random) layered
  refine ⟨full_iff, sample_iff, fun path offends indexed coprime small => ?_⟩
  obtain ⟨random, selected⟩ := exists_sampledBy offends.index_lt indexed coprime small
  exact ⟨random, (sample_iff random).mpr ⟨path, offends, selected⟩⟩

/-- In a list of two tuples of three items, some random number selects the last item of the last
tuple. -/
theorem buildCheck_sampled_tuples :
    let ctx := Context.bare ⟨.exhaustive, false, none⟩
    let h := Hint.generic none Builtin.list [.tupleOf none none Builtin.int]
    let v := Value.list [.tuple [.int 1, .int 2, .int 3], .tuple [.int 1, .int 2, .str "a"]]
    ∃ full after sample left,
      ((buildCheck ctx "obj" h .empty).run.run start).1 = .ok (full, after) ∧
      ((buildCheck (ctx.configured .standard) "obj" h .empty).run.run start).1 =
        .ok (sample, left) ∧
      ∃ random,
        ((sample.accepts (Running.oracle start.around 0 random) v).run.run start.calls).1 =
          .ok false := by
  intro ctx h v
  let names : Naming := ⟨fun _ => Builtin.object, fun _ => .instanceOf []⟩
  have named : h.WellNamed names :=
    .ofArgs (by simpa using .ofArgs (by simpa using ⟨.ofClass _, .ofValue _⟩))
  have layered : h.Layered start.catalog :=
    .items none (by decide) (.tupleOf none none (.plain rfl))
  have generates : (((buildCheck ctx "obj" h .empty).run.run start).1.toOption.any
      fun _ => true) = true := by decide +kernel
  have generatesSample : (((buildCheck (ctx.configured .standard) "obj" h .empty).run.run
      start).1.toOption.any fun _ => true) = true := by decide +kernel
  obtain ⟨⟨full, after⟩, built, _⟩ := ok_of_any generates
  obtain ⟨⟨sample, left⟩, builtSample, _⟩ := ok_of_any generatesSample
  refine ⟨full, after, sample, left, built, builtSample, ?_⟩
  have exhaustive : ctx.conf.thoroughness = .exhaustive := rfl
  have sampled : Config.standard.thoroughness = .sampled := rfl
  have tower : Config.standard.tower = ctx.conf.tower := rfl
  obtain ⟨_, _, reached⟩ := buildCheck_sampled (s := start) layered named .empty
    Scope.wellKept_empty rfl exhaustive sampled tower built builtSample start.around 0 start.calls v
  have offends : h.Offends .builtin false v [(v, 1), (.tuple [.int 1, .int 2, .str "a"], 2)] :=
    .inner (by decide +kernel) rfl (.inner (by decide +kernel) rfl (.leaf (by decide +kernel)))
  exact reached _ offends (by decide) (by decide) (by decide)

/-- In a list of two lists of two items, no random number selects the second item of the first. -/
theorem diagonal_sampled :
    let ctx := Context.bare ⟨.exhaustive, false, none⟩
    let h := Hint.generic none Builtin.list [.generic none Builtin.list [Builtin.int]]
    let v := Value.list [.list [.int 1, .str "a"], .list [.int 1, .int 1]]
    ∃ full after sample left,
      ((buildCheck ctx "obj" h .empty).run.run start).1 = .ok (full, after) ∧
      ((buildCheck (ctx.configured .standard) "obj" h .empty).run.run start).1 =
        .ok (sample, left) ∧
      ∀ random,
        ((full.accepts (Running.oracle start.around 0 random) v).run.run start.calls).1 =
          .ok false ∧
        ((sample.accepts (Running.oracle start.around 0 random) v).run.run start.calls).1 =
          .ok true := by
  intro ctx h v
  let names : Naming := ⟨fun _ => Builtin.object, fun _ => .instanceOf []⟩
  have named : h.WellNamed names :=
    .ofArgs (by simpa using .ofArgs (by simpa using .ofClass _))
  have layered : h.Layered start.catalog :=
    .items none (by decide) (.items none (by decide) (.plain rfl))
  have generates : (((buildCheck ctx "obj" h .empty).run.run start).1.toOption.any
      fun _ => true) = true := by decide +kernel
  have generatesSample : (((buildCheck (ctx.configured .standard) "obj" h .empty).run.run
      start).1.toOption.any fun _ => true) = true := by decide +kernel
  obtain ⟨⟨full, after⟩, built, _⟩ := ok_of_any generates
  obtain ⟨⟨sample, left⟩, builtSample, _⟩ := ok_of_any generatesSample
  refine ⟨full, after, sample, left, built, builtSample, fun random => ⟨?_, ?_⟩⟩
  · rw [buildCheck_layered built layered named .empty Scope.wellKept_empty rfl start.around]
    have rejected : h.admitsOn .builtin false Value.items v = false := by decide +kernel
    exact congrArg Except.ok rejected
  · rw [buildCheck_layered builtSample layered named .empty Scope.wellKept_empty rfl start.around]
    have sampled (a b : Value) : (Value.list [a, b]).sample? random =
        [a, b][sampleIndex random 2]? := rfl
    have accepted : h.admitsOn .builtin false (fun v => (v.sample? random).toList) v = true := by
      rcases Nat.mod_two_eq_zero_or_one random.toNat with selected | selected <;>
        simp only [h, v, Hint.generic, Hint.admitsOn, Hint.admitsFirst, sampled, sampleIndex,
          selected, List.getElem?_cons_zero, List.getElem?_cons_succ, Option.toList_some,
          List.all_cons, List.all_nil] <;>
        decide +kernel
    exact congrArg Except.ok accepted

end Session
end HintCheck
