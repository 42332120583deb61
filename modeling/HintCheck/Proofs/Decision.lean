import HintCheck.Proofs.Classification
import HintCheck.Proofs.Realization

/-!
The meaning of simple hints in canonical form. Where all items are tested, the test that such a hint
means is passed by exactly the values that satisfy it, provided that the same holds of the hints
inside.
-/
namespace HintCheck

/-! ### What satisfies a container or a literal -/

theorem Builder.widened_eq_kinds (conf : Config) (c : ClassId) :
    Builder.widened conf c = c.kinds conf.tower := by
  unfold Builder.widened ClassId.kinds
  cases conf.tower with
  | false => rfl
  | true =>
    cases c with
    | user _ => rfl
    | builtin b => cases b <;> rfl

/-- The numeric tower leaves containers alone. -/
theorem kinds_container :
    ∀ b ∈ .tuple :: (Satisfaction.itemContainers ++ Satisfaction.pairContainers),
      ∀ tower, (ClassId.builtin b).kinds tower = [ClassId.builtin b] := by
  decide

namespace Hint

variable {cat world : Catalog} {tower : Bool}

theorem admits_items {b : Builtin}
    (isContainer : b ∈ Satisfaction.itemContainers) (label : Option Nat) (item : Hint) (v : Value) :
    (generic label b [item]).admits cat tower v =
      (cat.isInstance v b && v.items.all (item.admits cat tower)) := by
  have notTuple : ClassId.builtin b ≠ Builtin.tuple := by
    rintro ⟨⟩
    exact absurd isContainer (by decide)
  simp [generic, admits, admitsEach, Satisfaction.subscription,
    Satisfaction.contents, notTuple]

theorem admits_pairs {b : Builtin}
    (isContainer : b ∈ Satisfaction.pairContainers) (label : Option Nat) (key value : Hint)
    (v : Value) :
    (generic label b [key, value]).admits cat tower v =
      (cat.isInstance v b && (v.pairs?.getD []).all fun pair =>
        key.admits cat tower pair.1 && value.admits cat tower pair.2) := by
  have notTuple : ClassId.builtin b ≠ Builtin.tuple := by
    rintro ⟨⟩
    exact absurd isContainer (by decide)
  simp [generic, admits, admitsEach, Satisfaction.subscription,
    Satisfaction.contents, notTuple]

theorem admits_tupleOf (label dots : Option Nat) (item : Hint) (v : Value) :
    (tupleOf label dots item).admits cat tower v =
      (cat.isInstance v Builtin.tuple && v.items.all (item.admits cat tower)) := by
  simp [tupleOf, generic, admits, admitsEach, Satisfaction.subscription, Satisfaction.contents,
    Satisfaction.tupleItems, Satisfaction.isVariadic, isDots]

theorem isVariadic_simple {items : List Hint} (each : ∀ h ∈ items, h.Simple cat) :
    Satisfaction.isVariadic items = false := by
  match items with
  | [_, last] => exact (each last (by simp)).notDots
  | [] | [_] | _ :: _ :: _ :: _ => rfl

theorem matchedBy_literalValue {h : Hint} {literal : Value}
    (isValue : h.literalValue? cat = some literal) (v : Value) :
    LiteralOperand.matchedBy world ⟨literal, Option.none⟩ v = Satisfaction.isMember world v h := by
  unfold literalValue? at isValue
  split at isValue
  · cases isValue
    cases v <;> rfl
  · split at isValue
    case h_6 =>
      split at isValue
      · cases isValue
        cases v <;> rfl
      · cases isValue
    case h_7 => cases isValue
    all_goals
      cases isValue
      cases v <;> rfl
  · cases isValue

theorem any_matchedBy {members : List Hint}
    (each : ∀ h ∈ members, (h.literalValue? cat).isSome) (v : Value) :
    ((members.filterMap (literalValue? cat)).any fun l =>
      LiteralOperand.matchedBy world ⟨l, Option.none⟩ v) =
        members.any (Satisfaction.isMember world v) := by
  induction members with
  | nil => rfl
  | cons h rest ih =>
    obtain ⟨l, isValue⟩ := Option.isSome_iff_exists.mp (each h (by simp))
    rw [List.filterMap_cons_some isValue, List.any_cons, List.any_cons,
      matchedBy_literalValue isValue, ih fun h member => each h (by simp [member])]

end Hint

theorem Reading.originClasses_eq {m : Type → Type} {r : Reading m} {c : Classified}
    {origin : ClassId} (isOrigin : c.origin = some origin) :
    r.originClasses c = .ok (origin.kinds r.conf.tower) := by
  rw [originClasses, isOrigin, ← Builder.widened_eq_kinds]

variable {m : Type → Type} [Monad m]

/-! ### Tests that decide -/

/-- The test, if there is one, is passed by the values for which `holds` is true. -/
def Test.Decides (t : Option (Test m)) (holds : Value → Bool) : Prop :=
  ∀ v, t.getD .pass v = pure (holds v)

namespace Reading

variable {r : Reading m} {names : Naming} {limited : Prop}

/-- The test that was read decides what `holds` says. -/
def Reads (limited : Prop) (holds : Value → Bool) : Except HintError (Option (Test m)) → Prop :=
  Within limited fun t => Test.Decides t holds

/-- The hints inside are read as they should be. -/
def ReadsBelow (r : Reading m) (limited : Prop) (names : Naming) (depth : Nat) (sense : Sense m)
    (ctx : Context) : Prop :=
  ∀ h : Hint, h.Simple r.catalog → h.WellNamed names → h.depth < depth →
    Reads limited (h.admits r.world r.conf.tower) (r.inside sense ctx h)

theorem Reads.congr {x : Except HintError (Option (Test m))} {holds other : Value → Bool}
    (reads : Reads limited holds x) (same : ∀ v, other v = holds v) : Reads limited other x := by
  cases x with
  | ok t => exact fun v => by rw [same]; exact reads v
  | error e => exact reads

/-- The classification of a hint in canonical form, and the test that it means. -/
def Classifies (r : Reading m) (names : Naming) (h : Hint) (c : Classified) : Prop :=
  h.classifyCanonical r.catalog = .ok c ∧ ∀ (limited : Prop) (sense : Sense m) (ctx : Context),
    r.ReadsBelow limited names h.depth sense ctx →
      Reads limited (h.admits r.world r.conf.tower) (r.shape sense ctx c)

theorem instanceOf_one (c : ClassId) (v : Value) :
    r.instanceOf [c] v = pure (r.world.isInstance v c) := by
  simp [instanceOf, Catalog.isInstanceOfAny]

theorem classifies_plain {c : ClassId} (isPlain : Cache.isPlainClass r.catalog c = true) :
    ∃ d, r.Classifies names (.cls c) d := by
  refine ⟨_, Hint.classifyCanonical_plain isPlain, fun limited sense ctx _ => ?_⟩
  show Within limited _ (r.originClasses _ >>= _)
  rw [originClasses_eq rfl]
  exact fun v => by rw [Hint.admits]; rfl

theorem classifies_root (root : r.catalog.KeepsRoot r.world) {c : ClassId}
    (isRoot : (r.catalog.get c).root = true) : ∃ d, r.Classifies names (.cls c) d :=
  ⟨_, Hint.classifyCanonical_root isRoot, fun limited sense ctx _ v => by
    rw [Hint.admits_root (root c isRoot)]
    rfl⟩

theorem classifies_literal (label : Option Nat) {f : SpecialForm} (isLiteral : f.form = .literal)
    (home : f.module ≠ .dataclasses) {members : List Hint} (nonempty : members ≠ [])
    (each : ∀ h ∈ members, (h.literalValue? r.catalog).isSome) :
    ∃ d, r.Classifies names (.subscription label (.form f) members) d := by
  refine ⟨_, Hint.classifyCanonical_literal label isLiteral home nonempty each,
    fun limited sense ctx _ v => ?_⟩
  rw [Hint.admits, Satisfaction.subscription, isLiteral, Satisfaction.subscribedForm,
    ← Hint.any_matchedBy each]
  rfl

/-- The hints inside, each of them. -/
theorem reads_each {inside : Hint → Except HintError (Option (Test m))} {hints : List Hint}
    (each : ∀ h ∈ hints, Reads limited (h.admits r.world r.conf.tower) (inside h)) :
    Within limited (fun tests => tests.Forall₂ Test.Decides
      (hints.map fun h => h.admits r.world r.conf.tower)) (hints.mapM inside) := by
  induction hints with
  | nil => exact .nil
  | cons h rest ih =>
    rw [List.mapM_cons]
    refine (each h (by simp)).bind fun t decides => ?_
    exact (ih fun h member => each h (by simp [member])).bind fun tests all => .cons decides all

end Reading

variable [LawfulMonad m]

theorem Check.both_pure_pure (a b : Bool) :
    Check.both (pure a) (fun _ => (pure b : m Bool)) = pure (a && b) := by
  rw [Check.both_pure]
  cases a <;> rfl

theorem Check.allOf_pure {α : Type} {test : α → m Bool} {holds : α → Bool} (items : List α)
    (decides : ∀ a, test a = pure (holds a)) : Check.allOf test items = pure (items.all holds) := by
  induction items with
  | nil => rfl
  | cons a rest ih =>
    rw [Check.allOf, decides, ih, Check.both_pure_pure, List.all_cons]

theorem Test.decides_andEach {α : Type} {outer : Test m} {isOuter : Value → Bool}
    {select : Value → List α} {inner : α → m Bool} {holds : α → Bool}
    (decidesOuter : ∀ v, outer v = pure (isOuter v))
    (decidesInner : ∀ a, inner a = pure (holds a)) :
    Decides (some (.andEach outer select inner)) fun v => isOuter v && (select v).all holds := by
  intro v
  rw [Option.getD_some, andEach, decidesOuter, Check.allOf_pure _ decidesInner,
    Check.both_pure_pure]

theorem Test.positions_pure (v : Value) {tests : List (Option (Test m))}
    {holds : List (Value → Bool)} (each : tests.Forall₂ Decides holds) (index : Nat) :
    positions v index tests =
      pure ((holds.zipIdx index).all fun entry => (v.at? entry.2).all entry.1) := by
  induction each generalizing index with
  | nil => rfl
  | @cons t p tests holds decides _ ih =>
    rw [positions, List.zipIdx_cons, List.all_cons]
    cases v.at? index with
    | none => rw [ih, Check.both_pure_pure]; rfl
    | some x =>
      show Check.both (t.getD pass x) _ = _
      rw [decides x, ih, Check.both_pure_pure]
      rfl

namespace Reading

variable {r : Reading m} {names : Naming} {limited : Prop}

/-! ### Containers and unions -/

/-- One hint for the selected items. -/
theorem reads_container {sense : Sense m} {ctx : Context} {c : Classified} {origin : ClassId}
    {item : Hint} {holds : Value → Bool} (select : Value → List Value)
    (isOrigin : c.origin = some origin) (kinds : origin.kinds r.conf.tower = [origin])
    (children : c.children = [item]) (inside : Reads limited holds (r.inside sense ctx item)) :
    Reads limited (fun v => r.world.isInstance v origin && (select v).all holds)
      (r.container sense ctx c select) := by
  rw [container, originClasses_eq isOrigin, kinds, children]
  show Within limited _ (r.inside sense ctx item >>= _)
  exact inside.bind fun t decides => Test.decides_andEach (instanceOf_one origin) decides

/-- One hint for the keys and one for the values. -/
theorem reads_mapping {sense : Sense m} {ctx : Context} {c : Classified} {origin : ClassId}
    {key value : Hint} (exhaustive : r.exhaustive = true) (isMapping : c.sign.isIn .mapping = true)
    (isOrigin : c.origin = some origin) (kinds : origin.kinds r.conf.tower = [origin])
    (children : c.children = [key, value])
    (insideKey : Reads limited (key.admits r.world r.conf.tower) (r.inside sense ctx key))
    (insideValue : Reads limited (value.admits r.world r.conf.tower) (r.inside sense ctx value)) :
    Reads limited (fun v => r.world.isInstance v origin && (v.pairs?.getD []).all fun pair =>
      key.admits r.world r.conf.tower pair.1 && value.admits r.world r.conf.tower pair.2)
      (r.shape sense ctx c) := by
  have shaped : r.shape sense ctx c = r.mapping sense ctx c := by
    simp only [shape, beq_iff_eq.mp isMapping]
  have allPairs : r.firstPairs = fun v => v.pairs?.getD [] := by
    funext v
    rw [firstPairs, if_pos exhaustive]
  rw [shaped, mapping, originClasses_eq isOrigin, kinds, children, allPairs]
  show Within limited _ (r.inside sense ctx key >>= _)
  refine insideKey.bind fun keyTest decidesKey => insideValue.bind fun valueTest decidesValue => ?_
  have decidesPair : ∀ pair : Value × Value,
      Check.both (keyTest.getD .pass pair.1) (fun _ => valueTest.getD .pass pair.2) =
        pure (key.admits r.world r.conf.tower pair.1 &&
          value.admits r.world r.conf.tower pair.2) := fun pair => by
    rw [decidesKey, decidesValue, Check.both_pure_pure]
  exact Test.decides_andEach (instanceOf_one origin) decidesPair

/-- One hint for each item. -/
theorem reads_tuple {sense : Sense m} {ctx : Context} {c : Classified} {origin : ClassId}
    (isOrigin : c.origin = some origin) (kinds : origin.kinds r.conf.tower = [origin])
    (inside : ∀ h ∈ c.children,
      Reads limited (h.admits r.world r.conf.tower) (r.inside sense ctx h)) :
    Reads limited (fun v => r.world.isInstance v origin &&
      (v.len? == some c.children.length &&
        (c.children.map fun h => h.admits r.world r.conf.tower).zipIdx.all fun entry =>
          (v.at? entry.2).all entry.1)) (r.tuple sense ctx c) := by
  rw [tuple, originClasses_eq isOrigin, kinds]
  show Within limited _ (c.children.mapM (r.inside sense ctx) >>= _)
  refine (reads_each inside).bind fun tests decides v => ?_
  rw [Option.getD_some, Test.positions_pure v decides, Check.both_pure_pure]
  simp [Catalog.isInstanceOfAny, Bool.and_assoc]

/-- The members of a union; what the member before admits has been accepted by then. -/
theorem reads_members {member : Hint → Except HintError (Option (Test m))} {hints : List Hint}
    {previous : Option Hint} (each : ∀ h ∈ hints, h.WellNamed names ∧
      Reads limited (h.admits r.world r.conf.tower) (member h))
    (namedPrevious : ∀ p ∈ previous, p.WellNamed names) :
    Within limited (fun tests => ∀ v,
      (∀ p ∈ previous, p.admits r.world r.conf.tower v = false) →
        (tests.map Test.anyOf).getD .pass v =
          pure (hints.any fun h => h.admits r.world r.conf.tower v))
      (members member previous hints) := by
  induction hints generalizing previous with
  | nil => exact fun v _ => rfl
  | cons h rest ih =>
    obtain ⟨named, reads⟩ := each h (by simp)
    have others : ∀ h ∈ rest, h.WellNamed names ∧
        Reads limited (h.admits r.world r.conf.tower) (member h) :=
      fun h inRest => each h (List.mem_cons_of_mem _ inRest)
    rw [members]
    split
    case isTrue repeated =>
      obtain ⟨p, isPrevious, equal⟩ := Option.any_eq_true .. |>.mp repeated
      have same := Hint.admits_congr r.world r.conf.tower (namedPrevious p isPrevious) named equal
      have tested := ih others namedPrevious
      cases found : members member previous rest with
      | error e => rw [found] at tested; exact tested
      | ok tests =>
        rw [found] at tested
        intro v notAdmitted
        have later : (tests.map Test.anyOf).getD .pass v = _ := tested v notAdmitted
        rw [later, List.any_cons, ← same, notAdmitted p isPrevious, Bool.false_or]
    case isFalse =>
      refine reads.bind fun t decides => ?_
      cases t with
      | none =>
        intro v _
        have admitted : pure true = (pure (h.admits r.world r.conf.tower v) : m Bool) := decides v
        rw [List.any_cons]
        generalize h.admits r.world r.conf.tower v = admits at admitted ⊢
        cases admits with
        | true => rfl
        | false =>
          cases rest.any fun h => h.admits r.world r.conf.tower v with
          | true => rfl
          | false => exact admitted
      | some t =>
        have decided : ∀ v, t v = pure (h.admits r.world r.conf.tower v) := decides
        have named : ∀ p ∈ some h, p.WellNamed names := by simpa using named
        refine (ih others named).bind fun tests tested v _ => ?_
        have rest : h.admits r.world r.conf.tower v = false → _ := fun notAdmitted =>
          tested v (by simpa using notAdmitted)
        rw [List.any_cons]
        cases tests with
        | none =>
          cases admitted : h.admits r.world r.conf.tower v with
          | true => rfl
          | false => exact rest admitted
        | some tests =>
          show Test.anyOf (t :: tests) v = _
          rw [Test.anyOf, decided, pure_bind]
          cases admitted : h.admits r.world r.conf.tower v with
          | true => rfl
          | false => exact rest admitted

/-! ### Hints in canonical form -/

theorem reads_items {sense : Sense m} {ctx : Context} {c : Classified} {origin : ClassId}
    {item : Hint} (exhaustive : r.exhaustive = true)
    (isContainer : c.sign.isIn .singleArgContainer = true) (isOrigin : c.origin = some origin)
    (kinds : origin.kinds r.conf.tower = [origin]) (children : c.children = [item])
    (inside : Reads limited (item.admits r.world r.conf.tower) (r.inside sense ctx item)) :
    Reads limited (fun v => r.world.isInstance v origin &&
      v.items.all (item.admits r.world r.conf.tower)) (r.shape sense ctx c) := by
  rw [Sign.isIn, Bool.or_eq_true, beq_iff_eq, beq_iff_eq] at isContainer
  rcases isContainer with sequence | reiterable
  · have shaped : r.shape sense ctx c = r.container sense ctx c r.sampledItems := by
      simp only [shape, sequence]
    rw [shaped]
    exact (reads_container r.sampledItems isOrigin kinds children inside).congr fun v => by
      rw [sampledItems, if_pos exhaustive]
  · have shaped : r.shape sense ctx c = r.container sense ctx c r.firstItems := by
      simp only [shape, reiterable]
    rw [shaped]
    exact (reads_container r.firstItems isOrigin kinds children inside).congr fun v => by
      rw [firstItems, if_pos exhaustive]

theorem classifies_items (exhaustive : r.exhaustive = true) (label : Option Nat) {b : Builtin}
    (isContainer : b ∈ Satisfaction.itemContainers) {item : Hint} (simple : item.Simple r.catalog)
    (named : item.WellNamed names) : ∃ d, r.Classifies names (.generic label b [item]) d := by
  obtain ⟨sign, _, isIn, classified⟩ := Hint.classifyCanonical_items label isContainer simple
  refine ⟨_, classified, fun limited sense ctx inside => ?_⟩
  have below : item.depth < (Hint.generic label b [item]).depth :=
    Hint.depth_lt_of_mem_parts (by simp [Hint.parts, Hint.generic])
  exact (reads_items exhaustive isIn rfl (kinds_container b (by simp [isContainer]) _) rfl
    (inside item simple named below)).congr (Hint.admits_items isContainer label item)

theorem classifies_pairs (exhaustive : r.exhaustive = true) (label : Option Nat) {b : Builtin}
    (isContainer : b ∈ Satisfaction.pairContainers) {key value : Hint}
    (simpleKey : key.Simple r.catalog) (simpleValue : value.Simple r.catalog)
    (named : ∀ h ∈ [key, value], h.WellNamed names) :
    ∃ d, r.Classifies names (.generic label b [key, value]) d := by
  obtain ⟨sign, isIn, classified⟩ :=
    Hint.classifyCanonical_pairs label isContainer simpleKey simpleValue
  refine ⟨_, classified, fun limited sense ctx inside => ?_⟩
  have below : ∀ h ∈ [key, value], h.depth < (Hint.generic label b [key, value]).depth :=
    fun h member => Hint.depth_lt_of_mem_parts member
  exact (reads_mapping exhaustive isIn rfl (kinds_container b (by simp [isContainer]) _) rfl
    (inside key simpleKey (named key (by simp)) (below key (by simp)))
    (inside value simpleValue (named value (by simp)) (below value (by simp)))).congr
      (Hint.admits_pairs isContainer label key value)

theorem classifies_tuple (label : Option Nat) {items : List Hint}
    (each : ∀ h ∈ items, h.Simple r.catalog) (named : ∀ h ∈ items, h.WellNamed names) :
    ∃ d, r.Classifies names (.generic label Builtin.tuple items) d := by
  refine ⟨_, (Hint.classifyCanonical_tuple label items).trans
    (Hint.classifyTuple_fixed label each _), fun limited sense ctx inside => ?_⟩
  refine (reads_tuple rfl (kinds_container _ (by simp) _) fun h member =>
    inside h (each h member) (named h member) (Hint.depth_lt_of_mem_parts member)).congr fun v => ?_
  simp [Hint.generic, Hint.admits, Hint.admitsEach_eq_map, Satisfaction.subscription,
    Satisfaction.contents, Satisfaction.tupleItems, Hint.isVariadic_simple each,
    Classified.container]

theorem classifies_tupleOf (exhaustive : r.exhaustive = true) (label dots : Option Nat)
    {item : Hint} (simple : item.Simple r.catalog) (named : item.WellNamed names) :
    ∃ d, r.Classifies names (.tupleOf label dots item) d := by
  refine ⟨_, (Hint.classifyCanonical_tuple label _).trans
    (Hint.classifyTuple_variadic label dots simple _), fun limited sense ctx inside => ?_⟩
  have below : item.depth < (Hint.tupleOf label dots item).depth :=
    Hint.depth_lt_of_mem_parts (by simp [Hint.parts, Hint.tupleOf, Hint.generic])
  exact (reads_items exhaustive rfl rfl (kinds_container _ (by simp) _) rfl
    (inside item simple named below)).congr (Hint.admits_tupleOf label dots item)

theorem classifies_union {h : Hint} (simple : h.Simple r.catalog) (named : h.WellNamed names)
    (isUnion : h.isUnion = true) : ∃ d, r.Classifies names h d := by
  refine ⟨_, Hint.classifyCanonical_union simple isUnion, fun limited sense ctx inside => ?_⟩
  have each : ∀ m ∈ h.args, m.WellNamed names ∧
      Reads limited (m.admits r.world r.conf.tower) (r.inside sense ctx m) := fun m member => by
    have inParts : m ∈ h.parts := Hint.parts_union isUnion ▸ member
    have namedPart := named.part m inParts
    exact ⟨namedPart, inside m ((simple.args_of_union isUnion).2 m member) namedPart
      (Hint.depth_lt_of_mem_parts inParts)⟩
  show Within limited _ (members (r.inside sense ctx) none h.args >>= _)
  refine (reads_members each (by simp)).bind fun tests tested v => ?_
  rw [Hint.admits_union isUnion]
  exact tested v (by simp)

/-- A simple hint in canonical form means what it says. -/
theorem classifies_settled (exhaustive : r.exhaustive = true)
    (root : r.catalog.KeepsRoot r.world) {h : Hint}
    (simple : h.Simple r.catalog) (named : h.WellNamed names) (settled : h.isSettled = true) :
    ∃ d, r.Classifies names h d := by
  cases isUnion : h.isUnion with
  | true => exact classifies_union simple named isUnion
  | false =>
  cases simple with
  | plain isPlain => exact classifies_plain isPlain
  | root isRoot => exact classifies_root root isRoot
  | pipe => cases isUnion
  | union _ form => simp [Hint.isUnion, form] at isUnion
  | items label isContainer simple =>
    exact classifies_items exhaustive label isContainer simple
      (named.part _ (by simp [Hint.parts, Hint.generic]))
  | pairs label isContainer simpleKey simpleValue =>
    exact classifies_pairs exhaustive label isContainer simpleKey simpleValue named.part
  | tuple label each => exact classifies_tuple label each named.part
  | tupleOf label dots simple =>
    exact classifies_tupleOf exhaustive label dots simple
      (named.part _ (by simp [Hint.parts, Hint.tupleOf, Hint.generic]))
  | literal label isLiteral home nonempty each =>
    exact classifies_literal label isLiteral home nonempty each
  | any | none | newType => cases settled
  | optional _ form | annotated _ form => simp [Hint.isSettled, form] at settled
  | @deprecated label f b standsFor =>
    rw [Hint.isSettled] at settled
    cases form : f.form <;> simp_all [Form.origin?]
  | @qualified label f isQualifier =>
    rw [Hint.isSettled] at settled
    cases form : f.form <;> simp_all [Form.isQualifier]

end Reading
end HintCheck
