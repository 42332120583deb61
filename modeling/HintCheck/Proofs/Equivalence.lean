import HintCheck.Value.Equality
import Mathlib.Data.List.Nodup
import Mathlib.Data.List.Perm.Subperm
import Mathlib.Data.Multiset.Defs

/-!
Equality as programs see it is an equivalence relation of the values that hold no floating-point
number, no set with two equal items and no dictionary with two equal keys. A set is compared by
finding each of its items in the other set, and a dictionary by looking its keys up, so that one
inclusion and a count must give the other inclusion. The argument goes by size: where values inside
are equal exactly if something that represents them is the same, a value can be represented by the
multiset of what represents its items, and then two values are equal exactly if their digests are
the same.
-/
namespace HintCheck.Value

/-! ### Structural equality -/

mutual

/-- What structural equality sees of a value: of an instance no more than its label, and of a
callable no more than its number. -/
def skeleton : Value → Value
  | list items => list (skeletonAll items)
  | tuple items => tuple (skeletonAll items)
  | set items => set (skeletonAll items)
  | frozenset items => frozenset (skeletonAll items)
  | deque items => deque (skeletonAll items)
  | iterator items => iterator (skeletonAll items)
  | dict pairs => dict (skeletonPairs pairs)
  | inst label _ _ _ => inst label Builtin.object [] Option.none
  | function f => function ⟨f.index, ""⟩
  | v => v
termination_by structural v => v

def skeletonAll : List Value → List Value
  | [] => []
  | v :: rest => skeleton v :: skeletonAll rest
termination_by structural vs => vs

def skeletonPairs : List (Value × Value) → List (Value × Value)
  | [] => []
  | (k, v) :: rest => (skeleton k, skeleton v) :: skeletonPairs rest
termination_by structural pairs => pairs

end

mutual

theorem structEq_iff : (v w : Value) → (structEq v w = true ↔ v.skeleton = w.skeleton)
  | list xs, w | tuple xs, w | set xs, w | frozenset xs, w | deque xs, w | iterator xs, w => by
    cases w <;> simp [structEq, isSame, skeleton, structEqList_iff xs]
  | dict xs, w => by
    cases w <;> simp [structEq, isSame, skeleton, structEqPairs_iff xs]
  | ellipsis, w | none, w | bool _, w | int _, w | float _, w | complex _ _, w | str _, w
  | bytes _, w | type _, w | inst _ _ _ _, w | function _, w | method _, w | module _, w => by
    cases w <;> simp [structEq, isSame, skeleton]

theorem structEqList_iff : (vs ws : List Value) →
    (structEqList vs ws = true ↔ skeletonAll vs = skeletonAll ws)
  | [], ws => by cases ws <;> simp [structEqList, skeletonAll]
  | v :: vs, ws => by
    cases ws <;> simp [structEqList, skeletonAll, structEq_iff v, structEqList_iff vs]

theorem structEqPairs_iff : (vs ws : List (Value × Value)) →
    (structEqPairs vs ws = true ↔ skeletonPairs vs = skeletonPairs ws)
  | [], ws => by cases ws <;> simp [structEqPairs, skeletonPairs]
  | (k, v) :: vs, ws => by
    cases ws <;> simp [structEqPairs, skeletonPairs, structEq_iff k, structEq_iff v,
      structEqPairs_iff vs]

end

/-! ### The walks of equality -/

theorem data_data (v : Value) : v.data.data = v.data := by
  fun_induction data v with
  | case1 _ _ _ payload ih => exact ih
  | case2 v bare => rw [data]; exact bare

theorem data_ne_wrapper (v : Value) {label : Nat} {c : ClassId} {attrs : List (String × Value)}
    {payload : Value} : v.data ≠ inst label c attrs (some payload) := by
  fun_induction data v with
  | case1 _ _ _ payload ih => exact ih
  | case2 v bare => exact bare label c attrs payload

theorem matchesAt_data (turned : Bool) (v w : Value) :
    matchesAt turned v w = matchesAt turned v.data w.data := by
  fun_induction data v with
  | case1 _ _ _ payload ih => rw [matchesAt, ih]
  | case2 v bare =>
    cases v with
    | inst label c attrs payload =>
      cases payload with
      | none => simp only [matchesAt, data_data]
      | some payload => exact absurd rfl (bare label c attrs payload)
    | _ => simp only [matchesAt, data_data]

theorem matchesAny_iff (xs : List Value) (y : Value) :
    matchesAny xs y = true ↔ ∃ x ∈ xs, matchesAt true x y = true := by
  induction xs with
  | nil => simp [matchesAny]
  | cons x xs ih => simp [matchesAny, ih]

theorem matchesSubset_iff (xs ys : List Value) :
    matchesSubset xs ys = true ↔ ∀ x ∈ xs, ∃ y ∈ ys, matchesAt false x y = true := by
  induction xs with
  | nil => simp [matchesSubset]
  | cons x xs ih => simp [matchesSubset, ih]

theorem lookupMatches_iff (xs : List (Value × Value)) (key value : Value) :
    lookupMatches xs key value = true ↔
      ∃ p, xs.find? (fun p => matchesAt false p.1 key) = some p ∧
        matchesAt true p.2 value = true := by
  induction xs with
  | nil => simp [lookupMatches]
  | cons p xs ih =>
    cases found : matchesAt false p.1 key <;> simp [lookupMatches, found, ih]

theorem allLookedUp_iff (xs ys : List (Value × Value)) :
    allLookedUp xs ys = true ↔
      ∀ p ∈ xs, ∃ q, ys.find? (fun q => matchesAt true p.1 q.1) = some q ∧
        matchesAt false p.2 q.2 = true := by
  induction xs with
  | nil => simp [allLookedUp]
  | cons p xs ih =>
    rw [allLookedUp, Bool.and_eq_true, ih, List.forall_mem_cons]
    refine and_congr_left fun _ => ?_
    cases ys.find? (fun q => matchesAt true p.1 q.1) <;> simp [-Prod.exists]

/-! ### Discrete values -/

/-- The values that equality compares with those of another value. -/
def parts : Value → List Value
  | list items | tuple items | set items | frozenset items | deque items => items
  | dict pairs => pairs.map Prod.fst ++ pairs.map Prod.snd
  | inst _ _ _ (some payload) => [payload]
  | _ => []

/-- No two of the values are equal. -/
def Apart (values : List Value) : Prop :=
  values.Pairwise fun v w => v.equals w = false

/-- The value is no floating-point number, no set with two equal items and no dictionary with two
equal keys. -/
def IsSimple : Value → Prop
  | float _ | complex _ _ => False
  | set items | frozenset items => Apart items
  | dict pairs => Apart (pairs.map Prod.fst)
  | _ => True

/-- Neither the value nor anything inside it is a floating-point number, a set with two equal items
or a dictionary with two equal keys. -/
inductive IsDiscrete : Value → Prop
  | intro {v : Value} (here : v.IsSimple) (inside : ∀ p ∈ v.parts, p.IsDiscrete) : v.IsDiscrete

theorem IsDiscrete.data {v : Value} (discrete : v.IsDiscrete) : v.data.IsDiscrete := by
  fun_induction Value.data v with
  | case1 _ _ _ payload ih =>
    cases discrete with
    | intro _ inside => exact ih (inside payload (by simp [parts]))
  | case2 => exact discrete

theorem sizeOf_data (v : Value) : sizeOf v.data ≤ sizeOf v := by
  fun_induction data v with
  | case1 _ _ _ payload ih =>
    simp only [inst.sizeOf_spec, Option.some.sizeOf_spec]
    omega
  | case2 => exact Nat.le_refl _

theorem sizeOf_pair {pairs : List (Value × Value)} {pair : Value × Value} (member : pair ∈ pairs) :
    sizeOf pair.1 < sizeOf pairs ∧ sizeOf pair.2 < sizeOf pairs := by
  have smaller := List.sizeOf_lt_of_mem member
  obtain ⟨k, v⟩ := pair
  simp only [Prod.mk.sizeOf_spec] at smaller
  constructor <;> dsimp only <;> omega

theorem sizeOf_part {v p : Value} (part : p ∈ v.parts) : sizeOf p < sizeOf v := by
  cases v with
  | list items | tuple items | set items | frozenset items | deque items =>
    have smaller : sizeOf p < sizeOf items := List.sizeOf_lt_of_mem part
    simp only [list.sizeOf_spec, tuple.sizeOf_spec, set.sizeOf_spec, frozenset.sizeOf_spec,
      deque.sizeOf_spec]
    omega
  | dict pairs =>
    have smaller : sizeOf p < sizeOf pairs := by
      rcases List.mem_append.mp part with isKey | isValue
      · obtain ⟨pair, member, rfl⟩ := List.mem_map.mp isKey
        exact (sizeOf_pair member).1
      · obtain ⟨pair, member, rfl⟩ := List.mem_map.mp isValue
        exact (sizeOf_pair member).2
    rw [dict.sizeOf_spec]
    omega
  | inst label c attrs payload =>
    cases payload with
    | none => cases part
    | some payload =>
      rw [List.mem_singleton.mp part, inst.sizeOf_spec, Option.some.sizeOf_spec]
      omega
  | _ => cases part

/-! ### Digests -/

/-- What equality sees of a value, where the values inside are represented by elements of `α`. -/
inductive Digest (α : Type) where
  /-- A truth value or an integer. -/
  | number (i : Int)
  | sequence (kind : Builtin) (items : List α)
  /-- A set of either kind. -/
  | collection (items : Multiset α)
  | mapping (pairs : Multiset (α × α))
  | other (skeleton : Value)

variable {α : Type}

/-- The digest of a value that wraps no other. -/
def digestBare (f : Value → α) : Value → Digest α
  | bool b => .number (if b then 1 else 0)
  | int i => .number i
  | list items => .sequence .list (items.map f)
  | tuple items => .sequence .tuple (items.map f)
  | deque items => .sequence .deque (items.map f)
  | set items | frozenset items => .collection (items.map f)
  | dict pairs => .mapping (pairs.map (Prod.map f f))
  | v => .other v.skeleton

def digest (f : Value → α) (v : Value) : Digest α :=
  v.data.digestBare f

/-- On the given values, equality asked from either side is equality of what represents them. -/
def Represents (values : Value → Prop) (f : Value → α) : Prop :=
  ∀ turned v w, values v → values w → (matchesAt turned v w = true ↔ f v = f w)

namespace Represents

variable {values : Value → Prop} {f : Value → α} {xs ys : List Value}
  {ps qs : List (Value × Value)}

theorem matchesAll_iff (represents : Represents values f) (left : ∀ x ∈ xs, values x)
    (right : ∀ y ∈ ys, values y) (turned : Bool) :
    matchesAll turned xs ys = true ↔ xs.map f = ys.map f := by
  induction xs generalizing ys with
  | nil => cases ys <;> simp [matchesAll]
  | cons x xs ih =>
    cases ys with
    | nil => simp [matchesAll]
    | cons y ys =>
      rw [List.forall_mem_cons] at left right
      simp [matchesAll, represents turned x y left.1 right.1, ih left.2 right.2]

theorem nodup (represents : Represents values f) (each : ∀ x ∈ xs, values x) (apart : Apart xs) :
    (xs.map f).Nodup := by
  rw [List.Nodup, List.pairwise_map]
  refine apart.imp_of_mem fun {x y} left right different same => ?_
  rw [equals, (represents false x y (each x left) (each y right)).mpr same] at different
  cases different

/-- The count: a list without repetition whose members are all in another list of the same length is
that list in another order. -/
theorem perm_iff {as bs : List α} (nodup : as.Nodup) :
    as.length = bs.length ∧ (∀ a ∈ as, a ∈ bs) ↔ as.Perm bs := by
  constructor
  · rintro ⟨sameLength, subset⟩
    exact (List.subperm_of_subset nodup subset).perm_of_length_le sameLength.ge
  · exact fun perm => ⟨perm.length_eq, fun _ => perm.mem_iff.mp⟩

theorem sets_iff (represents : Represents values f) (left : ∀ x ∈ xs, values x)
    (right : ∀ y ∈ ys, values y) (apart : Apart xs) (apartToo : Apart ys) (turned : Bool) :
    (xs.length == ys.length && if turned then ys.all (matchesAny xs) else matchesSubset xs ys) =
      true ↔ (xs.map f).Perm (ys.map f) := by
  rw [Bool.and_eq_true, beq_iff_eq]
  cases turned with
  | false =>
    have subset : matchesSubset xs ys = true ↔ ∀ a ∈ xs.map f, a ∈ ys.map f := by
      rw [matchesSubset_iff, List.forall_mem_map]
      refine forall₂_congr fun x member => ?_
      rw [List.mem_map]
      refine exists_congr fun y => and_congr_right fun memberToo => ?_
      rw [represents false x y (left x member) (right y memberToo), eq_comm]
    rw [if_neg Bool.false_ne_true, subset, ← perm_iff (represents.nodup left apart)]
    simp
  | true =>
    have subset : ys.all (matchesAny xs) = true ↔ ∀ b ∈ ys.map f, b ∈ xs.map f := by
      rw [List.all_eq_true, List.forall_mem_map]
      refine forall₂_congr fun y member => ?_
      rw [matchesAny_iff, List.mem_map]
      refine exists_congr fun x => and_congr_right fun memberToo => ?_
      rw [represents true x y (left x memberToo) (right y member)]
    rw [if_pos rfl, subset, List.perm_comm, ← perm_iff (represents.nodup right apartToo)]
    simp [eq_comm]

/-- A key that is looked up is found with the value that its pair has. -/
theorem find?_iff {found : Value × Value → Bool} {key value : α}
    (nodup : ((ps.map Prod.fst).map f).Nodup)
    (looks : ∀ p ∈ ps, found p = true ↔ f p.1 = key) :
    (∃ p, ps.find? found = some p ∧ f p.2 = value) ↔ (key, value) ∈ ps.map (Prod.map f f) := by
  induction ps with
  | nil => simp
  | cons p ps ih =>
    rw [List.forall_mem_cons] at looks
    rw [List.map_cons, List.map_cons, List.nodup_cons] at nodup
    have others := ih nodup.2 looks.2
    rw [List.map_cons, List.mem_cons]
    by_cases isKey : f p.1 = key
    · have absent : (key, value) ∉ ps.map (Prod.map f f) := fun member => by
        obtain ⟨q, inRest, same⟩ := List.mem_map.mp member
        have sameKey : f q.1 = f p.1 := isKey ▸ congrArg Prod.fst same
        exact nodup.1 (sameKey ▸ List.mem_map_of_mem (List.mem_map_of_mem inRest))
      rw [List.find?_cons_of_pos (looks.1.mpr isKey)]
      simp [absent, Prod.map, isKey, eq_comm, -Prod.exists]
    · rw [List.find?_cons_of_neg (mt looks.1.mp isKey), others]
      simp [Prod.map, Ne.symm isKey]

theorem nodup_pairs (nodup : ((ps.map Prod.fst).map f).Nodup) :
    (ps.map (Prod.map f f)).Nodup := by
  refine .of_map Prod.fst ?_
  rwa [List.map_map] at nodup ⊢

theorem dicts_iff (represents : Represents values f) (left : ∀ p ∈ ps, values p.1 ∧ values p.2)
    (right : ∀ q ∈ qs, values q.1 ∧ values q.2) (apart : Apart (ps.map Prod.fst))
    (apartToo : Apart (qs.map Prod.fst)) (turned : Bool) :
    (ps.length == qs.length &&
      if turned then qs.all fun q => lookupMatches ps q.1 q.2 else allLookedUp ps qs) = true ↔
      (ps.map (Prod.map f f)).Perm (qs.map (Prod.map f f)) := by
  have keys : ((ps.map Prod.fst).map f).Nodup :=
    represents.nodup (List.forall_mem_map.mpr fun p member => (left p member).1) apart
  have keysToo : ((qs.map Prod.fst).map f).Nodup :=
    represents.nodup (List.forall_mem_map.mpr fun q member => (right q member).1) apartToo
  rw [Bool.and_eq_true, beq_iff_eq]
  cases turned with
  | false =>
    have subset : allLookedUp ps qs = true ↔
        ∀ a ∈ ps.map (Prod.map f f), a ∈ qs.map (Prod.map f f) := by
      rw [allLookedUp_iff, List.forall_mem_map]
      refine forall₂_congr fun p member => ?_
      have looks (q) (memberToo : q ∈ qs) : matchesAt true p.1 q.1 = true ↔ f q.1 = f p.1 :=
        (represents true p.1 q.1 (left p member).1 (right q memberToo).1).trans eq_comm
      rw [Prod.map, ← find?_iff keysToo looks]
      refine exists_congr fun q => and_congr_right fun found => ?_
      have memberToo := List.mem_of_find?_eq_some found
      rw [represents false p.2 q.2 (left p member).2 (right q memberToo).2, eq_comm]
    rw [if_neg Bool.false_ne_true, subset, ← perm_iff (nodup_pairs keys)]
    simp
  | true =>
    have subset : (qs.all fun q => lookupMatches ps q.1 q.2) = true ↔
        ∀ b ∈ qs.map (Prod.map f f), b ∈ ps.map (Prod.map f f) := by
      rw [List.all_eq_true, List.forall_mem_map]
      refine forall₂_congr fun q member => ?_
      have looks (p) (memberToo : p ∈ ps) : matchesAt false p.1 q.1 = true ↔ f p.1 = f q.1 :=
        represents false p.1 q.1 (left p memberToo).1 (right q member).1
      rw [lookupMatches_iff, Prod.map, ← find?_iff keys looks]
      refine exists_congr fun p => and_congr_right fun found => ?_
      have memberToo := List.mem_of_find?_eq_some found
      rw [represents true p.2 q.2 (left p memberToo).2 (right q member).2]
    rw [if_pos rfl, subset, List.perm_comm, ← perm_iff (nodup_pairs keysToo)]
    simp [eq_comm]

end Represents

theorem IsDiscrete.notFloat {v : Value} (discrete : v.IsDiscrete) : v.asComplex? = Option.none := by
  cases discrete with
  | intro here _ => cases v <;> first | rfl | cases here

/-- Where nothing is compared one by one, numbers are equal by value and all else by structure. -/
theorem leafEq_iff {v w : Value} (notFloat : v.asComplex? = Option.none)
    (notFloatToo : w.asComplex? = Option.none) :
    leafEq v w = true ↔
      match v.asInt?, w.asInt? with
      | some i, some j => i = j
      | Option.none, Option.none => v.skeleton = w.skeleton
      | _, _ => False := by
  simp only [leafEq, numericEq?, intEquals, notFloat, notFloatToo]
  cases v.asInt? <;> cases w.asInt? <;> simp [structEq_iff]

/-- The digests of values show whether they are equal, if what represents the values inside does. -/
theorem Represents.digestBare {values : Value → Prop} {f : Value → α}
    (represents : Represents values f) {v w : Value} (bare : v.data = v) (bareToo : w.data = w)
    (discrete : v.IsDiscrete) (discreteToo : w.IsDiscrete) (parts : ∀ p ∈ v.parts, values p)
    (partsToo : ∀ p ∈ w.parts, values p) (turned : Bool) :
    matchesAt turned v w = true ↔ v.digestBare f = w.digestBare f := by
  have here : v.IsSimple := by cases discrete; assumption
  have hereToo : w.IsSimple := by cases discreteToo; assumption
  have leaf := leafEq_iff discrete.notFloat discreteToo.notFloat
  -- Containers of one sort are compared part by part; all other pairs are left to `leafEq`.
  cases v with
  | float | complex => cases here
  | list xs | tuple xs | deque xs =>
    have left : ∀ x ∈ xs, values x := parts
    cases w with
    | list ys | tuple ys | deque ys =>
      have right : ∀ y ∈ ys, values y := partsToo
      simp [matchesAt, data, leaf, asInt?, skeleton, Value.digestBare,
        represents.matchesAll_iff left right turned]
    | _ => simp [matchesAt, bareToo, leaf, asInt?, skeleton, Value.digestBare]
  | set xs | frozenset xs =>
    have left : ∀ x ∈ xs, values x := parts
    cases w with
    | set ys | frozenset ys =>
      have right : ∀ y ∈ ys, values y := partsToo
      rw [matchesAt]
      simp only [data, Value.digestBare, Digest.collection.injEq, Multiset.coe_eq_coe]
      exact represents.sets_iff left right here hereToo turned
    | _ => simp [matchesAt, bareToo, leaf, asInt?, skeleton, Value.digestBare]
  | dict ps =>
    cases w with
    | dict qs =>
      rw [matchesAt]
      simp only [data, Value.digestBare, Digest.mapping.injEq, Multiset.coe_eq_coe]
      have both {ps : List (Value × Value)} (parts : ∀ p ∈ (dict ps).parts, values p) :
          ∀ p ∈ ps, values p.1 ∧ values p.2 := fun p member =>
        ⟨parts _ (List.mem_append_left _ (List.mem_map_of_mem member)),
          parts _ (List.mem_append_right _ (List.mem_map_of_mem member))⟩
      exact represents.dicts_iff (both parts) (both partsToo) here hereToo turned
    | _ => simp [matchesAt, bareToo, leaf, asInt?, skeleton, Value.digestBare]
  | inst label c attrs payload =>
    cases payload with
    | some payload => exact absurd bare (data_ne_wrapper _)
    | none => cases w <;> simp [matchesAt, bareToo, leaf, asInt?, skeleton, Value.digestBare]
  | _ => cases w <;> simp [matchesAt, bareToo, leaf, asInt?, skeleton, Value.digestBare]

/-- Discrete values of every size can be represented. -/
theorem exists_represents (size : Nat) : ∃ (α : Type) (f : Value → α),
    Represents (fun v => v.IsDiscrete ∧ sizeOf v < size) f := by
  induction size with
  | zero => exact ⟨Unit, fun _ => (), fun _ _ _ small => by omega⟩
  | succ size ih =>
    obtain ⟨α, f, represents⟩ := ih
    refine ⟨Digest α, digest f, fun turned v w ⟨discrete, small⟩ ⟨discreteToo, smallToo⟩ => ?_⟩
    have inside {v : Value} (discrete : v.IsDiscrete) (small : sizeOf v < size + 1) :
        ∀ p ∈ v.data.parts, p.IsDiscrete ∧ sizeOf p < size := fun p part => by
      have := sizeOf_part part
      have := sizeOf_data v
      cases discrete.data with
      | intro _ inside => exact ⟨inside p part, by omega⟩
    rw [matchesAt_data]
    exact represents.digestBare (data_data v) (data_data w) discrete.data discreteToo.data
      (inside discrete small) (inside discreteToo smallToo) turned

/-- A value in which no floating-point number occurs and in which sets hold each item and
dictionaries each key once. -/
abbrev DiscreteValue : Type :=
  { v : Value // v.IsDiscrete }

theorem exists_represents_all (values : List DiscreteValue) : ∃ (α : Type) (f : Value → α),
    ∀ v ∈ values, ∀ w ∈ values, v.1.equals w.1 = true ↔ f v.1 = f w.1 := by
  obtain ⟨α, f, represents⟩ := exists_represents (sizeOf (values.map Subtype.val))
  have small (v : DiscreteValue) (member : v ∈ values) :
      v.1.IsDiscrete ∧ sizeOf v.1 < sizeOf (values.map Subtype.val) :=
    ⟨v.2, List.sizeOf_lt_of_mem (List.mem_map_of_mem member)⟩
  exact ⟨α, f, fun v member w memberToo =>
    represents false v.1 w.1 (small v member) (small w memberToo)⟩

theorem equals_refl (v : DiscreteValue) : v.1.equals v.1 = true := by
  obtain ⟨α, f, represents⟩ := exists_represents_all [v]
  exact (represents v (by simp) v (by simp)).mpr rfl

theorem equals_symm {v w : DiscreteValue} (equal : v.1.equals w.1 = true) :
    w.1.equals v.1 = true := by
  obtain ⟨α, f, represents⟩ := exists_represents_all [v, w]
  have same := (represents v (by simp) w (by simp)).mp equal
  exact (represents w (by simp) v (by simp)).mpr same.symm

theorem equals_trans {u v w : DiscreteValue} (first : u.1.equals v.1 = true)
    (second : v.1.equals w.1 = true) : u.1.equals w.1 = true := by
  obtain ⟨α, f, represents⟩ := exists_represents_all [u, v, w]
  have same := (represents u (by simp) v (by simp)).mp first
  have sameToo := (represents v (by simp) w (by simp)).mp second
  exact (represents u (by simp) w (by simp)).mpr (same.trans sameToo)

theorem equals_frozen (items : List DiscreteValue) :
    (set (items.map Subtype.val)).equals (frozenset (items.map Subtype.val)) = true := by
  have each : ∀ x ∈ items.map Subtype.val, ∃ y ∈ items.map Subtype.val,
      matchesAt false x y = true :=
    List.forall_mem_map.mpr fun x member => ⟨x.1, List.mem_map_of_mem member, equals_refl x⟩
  simpa [equals, matchesAt, data, matchesSubset_iff] using each

/-- Equality is an equivalence of discrete values. It relates a truth value to the number that it
stands for, a set to the frozen set of its items, and an instance to the value that it wraps. -/
theorem equals_equivalence :
    (Equivalence fun v w : DiscreteValue => v.1.equals w.1 = true) ∧
      (∀ b : Bool, (bool b).equals (int (if b then 1 else 0)) = true) ∧
      (∀ items : List DiscreteValue,
        (set (items.map Subtype.val)).equals (frozenset (items.map Subtype.val)) = true) ∧
      ∀ (label : Nat) (c : ClassId) (attrs : List (String × Value)) (v : DiscreteValue),
        (inst label c attrs (some v.1)).equals v.1 = true := by
  refine ⟨⟨equals_refl, equals_symm, equals_trans⟩, ?_, equals_frozen, fun _ _ _ v => ?_⟩
  · decide
  · exact equals_refl v

example : (set [tuple [int 1], str "a"]).equals (frozenset [str "a", tuple [bool true]]) = true :=
  by decide

/-- A set in which an item is repeated may equal a set that does not equal it. -/
example : (set [int 1, int 1]).equals (set [int 1, int 2]) = true ∧
    (set [int 1, int 2]).equals (set [int 1, int 1]) = false := by
  decide

end HintCheck.Value
