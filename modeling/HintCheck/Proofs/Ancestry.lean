import HintCheck.Class.Definition
import Mathlib.Data.Finset.Card
import Mathlib.Data.Finset.Dedup
import Mathlib.Data.List.Nodup

/-!
The order of ancestors. A merge of lists exists exactly if some order without repetition keeps all
of them, and then the merge finds such an order: the first entry of an order that keeps the lists
heads every list that it is in, so there is always a head to take, and whichever head is taken, what
is left of the order keeps what is left of the lists. The ancestors of a class are such a merge, and
all that is known about them follows by induction on the definitions made so far.
-/
namespace HintCheck
namespace Linearization

variable {α : Type} [DecidableEq α] {lists : List (List α)} {c : α}

/-- An order of the entries of all lists, without repetition, that keeps the order of each. -/
structure Merges (lists : List (List α)) (order : List α) : Prop where
  nodup : order.Nodup
  mem_iff : ∀ c, c ∈ order ↔ ∃ l ∈ lists, c ∈ l
  keeps : ∀ l ∈ lists, l.Sublist order

/-- An entry that heads some list and stands in the tail of none. -/
structure Leads (lists : List (List α)) (c : α) : Prop where
  heads : ∃ l ∈ lists, l.head? = some c
  free : ∀ l ∈ lists, c ∉ l.tail

/-! ### Taking a head -/

theorem leads_of_nextHead? (found : nextHead? lists = some c) : Leads lists c := by
  obtain ⟨l, member, head⟩ := List.mem_filterMap.mp (nextHead?_mem found)
  exact ⟨⟨l, member, head⟩, by simpa using List.find?_some found⟩

theorem not_leads_of_nextHead? (missing : nextHead? lists = none) : ¬Leads lists c := by
  rintro ⟨⟨l, member, head⟩, free⟩
  have blocked := List.find?_eq_none.mp missing c (List.mem_filterMap.mpr ⟨l, member, head⟩)
  obtain ⟨other, inLists, inTail⟩ : ∃ other ∈ lists, c ∈ other.tail := by simpa using blocked
  exact free other inLists inTail

/-- Where no tail has `c`, a list without the head `c` is the list without `c`. -/
theorem dropHead_eq_erase {l : List α} (free : c ∉ l.tail) : dropHead c l = l.erase c := by
  cases l with
  | nil => rfl
  | cons x xs =>
    have missing : c ∉ xs := free
    by_cases same : x = c <;> simp [dropHead, same, List.erase_of_not_mem missing]

theorem mem_dropHead {l : List α} (free : c ∉ l.tail) {x : α} :
    x ∈ dropHead c l ↔ x ≠ c ∧ x ∈ l := by
  cases l with
  | nil => simp [dropHead]
  | cons y ys =>
    have missing : c ∉ ys := free
    by_cases same : y = c
    · subst same
      have differs : x ∈ ys → x ≠ y := fun member isHead => missing (isHead ▸ member)
      simp only [dropHead, if_true, List.mem_cons]
      tauto
    · have differs : x ∈ y :: ys → x ≠ c := by
        rintro member rfl
        rcases List.mem_cons.mp member with isHead | later
        · exact same isHead.symm
        · exact missing later
      simp only [dropHead, if_neg same]
      tauto

/-- What remains of the lists is what they were without the head. -/
theorem Leads.mem_dropHeads (leads : Leads lists c) {x : α} :
    (∃ l ∈ dropHeads c lists, x ∈ l) ↔ x ≠ c ∧ ∃ l ∈ lists, x ∈ l := by
  simp only [dropHeads, List.mem_map, exists_exists_and_eq_and]
  constructor
  · rintro ⟨l, member, inRest⟩
    obtain ⟨differs, inList⟩ := (mem_dropHead (leads.free l member)).mp inRest
    exact ⟨differs, l, member, inList⟩
  · rintro ⟨differs, l, member, inList⟩
    exact ⟨l, member, (mem_dropHead (leads.free l member)).mpr ⟨differs, inList⟩⟩

theorem sublist_cons_of_dropHead {l order : List α} (rest : (dropHead c l).Sublist order) :
    l.Sublist (c :: order) := by
  cases l with
  | nil => exact List.nil_sublist _
  | cons x xs =>
    by_cases same : x = c
    · subst same
      exact List.Sublist.cons_cons x (by simpa [dropHead] using rest)
    · exact List.Sublist.cons c (by simpa [dropHead, same] using rest)

/-- A merge of the rest, after the head, is a merge of the lists. -/
theorem Merges.cons (leads : Leads lists c) {order : List α}
    (merges : Merges (dropHeads c lists) order) : Merges lists (c :: order) where
  nodup := by
    refine List.nodup_cons.mpr ⟨fun member => ?_, merges.nodup⟩
    exact (leads.mem_dropHeads.mp ((merges.mem_iff c).mp member)).1 rfl
  mem_iff x := by
    rw [List.mem_cons, merges.mem_iff x, leads.mem_dropHeads]
    by_cases same : x = c
    · subst same
      obtain ⟨l, member, head⟩ := leads.heads
      simp only [true_or, true_iff]
      exact ⟨l, member, List.mem_of_mem_head? head⟩
    · simp [same]
  keeps l member :=
    sublist_cons_of_dropHead (merges.keeps _ (List.mem_map.mpr ⟨l, member, rfl⟩))

/-- Whichever head is taken, the rest of a merge is a merge of the rest. -/
theorem Merges.erase {order : List α} (merges : Merges lists order) (leads : Leads lists c) :
    Merges (dropHeads c lists) (order.erase c) where
  nodup := merges.nodup.erase c
  mem_iff x := by rw [merges.nodup.mem_erase_iff, merges.mem_iff x, leads.mem_dropHeads]
  keeps l member := by
    obtain ⟨whole, inLists, rfl⟩ := List.mem_map.mp member
    rw [dropHead_eq_erase (leads.free whole inLists)]
    exact (merges.keeps whole inLists).erase c

omit [DecidableEq α] in
/-- An entry that comes first in an order heads every list that the order keeps and that has it. -/
theorem head?_of_sublist {x : α} {xs l : List α} (nodup : (x :: xs).Nodup)
    (kept : l.Sublist (x :: xs)) (member : x ∈ l) : l.head? = some x := by
  have fresh : x ∉ xs := (List.nodup_cons.mp nodup).1
  cases kept with
  | cons _ within => exact absurd (within.subset member) fresh
  | cons_cons _ _ => rfl

omit [DecidableEq α] in
/-- An entry that comes last in an order comes last in every list that the order keeps and that has
it. -/
theorem getLast?_of_sublist {x : α} {order l : List α} (nodup : order.Nodup)
    (kept : l.Sublist order) (last : order.getLast? = some x) (member : x ∈ l) :
    l.getLast? = some x := by
  rw [← List.head?_reverse] at last ⊢
  obtain ⟨rest, turned⟩ := List.head?_eq_some_iff.mp last
  refine head?_of_sublist (turned ▸ List.nodup_reverse.mpr nodup) ?_ (List.mem_reverse.mpr member)
  exact turned ▸ kept.reverse

omit [DecidableEq α] in
/-- Lists that have a merge have a head to take. -/
theorem Merges.exists_leads {order : List α} (merges : Merges lists order)
    (some_left : ¬lists.all List.isEmpty) : ∃ c, Leads lists c := by
  obtain ⟨l, member, occupied⟩ : ∃ l ∈ lists, l ≠ [] := by simpa using some_left
  cases order with
  | nil => exact absurd (List.sublist_nil.mp (merges.keeps l member)) occupied
  | cons x xs =>
    obtain ⟨first, inLists, inFirst⟩ := (merges.mem_iff x).mp List.mem_cons_self
    refine ⟨x, ⟨first, inLists, head?_of_sublist merges.nodup (merges.keeps _ inLists) inFirst⟩, ?_⟩
    intro other inLists inTail
    have within : other.tail.Sublist xs := (merges.keeps other inLists).tail
    exact (List.nodup_cons.mp merges.nodup).1 (within.subset inTail)

/-! ### The merge -/

omit [DecidableEq α] in
theorem merges_of_all_isEmpty (empty : lists.all List.isEmpty = true) : Merges lists [] where
  nodup := List.nodup_nil
  mem_iff x := by
    simp only [List.not_mem_nil, false_iff, not_exists, not_and]
    intro l member inList
    rw [List.isEmpty_iff.mp (List.all_eq_true.mp empty l member)] at inList
    cases inList
  keeps l member := by rw [List.isEmpty_iff.mp (List.all_eq_true.mp empty l member)]

/-- What is found keeps all lists. -/
theorem merge_sound {room : Nat} {order : List α} (merged : merge room lists = .ok order) :
    Merges lists order := by
  fun_induction merge room lists generalizing order with
  | case1 room lists empty =>
    cases merged
    exact merges_of_all_isEmpty empty
  | case2 => cases merged
  | case3 => cases merged
  | case4 room lists some_left c found _ _ rest below ih =>
    cases merged
    exact (ih below).cons (leads_of_nextHead? found)
  | case5 => cases merged

/-- Where there is no head to take, no order keeps all lists. -/
theorem merge_complete {room : Nat} (failed : merge room lists = .error .noHead) (order : List α) :
    ¬Merges lists order := by
  intro merges
  fun_induction merge room lists generalizing order with
  | case1 => cases failed
  | case2 room lists some_left missing =>
    obtain ⟨c, leads⟩ := merges.exists_leads some_left
    exact not_leads_of_nextHead? missing leads
  | case3 => cases failed
  | case4 => cases failed
  | case5 room lists some_left c found _ _ obstacle below ih =>
    cases failed
    exact ih below (order.erase c) (merges.erase (leads_of_nextHead? found))

theorem Leads.card_dropHeads (leads : Leads lists c) :
    (dropHeads c lists).flatten.toFinset.card + 1 = lists.flatten.toFinset.card := by
  have rest : (dropHeads c lists).flatten.toFinset = lists.flatten.toFinset.erase c := by
    ext x
    simp only [List.mem_toFinset, Finset.mem_erase, List.mem_flatten]
    exact leads.mem_dropHeads
  obtain ⟨l, member, head⟩ := leads.heads
  have present : c ∈ lists.flatten.toFinset := by
    rw [List.mem_toFinset, List.mem_flatten]
    exact ⟨l, member, List.mem_of_mem_head? head⟩
  rw [rest, Finset.card_erase_add_one present]

/-- The room runs out only if there are more entries than that. -/
theorem merge_tooLong {room : Nat} (failed : merge room lists = .error .tooLong) :
    room < lists.flatten.toFinset.card := by
  fun_induction merge room lists with
  | case1 => cases failed
  | case2 => cases failed
  | case3 lists some_left c found _ =>
    have counted := (leads_of_nextHead? found).card_dropHeads
    omega
  | case4 => cases failed
  | case5 room lists some_left c found _ occupied obstacle below ih =>
    cases failed
    have counted := (leads_of_nextHead? found).card_dropHeads
    have fewer := ih below
    omega

end Linearization

namespace Catalog

open Linearization (Merges)

/-- An order of some bases and all classes above them, without repetition, that keeps the order of
the bases and the order of each of them. -/
structure IsLinearization (cat : Catalog) (bases order : List ClassId) : Prop where
  nodup : order.Nodup
  mem_iff : ∀ c, c ∈ order ↔ ∃ b ∈ bases, c = b ∨ c ∈ (cat.get b).ancestors
  bases_sublist : bases.Sublist order
  lineage_sublist : ∀ b ∈ bases, (b :: (cat.get b).ancestors).Sublist order

/-- No base is too deep, and there are no more classes than a class can have above it. -/
def WithinLimits (cat : Catalog) (bases : List ClassId) : Prop :=
  (∀ b ∈ bases, (cat.get b).ancestors.length < maxInheritanceDepth) ∧
    (bases.flatMap cat.lineage).toFinset.card ≤ maxAncestors

variable {cat : Catalog} {bases order : List ClassId}

theorem exists_mem_lineages {c : ClassId} :
    (∃ l ∈ bases.map cat.lineage ++ [bases], c ∈ l) ↔ ∃ b ∈ bases, c ∈ cat.lineage b := by
  simp only [List.mem_append, List.mem_map, List.mem_singleton, or_and_right, exists_or,
    exists_exists_and_eq_and, exists_eq_left]
  exact ⟨fun found => found.elim id fun member => ⟨c, member, List.mem_cons_self⟩, .inl⟩

theorem merges_iff_isLinearization :
    Merges (bases.map cat.lineage ++ [bases]) order ↔ cat.IsLinearization bases order := by
  constructor
  · intro merges
    refine ⟨merges.nodup, fun c => ?_, merges.keeps _ (by simp), fun b member => ?_⟩
    · rw [merges.mem_iff c, exists_mem_lineages]
      simp only [lineage, List.mem_cons]
    · exact merges.keeps _ (List.mem_append_left _ (List.mem_map_of_mem member))
  · intro linear
    refine ⟨linear.nodup, fun c => ?_, fun l member => ?_⟩
    · rw [linear.mem_iff c, exists_mem_lineages]
      simp only [lineage, List.mem_cons]
    · rcases List.mem_append.mp member with inLineages | isBases
      · obtain ⟨b, inBases, rfl⟩ := List.mem_map.mp inLineages
        exact linear.lineage_sublist b inBases
      · rw [List.mem_singleton.mp isBases]
        exact linear.bases_sublist

/-- Everything that can come of putting the classes above some bases in order. -/
theorem linearize_cases (cat : Catalog) (bases : List ClassId) :
    (∃ order, cat.linearize bases = .ok order ∧ cat.IsLinearization bases order) ∨
    (cat.linearize bases = .error (.inconsistent (bases.map fun b => (cat.get b).name)) ∧
      ∀ order, ¬cat.IsLinearization bases order) ∨
    (cat.linearize bases = .error .tooDeep ∧ ¬cat.WithinLimits bases) := by
  rw [linearize]
  split
  next deep =>
    refine .inr (.inr ⟨rfl, fun within => ?_⟩)
    obtain ⟨b, member, tall⟩ := List.any_eq_true.mp deep
    exact absurd (within.1 b member) (Nat.not_lt.mpr (of_decide_eq_true tall))
  next =>
    cases merged : Linearization.merge maxAncestors (bases.map cat.lineage ++ [bases]) with
    | ok order =>
      exact .inl ⟨order, rfl, merges_iff_isLinearization.mp (Linearization.merge_sound merged)⟩
    | error obstacle =>
      cases obstacle with
      | noHead =>
        refine .inr (.inl ⟨rfl, fun order linear => ?_⟩)
        exact Linearization.merge_complete merged order (merges_iff_isLinearization.mpr linear)
      | tooLong =>
        refine .inr (.inr ⟨rfl, fun within => ?_⟩)
        have same : (bases.map cat.lineage ++ [bases]).flatten.toFinset =
            (bases.flatMap cat.lineage).toFinset := by
          ext c
          rw [List.mem_toFinset, List.mem_toFinset, List.mem_flatten, List.mem_flatMap,
            exists_mem_lineages]
        have crowded := Linearization.merge_tooLong merged
        rw [same] at crowded
        exact absurd within.2 (Nat.not_le.mpr crowded)

/-! ### The classes defined so far -/

/-- A class that exists. -/
def Has (cat : Catalog) : ClassId → Prop
  | .builtin _ => True
  | .user n => n < cat.defined.size

/-- The catalogs that definitions and registrations lead to. Only classes that exist can be
bases. -/
inductive Built : Catalog → Prop where
  | builtin : Built Catalog.builtin
  | define {cat cat' : Catalog} {d : ClassDraft} {c : ClassId} (built : Built cat)
      (known : ∀ b ∈ d.bases, cat.Has b) (defined : cat.define d = .ok (c, cat')) : Built cat'
  | register {cat : Catalog} (built : Built cat) (c sub : ClassId) : Built (cat.register c sub)

/-- The ancestors of a class are distinct, other than the class, include the ancestors of each in
their order, and end with `object`, the one class that has none. -/
structure WellOrdered (cat : Catalog) (c : ClassId) : Prop where
  nodup : (cat.get c).ancestors.Nodup
  irreflexive : c ∉ (cat.get c).ancestors
  closed : ∀ a ∈ (cat.get c).ancestors, (a :: (cat.get a).ancestors).Sublist (cat.get c).ancestors
  topped : c = .builtin .object ∧ (cat.get c).ancestors = [] ∨
    (cat.get c).ancestors.getLast? = some (.builtin .object)

/-- Every class that exists is well ordered, below classes that exist. -/
def Ordered (cat : Catalog) : Prop :=
  ∀ c, cat.Has c → cat.WellOrdered c ∧ ∀ a ∈ (cat.get c).ancestors, cat.Has a

theorem WellOrdered.getLast?_lineage {c : ClassId} (ordered : cat.WellOrdered c) :
    (cat.lineage c).getLast? = some (.builtin .object) := by
  rcases ordered.topped with ⟨isObject, none⟩ | last
  · simp [lineage, isObject, show (cat.get (.builtin .object)).ancestors = [] from rfl]
  · rw [lineage, List.getLast?_cons, last]
    rfl

/-- Being well ordered is a matter of the ancestors only. -/
theorem WellOrdered.transfer {cat' : Catalog} {c : ClassId} (ordered : cat.WellOrdered c)
    (same : ∀ a ∈ cat.lineage c, (cat'.get a).ancestors = (cat.get a).ancestors) :
    cat'.WellOrdered c := by
  have atClass := same c List.mem_cons_self
  refine ⟨?_, ?_, fun a member => ?_, ?_⟩
  · rw [atClass]; exact ordered.nodup
  · rw [atClass]; exact ordered.irreflexive
  · rw [atClass] at member ⊢
    rw [same a (List.mem_cons_of_mem c member)]
    exact ordered.closed a member
  · rw [atClass]; exact ordered.topped

/-- The table of the classes above the builtin ones is in order. -/
theorem ancestors_table (b : Builtin) :
    b.ancestors.Nodup ∧ b ∉ b.ancestors ∧
      (∀ a ∈ b.ancestors, (a :: a.ancestors).Sublist b.ancestors) ∧
      (b = .object ∧ b.ancestors = [] ∨ b.ancestors.getLast? = some .object) := by
  cases b <;> decide

theorem wellOrdered_builtin (cat : Catalog) (b : Builtin) : cat.WellOrdered (.builtin b) := by
  have injective : Function.Injective ClassId.builtin := fun _ _ => ClassId.builtin.inj
  obtain ⟨nodup, irreflexive, closed, topped⟩ := ancestors_table b
  refine ⟨nodup.map injective, ?_, ?_, ?_⟩
  · exact fun member => irreflexive ((List.mem_map_of_injective injective).mp member)
  · intro a member
    obtain ⟨above, inTable, rfl⟩ := List.mem_map.mp member
    exact (closed above inTable).map ClassId.builtin
  · rcases topped with ⟨isObject, none⟩ | last
    · exact .inl ⟨by rw [isObject], congrArg (List.map ClassId.builtin) none⟩
    · refine .inr ((List.getLast?_map).trans ?_)
      rw [last]
      rfl

theorem has_builtin_ancestors (cat : Catalog) (b : Builtin) :
    ∀ a ∈ (cat.get (.builtin b)).ancestors, cat.Has a := by
  intro a member
  obtain ⟨above, _, rfl⟩ := List.mem_map.mp (show a ∈ b.ancestors.map ClassId.builtin from member)
  exact True.intro

@[simp] theorem defined_register (cat : Catalog) (c sub : ClassId) :
    (cat.register c sub).defined = cat.defined :=
  rfl

@[simp] theorem get_register (cat : Catalog) (c sub k : ClassId) :
    (cat.register c sub).get k = cat.get k := by
  cases k <;> rfl

theorem defined_builtin : Catalog.builtin.defined = #[] := rfl

theorem Ordered.register (ordered : cat.Ordered) (c sub : ClassId) :
    (cat.register c sub).Ordered := by
  intro k has
  have has' : ∀ {a : ClassId}, cat.Has a ↔ (cat.register c sub).Has a := by
    intro a
    cases a <;> exact Iff.rfl
  obtain ⟨well, known⟩ := ordered k (has'.mpr has)
  refine ⟨well.transfer fun a _ => by rw [get_register], fun a member => ?_⟩
  rw [get_register] at member
  exact has'.mp (known a member)

/-- A catalog with one more class. -/
theorem define_cases {cat' : Catalog} {d : ClassDraft} {c : ClassId}
    (defined : cat.define d = .ok (c, cat')) :
    ∃ k : Class, c = .user cat.defined.size ∧ cat' = { cat with defined := cat.defined.push k } ∧
      cat.linearize d.parents = .ok k.ancestors ∧
      k.hook = [] ∧ k.root = false := by
  simp only [define] at defined
  split at defined
  next => cases defined
  next ancestors linearized =>
    cases defined
    exact ⟨_, rfl, rfl, linearized, rfl, rfl⟩

theorem get_push_of_has {k : Class} {c : ClassId} (has : cat.Has c) :
    Catalog.get { cat with defined := cat.defined.push k } c = cat.get c := by
  cases c with
  | builtin b => rfl
  | user n =>
    have below : n < cat.defined.size := has
    simp [get, Array.getElem?_push, Nat.ne_of_lt below]

theorem get_push_self (cat : Catalog) (k : Class) :
    Catalog.get { cat with defined := cat.defined.push k } (.user cat.defined.size) = k := by
  simp [get]

theorem Has.push {k : Class} {c : ClassId} (has : cat.Has c) :
    Catalog.Has { cat with defined := cat.defined.push k } c := by
  cases c with
  | builtin b => exact True.intro
  | user n =>
    have below : n < cat.defined.size := has
    simp only [Has, Array.size_push]
    omega

/-- What stands above bases that exist exists. -/
theorem IsLinearization.has (linear : cat.IsLinearization bases order) (ordered : cat.Ordered)
    (known : ∀ b ∈ bases, cat.Has b) : ∀ a ∈ order, cat.Has a := by
  intro a member
  obtain ⟨b, inBases, same | above⟩ := (linear.mem_iff a).mp member
  · exact same ▸ known b inBases
  · exact (ordered b (known b inBases)).2 a above

/-- An order of the classes above some bases has the order of each class in it. -/
theorem IsLinearization.lineage_sublist_of_mem (linear : cat.IsLinearization bases order)
    (ordered : cat.Ordered) (known : ∀ b ∈ bases, cat.Has b) {a : ClassId} (member : a ∈ order) :
    (a :: (cat.get a).ancestors).Sublist order := by
  obtain ⟨b, inBases, rfl | above⟩ := (linear.mem_iff a).mp member
  · exact linear.lineage_sublist a inBases
  · have inBase := (ordered b (known b inBases)).1.closed a above
    exact (inBase.cons b).trans (linear.lineage_sublist b inBases)

/-- The last class above some bases is last above one of them, so it is `object`. -/
theorem IsLinearization.getLast? (linear : cat.IsLinearization bases order)
    (ordered : cat.Ordered) (known : ∀ b ∈ bases, cat.Has b) (occupied : bases ≠ []) :
    order.getLast? = some (.builtin .object) := by
  have some_above : order ≠ [] := fun empty => by
    have kept := linear.bases_sublist
    rw [empty] at kept
    exact occupied (List.sublist_nil.mp kept)
  have last := List.getLast?_eq_some_getLast some_above
  obtain ⟨b, inBases, isAbove⟩ := (linear.mem_iff _).mp (List.getLast_mem some_above)
  have lastOfBase := Linearization.getLast?_of_sublist linear.nodup
    (linear.lineage_sublist b inBases) last (List.mem_cons.mpr isAbove)
  have objectLast := (ordered b (known b inBases)).1.getLast?_lineage
  rw [last, ← lastOfBase]
  exact objectLast

/-- A definition puts a well ordered class below well ordered ones. -/
theorem Ordered.define (ordered : cat.Ordered) {cat' : Catalog} {d : ClassDraft} {c : ClassId}
    (known : ∀ b ∈ d.bases, cat.Has b) (defined : cat.define d = .ok (c, cat')) :
    cat'.Ordered := by
  obtain ⟨k, rfl, rfl, linearized, _⟩ := define_cases defined
  have oldOnes : ∀ a, cat.Has a →
      (Catalog.get { cat with defined := cat.defined.push k } a).ancestors =
        (cat.get a).ancestors := by
    intro a has
    rw [get_push_of_has has]
  intro a has
  by_cases old : cat.Has a
  · obtain ⟨well, above⟩ := ordered a old
    refine ⟨well.transfer fun x member => oldOnes x ?_, fun x member => ?_⟩
    · rcases List.mem_cons.mp member with same | isAbove
      · exact same ▸ old
      · exact above x isAbove
    · rw [oldOnes a old] at member
      exact (above x member).push
  · have isNew : a = .user cat.defined.size := by
      cases a with
      | builtin b => exact absurd True.intro old
      | user n =>
        have below : n < (cat.defined.push k).size := has
        have beyond : ¬n < cat.defined.size := old
        rw [Array.size_push] at below
        rw [show n = cat.defined.size by omega]
    subst isNew
    generalize chosen : d.parents = bases at linearized
    unfold ClassDraft.parents at chosen
    have occupied : bases ≠ [] := by
      rw [← chosen]
      split
      next => simp
      next filled => exact fun empty => filled (by simp [empty])
    have knownBases : ∀ b ∈ bases, cat.Has b := by
      rw [← chosen]
      split
      next =>
        intro b member
        rw [List.mem_singleton.mp member]
        exact True.intro
      next => exact known
    have linear : cat.IsLinearization bases k.ancestors := by
      rcases cat.linearize_cases bases with ⟨order, found, linear⟩ | ⟨failed, _⟩ | ⟨failed, _⟩
      · rw [linearized] at found
        cases found
        exact linear
      · rw [linearized] at failed; cases failed
      · rw [linearized] at failed; cases failed
    have allKnown := linear.has ordered knownBases
    refine ⟨⟨?_, ?_, fun x member => ?_, .inr ?_⟩, fun x member => ?_⟩ <;>
      rw [get_push_self] at *
    · exact linear.nodup
    · exact fun member => old (allKnown _ member)
    · rw [oldOnes x (allKnown x member)]
      exact linear.lineage_sublist_of_mem ordered knownBases member
    · exact linear.getLast? ordered knownBases occupied
    · exact (allKnown x member).push

theorem Built.ordered (built : cat.Built) : cat.Ordered := by
  induction built with
  | builtin =>
    intro c has
    cases c with
    | builtin b => exact ⟨wellOrdered_builtin _ b, has_builtin_ancestors _ b⟩
    | user n =>
      have below : n < Catalog.builtin.defined.size := has
      rw [defined_builtin] at below
      cases below
  | define _ known defined ih => exact ih.define known defined
  | register _ c sub ih => exact ih.register c sub

/-- Putting the classes above some bases in order succeeds exactly if there is an order of them
without repetition that keeps the order of the bases and of what is above each, it gives such an
order, and only the limits on the number of classes can make it give up otherwise. Every class that
was ever defined is therefore well ordered. -/
theorem linearize_iff_consistent (cat : Catalog) (bases : List ClassId) :
    (cat.WithinLimits bases → cat.linearize bases ≠ .error .tooDeep) ∧
    (cat.linearize bases ≠ .error .tooDeep →
      ((∃ order, cat.linearize bases = .ok order) ↔ ∃ order, cat.IsLinearization bases order)) ∧
    (∀ order, cat.linearize bases = .ok order → cat.IsLinearization bases order) ∧
    (cat.Built → ∀ c, cat.Has c → cat.WellOrdered c) := by
  refine ⟨?_, ?_, ?_, fun built c has => (built.ordered c has).1⟩
  · intro within
    rcases cat.linearize_cases bases with ⟨order, found, _⟩ | ⟨failed, _⟩ | ⟨_, beyond⟩
    · simp [found]
    · simp [failed]
    · exact absurd within beyond
  · intro small
    rcases cat.linearize_cases bases with ⟨order, found, linear⟩ | ⟨failed, none⟩ | ⟨deep, _⟩
    · exact ⟨fun _ => ⟨order, linear⟩, fun _ => ⟨order, found⟩⟩
    · simp [failed, none]
    · exact absurd deep small
  · intro order found
    rcases cat.linearize_cases bases with ⟨other, found', linear⟩ | ⟨failed, _⟩ | ⟨failed, _⟩
    · rw [found] at found'
      cases found'
      exact linear
    · rw [found] at failed; cases failed
    · rw [found] at failed; cases failed

end Catalog
end HintCheck
