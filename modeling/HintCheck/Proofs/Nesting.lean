import Mathlib.Algebra.GroupWithZero.Nat
import Mathlib.Algebra.Order.BigOperators.Group.List
import Mathlib.Algebra.Order.Group.Nat
import HintCheck.Proofs.Hereditary

/-!
How deep unions are nested. A hint is replaced by others on the way to its canonical form, and the
members of a union are replaced in turn, so the depth is that of unions inside what hints come to.
If no hint on the way lies inside itself then the depth is bounded by the size of the hint and of
what can be put in its place, whatever the order of the replacements.
-/
namespace HintCheck

namespace Hint

open Relation (ReflTransGen TransGen)

/-- A member of a union. -/
def Member (u m : Hint) : Prop :=
  u.isUnion = true ∧ m ∈ u.args

/-- A member of what is a union by its kind or by its spelling. -/
def SpelledMember (cat : Catalog) (u m : Hint) : Prop :=
  (u.isUnion = true ∨ u.sign? cat = some .union) ∧ m ∈ u.args

/-- What a hint is replaced by, or what an extension stands for. -/
inductive Yields (subs : Substitutes) (R : Hint → Hint → Prop) : Hint → Hint → Prop
  | move {h x : Hint} (becomes : R h x) : Yields subs R h x
  | substitute {label : Nat} {shown : String} {h : Hint} (found : subs.lookup label = some h) :
    Yields subs R (extension label shown) h

variable {R S : Hint → Hint → Prop}

/-- What a hint comes to by way of replacements and of members. -/
def Comes (R S : Hint → Hint → Prop) : Hint → Hint → Prop :=
  ReflTransGen fun h x => R h x ∨ S h x

/-- The hint is replaced by one that has the member. -/
def Encloses (R S : Hint → Hint → Prop) (h m : Hint) : Prop :=
  ∃ u, ReflTransGen R h u ∧ S u m

/-- The hint lies inside itself. -/
def Circular (R S : Hint → Hint → Prop) (h : Hint) : Prop :=
  TransGen (Encloses R S) h h

/-- Members lie less than `n` deep inside the hint. -/
def NestsWithin (R S : Hint → Hint → Prop) : Nat → Hint → Prop
  | 0, _ => False
  | n + 1, h => ∀ m, h.Encloses R S m → NestsWithin R S n m

theorem Comes.trans {h x y : Hint} (first : h.Comes R S x) (next : x.Comes R S y) :
    h.Comes R S y :=
  ReflTransGen.trans first next

theorem Encloses.comes {h m : Hint} (encloses : h.Encloses R S m) : h.Comes R S m := by
  obtain ⟨u, moves, member⟩ := encloses
  exact (ReflTransGen.mono (fun _ _ => .inl) _ _ moves).tail (.inr member)

theorem Encloses.mono {wider further : Hint → Hint → Prop} (moves : ∀ h x, R h x → wider h x)
    (members : ∀ u m, S u m → further u m) {h m : Hint} (encloses : h.Encloses R S m) :
    h.Encloses wider further m := by
  obtain ⟨u, becomes, member⟩ := encloses
  exact ⟨u, ReflTransGen.mono moves _ _ becomes, members u m member⟩

theorem Circular.mono {wider further : Hint → Hint → Prop} (moves : ∀ h x, R h x → wider h x)
    (members : ∀ u m, S u m → further u m) {h : Hint} (circular : h.Circular R S) :
    h.Circular wider further :=
  TransGen.mono (fun _ _ => Encloses.mono moves members) _ _ circular

/-- What lies inside a hint that another comes to lies inside that other. -/
theorem Comes.encloses {h t m : Hint} (comes : h.Comes R S t) (encloses : t.Encloses R S m) :
    TransGen (Encloses R S) h m := by
  induction comes using ReflTransGen.head_induction_on with
  | refl => exact .single encloses
  | head first _ ih =>
    rcases first with moves | member
    · obtain ⟨x, ⟨u, further, hasMember⟩, rest⟩ := TransGen.head'_iff.mp ih
      exact TransGen.head' ⟨u, further.head moves, hasMember⟩ rest
    · exact ih.head ⟨_, .refl, member⟩

namespace NestsWithin

variable {n : Nat} {h x m : Hint}

theorem succ (nests : h.NestsWithin R S n) : h.NestsWithin R S (n + 1) := by
  induction n generalizing h with
  | zero => cases nests
  | succ n ih => exact fun m encloses => ih (nests m encloses)

theorem move (nests : h.NestsWithin R S n) (becomes : R h x) : x.NestsWithin R S n := by
  cases n with
  | zero => cases nests
  | succ n => exact fun m ⟨u, moves, member⟩ => nests m ⟨u, moves.head becomes, member⟩

theorem member (nests : h.NestsWithin R S (n + 1)) (member : S h m) : m.NestsWithin R S n :=
  nests m ⟨h, .refl, member⟩

theorem comes (nests : h.NestsWithin R S n) (comes : h.Comes R S x) : x.NestsWithin R S n := by
  induction comes with
  | refl => exact nests
  | tail _ last ih =>
    rcases last with becomes | member
    · exact ih.move becomes
    · cases n with
      | zero => cases ih
      | succ n => exact (ih.member member).succ

theorem notCircular (nests : h.NestsWithin R S n) : ¬ h.Circular R S := by
  intro circular
  induction n generalizing h with
  | zero => cases nests
  | succ n ih =>
    obtain ⟨m, encloses, back⟩ := TransGen.head'_iff.mp circular
    exact ih (nests m encloses) (TransGen.tail' back encloses)

end NestsWithin

/-- Hints that are replaced by hints no deeper do not lie inside themselves. -/
theorem notCircular_of_depth {P : Hint → Prop}
    (moves : ∀ h x, P h → R h x → P x ∧ x.depth ≤ h.depth)
    (members : ∀ u m, P u → S u m → P m ∧ m.depth < u.depth) {h : Hint} (holds : P h) :
    ¬ h.Circular R S := by
  have moved {h u : Hint} (holds : P h) (becomes : ReflTransGen R h u) :
      P u ∧ u.depth ≤ h.depth := by
    induction becomes with
    | refl => exact ⟨holds, Nat.le_refl _⟩
    | tail _ last ih =>
      have further := moves _ _ ih.1 last
      exact ⟨further.1, Nat.le_trans further.2 ih.2⟩
  have inside {h m : Hint} (holds : P h) (encloses : TransGen (Encloses R S) h m) :
      P m ∧ m.depth < h.depth := by
    induction encloses with
    | single first =>
      obtain ⟨u, becomes, member⟩ := first
      have shallow := moved holds becomes
      have less := members _ _ shallow.1 member
      exact ⟨less.1, Nat.lt_of_lt_of_le less.2 shallow.2⟩
    | tail _ last ih =>
      obtain ⟨u, becomes, member⟩ := last
      have shallow := moved ih.1 becomes
      have less := members _ _ shallow.1 member
      exact ⟨less.1, Nat.lt_trans (Nat.lt_of_lt_of_le less.2 shallow.2) ih.2⟩
  exact fun circular => Nat.lt_irrefl _ (inside holds circular).2

/-! ### Depth -/

/-- What can be put in the place of a hint is no deeper, unless it is one of the given hints. -/
def GrowsBy (targets : List Hint) (R : Hint → Hint → Prop) : Prop :=
  ∀ h x : Hint, R h x → x ∈ targets ∨ x.depth ≤ h.depth

/-- The depth of the given hints together. -/
def totalDepth (hints : List Hint) : Nat :=
  (hints.map fun t => t.depth + 1).sum

theorem totalDepth_append (hints others : List Hint) :
    totalDepth (hints ++ others) = totalDepth hints + totalDepth others := by
  rw [totalDepth, List.map_append, List.sum_append]
  rfl

/-- The depth of those among the given hints that have a property. -/
noncomputable def depthWhere (P : Hint → Prop) (hints : List Hint) : Nat :=
  open Classical in (hints.map fun t => if P t then t.depth + 1 else 0).sum

theorem depthWhere_le (P : Hint → Prop) (hints : List Hint) :
    depthWhere P hints ≤ totalDepth hints := by
  refine List.sum_le_sum fun t _ => ?_
  split
  · exact Nat.le_refl _
  · exact Nat.zero_le _

theorem depthWhere_mono {P Q : Hint → Prop} (implies : ∀ t, P t → Q t) (hints : List Hint) :
    depthWhere P hints ≤ depthWhere Q hints := by
  refine List.sum_le_sum fun t _ => ?_
  split
  case isTrue holds => rw [if_pos (implies t holds)]
  case isFalse => exact Nat.zero_le _

/-- A hint that has the property no more counts no more. -/
theorem depthWhere_add_le {P Q : Hint → Prop} (implies : ∀ t, P t → Q t) {hints : List Hint}
    {t : Hint} (member : t ∈ hints) (holds : Q t) (lost : ¬ P t) :
    depthWhere P hints + (t.depth + 1) ≤ depthWhere Q hints := by
  induction hints with
  | nil => cases member
  | cons y rest ih =>
    have others := depthWhere_mono implies rest
    unfold depthWhere at ih others ⊢
    rw [List.map_cons, List.map_cons, List.sum_cons, List.sum_cons]
    rcases List.mem_cons.mp member with rfl | inRest
    · rw [if_pos holds, if_neg lost]
      omega
    · have further := ih inRest
      split
      case isTrue here => rw [if_pos (implies y here)]; omega
      case isFalse => omega

/-- The depth of those among the given hints that a hint comes to. -/
noncomputable def depthAhead (R S : Hint → Hint → Prop) (targets : List Hint) (h : Hint) : Nat :=
  depthWhere (h.Comes R S) targets

/-- A hint that is replaced ends up no deeper than it was, or than one of the given hints that it
was replaced by. -/
theorem depth_moves {targets : List Hint} (grows : GrowsBy targets R) {h u : Hint}
    (moves : ReflTransGen R h u) :
    u.depth ≤ h.depth ∨ ∃ t ∈ targets, ReflTransGen R h t ∧ ReflTransGen R t u ∧
      u.depth ≤ t.depth := by
  induction moves with
  | refl => exact .inl (Nat.le_refl _)
  | @tail b c before last ih =>
    rcases grows b c last with isTarget | le
    · exact .inr ⟨c, isTarget, before.tail last, .refl, Nat.le_refl _⟩
    · rcases ih with shallow | ⟨t, isTarget, toTarget, further, shallow⟩
      · exact .inl (Nat.le_trans le shallow)
      · exact .inr ⟨t, isTarget, toTarget, further.tail last, Nat.le_trans le shallow⟩

/-- What lies inside a hint is less deep, counted with the replacements ahead, unless a hint on the
way lies inside itself. -/
theorem depthAhead_encloses {targets : List Hint} (grows : GrowsBy targets R)
    (shrinks : ∀ u m, S u m → m.depth < u.depth) {h m : Hint}
    (clear : ∀ x, h.Comes R S x → ¬ x.Circular R S) (encloses : h.Encloses R S m) :
    m.depth + m.depthAhead R S targets < h.depth + h.depthAhead R S targets := by
  have comes := encloses.comes
  obtain ⟨u, moves, member⟩ := encloses
  have less := shrinks u m member
  rcases depth_moves grows moves with shallow | ⟨t, isTarget, toTarget, further, shallow⟩
  · have ahead : m.depthAhead R S targets ≤ h.depthAhead R S targets :=
      depthWhere_mono (fun t => comes.trans) targets
    omega
  · have passed : ¬ m.Comes R S t :=
      fun back => clear m comes (Comes.encloses back ⟨u, further, member⟩)
    have ahead : h.Comes R S t := ReflTransGen.mono (fun _ _ => .inl) _ _ toTarget
    have counted : m.depthAhead R S targets + (t.depth + 1) ≤ h.depthAhead R S targets :=
      depthWhere_add_le (fun t => comes.trans) isTarget ahead passed
    omega

/-- Unless a hint on the way lies inside itself, unions are nested no deeper than the hint and all
its replacements together. -/
theorem nestsWithin_of_clear {targets : List Hint} (grows : GrowsBy targets R)
    (shrinks : ∀ u m, S u m → m.depth < u.depth) {h : Hint}
    (clear : ∀ x, h.Comes R S x → ¬ x.Circular R S) {n : Nat}
    (enough : h.depth + totalDepth targets < n) : h.NestsWithin R S n := by
  have within (n : Nat) (h : Hint) (clear : ∀ x, h.Comes R S x → ¬ x.Circular R S)
      (enough : h.depth + h.depthAhead R S targets < n) : h.NestsWithin R S n := by
    induction n generalizing h with
    | zero => omega
    | succ n ih =>
      intro m encloses
      have less := depthAhead_encloses grows shrinks clear encloses
      exact ih m (fun x further => clear x (encloses.comes.trans further)) (by omega)
  exact within n h clear
    (Nat.lt_of_le_of_lt (Nat.add_le_add_left (depthWhere_le _ targets) _) enough)

/-! ### Canonical forms -/

variable {cat : Catalog} {subs : Substitutes} {ctx : Context} {h : Hint}

/-- The moves include all that a step can make of a hint, and those of unions are to members. -/
structure Tracks (ctx : Context) (R S : Hint → Hint → Prop) : Prop where
  opens : ∀ {h x : Hint}, Opens ctx h x → R h x
  member : ∀ {u m : Hint}, Member u m → S u m
  args : ∀ {u m : Hint}, S u m → m ∈ u.args
  union : ∀ {u x : Hint}, u.isUnion = true → ¬ R u x
  builtin : ∀ {b : Builtin} {x : Hint}, R (cls b) x → ∃ c : Builtin, x = cls c

theorem Opens.notUnion {x : Hint} (opens : Opens ctx h x) : h.isUnion = false := by
  cases opens with
  | binding isVariable => cases h <;> first | rfl | cases isVariable
  | qualified isQualifier =>
    simp only [isUnion, beq_eq_false_iff_ne, ne_eq]
    intro isUnion
    rw [isUnion] at isQualifier
    cases isQualifier
  | optional isForm | annotated isForm => rw [isUnion, isForm]; rfl
  | superseded origin =>
    simp only [isUnion, beq_eq_false_iff_ne, ne_eq]
    intro isUnion
    rw [isUnion] at origin
    cases origin
  | builtin notUnion => exact notUnion
  | _ => rfl

theorem tracks_opens (ctx : Context) : Tracks ctx (Opens ctx) Member where
  opens := id
  member := id
  args := And.right
  union := by
    intro u x isUnion opens
    rw [opens.notUnion] at isUnion
    cases isUnion
  builtin := by
    intro b x opens
    cases opens with
    | binding isVariable => cases isVariable
    | builtin _ c => exact ⟨c, rfl⟩

theorem tracks_yields (cat : Catalog) (subs : Substitutes) (ctx : Context) :
    Tracks ctx (Yields subs (Opens ctx)) (SpelledMember cat) where
  opens := .move
  member := fun ⟨isUnion, member⟩ => ⟨.inl isUnion, member⟩
  args := And.right
  union := by
    rintro u x isUnion (opens | _)
    · exact (tracks_opens ctx).union isUnion ‹_›
    · cases isUnion
  builtin := by
    rintro b x (opens | _)
    exact (tracks_opens ctx).builtin ‹_›

theorem Tracks.nested (tracks : Tracks ctx R S) : Tracks ctx.nested R S :=
  { tracks with opens := fun opens => tracks.opens opens.ofNested }

theorem Tracks.shrinks (tracks : Tracks ctx R S) (u m : Hint) (member : S u m) :
    m.depth < u.depth := by
  have isArg := tracks.args member
  refine depth_lt_of_mem_parts ?_
  cases u <;> first | exact isArg | cases isArg

/-- A union holds its members only. -/
theorem Tracks.nests_union (tracks : Tracks ctx R S) {u : Hint} (isUnion : u.isUnion = true)
    {n : Nat} (each : ∀ m ∈ u.args, m.NestsWithin R S n) : u.NestsWithin R S (n + 1) := by
  rintro m ⟨v, moves, member⟩
  rcases moves.cases_head with rfl | ⟨x, first, _⟩
  · exact each m (tracks.args member)
  · exact (tracks.union isUnion first).elim

theorem Tracks.comes_builtin (tracks : Tracks ctx R S) {b : Builtin} {x : Hint}
    (comes : (cls b).Comes R S x) : ∃ c : Builtin, x = cls c := by
  induction comes with
  | refl => exact ⟨b, rfl⟩
  | tail _ last ih =>
    obtain ⟨c, rfl⟩ := ih
    rcases last with moves | member
    · exact tracks.builtin moves
    · cases tracks.args member

theorem Tracks.nests_builtin (tracks : Tracks ctx R S) (b : Builtin) (n : Nat) :
    (cls b).NestsWithin R S (n + 1) := by
  rintro m ⟨v, moves, member⟩
  obtain ⟨c, rfl⟩ := tracks.comes_builtin (ReflTransGen.mono (fun _ _ => .inl) _ _ moves)
  cases tracks.args member

theorem Tracks.passes (tracks : Tracks ctx R S) (n : Nat) :
    Passes ctx (NestsWithin R S n) (NestsWithin R S (n + 1)) where
  opens nests opens := nests.move (tracks.opens opens)
  member nests isUnion member := nests.member (tracks.member ⟨isUnion, member⟩)
  weaken := NestsWithin.succ
  respelled := by
    intro u members each
    obtain ⟨isUnion, args⟩ := isUnion_respelled u members
    exact tracks.nests_union isUnion (by rwa [args])
  object := tracks.nests_builtin .object n

/-- The canonical form is nested no deeper than the hint to start from, and a bound for the depth is
never exceeded. -/
theorem canonicalWithin_nests (tracks : Tracks ctx R S) {n : Nat} (positive : 0 < n)
    (placed : ∀ start, h.placed cat ctx = .ok start → start.NestsWithin R S n) (bound : Nat) :
    Ends (fun e => n ≤ bound → e.isEndless = false) (fun r => r.hint.NestsWithin R S n)
      (canonicalWithin cat bound ctx h) := by
  induction bound generalizing ctx h n with
  | zero => exact fun le => absurd positive (Nat.not_lt.mpr le)
  | succ bound ih =>
    obtain ⟨k, rfl⟩ : ∃ k, n = k + 1 := ⟨n - 1, by omega⟩
    refine (tracks.passes k).canonicalWithin (fun e notEndless _ => notEndless) ?_ placed
    intro m nests
    have positive : 0 < k := by
      cases k with
      | zero => cases nests
      | succ => exact Nat.succ_pos _
    refine (ih tracks.nested positive ?_).mono (fun e excused le => excused (by omega)) fun _ => id
    rintro start ⟨⟩
    exact nests

/-! ### The bounds -/

theorem mem_of_lookup {α : Type} [BEq α] [LawfulBEq α] {entries : List (α × Hint)} {key : α}
    {x : Hint} (found : entries.lookup key = some x) : x ∈ entries.map Prod.snd := by
  obtain ⟨before, after, rfl, _⟩ := List.lookup_eq_some_iff.mp found
  simp

theorem growsBy_opens (ctx : Context) : GrowsBy (ctx.bindings.map Prod.snd) (Opens ctx) := by
  intro h x opens
  cases opens with
  | binding _ bound =>
    obtain ⟨id, _, found⟩ := Option.bind_eq_some_iff.mp bound
    exact .inl (mem_of_lookup found)
  | upper | newType | qualified | annotated =>
    exact .inr (Nat.le_of_lt (depth_lt_of_mem_parts (by simp [parts])))
  | constraints =>
    refine .inr ?_
    rw [typing, depth, depth, depthOption, Nat.zero_max]
  | @optional _ _ inner =>
    refine .inr ?_
    have positive := depth_pos inner
    simp only [typing, depth, depthAll]
    omega
  | superseded =>
    refine .inr ?_
    rw [generic, depth, depth]
  | enclosing => exact .inr (depth_pos _)
  | builtin => exact .inr (depth_pos _)

theorem growsBy_yields {targets : List Hint} (grows : GrowsBy targets R) (subs : Substitutes) :
    GrowsBy (targets ++ subs.map Prod.snd) (Yields subs R) := by
  rintro h x (becomes | found)
  · rcases grows h x becomes with isTarget | le
    · exact .inl (List.mem_append_left _ isTarget)
    · exact .inr le
  · exact .inl (List.mem_append_right _ (mem_of_lookup found))

theorem foldl_depth {α : Type} (entries : List (α × Hint)) (n : Nat) :
    entries.foldl (fun total entry => total + entry.2.depth + 1) n =
      n + totalDepth (entries.map Prod.snd) := by
  induction entries generalizing n with
  | nil => rfl
  | cons entry rest ih =>
    rw [List.foldl_cons, ih]
    simp only [totalDepth, List.map_cons, List.sum_cons]
    omega

theorem depth_placed {start : Hint} (placed : h.placed cat ctx = .ok start) :
    start.depth ≤ h.depth + 1 := by
  have positive := depth_pos h
  cases starts_of_placed placed with
  | itself => omega
  | anything =>
    simp only [Hint.object, depth]
    omega
  | unpacked | tuple | dict =>
    simp only [tupleOf, generic, depth, depthAll]
    omega

/-- Unless a hint on the way lies inside itself, unions are nested in a hint as deep as the bound
for its canonical form says. -/
theorem nestsWithin_placed {start : Hint} (placed : h.placed cat ctx = .ok start)
    (clear : ∀ x, start.Comes (Opens ctx) Member x → ¬ x.Circular (Opens ctx) Member) :
    start.NestsWithin (Opens ctx) Member (h.nestingBound ctx) := by
  refine nestsWithin_of_clear (growsBy_opens ctx) (tracks_opens ctx).shrinks clear ?_
  have depth := depth_placed placed
  rw [nestingBound, foldl_depth]
  omega

/-- A canonical form is found, or a rule is broken, unless a hint on the way lies inside itself. -/
theorem canonical_ends {P : Hint → Prop} (passes : Passes ctx P P)
    (placed : ∀ start, h.placed cat ctx = .ok start → P start)
    (clear : ∀ x, P x → ¬ x.Circular (Opens ctx) Member) :
    Ends (fun e => e.isEndless = false) (fun r => P r.hint) (h.canonical cat ctx) := by
  have reached {x y : Hint} (comes : x.Comes (Opens ctx) Member y) (holds : P x) : P y := by
    induction comes with
    | refl => exact holds
    | tail _ last ih =>
      rcases last with opens | ⟨isUnion, member⟩
      · exact passes.opens ih opens
      · exact passes.member ih isUnion member
  have positive : 0 < h.nestingBound ctx := by
    rw [nestingBound, foldl_depth]
    omega
  have nests := canonicalWithin_nests (tracks_opens ctx) positive (fun start isStart =>
    nestsWithin_placed isStart fun x comes => clear x (reached comes (placed start isStart)))
    (h.nestingBound ctx)
  exact (nests.and (passes.ofCanonicalWithin placed _)).mono
    (fun e excused => excused.1 (Nat.le_refl _)) fun r holds => holds.2

end Hint
end HintCheck
