import HintCheck.Class.Relation
import HintCheck.Proofs.Ancestry
import Mathlib.Logic.Relation

/-!
Virtual subclasses. Registering a class with an abstract one registers it with the abstract classes
above as well, and nothing that is registered is ever forgotten. So what is below a class is below
the abstract classes above it, on whichever ground it is there, and no later definition or
registration takes that back.
-/
namespace HintCheck
namespace Catalog

variable {cat cat' : Catalog} {s v w : ClassId}

/-- The grounds on which a class is below another. -/
inductive Below (cat : Catalog) (s v : ClassId) : Prop where
  | root (isRoot : (cat.get v).root = true)
  | inherits (member : v ∈ cat.lineage s)
  | hook (asks : (cat.get v).hook ≠ [])
    (each : ∀ name ∈ (cat.get v).hook, cat.hasLiveAttr s name = true)
  | protocol (isProtocol : (cat.get v).isUserProtocol = true) (asks : cat.protocolMembers v ≠ [])
    (each : ∀ name ∈ cat.protocolMembers v, cat.hasLiveAttr s name = true)
  | registered {k : ClassId} (isAbstract : (cat.get v).flags.abstractBase = true)
    (isRegistered : (v, k) ∈ cat.registered) (member : k ∈ cat.lineage s)

theorem isSubclass_iff_below : cat.isSubclass s v = true ↔ cat.Below s v := by
  simp only [isSubclass, Bool.or_eq_true, Bool.and_eq_true, beq_iff_eq, List.contains_iff_mem,
    Bool.not_eq_true', List.isEmpty_eq_false_iff, List.all_eq_true, List.any_eq_true]
  constructor
  · rintro (((((same | isRoot) | above) | ⟨asks, each⟩) | ⟨isProtocol, asks, each⟩) |
      ⟨isAbstract, ⟨host, k⟩, isRegistered, same, known⟩)
    · exact .inherits (same ▸ List.mem_cons_self)
    · exact .root isRoot
    · exact .inherits (List.mem_cons_of_mem s above)
    · exact .hook asks each
    · exact .protocol isProtocol asks each
    · cases same
      exact .registered isAbstract isRegistered
        (List.mem_cons.mpr (known.imp_left fun same => same))
  · rintro (isRoot | member | ⟨asks, each⟩ | ⟨isProtocol, asks, each⟩ |
      ⟨isAbstract, isRegistered, member⟩)
    · exact .inl (.inl (.inl (.inl (.inr isRoot))))
    · rcases List.mem_cons.mp member with same | above
      · exact .inl (.inl (.inl (.inl (.inl same.symm))))
      · exact .inl (.inl (.inl (.inr above)))
    · exact .inl (.inl (.inr ⟨asks, each⟩))
    · exact .inl (.inr ⟨isProtocol, asks, each⟩)
    · exact .inr ⟨isAbstract, _, isRegistered, rfl, List.mem_cons.mp member⟩

/-! ### Classes above -/

theorem get_of_not_has (missing : ¬cat.Has v) : cat.get v = Class.missing := by
  cases v with
  | builtin b => exact absurd True.intro missing
  | user n =>
    have beyond : ¬n < cat.defined.size := missing
    simp [get, Array.getElem?_eq_none (Nat.not_lt.mp beyond)]

theorem has_of_ancestors (member : w ∈ (cat.get v).ancestors) : cat.Has v := by
  by_contra missing
  rw [get_of_not_has missing] at member
  cases member

theorem has_of_root (isRoot : (cat.get v).root = true) : cat.Has v := by
  by_contra missing
  rw [get_of_not_has missing] at isRoot
  cases isRoot

theorem has_of_abstractBase (isAbstract : (cat.get v).flags.abstractBase = true) : cat.Has v := by
  by_contra missing
  rw [get_of_not_has missing] at isAbstract
  cases isAbstract

theorem Ordered.has_lineage (ordered : cat.Ordered) (has : cat.Has s)
    (member : v ∈ cat.lineage s) : cat.Has v := by
  rcases List.mem_cons.mp member with rfl | above
  · exact has
  · exact (ordered s has).2 v above

/-- What is above a class of the lineage is above the class. -/
theorem Ordered.ancestors_trans (ordered : cat.Ordered) (member : v ∈ cat.lineage s)
    (above : w ∈ (cat.get v).ancestors) : w ∈ (cat.get s).ancestors := by
  rcases List.mem_cons.mp member with rfl | below
  · exact above
  · have closed := (ordered s (has_of_ancestors below)).1.closed v below
    exact closed.subset (List.mem_cons_of_mem v above)

/-! ### Hooks -/

/-- A hook asks for all that the hooks of the abstract classes above ask for. -/
theorem hook_table (b : Builtin) (asks : b.hook ≠ []) :
    ∀ a ∈ b.ancestors, a.isAbstract = true → a.hook ≠ [] ∧ ∀ name ∈ a.hook, name ∈ b.hook := by
  revert asks
  cases b <;> decide

/-- Only builtin classes have hooks, and only the topmost one is the root. -/
theorem Built.plain (built : cat.Built) (n : Nat) :
    (cat.get (.user n)).hook = [] ∧ (cat.get (.user n)).root = false := by
  induction built with
  | builtin => exact ⟨rfl, rfl⟩
  | register _ c sub ih => simpa using ih
  | @define cat _ _ _ _ _ defined ih =>
    obtain ⟨k, rfl, rfl, _, hook, root⟩ := define_cases defined
    by_cases old : n < cat.defined.size
    · rw [get_push_of_has (show cat.Has (.user n) from old)]
      exact ih
    · rcases Nat.eq_or_lt_of_not_lt old with rfl | beyond
      · rw [get_push_self]
        exact ⟨hook, root⟩
      · rw [get_of_not_has (v := .user n) (by simp only [Has, Array.size_push]; omega)]
        exact ⟨rfl, rfl⟩

theorem Built.hook_above (built : cat.Built) (asks : (cat.get v).hook ≠ [])
    (above : w ∈ (cat.get v).ancestors) (isAbstract : (cat.get w).flags.abstractBase = true) :
    (cat.get w).hook ≠ [] ∧ ∀ name ∈ (cat.get w).hook, name ∈ (cat.get v).hook := by
  cases v with
  | user n => exact absurd (built.plain n).1 asks
  | builtin b =>
    obtain ⟨a, member, rfl⟩ := List.mem_map.mp above
    exact hook_table b asks a member isAbstract

/-! ### Registrations -/

/-- The classes that a registration with `c` reaches. -/
def hosts (cat : Catalog) (c : ClassId) : List ClassId :=
  (cat.lineage c).filter fun host => (cat.get host).flags.abstractBase

theorem mem_registered_register {c sub : ClassId} {pair : ClassId × ClassId} :
    pair ∈ (cat.register c sub).registered ↔
      pair ∈ cat.registered ∨ ∃ host ∈ cat.hosts c, pair = (host, sub) := by
  have known (hosts : List ClassId) (before : List (ClassId × ClassId)) :
      pair ∈ hosts.foldl (fun known host =>
          if known.contains (host, sub) then known else known ++ [(host, sub)]) before ↔
        pair ∈ before ∨ ∃ host ∈ hosts, pair = (host, sub) := by
    induction hosts generalizing before with
    | nil => simp
    | cons host rest ih =>
      rw [List.foldl_cons, ih, List.exists_mem_cons_iff, ← or_assoc]
      refine or_congr_left ?_
      split
      next present =>
        refine ⟨.inl, fun found => found.elim id ?_⟩
        rintro rfl
        exact List.contains_iff_mem.mp present
      next => simp
  exact known _ _

theorem Ordered.hosts_above (ordered : cat.Ordered) {c : ClassId} (isHost : v ∈ cat.hosts c)
    (above : w ∈ (cat.get v).ancestors) (isAbstract : (cat.get w).flags.abstractBase = true) :
    w ∈ cat.hosts c :=
  List.mem_filter.mpr ⟨List.mem_cons_of_mem c
    (ordered.ancestors_trans (List.mem_filter.mp isHost).1 above), isAbstract⟩

/-- What is registered with an abstract class is registered with the abstract classes above. -/
def Upward (cat : Catalog) : Prop :=
  ∀ pair ∈ cat.registered, (cat.get pair.1).flags.abstractBase = true ∧
    ∀ w ∈ (cat.get pair.1).ancestors, (cat.get w).flags.abstractBase = true →
      (w, pair.2) ∈ cat.registered

theorem Upward.register (upward : cat.Upward) (ordered : cat.Ordered) (c sub : ClassId) :
    (cat.register c sub).Upward := by
  intro pair member
  simp only [get_register, mem_registered_register] at member ⊢
  rcases member with before | ⟨host, isHost, rfl⟩
  · exact ⟨(upward pair before).1,
      fun w above isAbstract => .inl ((upward pair before).2 w above isAbstract)⟩
  · exact ⟨(List.mem_filter.mp isHost).2, fun w above isAbstract =>
      .inr ⟨w, ordered.hosts_above isHost above isAbstract, rfl⟩⟩

/-! ### Growing catalogs -/

/-- The classes stay as they are, and what is registered stays registered. -/
structure Extends (cat cat' : Catalog) : Prop where
  has : ∀ c, cat.Has c → cat'.Has c
  get : ∀ c, cat.Has c → cat'.get c = cat.get c
  registered : ∀ pair ∈ cat.registered, pair ∈ cat'.registered

theorem Extends.refl (cat : Catalog) : cat.Extends cat :=
  ⟨fun _ => id, fun _ _ => rfl, fun _ => id⟩

theorem Extends.trans {later : Catalog} (first : cat.Extends cat') (second : cat'.Extends later) :
    cat.Extends later where
  has c has := second.has c (first.has c has)
  get c has := (second.get c (first.has c has)).trans (first.get c has)
  registered pair member := second.registered pair (first.registered pair member)

/-- The root stays the root. -/
theorem Extends.root (extension : cat.Extends cat') {c : ClassId}
    (isRoot : (cat.get c).root = true) : (cat'.get c).root = true := by
  rwa [extension.get c (has_of_root isRoot)]

theorem extends_register (cat : Catalog) (c sub : ClassId) : cat.Extends (cat.register c sub) where
  has k has := by cases k <;> exact has
  get k _ := get_register cat c sub k
  registered _ member := mem_registered_register.mpr (.inl member)

theorem extends_define {d : ClassDraft} {c : ClassId} (defined : cat.define d = .ok (c, cat')) :
    cat.Extends cat' ∧ cat'.registered = cat.registered := by
  obtain ⟨k, -, rfl, -⟩ := define_cases defined
  exact ⟨⟨fun _ has => has.push, fun _ has => get_push_of_has has, fun _ => id⟩, rfl⟩

theorem Upward.define (upward : cat.Upward) (ordered : cat.Ordered) {d : ClassDraft} {c : ClassId}
    (defined : cat.define d = .ok (c, cat')) : cat'.Upward := by
  obtain ⟨extension, same⟩ := extends_define defined
  intro pair member
  rw [same] at member ⊢
  have host := upward pair member
  have has := has_of_abstractBase host.1
  rw [extension.get pair.1 has]
  refine ⟨host.1, fun w above isAbstract => host.2 w above ?_⟩
  rwa [extension.get w ((ordered _ has).2 w above)] at isAbstract

theorem Built.upward (built : cat.Built) : cat.Upward := by
  induction built with
  | builtin =>
    unfold Upward
    decide +kernel
  | define built _ defined ih => exact ih.define built.ordered defined
  | register built c sub ih => exact ih.register built.ordered c sub

namespace Extends

variable (extension : cat.Extends cat')
include extension

theorem lineage (has : cat.Has s) : cat'.lineage s = cat.lineage s := by
  rw [Catalog.lineage, extension.get s has, Catalog.lineage]

variable (ordered : cat.Ordered)
include ordered

theorem map_lineage (has : cat.Has s) :
    (cat'.lineage s).map cat'.get = (cat.lineage s).map cat.get := by
  rw [extension.lineage has]
  exact List.map_congr_left fun k member => extension.get k (ordered.has_lineage has member)

theorem classAttr? (has : cat.Has s) (name : String) :
    cat'.classAttr? s name = cat.classAttr? s name := by
  have reads (cat : Catalog) : cat.classAttr? s name =
      ((cat.lineage s).map cat.get).findSome? fun k => Entries.get? k.attrs name := by
    rw [List.findSome?_map]
    rfl
  rw [reads, reads, extension.map_lineage ordered has]

theorem hasLiveAttr (has : cat.Has s) (name : String) :
    cat'.hasLiveAttr s name = cat.hasLiveAttr s name := by
  rw [Catalog.hasLiveAttr, extension.classAttr? ordered has, Catalog.hasLiveAttr]

theorem protocolMembers (has : cat.Has v) : cat'.protocolMembers v = cat.protocolMembers v := by
  rw [Catalog.protocolMembers, extension.map_lineage ordered has, Catalog.protocolMembers]

/-- What is below a class stays below it. -/
theorem below (hasSub : cat.Has s) (has : cat.Has v) (below : cat.Below s v) :
    cat'.Below s v := by
  have same := extension.get v has
  cases below with
  | root isRoot => exact .root (same ▸ isRoot)
  | inherits member => exact .inherits (extension.lineage hasSub ▸ member)
  | hook asks each =>
    refine .hook (same ▸ asks) fun name member => ?_
    rw [extension.hasLiveAttr ordered hasSub]
    exact each name (same ▸ member)
  | protocol isProtocol asks each =>
    have members := extension.protocolMembers ordered has
    refine .protocol (same ▸ isProtocol) (members ▸ asks) fun name member => ?_
    rw [extension.hasLiveAttr ordered hasSub]
    exact each name (members ▸ member)
  | registered isAbstract isRegistered member =>
    exact .registered (same ▸ isAbstract) (extension.registered _ isRegistered)
      (extension.lineage hasSub ▸ member)

end Extends

/-- One definition, below classes that exist, or one registration. -/
inductive Step : Catalog → Catalog → Prop where
  | define {cat cat' : Catalog} {d : ClassDraft} {c : ClassId} (known : ∀ b ∈ d.bases, cat.Has b)
      (defined : cat.define d = .ok (c, cat')) : Step cat cat'
  | register (cat : Catalog) (c sub : ClassId) : Step cat (cat.register c sub)

theorem Step.extension (step : cat.Step cat') : cat.Extends cat' := by
  cases step with
  | define _ defined => exact (extends_define defined).1
  | register c sub => exact extends_register cat c sub

theorem extends_of_steps (steps : Relation.ReflTransGen Step cat cat') : cat.Extends cat' := by
  induction steps with
  | refl => exact .refl cat
  | tail _ step ih => exact ih.trans step.extension

/-- What is below a class is below the abstract classes above it. A protocol is left out: a class
can have its members and lack those of a class above. -/
theorem Built.below_above (built : cat.Built) (notProtocol : (cat.get v).isUserProtocol = false)
    (above : w ∈ (cat.get v).ancestors) (isAbstract : (cat.get w).flags.abstractBase = true)
    (below : cat.Below s v) : cat.Below s w := by
  cases below with
  | root isRoot =>
    exfalso
    cases v with
    | builtin b =>
      obtain rfl : b = .object := eq_of_beq isRoot
      cases above
    | user n =>
      rw [(built.plain n).2] at isRoot
      cases isRoot
  | inherits member =>
    exact .inherits (List.mem_cons_of_mem s (built.ordered.ancestors_trans member above))
  | hook asks each =>
    obtain ⟨asksAbove, included⟩ := built.hook_above asks above isAbstract
    exact .hook asksAbove fun name member => each name (included name member)
  | protocol isProtocol => rw [notProtocol] at isProtocol; cases isProtocol
  | registered _ isRegistered member =>
    exact .registered isAbstract ((built.upward _ isRegistered).2 w above isAbstract) member

/-- Below a class is below every abstract class above it, and it stays so whatever is defined and
registered later. -/
theorem isSubclass_upward (built : cat.Built) :
    (∀ s v w, (cat.get v).isUserProtocol = false → w ∈ (cat.get v).ancestors →
      (cat.get w).flags.abstractBase = true → cat.isSubclass s v = true →
        cat.isSubclass s w = true) ∧
    (∀ later, Relation.ReflTransGen Step cat later → ∀ s v, cat.Has s → cat.Has v →
      cat.isSubclass s v = true → later.isSubclass s v = true) := by
  simp only [isSubclass_iff_below]
  constructor
  · intro s v w notProtocol above isAbstract below
    exact built.below_above notProtocol above isAbstract below
  · intro later steps s v hasSub has below
    exact (extends_of_steps steps).below built.ordered hasSub has below

/-- Where an abstract class of rows derives from the sequences and the numbers are registered with
it, truth values, which are numbers, are sequences. -/
theorem isSubclass_upward_row :
    let row := ((ClassDraft.named "Row").withBase Builtin.sequence).asAbstractBase
    let rows : Catalog := { Catalog.builtin with
      defined := #[⟨"Row", "__main__", "Row", [Builtin.sequence],
        Catalog.builtin.lineage Builtin.sequence, [], [], [], [], row.flags, [], false⟩] }
    Catalog.builtin.define row = .ok (.user 0, rows) ∧
      (rows.register (.user 0) Builtin.int).isSubclass Builtin.bool Builtin.sequence = true := by
  intro row rows
  have linearized : Catalog.builtin.linearize [Builtin.sequence] =
      .ok (Catalog.builtin.lineage Builtin.sequence) := by
    decide +kernel
  have defined : Catalog.builtin.define row = .ok (.user 0, rows) := define_of_linearize linearized
  have built : rows.Built :=
    .define .builtin (List.forall_mem_singleton.mpr True.intro) defined
  refine ⟨defined, (isSubclass_upward (built.register (.user 0) Builtin.int)).1 _ (.user 0) _
    rfl ?_ rfl ?_⟩
  · exact List.mem_cons_self
  · decide +kernel

end Catalog
end HintCheck
