import Mathlib.Data.List.Nodup
import HintCheck.Proofs.Building

/-!
What a scope keeps. A scope is changed by binding something and by handing out a variable, and by
nothing else. Whatever the order of these steps, names are numbered through, so that none is given
twice; a class that was bound keeps its name; and what was bound stays bound. The variables that are
handed out on the way are numbered through as well.
-/
namespace HintCheck

/-- The kind of thing that a generated name tells; the names of defaults are not generated. -/
def ScopeEntry.kind? : ScopeEntry → Option String
  | cls _ => some "type"
  | reference _ => some "fwd"
  | validator _ => some "validator"
  | literal _ => some "literal"
  | default _ => none

namespace Scope

/-! ### Names -/

/-- The name of a thing of some kind, bound at number `n`. -/
def numberedKey (kind : String) (n : Nat) : ScopeKey :=
  ⟨"__hg_" ++ kind ++ "_" ++ toString n⟩

/-- The variable with number `n`. -/
def pithName (n : Nat) : String :=
  "__hg_pith_" ++ toString n

theorem pithName_injective {m n : Nat} (same : pithName m = pithName n) : m = n :=
  toString_injective ((String.append_right_inj _).mp same)

/-- Generated names differ in their numbers. -/
theorem numberedKey_injective {a b : ScopeEntry} {kind other : String} {m n : Nat}
    (isKind : a.kind? = some kind) (isOther : b.kind? = some other)
    (same : numberedKey kind m = numberedKey other n) : kind = other ∧ m = n := by
  have letters := congrArg (String.toList ∘ ScopeKey.text) same
  have sameKind : kind = other := by
    cases a <;> cases isKind <;> cases b <;> cases isOther <;>
      first | rfl | simp [numberedKey] at letters
  subst sameKind
  refine ⟨rfl, toString_injective ?_⟩
  simpa only [numberedKey, ScopeKey.mk.injEq, String.append_right_inj] using same

/-! ### Growth -/

/-- Whatever the scope binds is bound to the same later. -/
def Grows (scope later : Scope) : Prop :=
  ∀ key entry, scope.get? key = some entry → later.get? key = some entry

theorem grows_insert {scope : Scope} (kind : String) (entry : ScopeEntry) :
    scope.Grows (scope.insert kind entry).2 :=
  fun _ _ there => get?_insert_of_some there kind entry

theorem grows_bindClass {scope : Scope} (c : ClassId) : scope.Grows (scope.bindClass c).2 := by
  unfold bindClass
  split
  · exact fun _ _ => id
  · exact grows_insert "type" (.cls c)

theorem grows_bindReference {scope : Scope} (ref : Reference) :
    scope.Grows (scope.bindReference ref ref.module).2 := by
  have inserted : scope.Grows (scope.insert "fwd" (.reference ref)).2 := grows_insert _ _
  unfold bindReference
  dsimp only
  split
  · exact inserted
  · split
    · exact fun _ _ => id
    · exact inserted

/-- A reference that is asked for is bound under the name that it is given. -/
theorem get?_bindReference {scope : Scope} (wellKept : scope.WellKept) (ref : Reference) :
    (scope.bindReference ref ref.module).2.get? (scope.bindReference ref ref.module).1.key =
      some (.reference (scope.bindReference ref ref.module).1.reference) := by
  cases listed : scope.references.lookup (ref.name, ref.module) with
  | some key =>
    obtain ⟨found, there⟩ := wellKept.listed_bound listed
    simp only [bindReference, listed, there]
  | none =>
    have absent := wellKept.free scope.nextKey (Nat.le_refl _)
    simp only [bindReference, listed, insert, get?, referenceKey] at absent ⊢
    rw [List.lookup_append, absent]
    simp

/-! ### Steps -/

/-- A step that binds something, or finds it bound. -/
inductive Binds : Scope → Scope → Prop
  | cls (scope : Scope) (c : ClassId) : Binds scope (scope.bindClass c).2
  | reference (scope : Scope) (ref : Reference) : Binds scope (scope.bindReference ref ref.module).2
  | validator (scope : Scope) (v : Validator) : Binds scope (scope.bindValidator v).2
  | literal (scope : Scope) (v : Value) : Binds scope (scope.bindLiteral v).2

/-- Steps from one scope to another, with the variables that are handed out on the way. -/
inductive Steps : Scope → List String → Scope → Prop
  | refl {scope : Scope} : Steps scope [] scope
  | bind {scope mid after : Scope} {names : List String} (first : Binds scope mid)
      (others : Steps mid names after) : Steps scope names after
  | pith {scope after : Scope} {names : List String}
      (others : Steps scope.freshPith.2 names after) :
      Steps scope (scope.freshPith.1 :: names) after

theorem Binds.steps {scope after : Scope} (binds : Binds scope after) : Steps scope [] after :=
  .bind binds .refl

theorem Steps.trans {scope mid after : Scope} {names more : List String}
    (first : Steps scope names mid) (second : Steps mid more after) :
    Steps scope (names ++ more) after := by
  induction first with
  | refl => exact second
  | bind step _ ih => exact .bind step (ih second)
  | pith _ ih => exact .pith (ih second)

theorem Binds.grows {scope after : Scope} (binds : Binds scope after) : scope.Grows after := by
  cases binds with
  | cls c => exact grows_bindClass c
  | reference ref => exact grows_bindReference ref
  | validator v => exact grows_insert _ _
  | literal v => exact grows_insert _ _

/-- What is bound stays bound. -/
theorem Steps.grows {scope after : Scope} {names : List String} (steps : Steps scope names after) :
    scope.Grows after := by
  induction steps with
  | refl => exact fun _ _ => id
  | bind step _ ih => exact fun key entry there => ih key entry (step.grows key entry there)
  | pith _ ih => exact ih

/-- References that are listed stay bound. Where they were written plays no part in that, so any
context will do. -/
theorem Binds.wellKept {scope after : Scope} (binds : Binds scope after)
    (wellKept : scope.WellKept) : after.WellKept := by
  cases binds with
  | cls c => exact (kept_bindClass (kept_refl wellKept (.bare .standard)) c).wellKept
  | reference ref =>
    let ctx : Context := ⟨.standalone, .standard, none, ref.classes, [], ref.locals⟩
    exact (kept_bindReference (kept_refl wellKept ctx) rfl rfl).wellKept
  | validator v => exact (kept_bindValidator (kept_refl wellKept (.bare .standard)) v).wellKept
  | literal v => exact (kept_bindLiteral (kept_refl wellKept (.bare .standard)) v).wellKept

theorem Binds.nextPith {scope after : Scope} (binds : Binds scope after) :
    after.nextPith = scope.nextPith := by
  cases binds with
  | cls c => rw [bindClass]; split <;> rfl
  | reference ref =>
    rw [bindReference]
    split
    · rfl
    · split <;> rfl
  | validator v => rfl
  | literal v => rfl

/-- The variables that are handed out are those with the next numbers, each once. -/
theorem Steps.names_eq {scope after : Scope} {names : List String}
    (steps : Steps scope names after) :
    names = (List.range' scope.nextPith names.length).map pithName ∧
      after.nextPith = scope.nextPith + names.length := by
  induction steps with
  | refl => exact ⟨rfl, rfl⟩
  | bind step _ ih => rwa [step.nextPith] at ih
  | @pith scope after names _ ih =>
    obtain ⟨numbered, next⟩ := ih
    have advanced : scope.freshPith.2.nextPith = scope.nextPith + 1 := rfl
    rw [advanced] at numbered next
    refine ⟨?_, by rw [next, List.length_cons]; omega⟩
    rw [List.length_cons, List.range'_succ, List.map_cons, ← numbered]
    rfl

/-- No variable is handed out twice. -/
theorem Steps.nodup {scope after : Scope} {names : List String} (steps : Steps scope names after) :
    names.Nodup := by
  rw [steps.names_eq.1]
  exact (List.nodup_range' _).map fun _ _ => pithName_injective

/-! ### Scopes in order -/

/-- A scope in order: generated names with higher numbers are free, the table of classes lists each
class that is bound under its name, and listed references are bound. -/
structure Sound (scope : Scope) : Prop where
  free : ∀ (entry : ScopeEntry) kind n, entry.kind? = some kind → scope.nextKey ≤ n →
    scope.get? (numberedKey kind n) = none
  classes : ∀ c key, scope.classes.lookup c = some key ↔ scope.get? key = some (.cls c)
  references : ∀ entry ∈ scope.references, ∃ ref, scope.get? entry.2 = some (.reference ref)

theorem sound_empty : Sound .empty :=
  ⟨fun _ _ _ _ _ => rfl, fun _ _ => by simp [empty, get?], nofun⟩

variable {scope : Scope}

theorem Sound.wellKept (sound : scope.Sound) : scope.WellKept :=
  ⟨sound.references, fun n from_ => sound.free (.reference ⟨"", none, [], none⟩) "fwd" n rfl from_⟩

/-- The next name of any kind is free. -/
theorem Sound.get?_next (sound : scope.Sound) {entry : ScopeEntry} {kind : String}
    (isKind : entry.kind? = some kind) : scope.get? (scope.insert kind entry).1 = none :=
  sound.free entry kind scope.nextKey isKind (Nat.le_refl _)

/-- What is found after something was bound: the new entry, or an old one. -/
theorem get?_insert (sound : scope.Sound) {entry : ScopeEntry} {kind : String}
    (isKind : entry.kind? = some kind) (key : ScopeKey) :
    (scope.insert kind entry).2.get? key =
      if key = (scope.insert kind entry).1 then some entry else scope.get? key := by
  have added : (scope.insert kind entry).2.get? key =
      (scope.get? key).or ([((scope.insert kind entry).1, entry)].lookup key) :=
    List.lookup_append
  rw [added]
  by_cases isNew : key = (scope.insert kind entry).1
  · rw [if_pos isNew, isNew, sound.get?_next isKind]
    simp
  · rw [if_neg isNew]
    simp [List.lookup_cons, beq_eq_false_iff_ne.mpr isNew]

/-- What was just bound is bound under the name that it was given. -/
theorem get?_insert_self (sound : scope.Sound) {entry : ScopeEntry} {kind : String}
    (isKind : entry.kind? = some kind) :
    (scope.insert kind entry).2.get? (scope.insert kind entry).1 = some entry := by
  rw [get?_insert sound isKind, if_pos rfl]

theorem free_insert (sound : scope.Sound) {entry : ScopeEntry} {kind : String}
    (isKind : entry.kind? = some kind) (another : ScopeEntry) (other : String) (n : Nat)
    (isOther : another.kind? = some other) (from_ : (scope.insert kind entry).2.nextKey ≤ n) :
    (scope.insert kind entry).2.get? (numberedKey other n) = none := by
  have beyond : scope.nextKey + 1 ≤ n := from_
  rw [get?_insert sound isKind, if_neg]
  · exact sound.free another other n isOther (by omega)
  · intro same
    have number : n = scope.nextKey := (numberedKey_injective isOther isKind same).2
    omega

theorem references_insert (sound : scope.Sound) (kind : String) (entry : ScopeEntry) :
    ∀ listed ∈ scope.references,
      ∃ ref, (scope.insert kind entry).2.get? listed.2 = some (.reference ref) := by
  intro listed isListed
  obtain ⟨ref, there⟩ := sound.references listed isListed
  exact ⟨ref, grows_insert kind entry _ _ there⟩

/-- Binding what is no class leaves the table of classes as it should be. -/
theorem classes_insert (sound : scope.Sound) {entry : ScopeEntry} {kind : String}
    (isKind : entry.kind? = some kind) (noClass : ∀ c, entry ≠ .cls c) (c : ClassId)
    (key : ScopeKey) :
    scope.classes.lookup c = some key ↔ (scope.insert kind entry).2.get? key = some (.cls c) := by
  rw [sound.classes, get?_insert sound isKind]
  split
  · next isNew => simp [isNew, sound.get?_next isKind, noClass c]
  · rfl

theorem sound_insert (sound : scope.Sound) {entry : ScopeEntry} {kind : String}
    (isKind : entry.kind? = some kind) (noClass : ∀ c, entry ≠ .cls c) :
    (scope.insert kind entry).2.Sound :=
  ⟨free_insert sound isKind, classes_insert sound isKind noClass,
    references_insert sound kind entry⟩

/-- Binding a class that has a name changes nothing; any other is bound under a new name and
listed. -/
theorem bindClass_cases (scope : Scope) (c : ClassId) :
    (∃ key, scope.classes.lookup c = some key ∧ scope.bindClass c = (key, scope)) ∨
    scope.classes.lookup c = none ∧ scope.bindClass c =
      ((scope.insert "type" (.cls c)).1,
        { (scope.insert "type" (.cls c)).2 with
          classes := scope.classes ++ [(c, (scope.insert "type" (.cls c)).1)] }) := by
  unfold bindClass
  cases scope.classes.lookup c with
  | some key => exact .inl ⟨key, rfl, rfl⟩
  | none => exact .inr ⟨rfl, rfl⟩

theorem sound_bindClass (sound : scope.Sound) (c : ClassId) : (scope.bindClass c).2.Sound := by
  have isKind : (ScopeEntry.cls c).kind? = some "type" := rfl
  rcases bindClass_cases scope c with ⟨key, _, same⟩ | ⟨unlisted, bound⟩
  · rwa [same]
  · rw [bound]
    refine ⟨free_insert sound isKind, fun d key => ?_, references_insert sound _ _⟩
    show (scope.classes ++ _).lookup d = _ ↔ (scope.insert "type" (.cls c)).2.get? key = _
    rw [get?_insert sound isKind, List.lookup_append]
    by_cases isClass : d = c
    · subst isClass
      have unbound : scope.get? key ≠ some (.cls d) := by simp [← sound.classes, unlisted]
      simp [unlisted, unbound, eq_comm]
    · have others : [(c, (scope.insert "type" (.cls c)).1)].lookup d = none := by
        simp [List.lookup_cons, beq_eq_false_iff_ne.mpr isClass]
      rw [others, Option.or_none, sound.classes]
      split
      · next isNew => simp [isNew, sound.get?_next isKind, Ne.symm isClass]
      · rfl

theorem sound_bindReference (sound : scope.Sound) (ref : Reference) :
    (scope.bindReference ref ref.module).2.Sound := by
  have isKind : (ScopeEntry.reference ref).kind? = some "fwd" := rfl
  have added : Sound { (scope.insert "fwd" (.reference ref)).2 with
      references := scope.references ++
        [((ref.name, ref.module), (scope.insert "fwd" (.reference ref)).1)] } := by
    refine ⟨free_insert sound isKind, classes_insert sound isKind nofun, fun listed member => ?_⟩
    rcases List.mem_append.mp member with before | isNew
    · exact references_insert sound _ _ listed before
    · rw [List.mem_singleton.mp isNew]
      exact ⟨ref, get?_insert_self sound isKind⟩
  unfold bindReference
  dsimp only
  split
  · exact added
  · split
    · exact sound
    · exact added

theorem Binds.sound {after : Scope} (binds : Binds scope after) (sound : scope.Sound) :
    after.Sound := by
  cases binds with
  | cls c => exact sound_bindClass sound c
  | reference ref => exact sound_bindReference sound ref
  | validator v => exact sound_insert sound rfl nofun
  | literal v => exact sound_insert sound rfl nofun

theorem Steps.sound {after : Scope} {names : List String} (steps : Steps scope names after)
    (sound : scope.Sound) : after.Sound := by
  induction steps with
  | refl => exact sound
  | bind step _ ih => exact ih (step.sound sound)
  | pith _ ih => exact ih ⟨sound.free, sound.classes, sound.references⟩

/-! ### Generated names -/

/-- Every name was generated, and tells the kind of what it is bound to. -/
def Numbered (scope : Scope) : Prop :=
  ∀ pair ∈ scope.entries, ∃ kind n, pair.2.kind? = some kind ∧ pair.1 = numberedKey kind n

theorem numbered_empty : Numbered .empty :=
  nofun

theorem Numbered.of_get? (numbered : scope.Numbered) {key : ScopeKey} {entry : ScopeEntry}
    (bound : scope.get? key = some entry) :
    ∃ kind n, entry.kind? = some kind ∧ key = numberedKey kind n := by
  obtain ⟨before, after, entries, _⟩ := List.lookup_eq_some_iff.mp bound
  exact numbered (key, entry) (by simp [entries])

theorem numbered_insert (numbered : scope.Numbered) {entry : ScopeEntry} {kind : String}
    (isKind : entry.kind? = some kind) : (scope.insert kind entry).2.Numbered := by
  intro pair member
  rcases List.mem_append.mp member with before | isNew
  · exact numbered pair before
  · rw [List.mem_singleton.mp isNew]
    exact ⟨kind, scope.nextKey, isKind, rfl⟩

theorem Binds.numbered {after : Scope} (binds : Binds scope after) (numbered : scope.Numbered) :
    after.Numbered := by
  cases binds with
  | cls c =>
    rcases bindClass_cases scope c with ⟨key, _, same⟩ | ⟨_, bound⟩
    · rwa [same]
    · have isKind : (ScopeEntry.cls c).kind? = some "type" := rfl
      rw [bound]
      exact numbered_insert numbered isKind
  | reference ref =>
    have isKind : (ScopeEntry.reference ref).kind? = some "fwd" := rfl
    have added := numbered_insert numbered isKind
    unfold bindReference
    dsimp only
    split
    · exact added
    · split
      · exact numbered
      · exact added
  | validator v => exact numbered_insert numbered rfl
  | literal v => exact numbered_insert numbered rfl

theorem Steps.numbered {after : Scope} {names : List String} (steps : Steps scope names after)
    (numbered : scope.Numbered) : after.Numbered := by
  induction steps with
  | refl => exact numbered
  | bind step _ ih => exact ih (step.numbered numbered)
  | pith _ ih => exact ih numbered

/-! ### What is bound -/

theorem get?_bindClass (sound : scope.Sound) (c : ClassId) :
    (scope.bindClass c).2.get? (scope.bindClass c).1 = some (.cls c) := by
  rcases bindClass_cases scope c with ⟨key, listed, same⟩ | ⟨_, bound⟩
  · rw [same]
    exact (sound.classes c key).mp listed
  · rw [bound]
    exact get?_insert_self sound rfl

/-- Two names of a scope in order that are bound to classes are the same if the classes are. -/
theorem Sound.key_eq_iff (sound : scope.Sound) {key other : ScopeKey} {c d : ClassId}
    (bound : scope.get? key = some (.cls c)) (boundToo : scope.get? other = some (.cls d)) :
    key = other ↔ c = d := by
  constructor
  · rintro rfl
    rw [bound] at boundToo
    cases boundToo
    rfl
  · rintro rfl
    have listed := (sound.classes c key).mpr bound
    rw [(sound.classes c other).mpr boundToo] at listed
    exact (Option.some.inj listed).symm

end Scope
end HintCheck
