import Mathlib.Data.List.Forall2
import HintCheck.Check.Build

/-!
Building, compared with a computation that has no scope. `Follows keeps x y related` says that
building `x` ends as the computation `y` does, with the same error or with related results, and that
every scope on the way has the property `keeps`. There is one rule for each way in which the builder
puts its parts together.

The property that matters is `Kept`: new names never hide old ones, so that a reference stays bound
to what the scope knew it as from the start.
-/
namespace HintCheck

/-! ### Runs -/

/-- A run goes on from where its first part ends, unless that is an error. -/
theorem run_run_bind {σ ε α β : Type} (x : ExceptT ε (StateM σ) α)
    (f : α → ExceptT ε (StateM σ) β) (s : σ) :
    (x >>= f).run.run s =
      match x.run.run s with
      | (.ok a, after) => (f a).run.run after
      | (.error e, after) => (.error e, after) := by
  simp only [ExceptT.run_bind, StateT.run_bind]
  show (match x.run.run s with | (a, s) => _) = _
  rcases x.run.run s with ⟨_ | _, after⟩ <;> rfl

namespace Building
variable {α β γ δ : Type}

/-- The outcome of building from a scope, and the scope that it leaves. -/
def outcome (x : Building α) (scope : Scope) : Except HintError α × Scope :=
  x.run.run scope

theorem outcome_pure (a : α) (scope : Scope) : outcome (pure a) scope = (.ok a, scope) := rfl

theorem outcome_onScope (f : Scope → α × Scope) (scope : Scope) :
    outcome (Builder.onScope f) scope = (.ok (f scope).1, (f scope).2) := rfl

theorem outcome_bind (x : Building α) (f : α → Building β) (scope : Scope) :
    outcome (x >>= f) scope =
      match outcome x scope with
      | (.ok a, after) => outcome (f a) after
      | (.error e, after) => (.error e, after) := by
  unfold outcome
  rw [run_run_bind]
  rcases x.run.run scope with ⟨_ | _, after⟩ <;> rfl

/-- Two outcomes with the same error, or with related results. -/
def Alike (related : α → β → Prop) : Except HintError α → Except HintError β → Prop
  | .ok a, .ok b => related a b
  | .error e, .error f => e = f
  | _, _ => False

namespace Alike

variable {related : α → β → Prop} {x : Except HintError α} {y : Except HintError β}

theorem bind {γ δ : Type} {next : γ → δ → Prop} {f : α → Except HintError γ}
    {g : β → Except HintError δ} (first : Alike related x y)
    (then_ : ∀ a b, related a b → Alike next (f a) (g b)) : Alike next (x >>= f) (y >>= g) :=
  match x, y, first with
  | .ok a, .ok b, holds => then_ a b holds
  | .error _, .error _, same => same

theorem mono {wider : α → β → Prop} (alike : Alike related x y)
    (widen : ∀ a b, related a b → wider a b) : Alike wider x y :=
  match x, y, alike with
  | .ok a, .ok b, holds => widen a b holds
  | .error _, .error _, same => same

theorem map_left {γ : Type} {next : γ → β → Prop} {f : α → γ} (alike : Alike related x y)
    (then_ : ∀ a b, related a b → next (f a) b) : Alike next (do return f (← x)) y :=
  match x, y, alike with
  | .ok a, .ok b, holds => then_ a b holds
  | .error _, .error _, same => same

theorem swap (alike : Alike related x y) : Alike (fun b a => related a b) y x :=
  match x, y, alike with
  | .ok _, .ok _, holds => holds
  | .error _, .error _, same => Eq.symm same

theorem trans {γ : Type} {further : β → γ → Prop} {z : Except HintError γ}
    (alike : Alike related x y) (next : Alike further y z) :
    Alike (fun a c => ∃ b, related a b ∧ further b c) x z :=
  match x, y, z, alike, next with
  | .ok _, .ok b, .ok _, holds, holdsNext => ⟨b, holds, holdsNext⟩
  | .error _, .error _, .error _, same, sameNext => Eq.trans same sameNext

theorem mapM {ι : Type} {f : ι → Except HintError α} {g : ι → Except HintError β} (hints : List ι)
    (each : ∀ i ∈ hints, Alike related (f i) (g i)) :
    Alike (List.Forall₂ related) (hints.mapM f) (hints.mapM g) := by
  induction hints with
  | nil => exact .nil
  | cons i rest ih =>
    rw [List.mapM_cons, List.mapM_cons]
    refine bind (each i (by simp)) fun a b head => ?_
    refine bind (ih fun j member => each j (by simp [member])) fun as bs tail => ?_
    exact .cons head tail

theorem ok_left {a : α} (alike : Alike related (.ok a) y) : ∃ b, y = .ok b ∧ related a b :=
  match y, alike with
  | .ok b, holds => ⟨b, rfl, holds⟩

theorem error_left {e : HintError} (alike : Alike related (.error e) y) : y = .error e :=
  match y, alike with
  | .error _, rfl => rfl

end Alike

/-- Building `x` ends as `y` does, from every scope with the property `keeps`, which lasts. -/
def Follows (keeps : Scope → Prop) (x : Building α) (y : Except HintError β)
    (related : α → β → Prop) : Prop :=
  ∀ scope, keeps scope → keeps (outcome x scope).2 ∧ Alike related (outcome x scope).1 y

variable {keeps : Scope → Prop}

theorem follows_pure {related : α → β → Prop} {a : α} {b : β} (holds : related a b) :
    Follows keeps (pure a) (.ok b) related :=
  fun _ kept => ⟨kept, holds⟩

theorem follows_throw (related : α → β → Prop) (e : HintError) :
    Follows keeps (throw e : Building α) (.error e) related :=
  fun _ kept => ⟨kept, rfl⟩

theorem follows_ofExcept (y : Except HintError α) :
    Follows keeps (Builder.ofExcept y) y fun a b => a = b := by
  cases y with
  | ok a => exact follows_pure rfl
  | error e => exact follows_throw _ e

theorem follows_bind {x : Building α} {y : Except HintError β} {f : α → Building γ}
    {g : β → Except HintError δ} {related : α → β → Prop} {after : γ → δ → Prop}
    (first : Follows keeps x y related)
    (next : ∀ a b, related a b → Follows keeps (f a) (g b) after) :
    Follows keeps (x >>= f) (y >>= g) after := by
  intro scope kept
  obtain ⟨keptAfter, alike⟩ := first scope kept
  rw [outcome_bind]
  rcases run : outcome x scope with ⟨_ | a, rest⟩ <;> rw [run] at keptAfter alike
  · cases y with
    | error e =>
      cases alike
      exact ⟨keptAfter, rfl⟩
    | ok b => exact alike.elim
  · cases y with
    | error e => exact alike.elim
    | ok b => exact next a b alike rest keptAfter

/-- A part whose outcome is known, in front of the others. -/
theorem follows_known {x : Building α} {b : β} {f : α → Building γ} {y : Except HintError δ}
    {related : α → β → Prop} {after : γ → δ → Prop} (first : Follows keeps x (.ok b) related)
    (next : ∀ a, related a b → Follows keeps (f a) y after) :
    Follows keeps (x >>= f) y after := by
  intro scope kept
  obtain ⟨keptAfter, alike⟩ := first scope kept
  rw [outcome_bind]
  rcases run : outcome x scope with ⟨_ | a, rest⟩ <;> rw [run] at keptAfter alike
  · exact alike.elim
  · exact next a alike rest keptAfter

/-- A step on the scope alone, in front of the part that matters. -/
theorem follows_onScope {f : Scope → α × Scope} {g : α → Building γ} {y : Except HintError δ}
    {after : γ → δ → Prop} (keepsAfter : ∀ scope, keeps scope → keeps (f scope).2)
    (next : ∀ a, Follows keeps (g a) y after) :
    Follows keeps (Builder.onScope f >>= g) y after := by
  intro scope kept
  rw [outcome_bind, outcome_onScope]
  exact next (f scope).1 (f scope).2 (keepsAfter scope kept)

theorem follows_mapM {ι : Type} {f : ι → Building α} {g : ι → Except HintError β}
    {related : α → β → Prop} (hints : List ι)
    (each : ∀ i ∈ hints, Follows keeps (f i) (g i) related) :
    Follows keeps (hints.mapM f) (hints.mapM g) (List.Forall₂ related) := by
  induction hints with
  | nil => exact follows_pure .nil
  | cons i rest ih =>
    rw [List.mapM_cons, List.mapM_cons]
    refine follows_bind (each i (by simp)) fun a b head => ?_
    refine follows_bind (ih fun j member => each j (by simp [member])) fun as bs tail => ?_
    exact follows_pure (.cons head tail)

/-- Parts that are built one by one, each of which shows what it was built from. -/
theorem follows_mapM_shown {f : α → Building β} {shown : β → α}
    (each : ∀ a, Follows keeps (f a) (.ok a) fun b a => shown b = a) (as : List α) :
    Follows keeps (as.mapM f) (.ok as) fun bs as => bs.map shown = as := by
  induction as with
  | nil => exact follows_pure rfl
  | cons a rest ih =>
    rw [List.mapM_cons]
    refine follows_bind (g := fun a => .ok (a :: rest)) (each a) fun b a head => ?_
    refine follows_bind (g := fun rest => .ok (a :: rest)) ih fun bs rest tail => ?_
    exact follows_pure (by rw [List.map_cons, head, tail])

end Building

/-! ### What a scope knows -/

namespace Scope

/-- The reference that is bound when `ref` is asked for. -/
def known (scope : Scope) (ref : Reference) : Reference :=
  match (scope.references.lookup (ref.name, ref.module)).bind scope.get? with
  | some (.reference found) => found
  | _ => ref

theorem known_of_listed {scope : Scope} {ref found : Reference} {key : ScopeKey}
    (listed : scope.references.lookup (ref.name, ref.module) = some key)
    (there : scope.get? key = some (.reference found)) : scope.known ref = found := by
  simp only [known, listed, Option.bind_some, there]

theorem known_of_unlisted {scope : Scope} {ref : Reference}
    (unlisted : scope.references.lookup (ref.name, ref.module) = none) :
    scope.known ref = ref := by
  simp only [known, unlisted, Option.bind_none]

/-- The name of the reference that is bound at number `n`. -/
def referenceKey (n : Nat) : ScopeKey :=
  ⟨"__hg_" ++ "fwd" ++ "_" ++ toString n⟩

/-- A scope that was filled name by name: every listed reference is bound, and the names of the
references to come are free. -/
structure WellKept (scope : Scope) : Prop where
  bound : ∀ entry ∈ scope.references, ∃ ref, scope.get? entry.2 = some (.reference ref)
  free : ∀ n, scope.nextKey ≤ n → scope.get? (referenceKey n) = none

theorem WellKept.listed_bound {scope : Scope} (wellKept : scope.WellKept)
    {name : String × Option String} {key : ScopeKey}
    (listed : scope.references.lookup name = some key) :
    ∃ ref, scope.get? key = some (.reference ref) := by
  obtain ⟨before, behind, split, _⟩ := List.lookup_eq_some_iff.mp listed
  exact wellKept.bound (name, key) (by simp [split])

theorem wellKept_empty : WellKept .empty :=
  ⟨fun _ member => by simp [empty] at member, fun _ _ => rfl⟩

/-- The scope knows every reference written in the scope of `ctx` as `start` does. -/
structure Kept (start : Scope) (ctx : Context) (scope : Scope) : Prop where
  wellKept : scope.WellKept
  known : ∀ ref : Reference, ref.classes = ctx.classes → ref.locals = ctx.locals →
    scope.known ref = start.known ref

theorem kept_refl {start : Scope} (wellKept : start.WellKept) (ctx : Context) :
    Kept start ctx start :=
  ⟨wellKept, fun _ _ _ => rfl⟩

theorem toString_injective {m n : Nat} (same : toString m = toString n) : m = n := by
  have digits : Nat.toDigits 10 m = Nat.toDigits 10 n := by
    rw [← Nat.toList_repr, ← Nat.toList_repr]
    exact congrArg String.toList same
  rw [← Nat.ofDigitChars_ten_toDigits (n := m), digits, Nat.ofDigitChars_ten_toDigits]

theorem referenceKey_injective {m n : Nat} (same : referenceKey m = referenceKey n) : m = n := by
  simp only [referenceKey, ScopeKey.mk.injEq, String.append_right_inj] at same
  exact toString_injective same

theorem get?_insert_of_some {scope : Scope} {key : ScopeKey} {found : ScopeEntry}
    (there : scope.get? key = some found) (kind : String) (entry : ScopeEntry) :
    (scope.insert kind entry).2.get? key = some found := by
  simp only [get?, insert] at there ⊢
  rw [List.lookup_append, there]
  rfl

/-- A new name that is not that of a reference to come hides nothing. -/
theorem kept_insert {start scope : Scope} {ctx : Context} (kept : Kept start ctx scope)
    (kind : String) (entry : ScopeEntry)
    (different : ∀ n, scope.nextKey < n → (scope.insert kind entry).1 ≠ referenceKey n) :
    Kept start ctx (scope.insert kind entry).2 := by
  obtain ⟨⟨bound, free⟩, known⟩ := kept
  refine ⟨⟨?_, ?_⟩, ?_⟩
  · intro listed member
    obtain ⟨ref, there⟩ := bound listed member
    exact ⟨ref, get?_insert_of_some there kind entry⟩
  · intro n later
    have later : scope.nextKey < n := later
    have absent : scope.entries.lookup (referenceKey n) = none := free n (by omega)
    have other : (referenceKey n == ⟨"__hg_" ++ kind ++ "_" ++ toString scope.nextKey⟩) = false :=
      beq_false_of_ne fun same => different n later same.symm
    simp only [get?, insert, List.lookup_append, absent, Option.none_or]
    rw [List.lookup_cons, other]
    rfl
  · intro ref sameClasses sameLocals
    rw [← known ref sameClasses sameLocals]
    cases listed : scope.references.lookup (ref.name, ref.module) with
    | none => rw [known_of_unlisted listed, known_of_unlisted (by exact listed)]
    | some key =>
      obtain ⟨found, there⟩ := WellKept.listed_bound ⟨bound, free⟩ listed
      rw [known_of_listed listed there,
        known_of_listed (by exact listed) (get?_insert_of_some there kind entry)]

theorem kept_freshPith {start scope : Scope} {ctx : Context} (kept : Kept start ctx scope) :
    Kept start ctx scope.freshPith.2 :=
  ⟨⟨kept.wellKept.bound, kept.wellKept.free⟩, kept.known⟩

theorem kept_bindClass {start scope : Scope} {ctx : Context} (kept : Kept start ctx scope)
    (c : ClassId) : Kept start ctx (scope.bindClass c).2 := by
  unfold bindClass
  split
  · exact kept
  · have inserted := kept_insert kept "type" (.cls c) fun n _ same => by
      have letters := congrArg (String.toList ∘ ScopeKey.text) same
      simp [insert, referenceKey] at letters
    exact ⟨⟨inserted.wellKept.bound, inserted.wellKept.free⟩, inserted.known⟩

theorem kept_bindValidator {start scope : Scope} {ctx : Context} (kept : Kept start ctx scope)
    (v : Validator) : Kept start ctx (scope.bindValidator v).2 :=
  kept_insert kept "validator" (.validator v) fun n _ same => by
    have letters := congrArg (String.toList ∘ ScopeKey.text) same
    simp [insert, referenceKey] at letters

theorem kept_bindLiteral {start scope : Scope} {ctx : Context} (kept : Kept start ctx scope)
    (v : Value) : Kept start ctx (scope.bindLiteral v).2 :=
  kept_insert kept "literal" (.literal v) fun n _ same => by
    have letters := congrArg (String.toList ∘ ScopeKey.text) same
    simp [insert, referenceKey] at letters

/-- Asking for a reference gives the one that the scope knows. -/
theorem bindReference_known (scope : Scope) (ref : Reference) :
    (scope.bindReference ref ref.module).1.reference = scope.known ref := by
  simp only [bindReference, known]
  cases listed : scope.references.lookup (ref.name, ref.module) with
  | none => rfl
  | some key =>
    simp only [Option.bind_some]
    split <;> simp_all

/-- A reference that is asked for stays what the scope knew it as, for it was bound where the others
of its name and module are written. -/
theorem kept_bindReference {start scope : Scope} {ctx : Context} (kept : Kept start ctx scope)
    {ref : Reference} (sameClasses : ref.classes = ctx.classes)
    (sameLocals : ref.locals = ctx.locals) :
    Kept start ctx (scope.bindReference ref ref.module).2 := by
  cases listed : scope.references.lookup (ref.name, ref.module) with
  | some key =>
    obtain ⟨found, there⟩ := kept.wellKept.listed_bound listed
    simpa only [bindReference, listed, there] using kept
  | none =>
    have inserted := kept_insert kept "fwd" (.reference ref) fun n later same =>
      Nat.ne_of_lt later (referenceKey_injective same)
    have there : (scope.insert "fwd" (.reference ref)).2.get? (referenceKey scope.nextKey) =
        some (.reference ref) := by
      have absent := kept.wellKept.free scope.nextKey (Nat.le_refl _)
      simp only [get?, insert] at absent ⊢
      rw [List.lookup_append, absent]
      simp [referenceKey]
    simp only [bindReference, listed]
    refine ⟨⟨?_, inserted.wellKept.free⟩, ?_⟩
    · intro entry member
      rcases List.mem_append.mp member with old | new
      · exact inserted.wellKept.bound entry old
      · simp only [List.mem_singleton] at new
        subst new
        exact ⟨ref, there⟩
    · intro other otherClasses otherLocals
      by_cases same : (other.name, other.module) = (ref.name, ref.module)
      · obtain rfl : other = ref := by
          cases other
          cases ref
          simp_all
        rw [← kept.known other otherClasses otherLocals, known_of_unlisted listed]
        refine known_of_listed ?_ there
        simp only [insert, List.lookup_append, listed, List.lookup_cons, beq_self_eq_true,
          Option.none_or]
        rfl
      · rw [← inserted.known other otherClasses otherLocals]
        have elsewhere : ((other.name, other.module) == (ref.name, ref.module)) = false :=
          beq_false_of_ne same
        simp only [Scope.known, List.lookup_append, List.lookup_cons, elsewhere, List.lookup_nil,
          Option.or_none]
        rfl

end Scope
end HintCheck
