import HintCheck.Callable.Run
import HintCheck.Proofs.Closure
import HintCheck.Proofs.Realization

/-!
Remembered references. While modules and scopes stay as they are, a reference that was resolved
before is what it would be resolved to now. So a check gives the verdict that it would give if every
reference were looked up anew, and what is remembered afterwards is still what a look-up finds.
-/
namespace HintCheck

/-- The oracle that looks every reference up anew. -/
def Oracle.direct (around : Surroundings) (random : UInt32) : Oracle (Except ReferenceError) :=
  ⟨around.catalog, random, fun op => op.reference.target around⟩

/-- The reader who looks every reference up anew, as the scope knows it. -/
def Reading.direct (b : Builder) (scope : Scope) (around : Surroundings) (random : UInt32) :
    Reading (Except ReferenceError) :=
  { b with
    world := around.catalog
    random
    resolve := fun ref => (scope.known ref).target around }

theorem Oracle.suits_direct (b : Builder) (scope : Scope) (around : Surroundings)
    (random : UInt32) :
    (Oracle.direct around random).Suits (.direct b scope around random) scope where
  catalog := rfl
  random := rfl
  resolve _ _ isKnown := congrArg (Reference.target around) isKnown

namespace CallState

theorem lookup_filter_ne {α β : Type} [BEq α] [LawfulBEq α] {entries : List (α × β)} {a b : α}
    (different : a ≠ b) : (entries.filter fun e => e.1 != b).lookup a = entries.lookup a := by
  induction entries with
  | nil => rfl
  | cons e rest ih =>
    by_cases removed : e.1 = b
    · have other : (a == e.1) = false := beq_false_of_ne (removed ▸ different)
      rw [List.filter_cons_of_neg (by simp [removed]), List.lookup_cons, other, ih]
    · rw [List.filter_cons_of_pos (by simp [removed]), List.lookup_cons, List.lookup_cons, ih]

theorem resolution_setResolution_self (calls : CallState) (owner : Nat) (key : ScopeKey)
    (r : Resolution) : (calls.setResolution owner key r).resolution owner key = r := by
  simp [resolution, setResolution]

theorem resolution_setResolution_of_ne (calls : CallState) (owner : Nat) {key other : ScopeKey}
    (different : other ≠ key) (r : Resolution) :
    (calls.setResolution owner key r).resolution owner other = calls.resolution owner other := by
  have pairs : (owner, other) ≠ (owner, key) := fun same => different (Prod.ext_iff.mp same).2
  rw [resolution, setResolution, List.lookup_cons, beq_false_of_ne pairs, lookup_filter_ne pairs]
  rfl

/-- What is remembered of the references that a scope binds for `owner` is what they denote now. -/
def Recalls (around : Surroundings) (owner : Nat) (scope : Scope) (calls : CallState) : Prop :=
  ∀ key ref, scope.get? key = some (.reference ref) →
    ∀ target, (calls.resolution owner key).settled? = some target → ref.target around = .ok target

/-- Nothing is remembered of a new owner. -/
theorem recalls_of_new {around : Surroundings} {owner : Nat} {scope : Scope} {calls : CallState}
    (new : ∀ entry ∈ calls.resolutions, entry.1.1 ≠ owner) : calls.Recalls around owner scope := by
  intro key ref _ target settled
  have nothing : calls.resolutions.lookup (owner, key) = none := by
    rw [List.lookup_eq_none_iff]
    intro entry member
    exact bne_iff_ne.mpr fun same => new entry member (congrArg Prod.fst same).symm
  rw [resolution, nothing] at settled
  cases settled

end CallState

section Remembering
variable {around : Surroundings} {owner : Nat} {scope : Scope}

theorem Resolution.settled?_after {outcome : Except ReferenceError (Option ClassId)}
    {target : Option ClassId} (settled : (after outcome).settled? = some target) :
    outcome = .ok target := by
  match outcome with
  | .ok (some c) | .ok none => cases settled; rfl
  | .error e => cases settled

theorem Running.resolve_opened (op : ReferenceOperand) (calls : CallState) :
    (Running.resolve around owner op).run.run calls =
      (match ((calls.resolution owner op.key).use around op.reference).1 with
        | .ok c => pure c
        | .error e => throw e : Checking (Option ClassId)).run.run
        (calls.setResolution owner op.key
          ((calls.resolution owner op.key).use around op.reference).2) := rfl

theorem Running.resolve_run (op : ReferenceOperand) (calls : CallState) :
    (Running.resolve around owner op).run.run calls =
      let used := (calls.resolution owner op.key).use around op.reference
      (used.1, calls.setResolution owner op.key used.2) := by
  rw [resolve_opened]
  rcases (calls.resolution owner op.key).use around op.reference with ⟨_ | _, after⟩ <;> rfl

/-- Using a reference gives what it denotes now, and remembers nothing else. -/
theorem Running.resolve_recalls {op : ReferenceOperand} {calls : CallState}
    (bound : scope.get? op.key = some (.reference op.reference))
    (recalls : calls.Recalls around owner scope) :
    ((Running.resolve around owner op).run.run calls).1 = op.reference.target around ∧
      ((Running.resolve around owner op).run.run calls).2.Recalls around owner scope := by
  have remembers {state : Resolution}
      (settles : ∀ target, state.settled? = some target → op.reference.target around = .ok target) :
      (calls.setResolution owner op.key state).Recalls around owner scope := by
    intro key ref there target settled
    by_cases same : key = op.key
    · subst same
      rw [CallState.resolution_setResolution_self] at settled
      rw [bound] at there
      cases there
      exact settles target settled
    · rw [CallState.resolution_setResolution_of_ne calls owner same] at settled
      exact recalls key ref there target settled
  rw [Running.resolve_run]
  unfold Resolution.use
  cases settled : (calls.resolution owner op.key).settled? with
  | some target =>
    refine ⟨(recalls op.key op.reference bound target settled).symm, remembers fun other same => ?_⟩
    exact recalls op.key op.reference bound other same
  | none => exact ⟨rfl, remembers fun target => Resolution.settled?_after⟩

/-- A computation on remembered references ends as one that looks them up anew. -/
def Accord.remembering (around : Surroundings) (owner : Nat) (scope : Scope) :
    Accord Checking (Except ReferenceError) where
  rel x y := ∀ calls : CallState, calls.Recalls around owner scope →
    (x.run.run calls).1 = y ∧ (x.run.run calls).2.Recalls around owner scope
  ofPure a := fun calls recalls => ⟨rfl, recalls⟩
  ofBind := by
    intro α β x y f g first next calls recalls
    obtain ⟨same, recallsAfter⟩ := first calls recalls
    rw [run_run_bind]
    rcases outcome : x.run.run calls with ⟨e | a, after⟩ <;> rw [outcome] at same recallsAfter <;>
      subst same
    · exact ⟨rfl, recallsAfter⟩
    · exact next a after recallsAfter

/-- While nothing changes around, a check on remembered references gives the verdict that it gives
when every reference is looked up anew. -/
theorem Check.accepts_remembering {P : Hint → Prop} {c : Check} (closed : c.ClosedIn P scope)
    {calls : CallState} (recalls : calls.Recalls around owner scope) (random : UInt32) (v : Value) :
    ((c.accepts (Running.oracle around owner random) v).run.run calls).1 =
      c.accepts (.direct around random) v :=
  (accord_accepts (.remembering around owner scope) (Running.oracle around owner random) _ c v
    (fun op member _ recalls => Running.resolve_recalls (closed op member).1 recalls)
    calls recalls).1

end Remembering
end HintCheck
