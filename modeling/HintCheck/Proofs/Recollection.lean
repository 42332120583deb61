import HintCheck.Check.Blame
import HintCheck.Proofs.Remembering

/-!
Verdicts and diagnoses on whatever is remembered. What a reference of a check is taken for is fixed
before the check starts: what is remembered of it, be it out of date, or else what it denotes now. A
check and a diagnosis settle references on their way, but only to what they are taken for anyhow, so
each of them ends as if the references were looked up in a table.
-/
namespace HintCheck

/-! ### Diagnoses in accord -/

namespace Check

section Search
variable {m n : Type → Type} [Monad m] [Monad n] (accord : Accord m n)

/-- A failure that is found first, or else another. -/
theorem accord_orElse {x : m (Option Failure)} {y : n (Option Failure)}
    {next : m (Option Failure)} {other : n (Option Failure)} (first : accord.rel x y)
    (second : accord.rel next other) :
    accord.rel (do match ← x with | some failure => pure (some failure) | none => next)
      (do match ← y with | some failure => pure (some failure) | none => other) := by
  refine accord.ofBind first fun found => ?_
  cases found with
  | some failure => exact accord.ofPure _
  | none => exact second

theorem accord_firstFailure {α : Type} {find : α → m (Option Failure)}
    {other : α → n (Option Failure)} (each : ∀ a, accord.rel (find a) (other a)) (items : List α) :
    accord.rel (firstFailure find items) (firstFailure other items) := by
  induction items with
  | nil => exact accord.ofPure none
  | cons a rest ih => exact accord_orElse accord (each a) ih

end Search
end Check

section Accord
variable {m n : Type → Type} [Monad m] [Monad n] [MonadExcept ReferenceError m]
  [MonadExcept ReferenceError n]

/-- A relation that is kept where errors are caught, too. -/
structure CatchingAccord (m n : Type → Type) [Monad m] [Monad n] [MonadExcept ReferenceError m]
    [MonadExcept ReferenceError n] extends Accord m n where
  ofCatch : ∀ {α : Type} {x : m α} {y : n α} {f : ReferenceError → m α} {g : ReferenceError → n α},
    rel x y → (∀ e, rel (f e) (g e)) → rel (tryCatch x f) (tryCatch y g)

variable (accord : CatchingAccord m n)

namespace Check

variable (o : Oracle m) (resolve : ReferenceOperand → n (Option ClassId))

theorem accord_acceptsOrFails (c : Check) (v : Value)
    (agree : ∀ op ∈ c.references, accord.rel (o.resolve op) (resolve op)) :
    accord.rel (acceptsOrFails o c v) (acceptsOrFails ⟨o.catalog, o.random, resolve⟩ c v) :=
  accord.ofCatch (accord_accepts accord.toAccord o resolve c v agree) fun _ => accord.ofPure false

theorem accord_passesOutermost (c : Check) (v : Value)
    (agree : ∀ op ∈ c.references, accord.rel (o.resolve op) (resolve op)) :
    accord.rel (passesOutermost o c v) (passesOutermost ⟨o.catalog, o.random, resolve⟩ c v) := by
  match c with
  | validators _ child vs =>
    have inside : ∀ op ∈ child.references, accord.rel (o.resolve op) (resolve op) :=
      fun op member => agree op (by rwa [references])
    rw [passesOutermost, passesOutermost]
    exact accord.ofBind (accord_acceptsOrFails accord o resolve child v inside) fun _ =>
      accord.ofIte (accord.ofPure _) (accord_passesOutermost child v inside)
  | all _ [] => exact accord.ofPure _
  | all _ (first :: rest) =>
    rw [references, referencesAll] at agree
    exact accord_acceptsOrFails accord o resolve first v
      fun op member => agree op (List.mem_append_left _ member)
  | pass _ | fail _ | isInstance _ _ | isSubclass _ _ | forwardInstance _ _ | forwardSubclass _ _
  | any _ _ | sequence _ _ _ _ | reiterable _ _ _ _ | mapping _ _ _ _ _ | tupleFixed _ _ _ _
  | literal _ _ | attr _ _ _ | typedDict _ _ _ => exact accord.ofPure _
termination_by structural c

mutual

/-- Oracles in accord about the references of a check give diagnoses in accord. -/
theorem accord_blame (c : Check) (v : Value) (path : String)
    (agree : ∀ op ∈ c.references, accord.rel (o.resolve op) (resolve op)) :
    accord.rel (blame o c v path) (blame ⟨o.catalog, o.random, resolve⟩ c v path) := by
  have verdict := accord_accepts accord.toAccord o resolve c v agree
  cases c with
  | pass | fail => exact accord.ofPure _
  | isInstance | isSubclass | forwardInstance | forwardSubclass | literal =>
    rw [blame, blame]
    exact accord.ofBind verdict fun _ => accord.ofIte (accord.ofPure _) (accord.ofPure _)
  | any _ members =>
    rw [blame, blame]
    refine accord.ofBind verdict fun _ => accord.ofIte (accord.ofPure _) ?_
    exact accord_orElse accord.toAccord (accord_blameMembers members v path fun op member =>
      agree op (by rwa [references])) (accord.ofPure _)
  | all _ parts =>
    rw [blame, blame]
    refine accord.ofBind verdict fun _ => accord.ofIte (accord.ofPure _) ?_
    exact accord_orElse accord.toAccord (accord_blameParts parts v path fun op member =>
      agree op (by rwa [references])) (accord.ofPure _)
  | sequence _ origin item exhaustive | reiterable _ origin item exhaustive =>
    have inside (x : Value) (path : String) :=
      accord_blame item x path fun op member => agree op (by rwa [references])
    rw [blame, blame]
    refine accord.ofBind verdict fun _ => accord.ofIte (accord.ofPure _) ?_
    refine accord.ofIte (accord.ofPure _) (accord_firstFailure accord.toAccord (fun entry => ?_) _)
    exact inside entry.2 _
  | mapping _ origin key value exhaustive =>
    rw [references] at agree
    rw [blame, blame]
    refine accord.ofBind verdict fun _ => accord.ofIte (accord.ofPure _) ?_
    refine accord.ofIte (accord.ofPure _) (accord_firstFailure accord.toAccord (fun pair => ?_) _)
    exact accord_orElse accord.toAccord
      (accord_blameOption key pair.1 _ fun op member => agree op (List.mem_append_left _ member))
      (accord_blameOption value pair.2 _ fun op member => agree op (List.mem_append_right _ member))
  | tupleFixed _ origin len items =>
    rw [blame, blame]
    refine accord.ofBind verdict fun _ => accord.ofIte (accord.ofPure _) ?_
    refine accord.ofIte (accord.ofPure _) (accord.ofIte (accord.ofPure _) ?_)
    exact accord_blameItems items v path fun op member => agree op (by rwa [references])
  | validators _ child vs =>
    rw [blame, blame]
    refine accord.ofBind verdict fun _ => accord.ofIte (accord.ofPure _) ?_
    refine accord_orElse accord.toAccord ?_ (accord.ofPure _)
    exact accord_blame child v path fun op member => agree op (by rwa [references])
  | attr _ name child =>
    rw [blame, blame]
    refine accord.ofBind verdict fun _ => accord.ofIte (accord.ofPure _) ?_
    show accord.rel (match o.catalog.attr? v name with | some a => _ | none => _) _
    cases o.catalog.attr? v name with
    | some a => exact accord_blame child a _ fun op member => agree op (by rwa [references])
    | none => exact accord.ofPure none
  | typedDict _ origin required =>
    rw [blame, blame]
    refine accord.ofBind verdict fun _ => accord.ofIte (accord.ofPure _) ?_
    exact accord.ofIte (accord.ofPure _) (accord.ofPure _)
termination_by structural c

theorem accord_blameMembers (members : List Check) (v : Value) (path : String)
    (agree : ∀ op ∈ referencesAll members, accord.rel (o.resolve op) (resolve op)) :
    accord.rel (blameMembers o members v path)
      (blameMembers ⟨o.catalog, o.random, resolve⟩ members v path) := by
  cases members with
  | nil => exact accord.ofPure _
  | cons c rest =>
    rw [referencesAll] at agree
    have here : ∀ op ∈ c.references, accord.rel (o.resolve op) (resolve op) :=
      fun op member => agree op (List.mem_append_left _ member)
    have others :=
      accord_blameMembers rest v path fun op member => agree op (List.mem_append_right _ member)
    rw [blameMembers, blameMembers]
    refine accord.ofBind (accord_passesOutermost accord o resolve c v here) fun _ => ?_
    exact accord.ofIte (accord_orElse accord.toAccord (accord_blame c v path here) others) others
termination_by structural members

theorem accord_blameParts (parts : List Check) (v : Value) (path : String)
    (agree : ∀ op ∈ referencesAll parts, accord.rel (o.resolve op) (resolve op)) :
    accord.rel (blameParts o parts v path)
      (blameParts ⟨o.catalog, o.random, resolve⟩ parts v path) := by
  cases parts with
  | nil => exact accord.ofPure _
  | cons c rest =>
    rw [referencesAll] at agree
    rw [blameParts, blameParts]
    exact accord_orElse accord.toAccord
      (accord_blame c v path fun op member => agree op (List.mem_append_left _ member))
      (accord_blameParts rest v path fun op member => agree op (List.mem_append_right _ member))
termination_by structural parts

theorem accord_blameOption (c : Option Check) (v : Value) (path : String)
    (agree : ∀ op ∈ referencesOption c, accord.rel (o.resolve op) (resolve op)) :
    accord.rel (blameOption o c v path)
      (blameOption ⟨o.catalog, o.random, resolve⟩ c v path) := by
  cases c with
  | none => exact accord.ofPure _
  | some c =>
    rw [blameOption, blameOption]
    exact accord_blame c v path fun op member => agree op (by rwa [referencesOption])
termination_by structural c

theorem accord_blameItems (items : List (Nat × Check)) (v : Value) (path : String)
    (agree : ∀ op ∈ referencesItems items, accord.rel (o.resolve op) (resolve op)) :
    accord.rel (blameItems o items v path)
      (blameItems ⟨o.catalog, o.random, resolve⟩ items v path) := by
  match items with
  | [] => exact accord.ofPure _
  | (index, c) :: rest =>
    rw [referencesItems] at agree
    have others :=
      accord_blameItems rest v path fun op member => agree op (List.mem_append_right _ member)
    rw [blameItems, blameItems]
    cases v.at? index with
    | none => exact others
    | some x =>
      exact accord_orElse accord.toAccord
        (accord_blame c x _ fun op member => agree op (List.mem_append_left _ member)) others
termination_by structural items

end

end Check
end Accord

/-! ### What references are taken for -/

namespace CallState

variable (around : Surroundings) (owner : Nat)

/-- What a reference of `owner` is taken for: what is remembered of it, or else what it denotes. -/
def takenFor (calls : CallState) (op : ReferenceOperand) :
    Except ReferenceError (Option ClassId) :=
  ((calls.resolution owner op.key).use around op.reference).1

/-- The references that a scope binds for `owner` are taken for the same. -/
def TakesAlike (scope : Scope) (calls later : CallState) : Prop :=
  ∀ op : ReferenceOperand, scope.get? op.key = some (.reference op.reference) →
    later.takenFor around owner op = calls.takenFor around owner op

variable {around owner} in
theorem TakesAlike.refl {scope : Scope} (calls : CallState) :
    calls.TakesAlike around owner scope calls :=
  fun _ _ => rfl

end CallState

/-- Using a reference settles it, if at all, to what it is taken for. -/
theorem Resolution.use_use (around : Surroundings) (ref : Reference) (state : Resolution) :
    ((state.use around ref).2.use around ref).1 = (state.use around ref).1 := by
  unfold use
  cases settled : state.settled? with
  | some target => simp only [settled]
  | none => rcases ref.target around with e | _ | c <;> rfl

/-- The oracle that looks every reference up in what is remembered, and settles none. -/
def Oracle.recalling (around : Surroundings) (owner : Nat) (calls : CallState) (random : UInt32) :
    Oracle (Except ReferenceError) :=
  ⟨around.catalog, random, calls.takenFor around owner⟩

section Recalling
variable {around : Surroundings} {owner : Nat} {scope : Scope} {calls : CallState}

theorem Running.resolve_takesAlike {op : ReferenceOperand} {later : CallState}
    (bound : scope.get? op.key = some (.reference op.reference))
    (alike : calls.TakesAlike around owner scope later) :
    ((Running.resolve around owner op).run.run later).1 = calls.takenFor around owner op ∧
      calls.TakesAlike around owner scope ((Running.resolve around owner op).run.run later).2 := by
  rw [Running.resolve_run]
  refine ⟨alike op bound, fun other boundOther => ?_⟩
  rw [← alike other boundOther]
  unfold CallState.takenFor
  by_cases same : other.key = op.key
  · -- Under one name the scope binds one reference.
    rw [same, bound, Option.some.injEq, ScopeEntry.reference.injEq] at boundOther
    rw [same, ← boundOther, CallState.resolution_setResolution_self, Resolution.use_use]
  · rw [CallState.resolution_setResolution_of_ne later owner same]

theorem Checking.run_tryCatch {α : Type} (x : Checking α) (f : ReferenceError → Checking α)
    (calls : CallState) :
    (tryCatch x f : Checking α).run.run calls =
      match x.run.run calls with
      | (.ok a, after) => (.ok a, after)
      | (.error e, after) => (f e).run.run after := by
  simp only [ExceptT.run_tryCatch, StateT.run_bind]
  show (match x.run.run calls with | (a, s) => _) = _
  rcases x.run.run calls with ⟨_ | _, after⟩ <;> rfl

/-- A computation ends as one that looks references up in what was remembered at first. -/
def CatchingAccord.recalling (around : Surroundings) (owner : Nat) (scope : Scope)
    (calls : CallState) : CatchingAccord Checking (Except ReferenceError) where
  rel x y := ∀ later : CallState, calls.TakesAlike around owner scope later →
    (x.run.run later).1 = y ∧ calls.TakesAlike around owner scope (x.run.run later).2
  ofPure a := fun _ alike => ⟨rfl, alike⟩
  ofBind := by
    intro α β x y f g first next later alike
    obtain ⟨same, alikeAfter⟩ := first later alike
    rw [run_run_bind]
    rcases outcome : x.run.run later with ⟨e | a, after⟩ <;> rw [outcome] at same alikeAfter <;>
      subst same
    · exact ⟨rfl, alikeAfter⟩
    · exact next a after alikeAfter
  ofCatch := by
    intro α x y f g first next later alike
    obtain ⟨same, alikeAfter⟩ := first later alike
    rw [Checking.run_tryCatch]
    rcases outcome : x.run.run later with ⟨e | a, after⟩ <;> rw [outcome] at same alikeAfter <;>
      subst same
    · exact next e after alikeAfter
    · exact ⟨rfl, alikeAfter⟩

namespace Check

variable {P : Hint → Prop} {c : Check} (closed : c.ClosedIn P scope)
include closed

/-- A verdict is the one on what is remembered at first, and it changes nothing about that. -/
theorem accepts_recalling {later : CallState} (alike : calls.TakesAlike around owner scope later)
    (random : UInt32) (v : Value) :
    ((c.accepts (Running.oracle around owner random) v).run.run later).1 =
        c.accepts (.recalling around owner calls random) v ∧
      calls.TakesAlike around owner scope
        ((c.accepts (Running.oracle around owner random) v).run.run later).2 :=
  accord_accepts (CatchingAccord.recalling around owner scope calls).toAccord
    (Running.oracle around owner random) _ c v
    (fun op member _ alike => Running.resolve_takesAlike (closed op member).1 alike) later alike

/-- A diagnosis is the one on what is remembered at first. -/
theorem diagnose_recalling {later : CallState} (alike : calls.TakesAlike around owner scope later)
    (random : UInt32) (v : Value) :
    ((c.diagnose (Running.oracle around owner random) v).run.run later).1 =
      c.diagnose (.recalling around owner calls random) v :=
  (accord_blame (CatchingAccord.recalling around owner scope calls)
    (Running.oracle around owner random) _ c v ""
    (fun op member _ alike => Running.resolve_takesAlike (closed op member).1 alike) later alike).1

end Check
end Recalling
end HintCheck
