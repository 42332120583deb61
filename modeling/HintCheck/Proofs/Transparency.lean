import HintCheck.Proofs.Sessions

/-!
What is kept of earlier classifications cannot be seen. Hints are classified one after the other, at
any positions and in any contexts, and each call ends as the rules say: with the same error, or with
the same classified hint, in which a hint made in passing may have been given a label.
-/
namespace HintCheck.Session

variable {names : Naming}

/-- Classifies hints one after the other; a call that fails leaves the others to run. -/
def classifyEach : List (Context × Hint) → Operation (List (Except HintError Classified))
  | [] => pure []
  | (ctx, h) :: rest => do
    let outcome ← (classify ctx h).run
    let others ← classifyEach rest
    return outcome :: others

theorem classifyEach_cons (ctx : Context) (h : Hint) (rest : List (Context × Hint)) (s : Session) :
    ((classifyEach ((ctx, h) :: rest)).run s).1 =
      ((classify ctx h).run.run s).1 ::
        ((classifyEach rest).run ((classify ctx h).run.run s).2).1 := by
  rfl

/-- One call ends as the rules say, changes no definition, and keeps no more than the rules say. -/
theorem classify_faithful {s : Session} {h : Hint} (named : h.WellNamed names)
    (grown : s.cache.Grown names s.catalog s.substitutes) (ctx : Context) :
    Building.Alike Classified.Relabels ((classify ctx h).run.run s).1
        (h.classify s.catalog s.substitutes ctx) ∧
      ((classify ctx h).run.run s).2.catalog = s.catalog ∧
      ((classify ctx h).run.run s).2.substitutes = s.substitutes ∧
      ((classify ctx h).run.run s).2.cache.Grown names s.catalog s.substitutes := by
  have outcome := grown.faithful.outcome named s.nextLabel ctx
  rw [classify_run]
  cases kept : s.cache.classify s.catalog s.substitutes s.nextLabel ctx h with
  | error e =>
    rw [kept] at outcome
    rw [outcome.error_left]
    exact ⟨rfl, rfl, rfl, grown⟩
  | ok result =>
    rw [kept] at outcome
    obtain ⟨found, classified, relabels⟩ := outcome.ok_left
    rw [classified]
    exact ⟨relabels, rfl, rfl, .classify grown named kept⟩

/-- A run of calls from any cache that such calls have filled. -/
theorem classifyEach_faithful {s : Session} (grown : s.cache.Grown names s.catalog s.substitutes)
    {calls : List (Context × Hint)} (named : ∀ call ∈ calls, call.2.WellNamed names) :
    calls.Forall₂ (fun call outcome => Building.Alike Classified.Relabels outcome
        (call.2.classify s.catalog s.substitutes call.1)) ((classifyEach calls).run s).1 := by
  induction calls generalizing s with
  | nil => exact .nil
  | cons call rest ih =>
    obtain ⟨ctx, h⟩ := call
    obtain ⟨alike, catalog, substitutes, grownAfter⟩ :=
      classify_faithful (named (ctx, h) (by simp)) grown ctx
    have others := ih (s := ((classify ctx h).run.run s).2)
      (by rw [catalog, substitutes]; exact grownAfter)
      fun call member => named call (List.mem_cons_of_mem _ member)
    rw [catalog, substitutes] at others
    rw [classifyEach_cons]
    exact .cons alike others

/-- From an empty cache, every call of a run ends as it would without a cache and without the
shortcut for plain classes. -/
theorem classifyEach_transparent {s : Session} (empty : s.cache = .empty)
    {calls : List (Context × Hint)} (named : ∀ call ∈ calls, call.2.WellNamed names) :
    calls.Forall₂ (fun call outcome => Building.Alike Classified.Relabels outcome
        (call.2.classify s.catalog s.substitutes call.1)) ((classifyEach calls).run s).1 := by
  refine classifyEach_faithful ?_ named
  rw [empty]
  exact .empty

/-- One option is classified in two modules and as a variadic parameter, a class at sight, and a
value is no hint however often it is met. -/
theorem classifyEach_transparent_option :
    let option := Hint.typing (some 7) .optional [Builtin.int]
    let ctx := Context.bare .standard
    let calls := [(ctx, option), (ctx.inModule "m", option),
      (ctx.placedAt (.param .varPositional), option), (ctx, Builtin.int), (ctx, .value none .none),
      (ctx, .value none .none)]
    calls.Forall₂ (fun call outcome => Building.Alike Classified.Relabels outcome
        (call.2.classify start.catalog start.substitutes call.1))
      ((classifyEach calls).run start).1 := by
  intro option ctx calls
  let names : Naming := ⟨fun _ => option, fun _ => .instanceOf []⟩
  have namedOption : option.WellNamed names :=
    .intro (fun _ _ => rfl) nofun (by simpa [option, Hint.typing, Hint.parts] using .ofClass _)
  have named : ∀ call ∈ calls, call.2.WellNamed names := by
    simp only [calls, List.forall_mem_cons, List.not_mem_nil, false_implies, implies_true]
    exact ⟨namedOption, namedOption, namedOption, .ofClass _, .ofValue _, .ofValue _, trivial⟩
  exact classifyEach_transparent rfl named

end HintCheck.Session
