import HintCheck.Proofs.Caching
import HintCheck.Proofs.Closure
import HintCheck.Proofs.Realization
import HintCheck.Session

/-!
Checks in a session. What is kept of earlier classifications plays no part: the check of a hint is
the one that is built from its classification by the rules. So it performs the test that the hint
means, and closes over references that its scope binds.
-/
namespace HintCheck

/-- The label of a classified hint plays no part in its check. -/
theorem Builder.build_resembles {b : Builder} {c found : Classified} (alike : c.Resembles found)
    {ctx : Context} {pith : String} : b.build ctx pith c = b.build ctx pith found := by
  have origins : b.originOperands c = b.originOperands found := by
    rw [originOperands, originOperands, alike.origin, alike.text]
  have reference : b.referenceOperand ctx c.hint = b.referenceOperand ctx found.hint := by
    rw [referenceOperand, referenceOperand, alike.reference, alike.text]
  rw [build, buildWithin, buildWithin]
  unfold shape tuple container mapping classValue
  rw [alike.sign, alike.data, alike.children, alike.text, origins, reference]

namespace Session

/-- A definition changes the catalog and nothing else. -/
theorem defineClass_state (s : Session) (d : ClassDraft) :
    ((defineClass d).run.run s).2 =
      { s with catalog := ((s.catalog.define d).toOption.map Prod.snd).getD s.catalog } := by
  have got : (get : ExceptT ClassError Operation Session).run.run s = (.ok s, s) := rfl
  unfold defineClass
  rw [run_run_bind, got]
  dsimp only
  rcases s.catalog.define d with e | ⟨c, catalog⟩ <;> rfl

theorem defineClass_of_linearize {s : Session} {d : ClassDraft} {order : List ClassId}
    (linearized : s.catalog.linearize d.parents = .ok order) :
    ((defineClass d).run.run s).2 = { s with
      catalog := { s.catalog with defined := s.catalog.defined.push (d.toClass order) } } := by
  rw [defineClass_state, Catalog.define_of_linearize linearized]
  rfl

theorem classify_run (s : Session) (ctx : Context) (h : Hint) :
    (classify ctx h).run.run s =
      match s.cache.classify s.catalog s.substitutes s.nextLabel ctx h with
      | .error e => (.error e, { s with nextLabel := s.nextLabel + 1 })
      | .ok (c, cache) => (.ok c, { s with nextLabel := s.nextLabel + 1, cache }) := by
  have opened : (classify ctx h).run.run s =
      ((match s.cache.classify s.catalog s.substitutes s.nextLabel ctx h with
      | .error e => throw e
      | .ok (c, cache) => do
        set { s with nextLabel := s.nextLabel + 1, cache }
        return c : ExceptT HintError Operation Classified)).run.run
          { s with nextLabel := s.nextLabel + 1 } := rfl
  rw [opened]
  rcases s.cache.classify s.catalog s.substitutes s.nextLabel ctx h with e | ⟨c, cache⟩ <;> rfl

/-- Building a check is classifying the hint and building the check of what was found. -/
theorem buildCheck_run (s : Session) (ctx : Context) (pith : String) (h : Hint) (scope : Scope) :
    ((buildCheck ctx pith h scope).run.run s).1 = (do
      let (c, _) ← s.cache.classify s.catalog s.substitutes s.nextLabel ctx h
      let built :=
        Building.outcome (Builder.build ⟨s.catalog, s.substitutes, ctx.conf⟩ ctx pith c) scope
      return (← built.1, built.2)) := by
  rw [buildCheck, run_run_bind, classify_run]
  rcases s.cache.classify s.catalog s.substitutes s.nextLabel ctx h with e | ⟨c, cache⟩
  · rfl
  · show ((match Building.outcome
        (Builder.build ⟨s.catalog, s.substitutes, ctx.conf⟩ ctx pith c) scope with
      | (.ok check, scope) => pure (check, scope)
      | (.error e, _) => throw e : ExceptT HintError Operation (Check × Scope)).run.run _).1 = _
    dsimp only [bind, Except.bind]
    rcases Building.outcome _ scope with ⟨_ | _, _⟩ <;> rfl

variable {s : Session} {ctx : Context} {h : Hint} {scope : Scope} {names : Naming}

/-- The check of a hint is built from its classification by the rules. -/
theorem buildCheck_eq (named : h.WellNamed names)
    (grown : s.cache.Grown names s.catalog s.substitutes) (pith : String) :
    ((buildCheck ctx pith h scope).run.run s).1 = (do
      let c ← h.classify s.catalog s.substitutes ctx
      let built :=
        Building.outcome (Builder.build ⟨s.catalog, s.substitutes, ctx.conf⟩ ctx pith c) scope
      return (← built.1, built.2)) := by
  have outcome := grown.faithful.outcome named s.nextLabel ctx
  rw [buildCheck_run]
  cases kept : s.cache.classify s.catalog s.substitutes s.nextLabel ctx h with
  | error e =>
    rw [kept] at outcome
    rw [outcome.error_left]
    rfl
  | ok result =>
    rw [kept] at outcome
    obtain ⟨c, classified, relabels⟩ := outcome.ok_left
    rw [classified]
    dsimp only [bind, Except.bind]
    rw [Builder.build_resembles relabels.resembles]

theorem outcome_of_buildCheck (named : h.WellNamed names)
    (grown : s.cache.Grown names s.catalog s.substitutes) {pith : String} {check : Check}
    {after : Scope} (built : ((buildCheck ctx pith h scope).run.run s).1 = .ok (check, after)) :
    ∃ c, h.classify s.catalog s.substitutes ctx = .ok c ∧
      Building.outcome (Builder.build ⟨s.catalog, s.substitutes, ctx.conf⟩ ctx pith c) scope =
        (.ok check, after) := by
  rw [buildCheck_eq named grown] at built
  cases classified : h.classify s.catalog s.substitutes ctx with
  | error e => rw [classified] at built; cases built
  | ok c =>
    rw [classified] at built
    dsimp only [bind, Except.bind] at built
    rcases run : Building.outcome _ scope with ⟨e | found, left⟩ <;> rw [run] at built <;>
      cases built
    exact ⟨c, rfl, run⟩

/-- The check of a hint performs the test that the hint means. -/
theorem buildCheck_performs {m : Type → Type} [Monad m] [LawfulMonad m] {r : Reading m}
    {o : Oracle m} (reader : r.toBuilder = ⟨s.catalog, s.substitutes, ctx.conf⟩)
    (suits : o.Suits r scope) (wellKept : scope.WellKept) (named : h.WellNamed names)
    (grown : s.cache.Grown names s.catalog s.substitutes) (pith : String) :
    Building.Alike (fun built t => built.1.Performs o t)
      ((buildCheck ctx pith h scope).run.run s).1 (do
        r.meaning ctx (← h.classify s.catalog s.substitutes ctx)) := by
  rw [buildCheck_eq named grown, ← reader]
  cases h.classify s.catalog s.substitutes ctx with
  | error e => exact rfl
  | ok c => exact (Builder.build_performs suits wellKept ctx pith c).map_left fun _ _ => id

/-- The references of the check of a hint are bound in the scope that is left, and stand for hints
that the hint leads to. -/
theorem buildCheck_closed {P : Hint → Prop} (hereditary : Hereditary s.catalog s.substitutes P)
    (keeps : ctx.Keeps P) (holds : P h) (wellKept : scope.WellKept) (named : h.WellNamed names)
    (grown : s.cache.Grown names s.catalog s.substitutes) {pith : String} {check : Check}
    {after : Scope}
    (built : ((buildCheck ctx pith h scope).run.run s).1 = .ok (check, after)) :
    check.ClosedIn P after := by
  obtain ⟨c, classified, run⟩ := outcome_of_buildCheck named grown built
  exact Builder.build_closed (b := ⟨s.catalog, s.substitutes, ctx.conf⟩) hereditary wellKept keeps
    (hereditary.ofClassify keeps holds classified) run

end Session
end HintCheck
