import HintCheck.Proofs.Weakening

/-!
Verdicts of generated checks. In a session a hint means a test, and the check that is generated from
it gives the verdicts of that test, whatever is remembered of the references in its scope. Where a
hint stands makes no difference to this, unless it is the hint of a parameter.
-/
namespace HintCheck

/-- Where checks run: what is around them, the random number of the call, and for each scope a
memory of its references that is right. -/
structure Frame where
  around : Surroundings
  random : UInt32
  owner : Scope → Nat
  calls : Scope → CallState
  recalls : ∀ scope, (calls scope).Recalls around (owner scope) scope

namespace Frame

/-- What a generated check says of a value. -/
def verdict (f : Frame) (made : Check × Scope) (v : Value) : Except ReferenceError Bool :=
  ((made.1.accepts (Running.oracle f.around (f.owner made.2) f.random) v).run.run
    (f.calls made.2)).1

/-- The frame in which nothing has been looked up yet. -/
def new (around : Surroundings) (random : UInt32) (calls : CallState)
    (empty : calls.resolutions = []) : Frame :=
  ⟨around, random, fun _ => 0, fun _ => calls, fun _ =>
    CallState.recalls_of_new (by simp [empty])⟩

end Frame

namespace Reading

variable {m : Type → Type} [Monad m] (r : Reading m)

theorem subclassTests_nested (ctx : Context) (bound : Nat) (h : Hint) :
    r.subclassTests ctx bound h = r.subclassTests ctx.nested bound h := by
  induction bound generalizing h with
  | zero => rfl
  | succ bound ih =>
    rw [subclassTests, subclassTests, funext ih]
    rfl

/-- The meaning of a classified hint does not depend on where the hint stands. -/
theorem meaningWithin_nested (room : Nat) (ctx : Context) (c : Classified) :
    r.meaningWithin room ctx c = r.meaningWithin room ctx.nested c := by
  induction room generalizing c with
  | zero => rfl
  | succ room ih =>
    unfold meaningWithin shape
    split
    case h_8 validators inner _ _ => rw [ih inner]
    case h_13 =>
      unfold classValue
      simp only [r.subclassTests_nested ctx]
      rfl
    all_goals rfl

/-- The test that a hint means, with room for `room` hints nested in each other. -/
def testWithin (room : Nat) (ctx : Context) (h : Hint) : Except HintError (Option (Test m)) := do
  r.meaningWithin room ctx (← h.classify r.catalog r.substitutes ctx)

/-- A hint that is no parameter's means what it means inside another hint. -/
theorem testWithin_nested {ctx : Context} (notParam : ∀ kind, ctx.position ≠ .param kind)
    (room : Nat) (h : Hint) : r.testWithin room ctx h = r.testWithin room ctx.nested h := by
  unfold testWithin
  rw [Hint.classify_alike (Context.readsAlike_nested notParam)]
  refine bind_congr fun c => ?_
  exact r.meaningWithin_nested room ctx c

end Reading

namespace Session

variable {s : Session} {h : Hint} {scope : Scope} {names : Naming}

/-- The reader of hints in a session, for checks that run in a frame. -/
def reading (s : Session) (conf : Config) (scope : Scope) (f : Frame) :
    Reading (Except ReferenceError) :=
  .direct ⟨s.catalog, s.substitutes, conf⟩ scope f.around f.random

/-- A generated check gives the verdicts of the test that its hint means. -/
theorem buildCheck_verdict (wellKept : scope.WellKept) (named : h.WellNamed names)
    (grown : s.cache.Grown names s.catalog s.substitutes) (ctx : Context) (pith : String)
    (f : Frame) :
    Building.Alike (fun made t => ∀ v, f.verdict made v = t.getD .pass v)
      ((buildCheck ctx pith h scope).run.run s).1
      ((s.reading ctx.conf scope f).testWithin (maxNesting + 1) ctx h) := by
  have performs : Building.Alike (fun made t => made.1.Performs (.direct f.around f.random) t)
      ((buildCheck ctx pith h scope).run.run s).1
      ((s.reading ctx.conf scope f).testWithin (maxNesting + 1) ctx h) :=
    buildCheck_performs rfl (Oracle.suits_direct _ _ _ _) wellKept named grown pith
  cases built : ((buildCheck ctx pith h scope).run.run s).1 with
  | error e =>
    rw [built] at performs
    rw [performs.error_left]
    rfl
  | ok made =>
    rw [built] at performs
    obtain ⟨t, means, performed⟩ := performs.ok_left
    rw [means]
    intro v
    have closed := buildCheck_closed (hereditary_true _ _) ctx.keeps_true trivial wellKept named
      grown built
    rw [← performed.accepts v]
    exact Check.accepts_remembering closed (f.recalls made.2) f.random v

end Session
end HintCheck
