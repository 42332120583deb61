import HintCheck.Proofs.Arguments
import HintCheck.Proofs.Recollection
import HintCheck.Proofs.Sessions

/-!
What a wrapper adds to a function. Decoration keeps, for each parameter and for the result, the
check that is generated from its hint, unless every value passes it; the position of a check is that
of its parameter. In a call of the wrapper the arguments are bound as in a call of the function, the
checks of what was passed are made in the order of the parameters, the body runs once if all of them
accept, and the result is checked before it is handed on.
-/
namespace HintCheck

/-! ### Bound arguments -/

/-- The value of a parameter in a call. If no argument was given for it, the value is its default,
or the empty collection of a variadic parameter. -/
structure Bound.Belongs (p : Parameter) (b : Bound) : Prop where
  name : b.name = p.name
  trusted : b.passed = false → p.default = some b.value ∨
    p.kind = .varPositional ∧ b.value = .tuple [] ∨ p.kind = .varKeyword ∧ b.value = .dict []

theorem Slot.Settles.belongs {extra : List Value} {surplus : List (String × Value)} {t : Slot}
    {b : Bound} (settles : t.Settles extra surplus b) : b.Belongs t.param := by
  refine ⟨settles.name, fun unpassed => ?_⟩
  cases variadic : t.param.kind.isVariadic with
  | false =>
    obtain ⟨value, passed⟩ := settles.plain variadic
    have missing : t.given = none := by simpa [unpassed] using passed.symm
    exact .inl (by simpa [missing] using value)
  | true =>
    cases kind : t.param.kind with
    | varPositional =>
      obtain ⟨value, passed⟩ := settles.starred kind
      have empty : extra = [] := by simpa [unpassed] using passed.symm
      exact .inr (.inl ⟨rfl, by rw [value, empty]⟩)
    | varKeyword =>
      obtain ⟨value, passed⟩ := settles.doubleStarred kind
      have empty : surplus = [] := by simpa [unpassed] using passed.symm
      exact .inr (.inr ⟨rfl, by rw [value, empty]; rfl⟩)
    | _ => rw [kind] at variadic; cases variadic

/-- Binding gives one value for each parameter, in the order of declaration. -/
theorem Signature.bind_belongs {s : Signature} {call : Call} {bound : List Bound}
    (binds : s.bind call = .ok bound) : s.params.Forall₂ (fun p b => b.Belongs p) bound := by
  rw [← s.map_param_slots call, List.forall₂_map_left_iff]
  exact (settles_of_bind binds).imp fun _ _ settles => settles.belongs

/-! ### Calls of a wrapper -/

/-- A value is refused by a check: it is rejected, or a reference cannot be resolved. -/
inductive Check.Refuses (o : Oracle Checking) (conf : Config) (function : String) (site : Site)
    (c : Check) (v : Value) (s : CallState) : CallError → CallState → Prop
  | violates {mid after : CallState} {found : Violation}
      (rejects : (c.accepts o v).run.run s = (.ok false, mid))
      (explained : (c.violation o conf function site v).run.run mid = (.ok found, after)) :
      Refuses o conf function site c v s (.violation found) after
  | unresolved {after : CallState} {e : ReferenceError}
      (fails : (c.accepts o v).run.run s = (.error e, after)) :
      Refuses o conf function site c v s (.reference e) after

/-- The checks, made one after the other on what was passed, all accept. -/
inductive Accepted (o : Oracle Checking) (bound : List Bound) :
    List ParamCheck → CallState → CallState → Prop
  | nil {s : CallState} : Accepted o bound [] s s
  | unpassed {p : ParamCheck} {rest : List ParamCheck} {s after : CallState}
      (trusted : ∀ b, bound[p.index]? = some b → b.passed = false)
      (others : Accepted o bound rest s after) : Accepted o bound (p :: rest) s after
  | passed {p : ParamCheck} {b : Bound} {rest : List ParamCheck} {s mid after : CallState}
      (there : bound[p.index]? = some b) (given : b.passed = true)
      (accepts : (p.check.accepts o b.value).run.run s = (.ok true, mid))
      (others : Accepted o bound rest mid after) : Accepted o bound (p :: rest) s after

/-- The first of the checks that does not accept what was passed, and the error that it gives. -/
inductive FirstRefused (o : Oracle Checking) (conf : Config) (function : String)
    (bound : List Bound) (s : CallState) : List ParamCheck → CallError → CallState → Prop
  | intro {before rest : List ParamCheck} {p : ParamCheck} {b : Bound} {mid after : CallState}
      {e : CallError} (earlier : Accepted o bound before s mid)
      (there : bound[p.index]? = some b) (given : b.passed = true)
      (refuses : p.check.Refuses o conf function (.parameter p.name) b.value mid e after) :
      FirstRefused o conf function bound s (before ++ p :: rest) e after

namespace Wrapper

/-- The random number of a call and the state after it was drawn; it is drawn only if needed. -/
def drawn (w : Wrapper) (s : CallState) : UInt32 × CallState :=
  if w.samples then (s.keystream.draw.1, { s with keystream := s.keystream.draw.2 }) else (0, s)

/-- What the checks of a call ask for. -/
def oracle (w : Wrapper) (around : Surroundings) (s : CallState) : Oracle Checking :=
  Running.oracle around w.label (w.drawn s).1

/-- How a call of a function with a wrapper around it can end, once its arguments are bound. `body`
is what the function does with them. -/
inductive Answers (w : Wrapper) (around : Surroundings) (function : String)
    (body : List Bound → Running Value) (bound : List Bound) (s : CallState) :
    Except CallError Value → CallState → Prop
  /-- The error of the first parameter that is refused; the body does not run. -/
  | refused {e : CallError} {after : CallState}
      (first : FirstRefused (w.oracle around s) w.conf function bound (w.drawn s).2 w.params e
        after) : Answers w around function body bound s (.error e) after
  /-- The body runs once, and its error is handed on. -/
  | raised {mid after : CallState} {e : CallError}
      (accepted : Accepted (w.oracle around s) bound w.params (w.drawn s).2 mid)
      (ran : (body bound).run.run mid = (.error e, after)) :
      Answers w around function body bound s (.error e) after
  /-- The body runs once, and its value is refused. -/
  | resultRefused {mid ended after : CallState} {v : Value} {c : Check} {e : CallError}
      (accepted : Accepted (w.oracle around s) bound w.params (w.drawn s).2 mid)
      (ran : (body bound).run.run mid = (.ok v, ended)) (held : w.result = some c)
      (refuses : c.Refuses (w.oracle around s) w.conf function .result v ended e after) :
      Answers w around function body bound s (.error e) after
  /-- The body runs once, and its value is the result. -/
  | returned {mid ended after : CallState} {v : Value}
      (accepted : Accepted (w.oracle around s) bound w.params (w.drawn s).2 mid)
      (ran : (body bound).run.run mid = (.ok v, ended))
      (satisfied : w.result = none ∧ after = ended ∨ ∃ c, w.result = some c ∧
        (c.accepts (w.oracle around s) v).run.run ended = (.ok true, after)) :
      Answers w around function body bound s (.ok v) after

end Wrapper

section Steps
variable {o : Oracle Checking} {conf : Config} {function : String} {bound : List Bound}
  {p : ParamCheck} {rest : List ParamCheck} {s mid after : CallState} {e : CallError}

theorem Accepted.cons (first : Accepted o bound [p] s mid)
    (others : Accepted o bound rest mid after) :
    Accepted o bound (p :: rest) s after := by
  cases first with
  | unpassed trusted nothing => cases nothing; exact .unpassed trusted others
  | passed there given accepts nothing => cases nothing; exact .passed there given accepts others

theorem FirstRefused.ofHead {b : Bound} (there : bound[p.index]? = some b)
    (given : b.passed = true)
    (refuses : p.check.Refuses o conf function (.parameter p.name) b.value s e after) :
    FirstRefused o conf function bound s (p :: rest) e after := by
  rw [← List.nil_append (p :: rest)]
  exact .intro .nil there given refuses

theorem FirstRefused.cons (later : FirstRefused o conf function bound mid rest e after)
    (first : Accepted o bound [p] s mid) :
    FirstRefused o conf function bound s (p :: rest) e after := by
  obtain ⟨earlier, there, given, refuses⟩ := later
  rw [← List.cons_append]
  exact .intro (first.cons earlier) there given refuses

theorem FirstRefused.append {params : List ParamCheck}
    (refused : FirstRefused o conf function bound s params e after) (rest : List ParamCheck) :
    FirstRefused o conf function bound s (params ++ rest) e after := by
  obtain ⟨earlier, there, given, refuses⟩ := refused
  rw [List.append_assoc, List.cons_append]
  exact .intro earlier there given refuses

end Steps

namespace Running

variable {o : Oracle Checking} {conf : Config} {function : String}

theorem demandParams_cons (w : Wrapper) (bound : List Bound) (p : ParamCheck)
    (rest : List ParamCheck) :
    demandParams o w function bound (p :: rest) =
      (demandParams o w function bound [p] >>= fun _ => demandParams o w function bound rest) := by
  simp only [demandParams]
  rcases bound[p.index]? with _ | b
  · rw [pure_bind]
  · by_cases given : b.passed = true <;> simp [given]

theorem ofChecking_run {α : Type} (x : Checking α) (s : CallState) :
    (ofChecking x).run.run s =
      match x.run.run s with
      | (.ok a, after) => (.ok a, after)
      | (.error e, after) => (.error (.reference e), after) := by
  simp only [ofChecking, ExceptT.run_mk, StateT.run_bind]
  show (match x.run.run s with | (a, s) => _) = _
  rcases x.run.run s with ⟨_ | _, after⟩ <;> rfl

/-- A violation can always be told: what cannot be diagnosed is described as a whole. -/
theorem violation_run (o : Oracle Checking) (conf : Config) (function : String) (site : Site)
    (c : Check) (v : Value) (s : CallState) :
    ∃ found after, (c.violation o conf function site v).run.run s = (.ok found, after) := by
  unfold Check.violation Check.failure
  rw [run_run_bind, run_run_bind, Checking.run_tryCatch]
  rcases (c.diagnose o v).run.run s with ⟨_ | _, after⟩ <;> exact ⟨_, _, rfl⟩

/-- A demand is met, or the value is refused. -/
theorem demand_cases (o : Oracle Checking) (conf : Config) (function : String) (site : Site)
    (c : Check) (v : Value) (s : CallState) :
    (∃ after, (c.accepts o v).run.run s = (.ok true, after) ∧
      (demand o conf function site c v).run.run s = (.ok (), after)) ∨
    ∃ e after, c.Refuses o conf function site v s e after ∧
      (demand o conf function site c v).run.run s = (.error e, after) := by
  unfold demand
  rw [run_run_bind, ofChecking_run]
  rcases verdict : (c.accepts o v).run.run s with ⟨e | _ | _, mid⟩
  · exact .inr ⟨_, mid, .unresolved verdict, rfl⟩
  · obtain ⟨found, after, explained⟩ := violation_run o conf function site c v mid
    refine .inr ⟨_, after, .violates verdict explained, ?_⟩
    show (do throw (CallError.violation (← ofChecking (c.violation o conf function site v))) :
      Running Unit).run.run mid = _
    rw [run_run_bind, ofChecking_run, explained]
    rfl
  · exact .inl ⟨mid, rfl, rfl⟩

/-- The check of one parameter accepts, or refuses what was passed. -/
theorem demandParam_cases (w : Wrapper) (bound : List Bound) (p : ParamCheck) (s : CallState) :
    (∃ after, Accepted o bound [p] s after ∧
      (demandParams o w function bound [p]).run.run s = (.ok (), after)) ∨
    ∃ e after, FirstRefused o w.conf function bound s [p] e after ∧
      (demandParams o w function bound [p]).run.run s = (.error e, after) := by
  unfold demandParams
  cases there : bound[p.index]? with
  | none => exact .inl ⟨s, .unpassed (by simp [there]) .nil, rfl⟩
  | some b =>
    cases given : b.passed with
    | false => exact .inl ⟨s, .unpassed (by simp [there, given]) .nil, by simp [given]; rfl⟩
    | true =>
      simp only [given, if_true]
      rw [run_run_bind]
      rcases demand_cases o w.conf function (.parameter p.name) p.check b.value s with
        ⟨after, accepts, met⟩ | ⟨e, after, refuses, ends⟩
      · exact .inl ⟨after, .passed there given accepts .nil, by rw [met]; rfl⟩
      · exact .inr ⟨e, after, .ofHead there given refuses, by rw [ends]⟩

/-- All that was passed is accepted, or the first parameter that is refused ends the call. -/
theorem demandParams_cases (w : Wrapper) (bound : List Bound) (params : List ParamCheck)
    (s : CallState) :
    (∃ after, Accepted o bound params s after ∧
      (demandParams o w function bound params).run.run s = (.ok (), after)) ∨
    ∃ e after, FirstRefused o w.conf function bound s params e after ∧
      (demandParams o w function bound params).run.run s = (.error e, after) := by
  induction params generalizing s with
  | nil => exact .inl ⟨s, .nil, rfl⟩
  | cons p rest ih =>
    rw [demandParams_cons, run_run_bind]
    rcases demandParam_cases w bound p s with ⟨mid, first, met⟩ | ⟨e, after, refused, ends⟩
    · rw [met]
      rcases ih mid with ⟨after, others, ends⟩ | ⟨e, after, later, ends⟩
      · exact .inl ⟨after, first.cons others, ends⟩
      · exact .inr ⟨e, after, later.cons first, ends⟩
    · rw [ends]
      exact .inr ⟨e, after, refused.append rest, rfl⟩

end Running

namespace Callable

variable {around : Surroundings} {d : Declaration} {args : Call} {bound : List Bound}

theorem call_plain_of_bind (body : Body) (binds : d.signature.bind args = .ok bound)
    (s : CallState) :
    ((plain d body).call around args).run.run s = (body.run around bound).run.run s := by
  rw [call, Running.bind, binds]
  rfl

/-- Arguments that cannot be bound end a call before anything else happens. -/
theorem call_of_bind_error {e : BindError} (fails : d.signature.bind args = .error e) (body : Body)
    (s : CallState) :
    ((plain d body).call around args).run.run s = (.error (.bind d.qualname e), s) ∧
      ∀ w, ((checked d body w).call around args).run.run s = (.error (.bind d.qualname e), s) := by
  refine ⟨?_, fun w => ?_⟩
  · rw [call, Running.bind, fails]
    rfl
  · rw [call, Running.bind, fails]
    rfl

/-- A call of a wrapper, opened up to the draw. -/
theorem call_checked_of_bind (body : Body) (w : Wrapper) (binds : d.signature.bind args = .ok bound)
    (s : CallState) :
    ((checked d body w).call around args).run.run s =
      (do
        Running.demandParams (w.oracle around s) w d.qualname bound w.params
        let v ← body.run around bound
        match w.result with
        | some c => Running.demand (w.oracle around s) w.conf d.qualname .result c v
        | none => pure ()
        return v : Running Value).run.run (w.drawn s).2 := by
  rw [call, Running.bind, binds]
  unfold Wrapper.oracle Wrapper.drawn
  cases w.samples <;> rfl

theorem call_answers (body : Body) (w : Wrapper) (binds : d.signature.bind args = .ok bound)
    (s : CallState) :
    w.Answers around d.qualname (body.run around) bound s
      (((checked d body w).call around args).run.run s).1
      (((checked d body w).call around args).run.run s).2 := by
  rw [call_checked_of_bind body w binds, run_run_bind]
  rcases Running.demandParams_cases w bound w.params (w.drawn s).2 with
    ⟨mid, accepted, met⟩ | ⟨e, after, first, ends⟩
  · rw [met]
    show w.Answers around d.qualname (body.run around) bound s
      (ExceptT.run (body.run around bound >>= fun v => _) |>.run mid).1
      (ExceptT.run (body.run around bound >>= fun v => _) |>.run mid).2
    rw [run_run_bind]
    rcases ran : (body.run around bound).run.run mid with ⟨e | v, ended⟩
    · exact .raised accepted ran
    · cases held : w.result with
      | none => exact .returned accepted ran (.inl ⟨held, rfl⟩)
      | some c =>
        dsimp only
        rw [run_run_bind]
        rcases Running.demand_cases (w.oracle around s) w.conf d.qualname .result c v ended with
          ⟨after, accepts, met⟩ | ⟨e, after, refuses, ends⟩
        · rw [met]
          exact .returned accepted ran (.inr ⟨c, held, accepts⟩)
        · rw [ends]
          exact .resultRefused accepted ran held refuses
  · rw [ends]
    exact .refused first

end Callable

/-! ### Decoration -/

namespace Session

/-- The check that is generated from a hint in a scope, and the scope that is left. -/
abbrev Generates (s : Session) (ctx : Context) (pith : String) (h : Hint) (scope : Scope)
    (c : Check) (after : Scope) : Prop :=
  ((buildCheck ctx pith h scope).run.run s).1 = .ok (c, after)

/-- The checks of the annotated parameters from a position on: the check generated from the hint of
each, in the scope that the ones before it have left, unless every value passes it. -/
inductive ParamsCovered (s : Session) (ctx : Context) :
    Nat → List Parameter → Scope → List ParamCheck → Scope → Prop
  | nil {index : Nat} {scope : Scope} : ParamsCovered s ctx index [] scope [] scope
  | bare {index : Nat} {p : Parameter} {rest : List Parameter} {scope after : Scope}
      {checks : List ParamCheck} (bare : p.hint = none)
      (others : ParamsCovered s ctx (index + 1) rest scope checks after) :
      ParamsCovered s ctx index (p :: rest) scope checks after
  | idle {index : Nat} {p : Parameter} {rest : List Parameter} {scope mid after : Scope} {h : Hint}
      {c : Check} {checks : List ParamCheck} (hint : p.hint = some h)
      (generates : s.Generates (ctx.placedAt (.param p.kind)) p.name h scope c mid)
      (passes : c.isPass = true) (others : ParamsCovered s ctx (index + 1) rest mid checks after) :
      ParamsCovered s ctx index (p :: rest) scope checks after
  | held {index : Nat} {p : Parameter} {rest : List Parameter} {scope mid after : Scope} {h : Hint}
      {c : Check} {checks : List ParamCheck} (hint : p.hint = some h)
      (generates : s.Generates (ctx.placedAt (.param p.kind)) p.name h scope c mid)
      (matters : c.isPass = false)
      (others : ParamsCovered s ctx (index + 1) rest mid checks after) :
      ParamsCovered s ctx index (p :: rest) scope (⟨index, p.name, c⟩ :: checks) after

/-- The check of the result: the one generated from its hint, unless every value passes it. -/
inductive ResultCovered (s : Session) (ctx : Context) :
    Option Hint → Scope → Option Check → Prop
  | bare {scope : Scope} : ResultCovered s ctx none scope none
  | idle {h : Hint} {scope after : Scope} {c : Check}
      (generates : s.Generates (ctx.placedAt .result) resultName h scope c after)
      (passes : c.isPass = true) : ResultCovered s ctx (some h) scope none
  | held {h : Hint} {scope after : Scope} {c : Check}
      (generates : s.Generates (ctx.placedAt .result) resultName h scope c after)
      (matters : c.isPass = false) : ResultCovered s ctx (some h) scope (some c)

end Session

theorem Declaration.wrap_eq {d : Declaration} {cat : Catalog} {label : Nat}
    {params : List ParamCheck} {result : Option Check} {scope : Scope} {conf : Config} {w : Wrapper}
    (wrapped : d.wrap cat label params result scope conf = .ok w) :
    w.params = params ∧ w.result = result ∧ w.conf = conf ∧
      w.source = (d.listing cat params result).text := by
  simp only [wrap] at wrapped
  split at wrapped <;> cases wrapped
  exact ⟨rfl, rfl, rfl, rfl⟩

namespace Decorator

variable {s : Session} {dec : Decorator} {ctx : Context} {pith : String} {h : Hint} {names : Naming}
  {work after : Workshop}

/-- A run that succeeds has succeeded in both parts. -/
theorem run_run_bind_ok {σ ε α β : Type} {x : ExceptT ε (StateM σ) α}
    {f : α → ExceptT ε (StateM σ) β} {s t : σ} {b : β}
    (done : (x >>= f).run.run s = (.ok b, t)) :
    ∃ a mid, x.run.run s = (.ok a, mid) ∧ (f a).run.run mid = (.ok b, t) := by
  rw [run_run_bind] at done
  rcases first : x.run.run s with ⟨e | a, mid⟩ <;> rw [first] at done
  · cases done
  · exact ⟨a, mid, rfl, done⟩

theorem classify_cases {c : Classified}
    (done : (dec.classify ctx h).run.run work = (.ok c, after)) :
    ∃ cache, work.cache.classify dec.around.catalog dec.substitutes work.nextLabel ctx h =
        .ok (c, cache) ∧
      after = { work with cache, nextLabel := work.nextLabel + 1 } := by
  unfold classify at done
  obtain ⟨_, _, got, done⟩ := run_run_bind_ok done
  cases got
  rcases kept : work.cache.classify dec.around.catalog dec.substitutes work.nextLabel ctx h with
    e | ⟨c, cache⟩ <;> rw [kept] at done <;> cases done
  exact ⟨cache, rfl, rfl⟩

theorem build_cases {c : Classified} {check : Check}
    (done : (dec.build ctx pith c).run.run work = (.ok check, after)) :
    ∃ scope, Building.outcome (dec.builder.build ctx pith c) work.scope = (.ok check, scope) ∧
      after = { work with scope } := by
  unfold build at done
  obtain ⟨_, _, got, done⟩ := run_run_bind_ok done
  cases got
  rw [Building.outcome]
  rcases run : (dec.builder.build ctx pith c).run.run work.scope with ⟨e | found, scope⟩ <;>
    rw [run] at done <;> cases done
  exact ⟨scope, rfl, rfl⟩

/-- The check of an ignorable hint is passed by every value, and closes over nothing. -/
theorem build_ignorable {b : Builder} {c : Classified} (ignorable : c.isIgnorable = true)
    (scope : Scope) :
    Building.outcome (b.build ctx pith c) scope =
      (.ok (.pass ⟨pith, c.hint.text b.catalog⟩), scope) := by
  have sign : c.sign = .ignorable := by simpa [Classified.isIgnorable] using ignorable
  rw [Builder.build, Builder.buildWithin, Builder.shape, sign]
  rfl

/-- The check of a hint, after its classification: what is logged on the way plays no part. -/
theorem checkOf_cases {found : Option Check}
    (done : (dec.checkOf ctx pith h).run.run work = (.ok found, after)) :
    ∃ c cache check, work.cache.classify dec.around.catalog dec.substitutes work.nextLabel ctx h =
        .ok (c, cache) ∧ after.cache = cache ∧
      Building.outcome (dec.builder.build ctx pith c) work.scope = (.ok check, after.scope) ∧
      (check.isPass = true ∧ found = none ∨ check.isPass = false ∧ found = some check) := by
  unfold checkOf at done
  obtain ⟨c, mid, classified, done⟩ := run_run_bind_ok done
  obtain ⟨cache, kept, rfl⟩ := classify_cases classified
  refine ⟨c, cache, ?_⟩
  -- both ways of logging lead to the same steps, with other events
  obtain ⟨events, done⟩ : ∃ events : List Event, (do
      log (.classified (c.hint.text dec.around.catalog) c.sign)
      if c.isIgnorable then return none
      let check ← dec.build ctx pith c
      if check.isPass then return none
      log (.built (if pith == resultName then "return" else pith) (check.text dec.around.catalog))
      return some check : ExceptT HintError (StateM Workshop) (Option Check)).run.run
        ⟨cache, work.nextLabel + 1, work.scope, events⟩ = (.ok found, after) := by
    dsimp only at done
    split at done
    next =>
      obtain ⟨_, _, logged, done⟩ := run_run_bind_ok done
      cases logged
      exact ⟨_, done⟩
    next => exact ⟨_, done⟩
  obtain ⟨_, _, logged, done⟩ := run_run_bind_ok done
  cases logged
  split at done
  next ignorable =>
    cases done
    exact ⟨_, kept, rfl, build_ignorable ignorable _, .inl ⟨rfl, rfl⟩⟩
  next =>
    obtain ⟨check, _, built, done⟩ := run_run_bind_ok done
    obtain ⟨scope, outcome, rfl⟩ := build_cases built
    split at done
    next passes =>
      cases done
      exact ⟨check, kept, rfl, outcome, .inl ⟨passes, rfl⟩⟩
    next matters =>
      obtain ⟨_, _, logged, done⟩ := run_run_bind_ok done
      cases logged
      cases done
      exact ⟨check, kept, rfl, outcome, .inr ⟨by simpa using matters, rfl⟩⟩

/-- What decoration finds for a hint is the check that is generated from it. -/
theorem checkOf_generates {found : Option Check}
    (done : (dec.checkOf ctx pith h).run.run work = (.ok found, after))
    (reads : dec.builder = ⟨s.catalog, s.substitutes, ctx.conf⟩) (named : h.WellNamed names)
    (grown : s.cache.Grown names s.catalog s.substitutes)
    (grownToo : work.cache.Grown names s.catalog s.substitutes) :
    after.cache.Grown names s.catalog s.substitutes ∧
      ∃ check, s.Generates ctx pith h work.scope check after.scope ∧
        (check.isPass = true ∧ found = none ∨ check.isPass = false ∧ found = some check) := by
  obtain ⟨c, cache, check, kept, rfl, outcome, decided⟩ := checkOf_cases done
  have catalog : dec.around.catalog = s.catalog := congrArg Builder.catalog reads
  have substitutes : dec.substitutes = s.substitutes := congrArg Builder.substitutes reads
  rw [catalog, substitutes] at kept
  refine ⟨.classify grownToo named kept, check, ?_, decided⟩
  have faithful := grownToo.faithful.outcome named work.nextLabel ctx
  rw [kept] at faithful
  obtain ⟨rules, classified, relabels⟩ := faithful.ok_left
  rw [reads, Builder.build_resembles relabels.resembles] at outcome
  rw [Session.Generates, Session.buildCheck_eq named grown, classified]
  dsimp only [bind, Except.bind]
  rw [outcome]
  rfl

theorem atSite_run {α : Type} (d : Declaration) (site : Site)
    (x : ExceptT HintError (StateM Workshop) α) (work : Workshop) :
    (atSite d site x).run.run work =
      match x.run.run work with
      | (.ok a, after) => (.ok a, after)
      | (.error e, after) => (.error (.hint d.qualname site e), after) := by
  simp only [atSite, ExceptT.run_mk, StateT.run_bind]
  show (match x.run.run work with | (a, s) => _) = _
  rcases x.run.run work with ⟨_ | _, after⟩ <;> rfl

theorem atSite_cases {α : Type} {d : Declaration} {site : Site}
    {x : ExceptT HintError (StateM Workshop) α} {a : α}
    (done : (atSite d site x).run.run work = (.ok a, after)) : x.run.run work = (.ok a, after) := by
  rw [atSite_run] at done
  rcases ran : x.run.run work with ⟨_ | _, after⟩ <;> rw [ran] at done <;> cases done
  rfl

section Signatures
variable (reads : dec.builder = ⟨s.catalog, s.substitutes, ctx.conf⟩)
  (grown : s.cache.Grown names s.catalog s.substitutes)
include reads grown

theorem paramChecks_covered {d : Declaration} {index : Nat} {params : List Parameter}
    (named : ∀ p ∈ params, ∀ h, p.hint = some h → h.WellNamed names)
    (grownToo : work.cache.Grown names s.catalog s.substitutes) {checks : List ParamCheck}
    (done : (dec.paramChecks ctx d index params).run.run work = (.ok checks, after)) :
    after.cache.Grown names s.catalog s.substitutes ∧
      s.ParamsCovered ctx index params work.scope checks after.scope := by
  induction params generalizing index work checks with
  | nil =>
    cases done
    exact ⟨grownToo, .nil⟩
  | cons p rest ih =>
    have namedRest := fun q member => named q (List.mem_cons_of_mem p member)
    unfold paramChecks at done
    cases hint : p.hint with
    | none =>
      rw [hint] at done
      obtain ⟨_, _, first, done⟩ := run_run_bind_ok done
      cases first
      obtain ⟨others, _, more, done⟩ := run_run_bind_ok done
      cases done
      obtain ⟨grownAfter, covered⟩ := ih namedRest grownToo more
      exact ⟨grownAfter, .bare hint covered⟩
    | some h =>
      rw [hint] at done
      obtain ⟨found, mid, first, done⟩ := run_run_bind_ok done
      obtain ⟨others, _, more, done⟩ := run_run_bind_ok done
      obtain ⟨grownMid, check, generates, decided⟩ := checkOf_generates (atSite_cases first) reads
        (named p (by simp) h hint) grown grownToo
      rcases decided with ⟨passes, rfl⟩ | ⟨matters, rfl⟩
      · cases done
        obtain ⟨grownAfter, covered⟩ := ih namedRest grownMid more
        exact ⟨grownAfter, .idle hint generates passes covered⟩
      · cases done
        obtain ⟨grownAfter, covered⟩ := ih namedRest grownMid more
        exact ⟨grownAfter, .held hint generates matters covered⟩

theorem resultCheck_covered {d : Declaration}
    (named : ∀ h, d.returns = some h → h.WellNamed names)
    (grownToo : work.cache.Grown names s.catalog s.substitutes) {result : Option Check}
    (done : (dec.resultCheck ctx d).run.run work = (.ok result, after)) :
    s.ResultCovered ctx d.returns work.scope result := by
  unfold resultCheck at done
  cases returns : d.returns with
  | none =>
    rw [returns] at done
    cases done
    exact .bare
  | some h =>
    rw [returns] at done
    obtain ⟨_, check, generates, decided⟩ := checkOf_generates (atSite_cases done) reads
      (named h returns) grown grownToo
    rcases decided with ⟨passes, rfl⟩ | ⟨matters, rfl⟩
    · exact .idle generates passes
    · exact .held generates matters

end Signatures

theorem wrap_cases {d : Declaration} {params : List ParamCheck} {result : Option Check}
    {w : Wrapper} (done : (dec.wrap d params result).run.run work = (.ok w, after)) :
    w.params = params ∧ w.result = result ∧
      d.wrap dec.around.catalog work.nextLabel params result work.scope dec.conf = .ok w := by
  unfold wrap at done
  obtain ⟨_, _, got, done⟩ := run_run_bind_ok done
  cases got
  rcases wrapped : d.wrap dec.around.catalog work.nextLabel params result work.scope dec.conf with
    e | w <;> rw [wrapped] at done <;> cases done
  obtain ⟨isParams, isResult, _⟩ := Declaration.wrap_eq wrapped
  exact ⟨isParams, isResult, rfl⟩

/-- A function that is not exempt has the checks of its hints put around it, if there are any. -/
theorem decorate_cases {owner : Option ClassId} {d : Declaration} {body : Body} {g : Callable}
    (done : (dec.decorate owner (.plain d body)).run.run work = (.ok g, after)) :
    (dec.conf.thoroughness = .off ∨ dec.isExempt owner d = true) ∧ g = .plain d body ∨
    ∃ params mid result last,
      (dec.paramChecks (dec.contextOf owner d) d 0 d.signature.params).run.run work =
        (.ok params, mid) ∧
      (dec.resultCheck (dec.contextOf owner d) d).run.run mid = (.ok result, last) ∧
      (params = [] ∧ result = none ∧ g = .plain d body ∨
        ∃ w, g = .checked d body w ∧ w.params = params ∧ w.result = result ∧
          d.wrap dec.around.catalog last.nextLabel params result last.scope dec.conf = .ok w) := by
  rw [decorate] at done
  split at done
  next isLeft =>
    cases done
    exact .inl ⟨by simpa using isLeft, rfl⟩
  next =>
    obtain ⟨params, mid, checked, done⟩ := run_run_bind_ok done
    obtain ⟨result, last, resultChecked, done⟩ := run_run_bind_ok done
    refine .inr ⟨params, mid, result, last, checked, resultChecked, ?_⟩
    split at done
    next none =>
      cases done
      obtain ⟨noParams, noResult⟩ := Bool.and_eq_true_iff.mp none
      exact .inl ⟨List.isEmpty_iff.mp noParams, Option.isNone_iff_eq_none.mp noResult, rfl⟩
    next =>
      obtain ⟨w, _, wrapped, done⟩ := run_run_bind_ok done
      cases done
      exact .inr ⟨w, rfl, wrap_cases wrapped⟩

/-- A function is left alone, or gets the checks of its hints. -/
theorem decorate_covered {owner : Option ClassId} {d : Declaration} {body : Body} {g : Callable}
    (reads : dec.builder = ⟨s.catalog, s.substitutes, dec.conf⟩)
    (grown : s.cache.Grown names s.catalog s.substitutes)
    (namedParams : ∀ p ∈ d.signature.params, ∀ h, p.hint = some h → h.WellNamed names)
    (namedResult : ∀ h, d.returns = some h → h.WellNamed names)
    (grownToo : work.cache.Grown names s.catalog s.substitutes)
    (done : (dec.decorate owner (.plain d body)).run.run work = (.ok g, after)) :
    g = .plain d body ∨ ∃ w left, g = .checked d body w ∧
      s.ParamsCovered (dec.contextOf owner d) 0 d.signature.params work.scope w.params left ∧
      s.ResultCovered (dec.contextOf owner d) d.returns left w.result := by
  have readsInside : dec.builder = ⟨s.catalog, s.substitutes, (dec.contextOf owner d).conf⟩ := by
    cases owner <;> exact reads
  rcases decorate_cases done with
    ⟨_, rfl⟩ | ⟨params, mid, result, _, checked, resultChecked, ⟨_, _, rfl⟩ | ⟨w, rfl, rfl, rfl, _⟩⟩
  · exact .inl rfl
  · exact .inl rfl
  · obtain ⟨grownMid, covered⟩ := paramChecks_covered readsInside grown namedParams grownToo checked
    exact .inr ⟨w, mid.scope, rfl, covered,
      resultCheck_covered readsInside grown namedResult grownMid resultChecked⟩

end Decorator

namespace Session

/-- A session decorates with its own classes and modules, in an empty scope. -/
theorem decorate_outcome (s : Session) (conf : Config) (owner : Option ClassId) (c : Callable) :
    ((decorate conf owner c).run s).1.1 =
      ((Decorator.decorate ⟨s.around, s.substitutes, conf⟩ owner c).run.run
        ⟨s.cache, s.nextLabel, .empty, []⟩).1 := by
  unfold decorate
  rw [StateT.run_bind, StateT.run_get, pure_bind]
  dsimp only
  generalize (Decorator.decorate ⟨s.around, s.substitutes, conf⟩ owner c).run.run
    ⟨s.cache, s.nextLabel, .empty, []⟩ = made
  obtain ⟨e | g, work⟩ := made
  · rfl
  · cases g with
    | plain d body => rfl
    | checked d body w => cases c <;> rfl

/-- A decorated function is the function itself or has a wrapper, which holds the check that is
generated from each hint, at the position of its parameter, unless every value passes it. Arguments
that cannot be bound give the error of the function. Otherwise each parameter has its value, and a
call of the wrapper ends with the error of the first parameter that was passed and is refused, or
the body runs once on the same values, as in a call of the function, and the call ends with its
error, with a refusal of its value, or with that value. -/
theorem decorate_transparent {s : Session} {names : Naming} {conf : Config}
    {owner : Option ClassId} {d : Declaration} {body : Body} {g : Callable}
    (grown : s.cache.Grown names s.catalog s.substitutes)
    (namedParams : ∀ p ∈ d.signature.params, ∀ h, p.hint = some h → h.WellNamed names)
    (namedResult : ∀ h, d.returns = some h → h.WellNamed names)
    (decorated : ((decorate conf owner (.plain d body)).run s).1.1 = .ok g) :
    let ctx := Decorator.contextOf ⟨s.around, s.substitutes, conf⟩ owner d
    (g = .plain d body ∨ ∃ w left, g = .checked d body w ∧
      s.ParamsCovered ctx 0 d.signature.params .empty w.params left ∧
      s.ResultCovered ctx d.returns left w.result) ∧
    ∀ around args,
      (∀ e, d.signature.bind args = .error e → ∀ calls,
        (g.call around args).run.run calls = (.error (.bind d.qualname e), calls) ∧
        ((Callable.plain d body).call around args).run.run calls =
          (.error (.bind d.qualname e), calls)) ∧
      ∀ bound, d.signature.bind args = .ok bound →
        d.signature.params.Forall₂ (fun p b => b.Belongs p) bound ∧
        ∀ calls,
          ((Callable.plain d body).call around args).run.run calls =
            (body.run around bound).run.run calls ∧
          ∀ w, g = .checked d body w →
            w.Answers around d.qualname (body.run around) bound calls
              ((g.call around args).run.run calls).1 ((g.call around args).run.run calls).2 := by
  intro ctx
  rw [decorate_outcome] at decorated
  have covered := Decorator.decorate_covered rfl grown namedParams namedResult grown
    (Prod.ext decorated rfl)
  refine ⟨covered, fun around args => ⟨fun e fails calls => ?_, fun bound binds => ?_⟩⟩
  · obtain ⟨ofPlain, ofChecked⟩ := Callable.call_of_bind_error fails body calls
    refine ⟨?_, ofPlain⟩
    rcases covered with rfl | ⟨w, _, rfl, _⟩
    · exact ofPlain
    · exact ofChecked w
  · refine ⟨Signature.bind_belongs binds, fun calls => ?_⟩
    refine ⟨Callable.call_plain_of_bind body binds calls, fun w isChecked => ?_⟩
    rw [isChecked]
    exact Callable.call_answers body w binds calls

/-- The second of two parameters has a check, and the first has none. -/
theorem decorate_transparent_second :
    let second : Parameter := ⟨"b", .positionalOrKeyword, some (.int 1), some Builtin.int⟩
    let d : Declaration := ⟨7, "f", "f", "m",
      ⟨[.plain "a" .positionalOrKeyword, second], by decide⟩, none, false, none⟩
    let body := Body.argument "a"
    ∃ w : Wrapper, ((decorate .standard none (.plain d body)).run start).1.1 =
        .ok (.checked d body w) ∧
      w.params.map (fun p => (p.index, p.name)) = [(1, "b")] ∧
      ∀ around calls, w.Answers around "f" (body.run around)
        [⟨"a", .none, true⟩, ⟨"b", .int 2, true⟩] calls
        (((Callable.checked d body w).call around ⟨[.none, .int 2], []⟩).run.run calls).1
        (((Callable.checked d body w).call around ⟨[.none, .int 2], []⟩).run.run calls).2 := by
  intro second d body
  have evaluated : (match ((decorate .standard none (.plain d body)).run start).1.1 with
      | .ok g => (g.wrapper?.map fun w => w.params.map fun p => (p.index, p.name))
      | .error _ => none) = some [(1, "b")] := by decide +kernel
  let names : Naming := ⟨fun _ => Builtin.object, fun _ => .instanceOf []⟩
  have named : ∀ p ∈ d.signature.params, ∀ h, p.hint = some h → h.WellNamed names := by
    simp only [d, second, List.forall_mem_cons, Parameter.plain, List.not_mem_nil, false_implies,
      implies_true, and_true, Option.some.injEq, reduceCtorEq, true_and]
    rintro h rfl
    exact .ofClass _
  cases decorated : ((decorate .standard none (.plain d body)).run start).1.1 with
  | error e => rw [decorated] at evaluated; cases evaluated
  | ok g =>
    rw [decorated] at evaluated
    obtain ⟨covered, calls⟩ := decorate_transparent .empty named nofun decorated
    rcases covered with rfl | ⟨w, _, rfl, _⟩
    · cases evaluated
    · refine ⟨w, rfl, by simpa [Callable.wrapper?] using evaluated, fun around state => ?_⟩
      exact (((calls around ⟨[.none, .int 2], []⟩).2 _ rfl).2 state).2 w rfl

end Session
end HintCheck
