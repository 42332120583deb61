import HintCheck.Proofs.Mention
import HintCheck.Proofs.Wrapping

/-!
Where no random number is drawn, none is needed. A check whose text does not mention the random
number gives the same verdict with every number, and so does a check that tests sequences in full.
Only the explanation of a rejection can depend on the number: a check that rejects the items of a
sequence without looking at them is explained by the item that the number selects. So a wrapper that
draws no number behaves as it would with any, but for the cause that a violation names.
-/
namespace HintCheck

/-! ### Verdicts -/

/-- Whether there is a sample does not depend on the random number. -/
theorem Value.isSome_sample? (v : Value) (random other : UInt32) :
    (v.sample? random).isSome = (v.sample? other).isSome := by
  unfold sample?
  cases isLength : v.len? with
  | none => rfl
  | some len =>
    by_cases positive : 0 < len
    · have inside (random : UInt32) : sampleIndex random len < len := Nat.mod_lt _ positive
      simp only [Option.bind_some, if_pos positive]
      unfold len? at isLength
      unfold at?
      split <;> simp_all [String.length_toList]
    · simp only [Option.bind_some, if_neg positive]

namespace Check

variable {m : Type → Type} [Monad m] {c : Check} {o : Oracle m} {random : UInt32}

theorem acceptsAny_congr {cs : List Check} {other : Oracle m} {v w : Value}
    (each : ∀ c ∈ cs, c.accepts o v = c.accepts other w) :
    acceptsAny o cs v = acceptsAny other cs w := by
  induction cs with
  | nil => rfl
  | cons c rest ih =>
    obtain ⟨first, others⟩ := List.forall_mem_cons.mp each
    rw [acceptsAny, acceptsAny, first, ih others]

theorem acceptsAll_congr {cs : List Check} {other : Oracle m} {v w : Value}
    (each : ∀ c ∈ cs, c.accepts o v = c.accepts other w) :
    acceptsAll o cs v = acceptsAll other cs w := by
  induction cs with
  | nil => rfl
  | cons c rest ih =>
    obtain ⟨first, others⟩ := List.forall_mem_cons.mp each
    rw [acceptsAll, acceptsAll, first, ih others]

theorem acceptsOption_congr {d : Option Check} {other : Oracle m} {v : Value}
    (each : ∀ c ∈ d.toList, c.accepts o v = c.accepts other v) :
    acceptsOption o d v = acceptsOption other d v := by
  cases d with
  | none => rfl
  | some c => exact each c (by simp)

theorem acceptsItems_congr {items : List (Nat × Check)} {other : Oracle m} {v : Value}
    (each : ∀ c ∈ items.map Prod.snd, ∀ x, c.accepts o x = c.accepts other x) :
    acceptsItems o items v = acceptsItems other items v := by
  induction items with
  | nil => rfl
  | cons entry rest ih =>
    obtain ⟨first, others⟩ := List.forall_mem_cons.mp each
    obtain ⟨index, c⟩ := entry
    rw [acceptsItems, acceptsItems, ih others]
    cases v.at? index with
    | none => rfl
    | some x => dsimp only; rw [first x]

/-- A check that does not look at its value says the same of every value. -/
theorem accepts_of_not_takes (silent : c.takes = false) (o other : Oracle m) (v w : Value) :
    c.accepts o v = c.accepts other w := by
  induction c using induction_children with
  | step c ih =>
    cases c with
    | pass | fail => rfl
    | any s members =>
      rw [takes, takesAny_eq, List.any_eq_false] at silent
      exact acceptsAny_congr fun c member => ih c member (by simpa using silent c member)
    | all s parts =>
      rw [takes, takesAny_eq, List.any_eq_false] at silent
      exact acceptsAll_congr fun c member => ih c member (by simpa using silent c member)
    | literal s values =>
      cases values with
      | nil => rfl
      | cons => cases silent
    | validators s child vs =>
      rw [takes, Bool.or_eq_false_iff] at silent
      rw [accepts, accepts, ih child (by simp [children]) silent.1]
      cases vs with
      | nil => rfl
      | cons => cases silent.2
    | _ => cases silent

theorem accepts_sampled (s : Subject) (origin : List ClassOperand) (item : Check) (v : Value) :
    (sequence s origin item false).accepts o v =
      if o.catalog.isInstanceOf v origin then
        ((v.sample? o.random).map (item.accepts o)).getD (pure true)
      else pure false := by
  rw [accepts]
  cases o.catalog.isInstanceOf v origin <;> cases v.sample? o.random <;> rfl

/-- The verdict of a steady check does not depend on the random number. -/
theorem Steady.accepts_eq (steady : c.Steady) (o : Oracle m) (random : UInt32) (v : Value) :
    c.accepts o v = c.accepts { o with random } v := by
  induction c using induction_children generalizing v with
  | step c ih =>
    have inside {d : Check} (child : d ∈ c.children) (v : Value) :
        d.accepts o v = d.accepts { o with random } v :=
      ih d child (steady.node (.single child)) v
    cases c with
    | pass | fail | isInstance | isSubclass | forwardInstance | forwardSubclass | literal
    | typedDict => rfl
    | any s members => exact acceptsAny_congr fun c member => inside member v
    | all s parts => exact acceptsAll_congr fun c member => inside member v
    | sequence s origin item every =>
      have same := funext fun x => inside (d := item) (by simp [children]) x
      cases every with
      | true => simp only [accepts, same, if_true]
      | false =>
        have silent := steady s origin item .refl
        have sample := v.isSome_sample? o.random random
        rw [accepts_sampled, accepts_sampled]
        congr 1
        cases here : v.sample? o.random <;> cases there : v.sample? random <;>
          rw [here, there] at sample
        · rfl
        · cases sample
        · cases sample
        · exact accepts_of_not_takes silent _ _ _ _
    | reiterable s origin item every =>
      have same := funext fun x => inside (d := item) (by simp [children]) x
      rw [accepts, accepts, same]
    | mapping s origin key value every =>
      have keys (x : Value) : acceptsOption o key x = acceptsOption { o with random } key x :=
        acceptsOption_congr fun d member => inside (List.mem_append_left _ member) x
      have values (x : Value) : acceptsOption o value x = acceptsOption { o with random } value x :=
        acceptsOption_congr fun d member => inside (List.mem_append_right _ member) x
      simp only [accepts, keys, values]
    | tupleFixed s origin len items =>
      rw [accepts, accepts, acceptsItems_congr fun d member => inside member]
    | validators s child vs => rw [accepts, accepts, inside (by simp [children])]
    | attr s name child =>
      rw [accepts, accepts, funext (inside (d := child) (by simp [children]))]

/-! ### Diagnoses -/

/-- A diagnosis that finds nothing in a value that is accepted. -/
def unlessAccepted (verdict : m Bool) (next : m (Option Failure)) : m (Option Failure) := do
  if ← verdict then return none
  next

/-- What a diagnosis goes on with if it has found nothing so far. -/
def orElse (next : m (Option Failure)) : Option Failure → m (Option Failure)
  | some failure => pure (some failure)
  | none => next

end Check

/-- A relation between diagnoses that is kept when both go on alike. -/
structure Likeness (m : Type → Type) [Monad m] where
  rel : m (Option Failure) → m (Option Failure) → Prop
  same : ∀ x, rel x x
  ofBind : ∀ {α : Type} (x : m α) {f g : α → m (Option Failure)}, (∀ a, rel (f a) (g a)) →
    rel (x >>= f) (x >>= g)
  ofElse : ∀ {x y next other : m (Option Failure)}, rel x y → rel next other →
    rel (x >>= Check.orElse next) (y >>= Check.orElse other)

namespace Likeness

variable {m : Type → Type} [Monad m]

/-- The diagnoses are the same. -/
def equal : Likeness m where
  rel := Eq
  same _ := rfl
  ofBind x _ _ each := congrArg (x >>= ·) (funext each)
  ofElse := by rintro _ _ _ _ rfl rfl; rfl

/-- Both diagnoses find something, or neither does. -/
def found [LawfulMonad m] : Likeness m where
  rel x y := Option.isSome <$> x = Option.isSome <$> y
  same _ := rfl
  ofBind x f g each := by rw [map_bind, map_bind, funext each]
  ofElse := by
    intro x y next other first second
    have opened (x next : m (Option Failure)) :
        Option.isSome <$> (x >>= Check.orElse next) =
          (Option.isSome <$> x) >>= fun b => if b then pure true else Option.isSome <$> next := by
      rw [map_bind, bind_map_left]
      congr 1
      funext result
      cases result with
      | none => rfl
      | some failure => exact map_pure _ _
    rw [opened, opened, first, second]

variable (likeness : Likeness m)

theorem unlessAccepted {verdict : m Bool} {next other : m (Option Failure)}
    (alike : likeness.rel next other) :
    likeness.rel (Check.unlessAccepted verdict next) (Check.unlessAccepted verdict other) := by
  refine likeness.ofBind verdict fun accepted => ?_
  cases accepted with
  | true => exact likeness.same _
  | false => exact alike

theorem firstFailure {α : Type} {find other : α → m (Option Failure)} {as bs : List α}
    (each : List.Forall₂ (fun a b => likeness.rel (find a) (other b)) as bs) :
    likeness.rel (Check.firstFailure find as) (Check.firstFailure other bs) := by
  induction each with
  | nil => exact likeness.same _
  | cons first _ ih => exact likeness.ofElse first ih

end Likeness

namespace Check

variable {m : Type → Type} [Monad m] [MonadExcept ReferenceError m] {c : Check} {o : Oracle m}

/-- The failure of the items that are visited in a sequence. -/
def blameVisited (o : Oracle m) (item : Check) (every : Bool) (v : Value) (path : String) :
    m (Option Failure) :=
  firstFailure (fun entry => blame o item entry.2 (path ++ "[" ++ toString entry.1 ++ "]"))
    (visited o.random every v)

theorem passesOutermost_congr {random : UInt32} {v : Value}
    (verdicts : ∀ d, c.HasNode d → d.accepts o v = d.accepts { o with random } v) :
    passesOutermost o c v = passesOutermost { o with random } c v := by
  induction c using induction_children with
  | step c ih =>
    have inside (d : Check) (child : d ∈ c.children) :
        d.accepts o v = d.accepts { o with random } v :=
      verdicts d (.single child)
    cases c with
    | validators s child vs =>
      have isChild : child ∈ (validators s child vs).children := by simp [children]
      rw [passesOutermost, passesOutermost, acceptsOrFails, acceptsOrFails, inside child isChild,
        ih child isChild fun d isNode => verdicts d (.head isChild isNode)]
    | all s parts =>
      cases parts with
      | nil => rfl
      | cons first rest =>
        rw [passesOutermost, passesOutermost, acceptsOrFails, acceptsOrFails,
          inside first (by simp [children])]
    | _ => rfl

theorem passesOutermost_of_not_takes (silent : c.takes = false) (o other : Oracle m) (v w : Value) :
    passesOutermost o c v = passesOutermost other c w := by
  induction c using induction_children with
  | step c ih =>
    cases c with
    | validators s child vs =>
      rw [takes, Bool.or_eq_false_iff] at silent
      rw [passesOutermost, passesOutermost, acceptsOrFails, acceptsOrFails,
        accepts_of_not_takes silent.1 o other v w, ih child (by simp [children]) silent.1]
    | all s parts =>
      cases parts with
      | nil => rfl
      | cons first rest =>
        rw [takes, takesAny, Bool.or_eq_false_iff] at silent
        rw [passesOutermost, passesOutermost, acceptsOrFails, acceptsOrFails,
          accepts_of_not_takes silent.1 o other v w]
    | sequence | reiterable | mapping | tupleFixed | typedDict => cases silent
    | _ => rfl

section Likeness
variable {other : Oracle m} {v w : Value} {path way : String} (likeness : Likeness m)
include likeness

theorem blameMembers_alike {members : List Check}
    (passes : ∀ c ∈ members, passesOutermost o c v = passesOutermost other c w)
    (each : ∀ c ∈ members, likeness.rel (blame o c v path) (blame other c w way)) :
    likeness.rel (blameMembers o members v path) (blameMembers other members w way) := by
  induction members with
  | nil => exact likeness.same _
  | cons c rest ih =>
    obtain ⟨passesFirst, passesRest⟩ := List.forall_mem_cons.mp passes
    obtain ⟨first, others⟩ := List.forall_mem_cons.mp each
    rw [blameMembers, blameMembers, passesFirst]
    refine likeness.ofBind _ fun further => ?_
    cases further with
    | true => exact likeness.ofElse first (ih passesRest others)
    | false => exact ih passesRest others

theorem blameParts_alike {parts : List Check}
    (each : ∀ c ∈ parts, likeness.rel (blame o c v path) (blame other c w way)) :
    likeness.rel (blameParts o parts v path) (blameParts other parts w way) := by
  induction parts with
  | nil => exact likeness.same _
  | cons c rest ih =>
    obtain ⟨first, others⟩ := List.forall_mem_cons.mp each
    exact likeness.ofElse first (ih others)

theorem blameOption_alike {d : Option Check}
    (each : ∀ c ∈ d.toList, likeness.rel (blame o c v path) (blame other c v path)) :
    likeness.rel (blameOption o d v path) (blameOption other d v path) := by
  cases d with
  | none => exact likeness.same _
  | some c => exact each c (by simp)

theorem blameItems_alike {items : List (Nat × Check)}
    (each : ∀ c ∈ items.map Prod.snd, ∀ x path,
      likeness.rel (blame o c x path) (blame other c x path)) :
    likeness.rel (blameItems o items v path) (blameItems other items v path) := by
  induction items with
  | nil => exact likeness.same _
  | cons entry rest ih =>
    obtain ⟨first, others⟩ := List.forall_mem_cons.mp each
    obtain ⟨index, c⟩ := entry
    rw [blameItems, blameItems]
    cases v.at? index with
    | none => exact ih others
    | some x => exact likeness.ofElse (first x _) (ih others)

end Likeness

/-- Diagnoses with two random numbers are alike if they are alike in the items that are sampled. -/
theorem blame_alike (likeness : Likeness m) (random : UInt32)
    (verdicts : ∀ d, c.HasNode d → ∀ v, d.accepts o v = d.accepts { o with random } v)
    (samples : ∀ s origin item, c.HasNode (.sequence s origin item false) → ∀ v path,
      likeness.rel (blameVisited o item false v path)
        (blameVisited { o with random } item false v path)) (v : Value) (path : String) :
    likeness.rel (blame o c v path) (blame { o with random } c v path) := by
  induction c using induction_children generalizing v path with
  | step c ih =>
    have inside {d : Check} (child : d ∈ c.children) (v : Value) (path : String) :
        likeness.rel (blame o d v path) (blame { o with random } d v path) :=
      ih d child (fun e isNode => verdicts e (.head child isNode))
        (fun s origin item isNode => samples s origin item (.head child isNode)) v path
    have verdict := verdicts c .refl v
    cases c with
    | pass | fail => exact likeness.same _
    | isInstance | isSubclass | forwardInstance | forwardSubclass | literal | typedDict =>
      rw [blame, blame, verdict]
      exact likeness.same _
    | any s members =>
      rw [blame, blame, verdict]
      refine likeness.unlessAccepted (likeness.ofElse (blameMembers_alike likeness ?_ ?_)
        (likeness.same _))
      · exact fun c member => passesOutermost_congr fun d isNode =>
          verdicts d (.head member isNode) v
      · exact fun c member => inside member v path
    | all s parts =>
      rw [blame, blame, verdict]
      exact likeness.unlessAccepted (likeness.ofElse
        (blameParts_alike likeness fun c member => inside member v path) (likeness.same _))
    | sequence s origin item every =>
      rw [blame, blame, verdict]
      refine likeness.unlessAccepted ?_
      split
      · exact likeness.same _
      · cases every with
        | true => exact likeness.firstFailure (List.forall₂_same.mpr fun entry _ =>
          inside (by simp [children]) _ _)
        | false => exact samples s origin item .refl v path
    | reiterable s origin item every =>
      rw [blame, blame, verdict]
      refine likeness.unlessAccepted ?_
      split
      · exact likeness.same _
      · exact likeness.firstFailure (List.forall₂_same.mpr fun entry _ =>
          inside (by simp [children]) _ _)
    | mapping s origin key value every =>
      rw [blame, blame, verdict]
      refine likeness.unlessAccepted ?_
      split
      · exact likeness.same _
      · refine likeness.firstFailure (List.forall₂_same.mpr fun pair _ => likeness.ofElse ?_ ?_)
        · exact blameOption_alike _ fun d member => inside (List.mem_append_left _ member) _ _
        · exact blameOption_alike _ fun d member => inside (List.mem_append_right _ member) _ _
    | tupleFixed s origin len items =>
      rw [blame, blame, verdict]
      refine likeness.unlessAccepted ?_
      split
      · exact likeness.same _
      · dsimp only
        split
        · exact likeness.same _
        · exact blameItems_alike likeness fun d member => inside member
    | validators s child vs =>
      rw [blame, blame, verdict]
      exact likeness.unlessAccepted (likeness.ofElse (inside (by simp [children]) v path)
        (likeness.same _))
    | attr s name child =>
      rw [blame, blame, verdict]
      refine likeness.unlessAccepted ?_
      dsimp only
      split
      · exact inside (by simp [children]) _ _
      · exact likeness.same _

/-- What comes to light in a check that does not look at its value is the same for every value. -/
theorem blame_of_not_takes [LawfulMonad m] (silent : c.takes = false) (o other : Oracle m)
    (v w : Value) (path way : String) :
    Likeness.found.rel (blame o c v path) (blame other c w way) := by
  have failed (f g : Failure) : Likeness.found.rel (pure (some f) : m _) (pure (some g)) := by
    simp [Likeness.found]
  induction c using induction_children with
  | step c ih =>
    have verdict := accepts_of_not_takes silent o other v w
    cases c with
    | pass => exact Likeness.found.same _
    | fail => exact failed _ _
    | any s members =>
      rw [takes, takesAny_eq, List.any_eq_false] at silent
      rw [blame, blame, verdict]
      refine Likeness.found.unlessAccepted (Likeness.found.ofElse ?_ (failed _ _))
      exact blameMembers_alike _
        (fun c member => passesOutermost_of_not_takes (by simpa using silent c member) o other v w)
        fun c member => ih c member (by simpa using silent c member)
    | all s parts =>
      rw [takes, takesAny_eq, List.any_eq_false] at silent
      rw [blame, blame, verdict]
      refine Likeness.found.unlessAccepted (Likeness.found.ofElse ?_ (failed _ _))
      exact blameParts_alike _ fun c member => ih c member (by simpa using silent c member)
    | literal s values =>
      rw [blame, blame, verdict]
      exact Likeness.found.unlessAccepted (failed _ _)
    | validators s child vs =>
      rw [takes, Bool.or_eq_false_iff] at silent
      have none : vs = [] := by simpa using silent.2
      rw [blame, blame, verdict, none, List.find?_nil, List.find?_nil, Option.map_none,
        Option.map_none]
      exact Likeness.found.unlessAccepted (Likeness.found.ofElse
        (ih child (by simp [children]) silent.1) (Likeness.found.same _))
    | _ => cases silent

theorem visited_sampled (random : UInt32) (v : Value) :
    (visited random false v).length = if v.items.isEmpty then 0 else 1 := by
  rw [visited]
  cases items : v.items with
  | nil => rfl
  | cons first rest =>
    have inside : sampleIndex random (rest.length + 1) < rest.length + 1 :=
      Nat.mod_lt _ (Nat.succ_pos _)
    simp [inside]

/-- A steady check is diagnosed alike with every random number: the failures may be in different
items of a sequence, but the same steps lead to them. -/
theorem Steady.blame_found [LawfulMonad m] (steady : c.Steady) (o : Oracle m) (random : UInt32)
    (v : Value) (path : String) :
    Likeness.found.rel (blame o c v path) (blame { o with random } c v path) := by
  refine blame_alike _ random ?_ ?_ v path
  · exact fun d isNode v => (steady.node isNode).accepts_eq o random v
  · intro s origin item isNode v path
    have silent := steady s origin item isNode
    have sameLength : (visited o.random false v).length = (visited random false v).length := by
      rw [visited_sampled, visited_sampled]
    exact Likeness.found.firstFailure (List.forall₂_iff_get.mpr
      ⟨sameLength, fun _ _ _ => blame_of_not_takes silent _ _ _ _ _ _⟩)

/-- A thorough check is diagnosed in the same way with every random number. -/
theorem Thorough.blame_eq (thorough : c.Thorough) (o : Oracle m) (random : UInt32)
    (v : Value) (path : String) : blame o c v path = blame { o with random } c v path := by
  refine blame_alike .equal random ?_ ?_ v path
  · exact fun d isNode v => (thorough.steady.node isNode).accepts_eq o random v
  · exact fun s origin item isNode => absurd isNode (thorough s origin item)

end Check

/-! ### Calls -/

/-- The error without the cause of a violation. -/
def CallError.sparing : CallError → CallError
  | violation v => violation { v with cause := "" }
  | e => e

namespace Running

/-- How a call has ended, without the cause of a violation. -/
def spared {α : Type} (ended : Except CallError α × CallState) : Except CallError α × CallState :=
  (ended.1.mapError CallError.sparing, ended.2)

/-- The calls end alike, but for the cause of a violation. -/
def alike : Accord Running Running where
  rel x y := ∀ s, spared (x.run.run s) = spared (y.run.run s)
  ofPure _ _ := rfl
  ofBind := by
    intro α β x y f g first next s
    have begun := first s
    rw [run_run_bind, run_run_bind]
    rcases left : x.run.run s with ⟨e | a, mid⟩ <;>
      rcases right : y.run.run s with ⟨e' | a', mid'⟩ <;> rw [left, right] at begun <;>
      simp only [spared, Except.mapError, Prod.mk.injEq, Except.error.injEq, Except.ok.injEq,
        reduceCtorEq, false_and] at begun
    · obtain ⟨sameError, rfl⟩ := begun
      simp only [spared, Except.mapError, sameError]
    · obtain ⟨rfl, rfl⟩ := begun
      exact next a mid

variable {o : Oracle Checking} {random : UInt32} {c : Check} {conf : Config} {function : String}
  {site : Site} {v : Value}

/-- A violation is told after the diagnosis, which only its cause depends on. -/
theorem violation_ends (conf : Config) (function : String) (site : Site) (c : Check) (v : Value)
    (o : Oracle Checking) (s : CallState) :
    ∃ cause, (c.violation o conf function site v).run.run s =
      (.ok ⟨function, site, c.subject.hint, v.typeName o.catalog, abridged (v.text o.catalog),
        cause, conf.usesColor⟩, ((c.diagnose o v).run.run s).2) := by
  unfold Check.violation Check.failure
  rw [run_run_bind, run_run_bind, Checking.run_tryCatch]
  rcases (c.diagnose o v).run.run s with ⟨_ | _, after⟩ <;> exact ⟨_, rfl⟩

theorem state_of_found {x y : Checking (Option Failure)} (found : Likeness.found.rel x y)
    (s : CallState) : (x.run.run s).2 = (y.run.run s).2 := by
  have ended (x : Checking (Option Failure)) :
      ((Option.isSome <$> x : Checking Bool).run.run s).2 = (x.run.run s).2 := by
    rw [map_eq_pure_bind, run_run_bind]
    rcases x.run.run s with ⟨_ | _, after⟩ <;> rfl
  rw [← ended x, ← ended y]
  exact congrArg (fun z : Checking Bool => (z.run.run s).2) found

/-- A steady check demands the same with every random number. -/
theorem demand_alike (steady : c.Steady) :
    alike.rel (demand o conf function site c v)
      (demand { o with random } conf function site c v) := by
  unfold demand
  rw [← steady.accepts_eq o random v]
  refine alike.ofBind (fun _ => rfl) fun accepted => ?_
  cases accepted with
  | true =>
    rw [if_pos rfl, if_pos rfl]
    exact fun _ => rfl
  | false =>
    intro s
    obtain ⟨cause, told⟩ := violation_ends conf function site c v o s
    obtain ⟨other, toldToo⟩ := violation_ends conf function site c v { o with random } s
    have sameState := state_of_found (steady.blame_found o random v "") s
    rw [if_neg Bool.false_ne_true, if_neg Bool.false_ne_true, run_run_bind, run_run_bind,
      ofChecking_run, ofChecking_run, told, toldToo]
    exact congrArg (Prod.mk (Except.error (CallError.violation ⟨function, site, c.subject.hint,
      v.typeName o.catalog, abridged (v.text o.catalog), "", conf.usesColor⟩))) sameState

/-- A thorough check demands the same and tells the same with every random number. -/
theorem demand_eq (thorough : c.Thorough) :
    demand o conf function site c v = demand { o with random } conf function site c v := by
  have told : c.violation o conf function site v =
      c.violation { o with random } conf function site v := by
    unfold Check.violation Check.failure Check.diagnose
    rw [thorough.blame_eq o random v ""]
  unfold demand
  rw [← thorough.steady.accepts_eq o random v, told]

/-- Demands in accord, made one after the other, are in accord. -/
theorem accord_demandParams (accord : Accord Running Running) {other : Oracle Checking}
    {w : Wrapper} {bound : List Bound} {params : List ParamCheck}
    (each : ∀ p ∈ params, ∀ v, accord.rel
      (demand o w.conf function (.parameter p.name) p.check v)
      (demand other w.conf function (.parameter p.name) p.check v)) :
    accord.rel (demandParams o w function bound params)
      (demandParams other w function bound params) := by
  induction params with
  | nil => exact accord.ofPure ()
  | cons p rest ih =>
    obtain ⟨first, others⟩ := List.forall_mem_cons.mp each
    rw [demandParams, demandParams]
    rcases bound[p.index]? with _ | b
    · exact ih others
    · dsimp only
      by_cases given : b.passed = true
      · rw [if_pos given, if_pos given]
        exact accord.ofBind (first b.value) fun _ => ih others
      · rw [if_neg given, if_neg given]
        exact ih others

end Running

namespace Wrapper

/-- The checks of a wrapper. -/
def checks (w : Wrapper) : List Check :=
  w.params.map ParamCheck.check ++ w.result.toList

/-- What a wrapper does with bound arguments if the given number was drawn. `body` is what the
function does with them. -/
def answer (w : Wrapper) (around : Surroundings) (function : String)
    (body : List Bound → Running Value) (random : UInt32) (bound : List Bound) : Running Value := do
  let o := Running.oracle around w.label random
  Running.demandParams o w function bound w.params
  let v ← body bound
  match w.result with
  | some c => Running.demand o w.conf function .result c v
  | none => pure ()
  return v

/-- A call of a function with a wrapper around it, for which the given number was drawn. -/
def callWith (w : Wrapper) (around : Surroundings) (d : Declaration) (body : Body)
    (random : UInt32) (args : Call) : Running Value := do
  let bound ← Running.bind d args
  w.answer around d.qualname (body.run around) random bound

variable {w : Wrapper} {around : Surroundings} {d : Declaration} {body : Body} {args : Call}

/-- A call draws a number, if it needs one, and answers with it. -/
theorem call_eq (w : Wrapper) (around : Surroundings) (d : Declaration) (body : Body)
    (args : Call) :
    (Callable.checked d body w).call around args = (do
      let bound ← Running.bind d args
      let random ← if w.samples then Running.draw else pure 0
      w.answer around d.qualname (body.run around) random bound) := by
  rw [Callable.call]
  rfl

theorem call_of_not_samples (drawless : w.samples = false) :
    (Callable.checked d body w).call around args = w.callWith around d body 0 args := by
  rw [call_eq, drawless]
  rfl

theorem accord_callWith (accord : Accord Running Running) {random : UInt32}
    (each : ∀ c ∈ w.checks, ∀ site v, accord.rel
      (Running.demand (Running.oracle around w.label 0) w.conf d.qualname site c v)
      (Running.demand (Running.oracle around w.label random) w.conf d.qualname site c v))
    (same : ∀ {α : Type} (x : Running α), accord.rel x x) :
    accord.rel (w.callWith around d body 0 args) (w.callWith around d body random args) := by
  refine accord.ofBind (same _) fun bound => ?_
  refine accord.ofBind (Running.accord_demandParams accord fun p member => ?_) fun _ => ?_
  · exact each p.check (List.mem_append_left _ (List.mem_map_of_mem member)) (.parameter p.name)
  · refine accord.ofBind (same _) fun v => ?_
    cases held : w.result with
    | none => exact same _
    | some c =>
      exact accord.ofBind (each c (List.mem_append_right _ (by simp [held])) .result v)
        fun _ => same _

/-- The checks of a wrapper that draws no number do not need one. -/
theorem steady_of_not_samples {cat : Catalog} {label : Nat} {params : List ParamCheck}
    {result : Option Check} {scope : Scope} {conf : Config}
    (wraps : d.wrap cat label params result scope conf = .ok w) (drawless : w.samples = false) :
    ∀ c ∈ w.checks, c.Steady := by
  simp only [Declaration.wrap] at wraps
  split at wraps <;> cases wraps
  obtain ⟨inParams, inResult⟩ := Bool.or_eq_false_iff.mp drawless
  rw [List.any_eq_false] at inParams
  intro c member
  rcases List.mem_append.mp member with isParam | isResult
  · obtain ⟨p, among, rfl⟩ := List.mem_map.mp isParam
    exact Check.steady_of_text (by simpa using inParams p among)
  · cases Option.mem_toList.mp isResult
    exact Check.steady_of_text inResult

end Wrapper

/-- The check is generated in some scope. -/
def Order.Yields (order : Order) (c : Check) : Prop :=
  ∃ scope : Scope, scope.Sound ∧ (order.carryOut scope).1 = .ok c

theorem Order.Yields.thorough {order : Order} {c : Check} (yields : order.Yields c)
    (exhaustive : order.builder.isExhaustive = true) : c.Thorough := by
  obtain ⟨scope, sound, built⟩ := yields
  obtain ⟨_, _, stands⟩ := order.carryOut_steps sound
  have formed := (stands c built _ fun _ _ => id).formed
  rw [exhaustive] at formed
  exact formed.thorough

/-- A check needs no random number if all sequences are tested in full, or if its text does not
mention one. A wrapper that draws none ends each call in the state in which it would end with any
number, and with the same value or error, but the cause of a violation may be another item of a
sequence; with checks that test sequences in full that is the same, too. -/
theorem Order.carryOut_indifferent :
    (∀ (order : Order) (check : Check) (cat : Catalog), order.Yields check →
      order.builder.isExhaustive = true ∨
        Text.occurs randomName.toList (check.text cat).toList = false →
      ∀ (m : Type → Type) [Monad m] (o : Oracle m) (random : UInt32) (v : Value),
        check.accepts o v = check.accepts { o with random } v) ∧
    ∀ (d : Declaration) (cat : Catalog) (label : Nat) (params : List ParamCheck)
      (result : Option Check) (scope : Scope) (conf : Config) (w : Wrapper),
      d.wrap cat label params result scope conf = .ok w → w.samples = false →
      ∀ (around : Surroundings) (body : Body) (args : Call) (random : UInt32) (s : CallState),
        let called := ((Callable.checked d body w).call around args).run.run s
        let drawn := (w.callWith around d body random args).run.run s
        Running.spared called = Running.spared drawn ∧
          ((∀ c ∈ w.checks, ∃ order : Order, order.builder.isExhaustive = true ∧ order.Yields c) →
            called = drawn) := by
  refine ⟨fun order check cat yields drawless m _ o random v => ?_, ?_⟩
  · have steady : check.Steady := by
      rcases drawless with exhaustive | absent
      · exact (yields.thorough exhaustive).steady
      · exact Check.steady_of_text absent
    exact steady.accepts_eq o random v
  · intro d cat label params result scope conf w wraps drawless around body args random s
    have steady := Wrapper.steady_of_not_samples wraps drawless
    dsimp only
    rw [Wrapper.call_of_not_samples drawless]
    refine ⟨?_, fun thorough => ?_⟩
    · exact Wrapper.accord_callWith Running.alike
        (fun c member site v => Running.demand_alike (steady c member)) (fun _ _ => rfl) s
    · have same : w.callWith around d body 0 args = w.callWith around d body random args :=
        Wrapper.accord_callWith (.equal Running) (fun c member site v => by
          obtain ⟨order, exhaustive, yields⟩ := thorough c member
          exact Running.demand_eq (yields.thorough exhaustive)) fun _ => rfl
      rw [same]

/-! ### Lists without items -/

/-- Lists of which no item is acceptable. -/
def nothingList : Hint :=
  .generic none Builtin.list [.form (.standard .never)]

/-- A function of such a list. -/
def takesNothing : Declaration :=
  ⟨3, "f", "f", "m", ⟨[⟨"x", .positionalOrKeyword, none, some nothingList⟩], by decide⟩, none,
    false, none⟩

theorem Order.carryOut_indifferent_nothing :
    ∃ (order : Order) (check : Check) (w : Wrapper), order.Yields check ∧
      check.text .builtin = "(isinstance(x, list) and (not x or False))" ∧
      takesNothing.wrap .builtin 0 [⟨0, "x", check⟩] none .empty .standard = .ok w ∧
      w.samples = false ∧
      (∀ (o : Oracle (Except ReferenceError)) (random : UInt32) (v : Value),
        check.accepts o v = check.accepts { o with random } v) ∧
      ∀ (args : Call) (random : UInt32) (s : CallState),
        Running.spared (((Callable.checked takesNothing (.argument "x") w).call
          Session.start.around args).run.run s) =
        Running.spared ((w.callWith Session.start.around takesNothing (.argument "x") random
          args).run.run s) := by
  have evaluated : (nothingList.classify .builtin [] (.bare .standard)).toOption.any (fun c =>
      ((Order.mk ⟨.builtin, [], .standard⟩ (.bare .standard) "x" c).carryOut
        .empty).1.toOption.any fun check =>
          check.text .builtin == "(isinstance(x, list) and (not x or False))" &&
          (takesNothing.wrap .builtin 0 [⟨0, "x", check⟩] none .empty .standard).toOption.any
            fun w => !w.samples) = true := by
    decide +kernel
  obtain ⟨c, _, evaluated⟩ := ok_of_any evaluated
  obtain ⟨check, built, evaluated⟩ := ok_of_any evaluated
  obtain ⟨isText, evaluated⟩ := Bool.and_eq_true_iff.mp evaluated
  obtain ⟨w, wraps, drawless⟩ := ok_of_any evaluated
  have isText := beq_iff_eq.mp isText
  have drawless : w.samples = false := by simpa using drawless
  have yields : Order.Yields _ check := ⟨.empty, Scope.sound_empty, built⟩
  refine ⟨_, check, w, yields, isText, wraps, drawless, fun o random v => ?_,
    fun args random s => ?_⟩
  · refine Order.carryOut_indifferent.1 _ check .builtin yields (.inr ?_) _ o random v
    rw [isText]
    decide +kernel
  · exact (Order.carryOut_indifferent.2 _ _ _ _ _ _ _ w wraps drawless _ _ args random s).1

/-- The wrapper draws no number, but with another number it would blame another item. -/
theorem Wrapper.nothing_blames_sample :
    let said (x : Running Value) := ((x.run.run Session.start.calls).1.map fun _ => ()).mapError
      CallError.message
    let args : Call := ⟨[.list [.int 1, .int 2]], []⟩
    let violates := "Function f() parameter x=[1, 2] violates type hint list[typing.Never], as "
    ∃ g w, ((Session.decorate .standard none (.plain takesNothing (.argument "x"))).run
        Session.start).1.1 = .ok g ∧ g.wrapper? = some w ∧ w.samples = false ∧
      said (g.call Session.start.around args) =
        .error (violates ++ "x[0] int 1 returned despite typing.Never.") ∧
      said (w.callWith Session.start.around takesNothing (.argument "x") 1 args) =
        .error (violates ++ "x[1] int 2 returned despite typing.Never.") := by
  intro said args violates
  have evaluated : ((Session.decorate .standard none (.plain takesNothing (.argument "x"))).run
      Session.start).1.1.toOption.any (fun g => g.wrapper?.any fun w => decide (w.samples = false ∧
        said (g.call Session.start.around args) =
          .error (violates ++ "x[0] int 1 returned despite typing.Never.") ∧
        said (w.callWith Session.start.around takesNothing (.argument "x") 1 args) =
          .error (violates ++ "x[1] int 2 returned despite typing.Never."))) = true := by
    decide +kernel
  obtain ⟨g, decorated, evaluated⟩ := ok_of_any evaluated
  cases wrapped : g.wrapper? with
  | none => rw [wrapped] at evaluated; cases evaluated
  | some w =>
    rw [wrapped] at evaluated
    exact ⟨g, w, decorated, wrapped, of_decide_eq_true evaluated⟩

end HintCheck
