import HintCheck.Proofs.Diagnosis

/-!
A rejection is explained. A diagnosis finds nothing in a value that is accepted. In a value that is
rejected it finds a failure, since it looks at all that the check looked at and in the same order;
only an instance of a tuple class that has no length is rejected by the check of the empty tuple and
passed over by the diagnosis, which takes the length for zero.
-/
namespace HintCheck
namespace Check

/-! ### Searches -/

section Searches
variable {ε : Type}

/-- A search that goes on past the items that were tested still finds the failure of the first item
that is rejected. -/
theorem firstFailure_explains {α : Type} {test : α → Except ε Bool}
    {find : α → Except ε (Option Failure)} {items tested : List α} (starts : tested <+: items)
    (accepted : ∀ a ∈ tested, test a = .ok true → find a = .ok none)
    (explained : ∀ a ∈ tested, test a = .ok false → ∃ f, find a = .ok (some f))
    (rejected : allOf test tested = .ok false) : ∃ f, firstFailure find items = .ok (some f) := by
  obtain ⟨others, rfl⟩ := starts
  induction tested with
  | nil => cases rejected
  | cons a rest ih =>
    rw [List.forall_mem_cons] at accepted explained
    rw [List.cons_append, firstFailure]
    rcases both_eq_false.mp rejected with here | ⟨passed, later⟩
    · obtain ⟨f, found⟩ := explained.1 here
      exact ⟨f, by rw [found]; rfl⟩
    · rw [accepted.1 passed]
      exact ih accepted.2 explained.2 later

theorem allOf_indexed {α : Type} (test : α → Except ε Bool) (start : Nat) (items : List α) :
    allOf (fun entry => test entry.2) (indexed start items) = allOf test items := by
  induction items generalizing start with
  | nil => rfl
  | cons a rest ih => rw [indexed, allOf, allOf, ih]

/-- What does not hold of all items is found not to hold of one. -/
theorem exists_find?_of_all {α : Type} {p : α → Bool} {items : List α}
    (violated : items.all p = false) : ∃ a, items.find? (fun a => !p a) = some a := by
  rw [← Option.isSome_iff_exists, List.find?_isSome]
  simpa using violated

end Searches

section Blame
variable {o : Oracle (Except ReferenceError)}

theorem acceptsAny_eq_false {members : List Check} {v : Value}
    (rejected : acceptsAny o members v = .ok false) : ∀ c ∈ members, c.accepts o v = .ok false := by
  induction members with
  | nil => exact fun _ among => by cases among
  | cons c rest ih =>
    rw [acceptsAny] at rejected
    rcases here : c.accepts o v with e | _ | _ <;> rw [here] at rejected
    · cases rejected
    · exact List.forall_mem_cons.mpr ⟨here, ih rejected⟩
    · cases rejected

/-- Whether the item at one position is accepted. -/
def acceptsPosition (o : Oracle (Except ReferenceError)) (v : Value) (entry : Nat × Check) :
    Except ReferenceError Bool :=
  match v.at? entry.1 with
  | none => .ok true
  | some x => entry.2.accepts o x

theorem acceptsItems_eq (o : Oracle (Except ReferenceError)) (items : List (Nat × Check))
    (v : Value) : acceptsItems o items v = allOf (acceptsPosition o v) items := by
  induction items with
  | nil => rfl
  | cons entry rest ih =>
    obtain ⟨index, c⟩ := entry
    rw [acceptsItems, allOf, ih, acceptsPosition]
    dsimp only
    cases v.at? index <;> rfl

/-- Whether a value gets past the outermost test is known even where a reference is not. -/
theorem passesOutermost_ok (o : Oracle (Except ReferenceError)) (c : Check) (v : Value) :
    ∃ passes, passesOutermost o c v = .ok passes := by
  have caught (c : Check) : ∃ passes, acceptsOrFails o c v = .ok passes := by
    unfold acceptsOrFails
    rcases c.accepts o v with e | passes
    · exact ⟨false, rfl⟩
    · exact ⟨passes, rfl⟩
  induction c using induction_children with
  | step c ih =>
    match c with
    | validators s child vs =>
      obtain ⟨passes, isCaught⟩ := caught child
      rw [passesOutermost, isCaught]
      cases passes with
      | true => exact ⟨true, rfl⟩
      | false => exact ih child (List.mem_singleton_self _)
    | all _ [] => exact ⟨false, rfl⟩
    | all _ (first :: rest) => exact caught first
    | pass _ | fail _ | isInstance _ _ | isSubclass _ _ | forwardInstance _ _ | forwardSubclass _ _
    | any _ _ | sequence _ _ _ _ | reiterable _ _ _ _ | mapping _ _ _ _ _ | tupleFixed _ _ _ _
    | literal _ _ | attr _ _ _ | typedDict _ _ _ => exact ⟨_, rfl⟩

/-! ### Accepted values -/

/-- Nothing is blamed on a value that is accepted. -/
theorem blame_of_accepted {c : Check} {v : Value} (accepted : c.accepts o v = .ok true)
    (path : String) : blame o c v path = .ok none := by
  cases c with
  | pass => rfl
  | fail => cases accepted
  | _ =>
    rw [blame, accepted]
    rfl

theorem blameOption_of_accepted {c : Option Check} {v : Value}
    (accepted : acceptsOption o c v = .ok true) (path : String) :
    blameOption o c v path = .ok none := by
  cases c with
  | none => rfl
  | some c => exact blame_of_accepted accepted path

/-! ### Rejected values -/

/-- The check asks for a tuple without items, and the value is a tuple that has no length. -/
def Unmeasured (cat : Catalog) : Check → Value → Prop
  | tupleFixed _ origin len _, v => cat.isInstanceOf v origin = true ∧ len = 0 ∧ v.len? = none
  | _, _ => False

/-- A diagnosis asks every member whose outermost test is passed, and none of them fails to
answer. -/
theorem blameMembers_ok {members : List Check} {v : Value} {path : String}
    (explained : ∀ c ∈ members, ∃ f, blame o c v path = .ok (some f)) :
    ∃ found, blameMembers o members v path = .ok found := by
  induction members with
  | nil => exact ⟨none, rfl⟩
  | cons c rest ih =>
    rw [List.forall_mem_cons] at explained
    obtain ⟨passes, isPassed⟩ := passesOutermost_ok o c v
    rw [blameMembers, isPassed]
    cases passes with
    | false => exact ih explained.2
    | true =>
      obtain ⟨f, found⟩ := explained.1
      exact ⟨some f, by rw [found]; rfl⟩

/-- The rejections one step down from a check and a value are explained. -/
def ExplainedBelow (o : Oracle (Except ReferenceError)) (c : Check) (v : Value) (path : String) :
    Prop :=
  ∀ segment d w, Descends o c v segment d w → d.accepts o w = .ok false →
    ∃ f, blame o d w (path ++ segment) = .ok (some f)

section Below
variable {s : Subject} {origin : List ClassOperand} {item : Check} {exhaustive : Bool} {v : Value}
  {path : String}

theorem ExplainedBelow.itself {c d : Check} (below : ExplainedBelow o c v path)
    (descends : Descends o c v "" d v) (rejected : d.accepts o v = .ok false) :
    ∃ f, blame o d v path = .ok (some f) := by
  obtain ⟨f, found⟩ := below "" d v descends rejected
  exact ⟨f, by rwa [String.append_empty] at found⟩

/-- A sequence is rejected for an item that a diagnosis visits. -/
theorem allOf_visited (isInstance : o.catalog.isInstanceOf v origin = true)
    (rejected : (sequence s origin item exhaustive).accepts o v = .ok false) :
    allOf (fun entry => item.accepts o entry.2) (visited o.random exhaustive v) = .ok false := by
  rw [accepts, if_neg (by simp [isInstance])] at rejected
  cases exhaustive with
  | true => exact (allOf_indexed _ 0 _).trans rejected
  | false =>
    rw [if_neg (by simp)] at rejected
    cases sampled : v.sample? o.random with
    | none => rw [sampled] at rejected; cases rejected
    | some x =>
      rw [sampled] at rejected
      obtain ⟨_, _, _, isVisited⟩ := visited_of_sample? sampled
      rw [isVisited]
      exact both_eq_false.mpr (.inl rejected)

/-- Other containers are rejected for an item among the first ones, with which a diagnosis
starts. -/
theorem allOf_elements (isInstance : o.catalog.isInstanceOf v origin = true)
    (rejected : (reiterable s origin item exhaustive).accepts o v = .ok false) :
    ∃ tested, tested <+: indexed 0 v.items ∧
      allOf (fun entry => item.accepts o entry.2) tested = .ok false := by
  rw [accepts, if_neg (by simp [isInstance])] at rejected
  cases exhaustive with
  | true => exact ⟨_, List.prefix_refl _, (allOf_indexed _ 0 _).trans rejected⟩
  | false =>
    rw [if_neg (by simp)] at rejected
    cases first : v.first? with
    | none => rw [first] at rejected; cases rejected
    | some x =>
      rw [first] at rejected
      obtain ⟨rest, isItems⟩ := List.head?_eq_some_iff.mp (Value.head?_of_first? first)
      refine ⟨[(0, x)], ?_, both_eq_false.mpr (.inl rejected)⟩
      rw [isItems, indexed]
      exact List.prefix_append [(0, x)] _

theorem blame_sequence_of_rejected
    (rejected : (sequence s origin item exhaustive).accepts o v = .ok false)
    (below : ExplainedBelow o (sequence s origin item exhaustive) v path) :
    ∃ f, blame o (sequence s origin item exhaustive) v path = .ok (some f) := by
  rw [blame, guarded_of_rejected rejected]
  split
  · exact ⟨_, rfl⟩
  · next isInstance =>
    have isInstance : o.catalog.isInstanceOf v origin = true := by simpa using isInstance
    refine firstFailure_explains (List.prefix_refl _)
      (fun entry _ accepted => blame_of_accepted accepted _) ?_ (allOf_visited isInstance rejected)
    intro entry among rejectedItem
    rw [append_bracketed]
    exact below _ item entry.2 (descends_of_visited isInstance rejected among) rejectedItem

theorem blame_reiterable_of_rejected
    (rejected : (reiterable s origin item exhaustive).accepts o v = .ok false)
    (below : ExplainedBelow o (reiterable s origin item exhaustive) v path) :
    ∃ f, blame o (reiterable s origin item exhaustive) v path = .ok (some f) := by
  rw [blame, guarded_of_rejected rejected]
  split
  · exact ⟨_, rfl⟩
  · next isInstance =>
    obtain ⟨tested, starts, rejectedItems⟩ := allOf_elements (by simpa using isInstance) rejected
    refine firstFailure_explains starts (fun entry _ accepted => blame_of_accepted accepted _) ?_
      rejectedItems
    intro entry among rejectedItem
    rw [String.append_assoc]
    exact below _ item entry.2 (.element (getElem?_of_mem_indexed (starts.subset among)))
      rejectedItem

theorem blame_mapping_of_rejected {key value : Option Check}
    (rejected : (mapping s origin key value exhaustive).accepts o v = .ok false)
    (below : ExplainedBelow o (mapping s origin key value exhaustive) v path) :
    ∃ f, blame o (mapping s origin key value exhaustive) v path = .ok (some f) := by
  rw [blame, guarded_of_rejected rejected]
  split
  · exact ⟨_, rfl⟩
  · next isInstance =>
    rw [accepts, if_neg isInstance] at rejected
    have starts : (if exhaustive then v.pairs?.getD [] else (v.pairs?.getD []).take 1) <+:
        v.pairs?.getD [] := by
      split
      · exact List.prefix_refl _
      · exact List.take_prefix _ _
    refine firstFailure_explains starts ?_ ?_ rejected
    · rintro pair _ accepted
      obtain ⟨keyAccepted, valueAccepted⟩ := both_eq_true.mp accepted
      rw [blameOption_of_accepted keyAccepted]
      exact blameOption_of_accepted valueAccepted _
    · rintro ⟨k, x⟩ tested rejected
      obtain ⟨pairs, isDict, among⟩ : ∃ pairs, v.pairs? = some pairs ∧ (k, x) ∈ pairs := by
        have among := starts.subset tested
        cases isDict : v.pairs? with
        | none => rw [isDict] at among; cases among
        | some pairs => exact ⟨pairs, rfl, by rwa [isDict] at among⟩
      rcases both_eq_false.mp rejected with keyRejected | ⟨keyAccepted, valueRejected⟩
      · cases key with
        | none => cases keyRejected
        | some d =>
          obtain ⟨f, found⟩ := below _ d k (.key isDict among) keyRejected
          exact ⟨f, by rw [blameOption, found]; rfl⟩
      · cases value with
        | none => cases valueRejected
        | some d =>
          rw [blameOption_of_accepted keyAccepted]
          obtain ⟨f, found⟩ := below _ d x (.value isDict among) valueRejected
          rw [← append_bracketed] at found
          exact ⟨f, found⟩

theorem blame_tuple_of_rejected {len : Nat} {items : List (Nat × Check)}
    (rejected : (tupleFixed s origin len items).accepts o v = .ok false)
    (measured : ¬(tupleFixed s origin len items).Unmeasured o.catalog v)
    (below : ExplainedBelow o (tupleFixed s origin len items) v path) :
    ∃ f, blame o (tupleFixed s origin len items) v path = .ok (some f) := by
  rw [blame, guarded_of_rejected rejected]
  split
  · exact ⟨_, rfl⟩
  · next isInstance =>
    rw [Bool.not_eq_true, Bool.not_eq_false'] at isInstance
    dsimp only
    split
    · exact ⟨_, rfl⟩
    · next isLength =>
      have isLength : v.len?.getD 0 = len := not_not.mp isLength
      have measures : v.len? = some len := by
        cases measure : v.len? with
        | some n => rw [measure] at isLength; exact congrArg some isLength
        | none =>
          rw [measure] at isLength
          exact (measured ⟨isInstance, isLength.symm, measure⟩).elim
      rw [accepts, if_neg (by simp [isInstance, measures]), acceptsItems_eq] at rejected
      rw [blameItems_eq]
      refine firstFailure_explains (List.prefix_refl _) ?_ ?_ rejected
      · rintro ⟨index, d⟩ _ accepted
        unfold acceptsPosition at accepted
        unfold blamePosition
        cases there : v.at? index with
        | none => rfl
        | some x => exact blame_of_accepted (by simpa [there] using accepted) _
      · rintro ⟨index, d⟩ among rejected
        unfold acceptsPosition at rejected
        unfold blamePosition
        cases there : v.at? index with
        | none => simp [there] at rejected
        | some x =>
          dsimp only
          rw [append_bracketed]
          exact below _ d x (.position among there) (by simpa [there] using rejected)

theorem blame_validators_of_rejected {child : Check} {vs : List ValidatorOperand}
    (rejected : (validators s child vs).accepts o v = .ok false)
    (below : ExplainedBelow o (validators s child vs) v path) :
    ∃ f, blame o (validators s child vs) v path = .ok (some f) := by
  rw [blame, guarded_of_rejected rejected]
  rw [accepts] at rejected
  rcases inside : child.accepts o v with e | _ | _ <;> rw [inside] at rejected
  · cases rejected
  · obtain ⟨f, found⟩ := below.itself .validated inside
    rw [found]
    exact ⟨f, rfl⟩
  · rw [blame_of_accepted inside]
    obtain ⟨x, isFound⟩ := exists_find?_of_all (Except.ok.inj rejected)
    rw [isFound]
    exact ⟨_, rfl⟩

theorem blame_typedDict_of_rejected {required : List String}
    (rejected : (typedDict s origin required).accepts o v = .ok false) :
    ∃ f, blame o (typedDict s origin required) v path = .ok (some f) := by
  rw [blame, guarded_of_rejected rejected]
  split
  · exact ⟨_, rfl⟩
  · next isInstance =>
    rw [Bool.not_eq_true, Bool.not_eq_false'] at isInstance
    have missing : required.all v.hasKey = false := by
      simpa [accepts, isInstance, pure, Except.pure] using rejected
    obtain ⟨key, isFound⟩ := exists_find?_of_all missing
    rw [isFound]
    exact ⟨_, rfl⟩

end Below

/-- If the rejections one step down are explained, so is the rejection above them. -/
theorem blame_of_rejected {c : Check} {v : Value} {path : String}
    (rejected : c.accepts o v = .ok false) (measured : ¬c.Unmeasured o.catalog v)
    (below : ExplainedBelow o c v path) : ∃ f, blame o c v path = .ok (some f) := by
  cases c with
  | pass => cases rejected
  | fail => exact ⟨_, rfl⟩
  | isInstance | isSubclass | forwardInstance | forwardSubclass | literal =>
    rw [blame, guarded_of_rejected rejected]
    exact ⟨_, rfl⟩
  | any s members =>
    rw [blame, guarded_of_rejected rejected]
    have each : ∀ c ∈ members, ∃ f, blame o c v path = .ok (some f) :=
      fun c among => below.itself (.member among) (acceptsAny_eq_false rejected c among)
    obtain ⟨found, isFound⟩ := blameMembers_ok each
    rw [isFound]
    cases found with
    | some f => exact ⟨f, rfl⟩
    | none => exact ⟨_, rfl⟩
  | all s parts =>
    rw [blame, guarded_of_rejected rejected]
    rw [accepts, acceptsAll_eq] at rejected
    obtain ⟨f, found⟩ : ∃ f, firstFailure (fun c => blame o c v path) parts = .ok (some f) :=
      firstFailure_explains (List.prefix_refl parts)
        (fun c _ accepted => blame_of_accepted accepted path)
        (fun c among rejected => below.itself (.part among) rejected) rejected
    rw [blameParts_eq, found]
    exact ⟨f, rfl⟩
  | sequence => exact blame_sequence_of_rejected rejected below
  | reiterable => exact blame_reiterable_of_rejected rejected below
  | mapping => exact blame_mapping_of_rejected rejected below
  | tupleFixed => exact blame_tuple_of_rejected rejected measured below
  | validators => exact blame_validators_of_rejected rejected below
  | typedDict => exact blame_typedDict_of_rejected rejected
  | attr s name child =>
    rw [blame, guarded_of_rejected rejected]
    rw [accepts] at rejected
    cases there : o.catalog.attr? v name with
    | none => rw [there] at rejected; cases rejected
    | some a =>
      rw [there] at rejected
      obtain ⟨f, found⟩ := below _ child a (.attribute there) rejected
      exact ⟨f, by rwa [← String.append_assoc] at found⟩

/-- A rejection is explained if rejections lead to no tuple that lacks the length asked for. -/
theorem explained_of_rejected {c : Check} {v : Value} (rejected : c.accepts o v = .ok false)
    (measured : ∀ segments d w, Leads o c v segments d w → ¬d.Unmeasured o.catalog w)
    (path : String) : ∃ f, blame o c v path = .ok (some f) := by
  induction c using induction_children generalizing v path with
  | step c ih =>
    refine blame_of_rejected rejected (measured [] c v (.here rejected)) ?_
    intro segment d w descends rejectedBelow
    refine ih d descends.child rejectedBelow (fun segments e x leads => ?_) _
    exact measured (segment :: segments) e x (.down rejected descends leads)

/-- Tests one item of a sequence for being an empty tuple. -/
def samplesEmptyTuples : Check → Bool
  | sequence _ _ (tupleFixed _ _ 0 []) false => true
  | _ => false

/-- Among values that have a length, rejections lead to none that lacks one. -/
theorem measured_of_samples {c d : Check} {v w : Value} {segments : List String}
    (samples : c.samplesEmptyTuples = true) (each : ∀ x ∈ v.items, x.len? ≠ none)
    (leads : Leads o c v segments d w) : ¬d.Unmeasured o.catalog w := by
  intro unmeasured
  unfold samplesEmptyTuples at samples
  split at samples
  · cases leads with
    | here => exact unmeasured
    | down _ descends leads =>
      cases descends with
      | sampled _ there =>
        cases leads with
        | here => exact each _ (List.mem_of_getElem? (Value.items_of_at? there).2) unmeasured.2.2
        | down _ descends =>
          cases descends with
          | position among => cases among
  · cases samples

end Blame
end Check

/-! ### Checks of hints -/

namespace Session

variable {s : Session} {ctx : Context} {h : Hint} {scope : Scope} {names : Naming}

/-- A diagnosis that follows a verdict finds nothing if the value was accepted. If it was rejected,
a failure is found, unless rejections lead to a tuple without a length that should be empty. -/
theorem buildCheck_explained (wellKept : scope.WellKept) (named : h.WellNamed names)
    (grown : s.cache.Grown names s.catalog s.substitutes) {pith : String} {check : Check}
    {after : Scope}
    (built : ((buildCheck ctx pith h scope).run.run s).1 = .ok (check, after))
    (around : Surroundings) (owner : Nat) (calls : CallState) (random : UInt32) (v : Value) :
    let o := Running.oracle around owner random
    let verdict := (check.accepts o v).run.run calls
    let diagnosis := ((check.diagnose o v).run.run verdict.2).1
    (verdict.1 = .ok true → diagnosis = .ok none) ∧
      (verdict.1 = .ok false →
        (∀ segments c w, check.Leads (.recalling around owner calls random) v segments c w →
          ¬c.Unmeasured around.catalog w) →
        ∃ f, diagnosis = .ok (some f)) := by
  intro o verdict diagnosis
  have closed := buildCheck_closed (hereditary_true _ _) ctx.keeps_true trivial wellKept named grown
    built
  have atFirst : calls.TakesAlike around owner after calls := .refl calls
  obtain ⟨isVerdict, alike⟩ := Check.accepts_recalling closed atFirst random v
  have isDiagnosis : diagnosis = check.diagnose (.recalling around owner calls random) v :=
    Check.diagnose_recalling closed alike random v
  rw [isVerdict, isDiagnosis]
  constructor
  · intro accepted
    exact Check.blame_of_accepted accepted ""
  · intro rejected measured
    exact Check.explained_of_rejected rejected measured ""

/-- Of two tuples that should be empty the second is sampled, and it is not. -/
theorem buildCheck_explained_sample :
    let ctx := Context.bare .standard
    let h := Hint.generic none Builtin.list [.generic none Builtin.tuple []]
    let v := Value.list [.tuple [], .tuple [.int 1]]
    let o := Running.oracle start.around 0 1
    ∃ check after, ((buildCheck ctx "obj" h .empty).run.run start).1 = .ok (check, after) ∧
      ∃ f, ((check.diagnose o v).run.run ((check.accepts o v).run.run start.calls).2).1 =
        .ok (some f) := by
  intro ctx h v o
  let names : Naming := ⟨fun _ => Builtin.object, fun _ => .instanceOf []⟩
  have named : h.WellNamed names :=
    .ofArgs (by simpa using .ofArgs (by simp))
  have shape : (((buildCheck ctx "obj" h .empty).run.run start).1.toOption.any fun made =>
      made.1.samplesEmptyTuples &&
      ((made.1.accepts o v).run.run start.calls).1.toOption.any not) = true := by decide +kernel
  obtain ⟨⟨check, after⟩, built, shape⟩ := ok_of_any shape
  obtain ⟨isSample, rejected⟩ := Bool.and_eq_true_iff.mp shape
  obtain ⟨verdict, isVerdict, rejects⟩ := ok_of_any rejected
  rw [(Bool.not_eq_true' _).mp rejects] at isVerdict
  refine ⟨check, after, built, (buildCheck_explained Scope.wellKept_empty named .empty built
    start.around 0 start.calls 1 v).2 isVerdict ?_⟩
  have each : ∀ x ∈ v.items, x.len? ≠ none := by simp [v, Value.items, Value.data, Value.len?]
  intro segments c w leads
  have measured := Check.measured_of_samples isSample each leads
  exact measured

/-- An instance of a tuple class without a payload has no length. It is not an empty tuple, but
nothing is found to be wrong with it. -/
theorem emptyTuple_unexplained :
    let defined := (defineClass ((ClassDraft.named "U").withBase Builtin.tuple)).run.run start
    let h := Hint.generic none Builtin.tuple []
    ∃ u check after, defined.1 = .ok u ∧
      ((buildCheck (.bare .standard) "obj" h .empty).run.run defined.2).1 = .ok (check, after) ∧
      let o := Running.oracle defined.2.around 0 0
      let v := Value.inst 0 u [] none
      ((check.accepts o v).run.run start.calls).1 = .ok false ∧
        ((check.diagnose o v).run.run ((check.accepts o v).run.run start.calls).2).1 =
          .ok none := by
  intro defined h
  have run : (defined.1.toOption.any fun u =>
      ((buildCheck (.bare .standard) "obj" h .empty).run.run defined.2).1.toOption.any fun made =>
        let o := Running.oracle defined.2.around 0 0
        let v := Value.inst 0 u [] none
        ((made.1.accepts o v).run.run start.calls).1.toOption.any not &&
          ((made.1.diagnose o v).run.run
            ((made.1.accepts o v).run.run start.calls).2).1.toOption.any Option.isNone) = true := by decide +kernel
  obtain ⟨u, isDefined, run⟩ := ok_of_any run
  obtain ⟨⟨check, after⟩, built, run⟩ := ok_of_any run
  obtain ⟨rejected, unexplained⟩ := Bool.and_eq_true_iff.mp run
  obtain ⟨verdict, isVerdict, rejects⟩ := ok_of_any rejected
  obtain ⟨found, isFound, isNothing⟩ := ok_of_any unexplained
  rw [(Bool.not_eq_true' _).mp rejects] at isVerdict
  rw [Option.isNone_iff_eq_none.mp isNothing] at isFound
  exact ⟨u, check, after, isDefined, built, isVerdict, isFound⟩

end Session
end HintCheck
