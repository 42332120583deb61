import HintCheck.Proofs.Binding
import HintCheck.Proofs.Evaluation

/-!
What checks look at. The expression of a check assigns the variable of its value where the value is
first mentioned, and every later test reads the variable. Most checks look at their value before
anything else. A check that does not look at its value rejects it and does nothing else, and whether
a check can accept or reject anything shows in its tree.
-/
namespace HintCheck

open Access (written Orderly Touches)

/-! ### Variables -/

namespace Pith

/-- The variable, if it is still to be assigned. -/
def due (p : Pith) : List String :=
  if p.pending.isSome then [p.name] else []

/-- The variable has its value, or what it is assigned from has. -/
def Ready (known : List String) (p : Pith) : Prop :=
  match p.pending with
  | none => p.name ∈ known
  | some source => ∀ name ∈ source.reads, name ∈ known

variable {p : Pith} {known : List String}

theorem take_snd (p : Pith) : p.take.2 = bound p.name := by
  rcases p with ⟨name, _ | source⟩ <;> rfl

theorem assigned_take (p : Pith) : p.take.1.assigned = p.due := by
  rcases p with ⟨name, _ | source⟩ <;> rfl

theorem written_take (p : Pith) : written p.take.1.accesses = p.due := by
  rw [Expression.written_operand, assigned_take]

theorem orderly_take (ready : p.Ready known) : Orderly known p.take.1.accesses := by
  rcases p with ⟨name, _ | source⟩
  · exact ⟨ready, trivial⟩
  · exact Access.orderly_append.mpr ⟨Access.orderly_reads.mpr ready, trivial⟩

theorem mem_due (ready : p.Ready known) : p.name ∈ p.due ++ known := by
  rcases p with ⟨name, _ | source⟩
  · exact ready
  · exact List.mem_cons_self

theorem touches_take (p : Pith) : Touches p.name p.take.1.accesses := by
  rcases p with ⟨name, _ | source⟩
  · exact .inl List.mem_cons_self
  · exact .inr (List.mem_append_right _ List.mem_cons_self)

theorem Ready.mono {more : List String} (ready : p.Ready known) (wider : known ⊆ more) :
    p.Ready more := by
  rcases p with ⟨name, _ | source⟩
  · exact wider ready
  · exact fun name isRead => wider (ready name isRead)

theorem bound_of_not_pending (settled : p.pending.isSome = false) : bound p.name = p := by
  rcases p with ⟨name, _ | source⟩
  · rfl
  · cases settled

end Pith

/-- Where there are validators, there is at least one. -/
def Payload.Counted (payload : Payload) : Prop :=
  ∀ n, payload.validators n → 0 < n

theorem Payload.counted_regular (cat : Catalog) (P : Hint → Prop) :
    (Payload.regular cat P).Counted :=
  fun _ => id

namespace Check

/-! ### Looks -/

mutual

/-- The value is read whenever the check is evaluated. -/
def looks : Check → Bool
  | pass _ | fail _ => false
  | any _ members => looksAny members
  | literal _ values => !values.isEmpty
  | validators _ child vs => if child.isPass then !vs.isEmpty else looks child
  | isInstance _ _ | isSubclass _ _ | forwardInstance _ _ | forwardSubclass _ _ | all _ _
  | sequence _ _ _ _ | reiterable _ _ _ _ | mapping _ _ _ _ _ | tupleFixed _ _ _ _ | attr _ _ _
  | typedDict _ _ _ => true
termination_by structural c => c

def looksAny : List Check → Bool
  | [] => false
  | c :: rest => looks c || looksAny rest
termination_by structural cs => cs

end

mutual

/-- The value is mentioned in the text of the check. -/
def takes : Check → Bool
  | pass _ | fail _ => false
  | any _ nodes | all _ nodes => takesAny nodes
  | literal _ values => !values.isEmpty
  | validators _ child vs => takes child || !vs.isEmpty
  | isInstance _ _ | isSubclass _ _ | forwardInstance _ _ | forwardSubclass _ _
  | sequence _ _ _ _ | reiterable _ _ _ _ | mapping _ _ _ _ _ | tupleFixed _ _ _ _ | attr _ _ _
  | typedDict _ _ _ => true
termination_by structural c => c

def takesAny : List Check → Bool
  | [] => false
  | c :: rest => takes c || takesAny rest
termination_by structural cs => cs

end

mutual

/-- The check may accept a value, whatever its tests turn out. -/
def canHold : Check → Bool
  | fail _ => false
  | any _ members => canHoldAny members
  | all _ parts => canHoldAll parts
  | tupleFixed _ _ _ items => canHoldItems items
  | literal _ values => !values.isEmpty
  | validators _ child _ => canHold child
  | pass _ | isInstance _ _ | isSubclass _ _ | forwardInstance _ _ | forwardSubclass _ _
  | sequence _ _ _ _ | reiterable _ _ _ _ | mapping _ _ _ _ _ | attr _ _ _ | typedDict _ _ _ =>
    true
termination_by structural c => c

def canHoldAny : List Check → Bool
  | [] => false
  | c :: rest => canHold c || canHoldAny rest
termination_by structural cs => cs

def canHoldAll : List Check → Bool
  | [] => true
  | c :: rest => canHold c && canHoldAll rest
termination_by structural cs => cs

def canHoldItems : List (Nat × Check) → Bool
  | [] => true
  | (_, c) :: rest => canHold c && canHoldItems rest
termination_by structural items => items

end

theorem looksAny_eq (cs : List Check) : looksAny cs = cs.any looks := by
  induction cs with
  | nil => rfl
  | cons c rest ih => rw [looksAny, ih, List.any_cons]

theorem takesAny_eq (cs : List Check) : takesAny cs = cs.any takes := by
  induction cs with
  | nil => rfl
  | cons c rest ih => rw [takesAny, ih, List.any_cons]

theorem canHoldAny_eq (cs : List Check) : canHoldAny cs = cs.any canHold := by
  induction cs with
  | nil => rfl
  | cons c rest ih => rw [canHoldAny, ih, List.any_cons]

theorem canHoldAll_eq (cs : List Check) : canHoldAll cs = cs.all canHold := by
  induction cs with
  | nil => rfl
  | cons c rest ih => rw [canHoldAll, ih, List.all_cons]

theorem canHoldItems_eq (items : List (Nat × Check)) :
    canHoldItems items = items.all fun entry => entry.2.canHold := by
  induction items with
  | nil => rfl
  | cons entry rest ih => rw [canHoldItems, ih, List.all_cons]

/-- The variables of the parts are mentioned behind the variable of the whole. -/
theorem piths_of_not_takes {c : Check} (silent : c.takes = false) : c.piths = [] := by
  induction c using induction_children with
  | step c ih =>
    cases c with
    | any s nodes | all s nodes =>
      rw [takes, takesAny_eq, List.any_eq_false] at silent
      rw [piths]
      exact pithsAll_eq_nil fun d member => ih d member (by simpa using silent d member)
    | validators s child vs =>
      rw [takes, Bool.or_eq_false_iff] at silent
      rw [piths]
      exact ih child (by simp [children]) silent.1
    | pass | fail | literal => rfl
    | _ => cases silent

/-! ### Expressions -/

/-- The expression of a check on a variable. -/
def testOn (cat : Catalog) (c : Check) (p : Pith) : Expression :=
  (expressionFrom cat c p).1

variable {cat : Catalog} {c : Check} {p : Pith}

theorem expressionsFrom_snd {cs : List Check} (p : Pith)
    (each : ∀ c ∈ cs, ∀ p, (expressionFrom cat c p).2 = if c.takes then .bound p.name else p) :
    (expressionsFrom cat cs p).2 = if takesAny cs then .bound p.name else p := by
  induction cs generalizing p with
  | nil => rfl
  | cons c rest ih =>
    obtain ⟨first, others⟩ := List.forall_mem_cons.mp each
    have opened : (expressionsFrom cat (c :: rest) p).2 =
        (expressionsFrom cat rest (expressionFrom cat c p).2).2 := rfl
    rw [opened, ih _ others, first, takesAny]
    cases c.takes <;> cases takesAny rest <;> rfl

theorem literalExpressions_snd (values : List LiteralOperand) (p : Pith) :
    (literalExpressions cat values p).2 = if values.isEmpty then p else .bound p.name := by
  induction values generalizing p with
  | nil => rfl
  | cons l rest ih =>
    have opened : (literalExpressions cat (l :: rest) p).2 =
        (literalExpressions cat rest p.take.2).2 := rfl
    rw [opened, ih, Pith.take_snd]
    cases rest <;> rfl

theorem validatorExpressions_snd (vs : List ValidatorOperand) (p : Pith) :
    (validatorExpressions vs p).2 = if vs.isEmpty then p else .bound p.name := by
  induction vs generalizing p with
  | nil => rfl
  | cons v rest ih =>
    have opened : (validatorExpressions (v :: rest) p).2 =
        (validatorExpressions rest p.take.2).2 := rfl
    rw [opened, ih, Pith.take_snd]
    cases rest <;> rfl

/-- The variable has its value after the check if the check mentions it. -/
theorem expressionFrom_snd (cat : Catalog) (c : Check) (p : Pith) :
    (expressionFrom cat c p).2 = if c.takes then .bound p.name else p := by
  induction c using induction_children generalizing p with
  | step c ih =>
    cases c with
    | pass | fail => rfl
    | any s nodes | all s nodes => exact expressionsFrom_snd p ih
    | literal s values =>
      have opened : (expressionFrom cat (literal s values) p).2 =
          (literalExpressions cat values p).2 := rfl
      rw [opened, literalExpressions_snd, takes]
      cases values <;> rfl
    | validators s child vs =>
      have opened : (expressionFrom cat (validators s child vs) p).2 =
          (validatorExpressions vs
            (if child.isPass then p else (expressionFrom cat child p).2)).2 := by
        cases passes : child.isPass <;> simp only [expressionFrom, passes] <;> rfl
      rw [opened, validatorExpressions_snd, ih child (by simp [children]), takes]
      cases passes : child.isPass with
      | true =>
        have silent : child.takes = false := by cases child <;> first | rfl | cases passes
        rw [silent]
        cases vs <;> rfl
      | false => cases child.takes <;> cases vs <;> rfl
    | mapping s origin key value every =>
      have opened : (expressionFrom cat (mapping s origin key value every) p).2 = p.take.2 := by
        cases key <;> cases value <;> rfl
      rw [opened, Pith.take_snd]
      rfl
    | _ => exact p.take_snd

/-! ### Nodes that look at their value at once -/

/-- What is evaluated after the first test, and the outcome if evaluation does not get there. -/
def behind? (cat : Catalog) (whole : String) : Check → Option (Expression × Bool)
  | isInstance _ _ | isSubclass _ _ | forwardInstance _ _ | forwardSubclass _ _
  | mapping _ _ none none _ => some (.const true, false)
  | sequence _ _ item _ =>
    some (unlessEmpty whole (item.testOn cat (item.pithIn (.sampled whole))), false)
  | reiterable _ _ item _ =>
    some (unlessEmpty whole (item.testOn cat (item.pithIn (.first whole))), false)
  | mapping _ _ (some k) none _ =>
    some (unlessEmpty whole (k.testOn cat (k.pithIn (.first whole))), false)
  | mapping _ _ none (some v) _ =>
    some (unlessEmpty whole (v.testOn cat (v.pithIn (.firstValue whole))), false)
  | mapping _ _ (some k) (some v) _ =>
    some (unlessEmpty whole (.conjunction [k.testOn cat (k.pithIn (.first whole)),
      v.testOn cat (v.pithIn (.under whole k.subject.pith))]), false)
  | tupleFixed _ _ len items =>
    some (.conjunction (.hasLength (.read whole) len :: positionExpressions cat items whole), false)
  | attr _ name child => some (child.testOn cat (child.pithIn (.attr whole name)), true)
  | typedDict _ _ required =>
    some (.conjunction (required.map fun key => .hasKey key (.read whole)), false)
  | pass _ | fail _ | any _ _ | all _ _ | literal _ _ | validators _ _ _ => none

open Expression (Opens Evaluates Joins Can Safe SafeJoins)

variable {payload : Payload} {scope : Scope}

theorem opens_behind (proper : c.Proper payload false scope) {e : Expression} {skip : Bool}
    (isBehind : c.behind? cat p.name = some (e, skip)) :
    Opens (c.testOn cat p) p.take.1 e skip := by
  rcases p with ⟨name, _ | source⟩
  all_goals
    cases c with
    | isInstance | isSubclass | forwardInstance | forwardSubclass =>
      cases isBehind
      exact Expression.opens_test rfl
    | sequence | reiterable =>
      obtain ⟨_, _, rfl⟩ := proper
      cases isBehind
      exact Expression.opens_pair rfl
    | mapping s origin key value =>
      obtain ⟨_, _, rfl⟩ := proper
      cases key <;> cases value <;> cases isBehind
      · exact Expression.opens_test rfl
      all_goals exact Expression.opens_pair rfl
    | tupleFixed | typedDict =>
      cases isBehind
      exact Expression.opens_conjunction rfl
    | attr =>
      cases isBehind
      exact Expression.opens_guarded rfl
    | pass | fail | any | all | literal | validators => cases isBehind

theorem unlessEmpty_opens (whole : String) (e : Expression) :
    Opens (unlessEmpty whole e) (.read whole) e true :=
  Expression.opens_guarded rfl

/-! ### Tests of one value after the other -/

/-- Tests of a value, the first of which takes it and the others read it. -/
inductive Chain : Pith → List Expression → Prop
  | nil (p : Pith) : Chain p []
  | cons {p : Pith} {e next : Expression} {es : List Expression}
    (opens : Opens e p.take.1 next false) (reads : next.ReadsOnly p.name) (holds : Can next true)
    (none : next.assigned = []) (others : Chain (.bound p.name) es) : Chain p (e :: es)

theorem Chain.test {e : Expression} {es : List Expression} (isTest : e.tested? = some p.take.1)
    (others : Chain (.bound p.name) es) : Chain p (e :: es) :=
  .cons (Expression.opens_test isTest) (Expression.readsOnly_const true) ⟨[], .const true⟩ rfl
    others

theorem chain_literals (values : List LiteralOperand) (p : Pith) :
    Chain p (literalExpressions cat values p).1 := by
  induction values generalizing p with
  | nil => exact .nil p
  | cons l rest ih =>
    have opened : (literalExpressions cat (l :: rest) p).1 =
        l.expression cat p.take.1 (literalExpressions cat rest p.take.2).2.name ::
          (literalExpressions cat rest p.take.2).1 := rfl
    have sameName : (literalExpressions cat rest p.take.2).2.name = p.name := by
      rw [literalExpressions_snd, Pith.take_snd]
      cases rest <;> rfl
    rw [opened, sameName, Pith.take_snd]
    have others := ih (.bound p.name)
    have reads (shown : String) : (Expression.equals (.read p.name) shown).ReadsOnly p.name :=
      Expression.readsOnly_test rfl
    unfold LiteralOperand.expression
    split
    · exact .test rfl others
    · exact .test rfl others
    · exact .test rfl others
    · refine .cons (Expression.opens_conjunction rfl) (Expression.readsOnly_conjunction ?_) ?_ rfl
        others
      · exact List.forall_mem_cons.mpr
          ⟨Expression.readsOnly_negation (Expression.readsOnly_test rfl), by simpa using reads _⟩
      · refine ⟨_, Expression.evaluates_conjunction.mpr (.goesOn (Expression.evaluates_negation.mpr
          (.test rfl _)) (Expression.joins_single.mpr (.test rfl true)))⟩
    · exact .cons (Expression.opens_pair rfl) (reads _) ⟨_, .test rfl true⟩ rfl others

theorem chain_validators (vs : List ValidatorOperand) (p : Pith) :
    Chain p (validatorExpressions vs p).1 := by
  induction vs generalizing p with
  | nil => exact .nil p
  | cons v rest ih =>
    have opened : (validatorExpressions (v :: rest) p).1 =
        .validated v.key.text p.take.1 :: (validatorExpressions rest p.take.2).1 := rfl
    rw [opened, Pith.take_snd]
    exact .test rfl (ih _)

theorem chain_keys (keys : List String) (name : String) :
    Chain (.bound name) (keys.map fun key => .hasKey key (.read name)) := by
  induction keys with
  | nil => exact .nil _
  | cons key rest ih => exact .test rfl ih

namespace Chain

variable {es : List Expression} {known : List String} {stop b : Bool} {accesses : List Access}

theorem can (chain : Chain p es) (b : Bool) : ∀ e ∈ es, Can e b := by
  induction chain with
  | nil => exact nofun
  | cons opens _ holds _ _ ih =>
    refine List.forall_mem_cons.mpr ⟨opens.can_iff.mpr ?_, ih⟩
    cases b with
    | false => exact .inl rfl
    | true => exact .inr holds

theorem assigned_eq (chain : Chain p es) :
    Expression.assignedAll es = if es.isEmpty then [] else p.due := by
  induction chain with
  | nil => rfl
  | @cons p _ next es opens _ _ none _ ih =>
    rw [Expression.assignedAll, opens.assigned_eq, Pith.assigned_take, none, ih]
    cases es <;> simp [Pith.due, Pith.bound]

theorem touches (chain : Chain p es) (some : es ≠ []) (joins : Joins stop es accesses b) :
    Touches p.name accesses := by
  cases chain with
  | nil => exact absurd rfl some
  | @cons _ e _ _ opens =>
    have first {accesses : List Access} {b : Bool} (evaluates : Evaluates e accesses b) :
        Touches p.name accesses := by
      obtain ⟨more, rfl⟩ := opens.begins evaluates
      exact p.touches_take.append_left more
    cases joins with
    | stops last => exact first last
    | goesOn goes others => exact (first goes).append_left _

theorem safe (chain : Chain p es) (ready : p.Ready known) : SafeJoins stop known es := by
  induction chain generalizing known with
  | nil => exact Expression.safeJoins_nil
  | @cons p e next es opens reads _ _ _ ih =>
    have isKnown : p.name ∈ written p.take.1.accesses ++ known := by
      rw [Pith.written_take]
      exact Pith.mem_due ready
    refine Expression.safeJoins_cons.mpr ⟨?_, fun accesses first => ih ?_⟩
    · exact (opens.safe_iff (Pith.orderly_take ready)).mpr (reads.safe isKnown)
    · obtain ⟨more, rfl⟩ := opens.begins first
      rw [Access.written_append, List.append_assoc]
      show p.name ∈ _
      simp only [List.mem_append] at isKnown ⊢
      rcases isKnown with isKnown | isKnown <;> simp [isKnown]

end Chain

/-! ### Outcomes -/

theorem testOn_validators (s : Subject) (child : Check) (vs : List ValidatorOperand) (p : Pith) :
    (validators s child vs).testOn cat p =
      .allOf (if child.isPass then (validatorExpressions vs p).1
        else child.testOn cat p :: (validatorExpressions vs (expressionFrom cat child p).2).1) := by
  cases passes : child.isPass <;> simp only [testOn, expressionFrom, passes] <;> rfl

section Members

variable {Q : Check → Prop} {P : Expression → Prop} {cs : List Check} {items : List (Nat × Check)}

theorem forall_members (p : Pith) (each : ∀ c ∈ cs, ∀ q, P (c.testOn cat q) ↔ Q c) :
    (∀ e ∈ (expressionsFrom cat cs p).1, P e) ↔ ∀ c ∈ cs, Q c := by
  induction cs generalizing p with
  | nil => simp [expressionsFrom]
  | cons c rest ih =>
    obtain ⟨first, others⟩ := List.forall_mem_cons.mp each
    have opened : (expressionsFrom cat (c :: rest) p).1 =
        c.testOn cat p :: (expressionsFrom cat rest (expressionFrom cat c p).2).1 := rfl
    rw [opened, List.forall_mem_cons, List.forall_mem_cons, first, ih _ others]

theorem exists_members (p : Pith) (each : ∀ c ∈ cs, ∀ q, P (c.testOn cat q) ↔ Q c) :
    (∃ e ∈ (expressionsFrom cat cs p).1, P e) ↔ ∃ c ∈ cs, Q c := by
  have none : (∀ e ∈ (expressionsFrom cat cs p).1, ¬ P e) ↔ ∀ c ∈ cs, ¬ Q c :=
    forall_members p fun c member q => not_congr (each c member q)
  constructor
  · intro ⟨e, member, holds⟩
    by_contra nowhere
    exact none.mpr (fun c isMember holds => nowhere ⟨c, isMember, holds⟩) e member holds
  · intro ⟨c, member, holds⟩
    by_contra nowhere
    exact none.mp (fun e isMember holds => nowhere ⟨e, isMember, holds⟩) c member holds

theorem forall_positions {Q : Nat × Check → Prop} (whole : String)
    (each : ∀ entry ∈ items, ∀ q, P (entry.2.testOn cat q) ↔ Q entry) :
    (∀ e ∈ positionExpressions cat items whole, P e) ↔ ∀ entry ∈ items, Q entry := by
  induction items with
  | nil => simp [positionExpressions]
  | cons entry rest ih =>
    obtain ⟨first, others⟩ := List.forall_mem_cons.mp each
    have opened : positionExpressions cat (entry :: rest) whole =
        entry.2.testOn cat (entry.2.pithIn (.position whole entry.1)) ::
          positionExpressions cat rest whole := rfl
    rw [opened, List.forall_mem_cons, List.forall_mem_cons, first, ih others]

end Members

variable (counted : payload.Counted)

include counted

/-- Every check but the one that every value passes can reject. -/
theorem can_reject (formed : c.Formed payload false scope) (tests : c.isPass = false) (p : Pith) :
    Can (c.testOn cat p) false := by
  induction formed generalizing p with
  | @mk c own _ ih =>
    cases behind : c.behind? cat p.name with
    | some pair =>
      obtain ⟨next, skip⟩ := pair
      refine (opens_behind own behind).can_iff.mpr ?_
      cases c with
      | attr s name child =>
        cases behind
        exact .inr (ih child (by simp [children]) own.1 _)
      | mapping s origin key value =>
        cases key <;> cases value <;> cases behind <;> exact .inl rfl
      | pass | fail | any | all | literal | validators => cases behind
      | _ => cases behind; exact .inl rfl
    | none =>
      cases c with
      | pass => cases tests
      | fail => exact ⟨[], .const false⟩
      | any s members =>
        exact Expression.can_anyOf_false.mpr ((forall_members p fun m member q =>
          iff_of_true (ih m member (own m member).2 q) trivial).mpr fun _ _ => trivial)
      | all s parts =>
        obtain ⟨_, t, classes, others, rfl⟩ := own
        exact ⟨_, Expression.evaluates_allOf.mpr (.stops (.test rfl false))⟩
      | literal s values =>
        exact Expression.can_anyOf_false.mpr ((chain_literals values p).can false)
      | validators s child vs =>
        rw [testOn_validators]
        cases passes : child.isPass with
        | false =>
          obtain ⟨_, rejects⟩ := ih child (by simp [children]) passes p
          exact ⟨_, Expression.evaluates_allOf.mpr (.stops rejects)⟩
        | true =>
          cases vs with
          | nil => exact absurd (counted 0 own.2.2) (Nat.lt_irrefl 0)
          | cons v rest => exact ⟨_, Expression.evaluates_allOf.mpr (.stops (.test rfl false))⟩
      | mapping s origin key value => cases key <;> cases value <;> cases behind
      | _ => cases behind

theorem can_accept_iff (formed : c.Formed payload false scope) (p : Pith) :
    Can (c.testOn cat p) true ↔ c.canHold = true := by
  induction formed generalizing p with
  | @mk c own inside ih =>
    cases behind : c.behind? cat p.name with
    | some pair =>
      obtain ⟨next, skip⟩ := pair
      rw [(opens_behind own behind).can_iff]
      have guarded (e : Expression) : Can (unlessEmpty p.name e) true :=
        (unlessEmpty_opens p.name e).can_iff.mpr (.inl rfl)
      cases c with
      | isInstance | isSubclass | forwardInstance | forwardSubclass =>
        cases behind
        exact iff_of_true (.inr ⟨[], .const true⟩) rfl
      | sequence | reiterable => cases behind; exact iff_of_true (.inr (guarded _)) rfl
      | mapping s origin key value =>
        cases key <;> cases value <;> cases behind
        · exact iff_of_true (.inr ⟨[], .const true⟩) rfl
        all_goals exact iff_of_true (.inr (guarded _)) rfl
      | tupleFixed s origin len items =>
        cases behind
        have each : (∀ e ∈ positionExpressions cat items p.name, Can e true) ↔
            ∀ entry ∈ items, entry.2.canHold = true :=
          forall_positions p.name fun entry member => ih entry.2 (List.mem_map_of_mem member)
        have sized : Can (.hasLength (.read p.name) len) true := ⟨_, .test rfl true⟩
        rw [Expression.can_conjunction_true, List.forall_mem_cons, canHold, canHoldItems_eq,
          List.all_eq_true, each]
        simp [sized]
      | attr => cases behind; exact iff_of_true (.inl rfl) rfl
      | typedDict s origin required =>
        cases behind
        refine iff_of_true (.inr (Expression.can_conjunction_true.mpr fun e member => ?_)) rfl
        obtain ⟨key, _, rfl⟩ := List.mem_map.mp member
        exact ⟨_, .test rfl true⟩
      | pass | fail | any | all | literal | validators => cases behind
    | none =>
      cases c with
      | pass => exact iff_of_true ⟨[], .const true⟩ rfl
      | fail =>
        refine iff_of_false (fun ⟨_, evaluates⟩ => ?_) (by simp [canHold])
        cases (Expression.evaluates_const.mp evaluates).2
      | any s members =>
        have each : ∀ e ∈ (expressionsFrom cat members p).1, Can e false :=
          (forall_members p fun m member q => iff_of_true
            (can_reject counted (inside m member) (own m member).2 q) trivial).mpr
              fun _ _ => trivial
        have some : (∃ e ∈ (expressionsFrom cat members p).1, Can e true) ↔
            ∃ m ∈ members, m.canHold = true := exists_members p ih
        rw [canHold, canHoldAny_eq, List.any_eq_true, ← some]
        exact Expression.can_anyOf_true each
      | all s parts =>
        have each : (∀ e ∈ (expressionsFrom cat parts p).1, Can e true) ↔
            ∀ part ∈ parts, part.canHold = true := forall_members p ih
        rw [canHold, canHoldAll_eq, List.all_eq_true, ← each]
        exact Expression.can_allOf_true
      | literal s values =>
        have chain : Chain p (literalExpressions cat values p).1 := chain_literals values p
        cases values with
        | nil =>
          refine iff_of_false (fun ⟨_, evaluates⟩ => ?_) (by simp [canHold])
          cases (Expression.evaluates_const.mp evaluates).2
        | cons l rest =>
          refine iff_of_true ((Expression.can_anyOf_true (chain.can false)).mpr ?_) rfl
          exact ⟨_, List.mem_cons_self, chain.can true _ List.mem_cons_self⟩
      | validators s child vs =>
        rw [testOn_validators, Expression.can_allOf_true, canHold]
        cases passes : child.isPass with
        | true =>
          refine iff_of_true ((chain_validators vs p).can true) ?_
          cases child <;> first | rfl | cases passes
        | false =>
          rw [← ih child (by simp [children]) p]
          refine List.forall_mem_cons.trans (and_iff_left ((chain_validators vs _).can true))
      | mapping s origin key value => cases key <;> cases value <;> cases behind
      | _ => cases behind

/-- A check that does not look at its value rejects it, and does nothing else. -/
theorem evaluates_silent (formed : c.Formed payload false scope) (tests : c.isPass = false)
    (silent : c.looks = false) {accesses : List Access} {b : Bool}
    (evaluates : Evaluates (c.testOn cat p) accesses b) : accesses = [] ∧ b = false := by
  induction formed generalizing p accesses b with
  | @mk c own inside ih =>
    cases c with
    | pass => cases tests
    | fail => exact Expression.evaluates_const.mp evaluates
    | any s members =>
      rw [looks, looksAny_eq, List.any_eq_false] at silent
      have joins := Expression.evaluates_anyOf.mp evaluates
      have each : ∀ e ∈ (expressionsFrom cat members p).1, ∀ accesses b,
          Evaluates e accesses b → accesses = [] ∧ b = false :=
        (forall_members p fun m member q => iff_of_true (fun accesses b => ih m member
          (own m member).2 (by simpa using silent m member)) trivial).mpr fun _ _ => trivial
      exact joins.of_silent each
    | literal s values =>
      cases values with
      | nil => exact Expression.evaluates_const.mp evaluates
      | cons => cases silent
    | validators s child vs =>
      rw [testOn_validators, Expression.evaluates_allOf] at evaluates
      rw [looks] at silent
      cases passes : child.isPass with
      | true =>
        rw [passes] at silent
        cases vs with
        | nil => exact absurd (counted 0 own.2.2) (Nat.lt_irrefl 0)
        | cons => cases silent
      | false =>
        rw [passes] at silent evaluates
        have first := @ih child (by simp [children]) p passes silent
        cases evaluates with
        | stops last => exact first last
        | goesOn goes _ => cases (first goes).2
    | _ => cases silent

theorem touches_of_joins {members : List Check}
    (formed : ∀ m ∈ members, m.isPass = false ∧ m.Formed payload false scope)
    (each : ∀ m ∈ members, m.looks = true → ∀ p accesses b,
      Evaluates (m.testOn cat p) accesses b → Touches p.name accesses)
    (looking : looksAny members = true) {accesses : List Access} {b : Bool}
    (joins : Joins true (expressionsFrom cat members p).1 accesses b) :
    Touches p.name accesses := by
  induction members generalizing p accesses b with
  | nil => cases looking
  | cons m rest ih =>
    obtain ⟨⟨tests, formedFirst⟩, formedOthers⟩ := List.forall_mem_cons.mp formed
    obtain ⟨first, others⟩ := List.forall_mem_cons.mp each
    rw [looksAny] at looking
    cases silent : m.looks with
    | true =>
      cases joins with
      | stops last => exact first silent p _ _ last
      | goesOn goes _ => exact (first silent p _ _ goes).append_left _
    | false =>
      rw [silent, Bool.false_or] at looking
      cases joins with
      | stops last => cases (evaluates_silent counted formedFirst tests silent last).2
      | goesOn goes behind =>
        obtain ⟨rfl, _⟩ := evaluates_silent counted formedFirst tests silent goes
        have sameName : (expressionFrom cat m p).2.name = p.name := by
          rw [expressionFrom_snd]
          split <;> rfl
        rw [← sameName]
        exact ih formedOthers others looking behind

/-- A check that looks at its value touches its variable, whatever the tests turn out. -/
theorem touches_of_looks (formed : c.Formed payload false scope) (looking : c.looks = true)
    {accesses : List Access} {b : Bool} (evaluates : Evaluates (c.testOn cat p) accesses b) :
    Touches p.name accesses := by
  induction formed generalizing p accesses b with
  | @mk c own inside ih =>
    cases behind : c.behind? cat p.name with
    | some pair =>
      obtain ⟨next, skip⟩ := pair
      obtain ⟨more, rfl⟩ := (opens_behind own behind).begins evaluates
      exact p.touches_take.append_left more
    | none =>
      cases c with
      | pass | fail => cases looking
      | any s members =>
        refine touches_of_joins counted (fun m member => ⟨(own m member).2, inside m member⟩)
          (fun m member looking p accesses b => ih m member looking) looking
          (Expression.evaluates_anyOf.mp evaluates)
      | all s parts =>
        obtain ⟨_, t, classes, others, rfl⟩ := own
        have head {accesses : List Access} {b : Bool}
            (first : Evaluates ((isInstance t classes).testOn cat p) accesses b) :
            Touches p.name accesses := by
          rw [first.of_test rfl]
          exact p.touches_take
        cases Expression.evaluates_allOf.mp evaluates with
        | stops last => exact head last
        | goesOn goes _ => exact (head goes).append_left _
      | literal s values =>
        cases values with
        | nil => cases looking
        | cons l rest =>
          have chain : Chain p (literalExpressions cat (l :: rest) p).1 := chain_literals _ p
          exact chain.touches (List.cons_ne_nil _ _) (Expression.evaluates_anyOf.mp evaluates)
      | validators s child vs =>
        rw [testOn_validators, Expression.evaluates_allOf] at evaluates
        rw [looks] at looking
        cases passes : child.isPass with
        | true =>
          rw [passes] at looking evaluates
          cases vs with
          | nil => cases looking
          | cons v rest =>
            exact (chain_validators (v :: rest) p).touches (List.cons_ne_nil _ _) evaluates
        | false =>
          rw [passes] at looking evaluates
          have first := @ih child (by simp [children]) p looking
          cases evaluates with
          | stops last => exact first last
          | goesOn goes _ => exact (first goes).append_left _
      | mapping s origin key value => cases key <;> cases value <;> cases behind
      | _ => cases behind

end Check
end HintCheck
