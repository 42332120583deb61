import HintCheck.Proofs.Looking

/-!
Assignments in checks. The expression of a check assigns the variable of a part where the part is
first mentioned. Mostly that is where it is first read, but a member of a union that rejects every
value without looking at it may mention the variable behind the point where its evaluation ends:
then the members behind it read a variable that nothing has assigned. Exactly the checks in which
this cannot happen are orderly.
-/
namespace HintCheck

open Access (written Orderly Touches)

namespace Check

open Expression (Opens Evaluates Joins Can Safe SafeJoins)

/-! ### Orderly checks -/

mutual

/-- Variables are assigned before they are read when the check is evaluated; `pending` says that the
variable of the check itself is still to be assigned. -/
def orderly : Bool → Check → Bool
  | pending, any _ members => orderlyMembers pending members
  | _, all _ parts => orderlyParts parts
  | _, sequence _ _ item _ | _, reiterable _ _ item _ => orderly true item
  | _, mapping _ _ key value _ => orderlyOption key && (!key.all canHold || orderlyOption value)
  | _, tupleFixed _ _ _ items => orderlyItems items
  | pending, validators _ child _ => orderly pending child
  | _, attr _ _ child => orderly true child
  | _, pass _ | _, fail _ | _, isInstance _ _ | _, isSubclass _ _ | _, forwardInstance _ _
  | _, forwardSubclass _ _ | _, literal _ _ | _, typedDict _ _ _ => true
termination_by structural _ c => c

/-- A member that does not look at the value must not be the one that assigns it for the others. -/
def orderlyMembers : Bool → List Check → Bool
  | _, [] => true
  | pending, c :: rest =>
    if looks c then orderly pending c && orderlyMembers false rest
    else if pending && takes c then !looksAny rest
    else orderlyMembers pending rest
termination_by structural _ cs => cs

/-- What stands behind a check that accepts nothing is never evaluated. -/
def orderlyParts : List Check → Bool
  | [] => true
  | c :: rest => orderly false c && (!canHold c || orderlyParts rest)
termination_by structural cs => cs

def orderlyItems : List (Nat × Check) → Bool
  | [] => true
  | (_, c) :: rest => orderly true c && (!canHold c || orderlyItems rest)
termination_by structural items => items

def orderlyOption : Option Check → Bool
  | none => true
  | some c => orderly true c
termination_by structural c => c

end

/-- Checks of several values are orderly up to one that accepts nothing. -/
def orderlyPairs : List (Check × Pith) → Bool
  | [] => true
  | (c, p) :: rest => c.orderly p.pending.isSome && (!c.canHold || orderlyPairs rest)

/-- The checks of a tuple, each with its variable. -/
def placements (whole : String) (items : List (Nat × Check)) : List (Check × Pith) :=
  items.map fun entry => (entry.2, entry.2.pithIn (.position whole entry.1))

theorem orderlyParts_eq (cs : List Check) (name : String) :
    orderlyParts cs = orderlyPairs (cs.map fun c => (c, Pith.bound name)) := by
  induction cs with
  | nil => rfl
  | cons c rest ih => rw [orderlyParts, ih]; rfl

theorem orderlyItems_eq (items : List (Nat × Check)) (whole : String) :
    orderlyItems items = orderlyPairs (placements whole items) := by
  induction items with
  | nil => rfl
  | cons entry rest ih => rw [orderlyItems, ih]; rfl

theorem orderlyPairs_of_each {pairs : List (Check × Pith)}
    (each : ∀ pair ∈ pairs, ∀ pending, pair.1.orderly pending = true) :
    orderlyPairs pairs = true := by
  induction pairs with
  | nil => rfl
  | cons pair rest ih =>
    obtain ⟨orderly, others⟩ := List.forall_mem_cons.mp each
    rw [orderlyPairs, orderly, ih others, Bool.or_true, Bool.and_self]

theorem orderlyMembers_of_seen {members : List Check}
    (each : ∀ m ∈ members, (m.looks = false → m.takes = false) ∧
      ∀ pending, m.orderly pending = true) (pending : Bool) :
    orderlyMembers pending members = true := by
  induction members generalizing pending with
  | nil => rfl
  | cons m rest ih =>
    obtain ⟨⟨silent, orderly⟩, others⟩ := List.forall_mem_cons.mp each
    rw [orderlyMembers]
    cases looking : m.looks with
    | true => rw [if_pos rfl, orderly, ih others, Bool.and_self]
    | false => simp [silent looking, ih others]

/-- Where validators are put only on what is looked at, or on what accepts everything, a check is
orderly. -/
theorem orderly_of_seen {c : Check}
    (seen : ∀ s child vs, c.HasNode (.validators s child vs) →
      child.isPass = true ∨ child.looks = true) :
    (c.looks = false → c.takes = false) ∧ ∀ pending, c.orderly pending = true := by
  induction c using induction_children with
  | step c ih =>
    have inside {d : Check} (child : d ∈ c.children) :
        (d.looks = false → d.takes = false) ∧ ∀ pending, d.orderly pending = true :=
      ih d child fun s e vs isNode => seen s e vs (.head child isNode)
    cases c with
    | pass | fail | isInstance | isSubclass | forwardInstance | forwardSubclass | literal
    | typedDict => exact ⟨id, fun _ => rfl⟩
    | any s members =>
      refine ⟨fun silent => ?_, orderlyMembers_of_seen fun m member => inside member⟩
      rw [looks, looksAny_eq, List.any_eq_false] at silent
      rw [takes, takesAny_eq, List.any_eq_false]
      exact fun m member => by simpa using (inside member).1 (by simpa using silent m member)
    | all s parts =>
      refine ⟨fun silent => (by cases silent), fun _ => ?_⟩
      rw [orderly, orderlyParts_eq parts s.pith]
      refine orderlyPairs_of_each fun pair member => ?_
      obtain ⟨part, isPart, rfl⟩ := List.mem_map.mp member
      exact (inside isPart).2
    | sequence | reiterable | attr =>
      exact ⟨fun silent => (by cases silent), fun _ => (inside (by simp [children])).2 true⟩
    | mapping s origin key value =>
      have option {d : Option Check} (among : d.toList ⊆ key.toList ++ value.toList) :
          orderlyOption d = true := by
        cases d with
        | none => rfl
        | some x => exact (inside (among (List.mem_singleton_self x))).2 true
      refine ⟨fun silent => (by cases silent), fun _ => ?_⟩
      rw [orderly, option (List.subset_append_left _ _), option (List.subset_append_right _ _),
        Bool.or_true, Bool.and_self]
    | tupleFixed s origin len items =>
      refine ⟨fun silent => (by cases silent), fun _ => ?_⟩
      rw [orderly, orderlyItems_eq items s.pith]
      refine orderlyPairs_of_each fun pair member => ?_
      obtain ⟨entry, isEntry, rfl⟩ := List.mem_map.mp member
      exact (inside (List.mem_map_of_mem isEntry)).2
    | validators s child vs =>
      obtain ⟨silent, orderly⟩ := inside (d := child) (by simp [children])
      refine ⟨?_, orderly⟩
      rw [looks, takes]
      rcases seen s child vs .refl with passes | looking
      · rw [if_pos passes]
        cases child <;> first | exact id | cases passes
      · have tests : child.isPass = false := by cases child <;> first | rfl | cases looking
        simp [tests, looking]

variable {cat : Catalog} {c : Check} {p : Pith} {payload : Payload} {scope : Scope}

/-! ### Assignments -/

theorem assigned_members {members : List Check}
    (each : ∀ m ∈ members, ∀ p, (m.testOn cat p).assigned.Sublist
      ((if m.takes then p.due else []) ++ m.piths)) (p : Pith) :
    (Expression.assignedAll (expressionsFrom cat members p).1).Sublist
      ((if takesAny members then p.due else []) ++ pithsAll members) := by
  induction members generalizing p with
  | nil => exact List.nil_sublist _
  | cons m rest ih =>
    obtain ⟨first, others⟩ := List.forall_mem_cons.mp each
    have opened : Expression.assignedAll (expressionsFrom cat (m :: rest) p).1 =
        (m.testOn cat p).assigned ++
          Expression.assignedAll (expressionsFrom cat rest (expressionFrom cat m p).2).1 := rfl
    have behind := ih others (expressionFrom cat m p).2
    rw [opened, takesAny, pithsAll]
    rw [expressionFrom_snd] at behind ⊢
    cases takes : m.takes with
    | true =>
      rw [takes] at behind
      have head := first p
      rw [takes] at head
      have tail : (if takesAny rest then (Pith.bound p.name).due else []) = [] := by
        split <;> rfl
      simp only [if_true, tail, List.nil_append] at behind
      rw [Bool.true_or, ← List.append_assoc]
      exact head.append behind
    | false =>
      rw [takes] at behind
      have head := first p
      rw [takes, piths_of_not_takes takes] at head
      rw [List.sublist_nil.mp head, piths_of_not_takes takes, Bool.false_or]
      exact behind

theorem assigned_positions {items : List (Nat × Check)} (whole : String)
    (each : ∀ entry ∈ items, ∀ source, (entry.2.testOn cat (entry.2.pithIn source)).assigned.Sublist
      (entry.2.subject.pith :: entry.2.piths)) :
    (Expression.assignedAll (positionExpressions cat items whole)).Sublist (pithsItems items) := by
  induction items with
  | nil => exact List.nil_sublist _
  | cons entry rest ih =>
    obtain ⟨first, others⟩ := List.forall_mem_cons.mp each
    have opened : Expression.assignedAll (positionExpressions cat (entry :: rest) whole) =
        (entry.2.testOn cat (entry.2.pithIn (.position whole entry.1))).assigned ++
          Expression.assignedAll (positionExpressions cat rest whole) := rfl
    rw [opened, pithsItems]
    exact (first _).append (ih others)

theorem assigned_validated {s : Subject} {child : Check} (vs : List ValidatorOperand)
    (within : (child.testOn cat p).assigned.Sublist
      ((if child.takes then p.due else []) ++ child.piths)) :
    ((validators s child vs).testOn cat p).assigned.Sublist
      ((if (validators s child vs).takes then p.due else []) ++ (validators s child vs).piths) := by
  rw [testOn_validators, Expression.assigned_allOf, takes, piths]
  cases passes : child.isPass with
  | true =>
    rw [if_pos rfl, (chain_validators vs p).assigned_eq]
    cases vs with
    | nil => exact List.nil_sublist _
    | cons =>
      rw [List.isEmpty_cons, Bool.not_false, Bool.or_true]
      exact List.sublist_append_left _ _
  | false =>
    have behind := (chain_validators vs (expressionFrom cat child p).2).assigned_eq
    rw [expressionFrom_snd] at behind
    rw [if_neg Bool.false_ne_true, Expression.assignedAll, expressionFrom_snd, behind]
    cases takes : child.takes with
    | true =>
      -- the check in front has assigned the variable, and the validators read it
      rw [takes] at within
      have none : (Pith.bound p.name).due = [] := rfl
      simpa [none] using within
    | false =>
      rw [takes, piths_of_not_takes takes] at within
      rw [List.sublist_nil.mp within, piths_of_not_takes takes]
      cases vs with
      | nil => exact List.nil_sublist _
      | cons => exact List.sublist_append_left _ _

/-- The text of a check assigns its variable, if that is still to be done, and variables of parts,
each once and in order. -/
theorem assigned_sublist (formed : c.Formed payload false scope) (p : Pith) :
    (c.testOn cat p).assigned.Sublist ((if c.takes then p.due else []) ++ c.piths) := by
  induction formed generalizing p with
  | @mk c own inside ih =>
    have part {d : Check} (child : d ∈ c.children) (source : Source) :
        (d.testOn cat (d.pithIn source)).assigned.Sublist (d.subject.pith :: d.piths) := by
      have within := ih d child (d.pithIn source)
      cases takes : d.takes <;> rw [takes] at within
      · exact within.trans (List.sublist_cons_self _ _)
      · exact within
    cases behind : c.behind? cat p.name with
    | some pair =>
      obtain ⟨next, skip⟩ := pair
      have taken : c.takes = true := by cases c <;> first | rfl | cases behind
      rw [(opens_behind own behind).assigned_eq, Pith.assigned_take, taken, if_pos rfl]
      refine (List.Sublist.refl _).append ?_
      have guarded (e : Expression) : (unlessEmpty p.name e).assigned = e.assigned :=
        (unlessEmpty_opens p.name e).assigned_eq
      cases c with
      | isInstance | isSubclass | forwardInstance | forwardSubclass =>
        cases behind
        exact List.nil_sublist _
      | sequence | reiterable =>
        cases behind
        rw [guarded, piths]
        exact part (by simp [children]) _
      | mapping s origin key value =>
        rw [piths]
        cases key <;> cases value <;> cases behind
        · exact List.nil_sublist _
        · rw [guarded]
          exact part (by simp [children]) _
        · rw [guarded, pithsOption, pithsOption, List.append_nil]
          exact part (by simp [children]) _
        · rw [guarded]
          refine (part (by simp [children]) _).append ?_
          rw [Expression.assignedAll, Expression.assignedAll, List.append_nil]
          exact part (by simp [children]) _
      | tupleFixed s origin len items =>
        cases behind
        rw [piths]
        exact assigned_positions p.name fun entry member => part (List.mem_map_of_mem member)
      | attr =>
        cases behind
        rw [piths]
        exact part (by simp [children]) _
      | typedDict s origin required =>
        cases behind
        rw [Expression.assigned, (chain_keys required p.name).assigned_eq]
        split <;> exact List.nil_sublist _
      | pass | fail | any | all | literal | validators => cases behind
    | none =>
      cases c with
      | pass | fail => exact List.nil_sublist _
      | any s members =>
        have opened := Expression.assigned_anyOf (expressionsFrom cat members p).1
        rw [takes, piths]
        exact opened ▸ assigned_members ih p
      | all s parts =>
        have opened := Expression.assigned_allOf (expressionsFrom cat parts p).1
        rw [takes, piths]
        exact opened ▸ assigned_members ih p
      | literal s values =>
        have opened : ((literal s values).testOn cat p).assigned = _ :=
          Expression.assigned_anyOf (literalExpressions cat values p).1
        rw [opened, (chain_literals values p).assigned_eq, takes]
        cases values with
        | nil => exact List.nil_sublist _
        | cons => exact List.sublist_append_left _ _
      | validators s child vs => exact assigned_validated vs (ih child (by simp [children]) p)
      | mapping s origin key value => cases key <;> cases value <;> cases behind
      | _ => cases behind

theorem StandsOn.nodup_assigned {pith : String} {names : List String}
    (stands : c.StandsOn payload false pith names scope) (fresh : names.Nodup) (cat : Catalog) :
    (c.expression cat).assigned.Nodup := by
  have assigned : (c.testOn cat c.ownPith).assigned.Sublist
      ((if c.takes then [] else []) ++ c.piths) := assigned_sublist stands.formed c.ownPith
  rw [ite_self, List.nil_append] at assigned
  exact assigned.nodup (stands.within.nodup fresh)

/-! ### Safe checks -/

/-- The variable is ready, and no name is used twice. -/
structure Placed (known : List String) (p : Pith) (names : List String) : Prop where
  ready : p.Ready known
  fresh : (p.due ++ names).Nodup
  apart : ∀ name ∈ p.due ++ names, name ∉ known

namespace Placed

variable {known names first others : List String}

theorem mono (placed : Placed known p names) (within : others.Sublist names) :
    Placed known p others := by
  have wider : (p.due ++ others).Sublist (p.due ++ names) := (List.Sublist.refl _).append within
  exact ⟨placed.ready, placed.fresh.sublist wider, fun name member =>
    placed.apart name (wider.subset member)⟩

/-- The same value, once it is taken. -/
theorem taken (placed : Placed known p names) : Placed (p.due ++ known) (.bound p.name) names := by
  obtain ⟨_, freshNames, disjoint⟩ := List.nodup_append.mp placed.fresh
  refine ⟨Pith.mem_due placed.ready, freshNames, fun name isName => ?_⟩
  rw [List.mem_append]
  rintro (isDue | isKnown)
  · exact disjoint name isDue name isName rfl
  · exact placed.apart name (List.mem_append_right _ isName) isKnown

/-- A part of a value that is there. -/
theorem part {whole : String} (placed : Placed known (.bound whole) names) {d : Check}
    {source : Source} (reads : source.reads = [whole])
    (within : (d.subject.pith :: d.piths).Sublist names) :
    Placed known (d.pithIn source) d.piths := by
  refine ⟨fun name isRead => ?_, placed.fresh.sublist within, fun name member =>
    placed.apart name (within.subset member)⟩
  rw [reads] at isRead
  rw [List.mem_singleton.mp isRead]
  exact placed.ready

/-- The same value, after a check of it that left its variable known. -/
theorem later (placed : Placed known p (first ++ others)) {accesses : List Access}
    (within : written accesses ⊆ p.due ++ first) (isKnown : p.name ∈ written accesses ++ known) :
    Placed (written accesses ++ known) (.bound p.name) others := by
  have fresh := placed.fresh
  rw [← List.append_assoc] at fresh
  obtain ⟨_, freshOthers, disjoint⟩ := List.nodup_append.mp fresh
  refine ⟨isKnown, freshOthers, fun name member => ?_⟩
  have isOther : name ∈ others := member
  rw [List.mem_append]
  rintro (isWritten | isKnownName)
  · exact disjoint name (within isWritten) name isOther rfl
  · exact placed.apart name (by simp [isOther]) isKnownName

end Placed

/-- The expression is safe exactly if the check is orderly. -/
def Settles (cat : Catalog) (c : Check) : Prop :=
  ∀ p known, Placed known p c.piths →
    (Safe known (c.testOn cat p) ↔ c.orderly p.pending.isSome = true)

theorem written_subset (formed : c.Formed payload false scope) {accesses : List Access} {b : Bool}
    (evaluates : Evaluates (c.testOn cat p) accesses b) : written accesses ⊆ p.due ++ c.piths := by
  intro name isWritten
  have assigned := (assigned_sublist formed p).subset (evaluates.written_sublist.subset isWritten)
  rw [List.mem_append] at assigned ⊢
  refine assigned.imp_left fun isDue => ?_
  split at isDue
  · exact isDue
  · cases isDue

theorem takes_of_looks (formed : c.Formed payload false scope) (looking : c.looks = true) :
    c.takes = true := by
  induction formed with
  | @mk c own _ ih =>
    cases c with
    | any s members =>
      rw [looks, looksAny_eq, List.any_eq_true] at looking
      obtain ⟨m, member, looking⟩ := looking
      rw [takes, takesAny_eq, List.any_eq_true]
      exact ⟨m, member, ih m member looking⟩
    | all s parts =>
      obtain ⟨_, t, classes, others, rfl⟩ := own
      rfl
    | validators s child vs =>
      rw [looks] at looking
      rw [takes]
      split at looking
      · rw [looking, Bool.or_true]
      · rw [ih child (by simp [children]) looking, Bool.true_or]
    | literal => exact looking
    | pass | fail => cases looking
    | _ => rfl

theorem expressionsFrom_bound (cs : List Check) (name : String) :
    (expressionsFrom cat cs (.bound name)).1 =
      (cs.map fun c => (c, Pith.bound name)).map fun pair => pair.1.testOn cat pair.2 := by
  induction cs with
  | nil => rfl
  | cons c rest ih =>
    have same : (expressionFrom cat c (.bound name)).2 = .bound name := by
      rw [expressionFrom_snd]
      split <;> rfl
    rw [List.map_cons, List.map_cons, ← ih]
    exact congrArg (fun p => c.testOn cat (.bound name) :: (expressionsFrom cat rest p).1) same

theorem flatMap_bound (cs : List Check) (name : String) :
    (cs.map fun c => (c, Pith.bound name)).flatMap (fun pair => pair.2.due ++ pair.1.piths) =
      pithsAll cs := by
  induction cs with
  | nil => rfl
  | cons c rest ih => rw [List.map_cons, List.flatMap_cons, ih, pithsAll]; rfl

theorem positionExpressions_eq (items : List (Nat × Check)) (whole : String) :
    positionExpressions cat items whole =
      (placements whole items).map fun pair => pair.1.testOn cat pair.2 := by
  induction items with
  | nil => rfl
  | cons entry rest ih => rw [positionExpressions, ih]; rfl

theorem flatMap_placements (items : List (Nat × Check)) (whole : String) :
    (placements whole items).flatMap (fun pair => pair.2.due ++ pair.1.piths) =
      pithsItems items := by
  induction items with
  | nil => rfl
  | cons entry rest ih =>
    rw [pithsItems, ← ih]
    rfl

section Counted
variable (counted : payload.Counted)
include counted

/-- A member that does not look at the value is as good as absent. -/
theorem safe_silent {known : List String} {m : Check} {es : List Expression}
    (formed : m.Formed payload false scope) (tests : m.isPass = false) (silent : m.looks = false) :
    SafeJoins true known (m.testOn cat p :: es) ↔ SafeJoins true known es := by
  rw [Expression.safeJoins_cons]
  have nothing {accesses : List Access} {b : Bool}
      (evaluates : Evaluates (m.testOn cat p) accesses b) :=
    evaluates_silent counted formed tests silent evaluates
  constructor
  · rintro ⟨_, others⟩
    obtain ⟨accesses, rejects⟩ := can_reject counted formed tests p
    have safe := others accesses rejects
    rwa [(nothing rejects).1] at safe
  · intro safe
    refine ⟨fun accesses b evaluates => ?_, fun accesses evaluates => ?_⟩
    · rw [(nothing evaluates).1]
      trivial
    · rwa [(nothing evaluates).1]

/-- Members that read a variable which nothing has assigned. -/
theorem safe_unassigned {members : List Check} {known : List String} {name : String}
    (formed : ∀ m ∈ members, m.isPass = false ∧ m.Formed payload false scope)
    (absent : name ∉ known) (apart : name ∉ pithsAll members) :
    SafeJoins true known (expressionsFrom cat members (.bound name)).1 ↔
      looksAny members = false := by
  induction members with
  | nil => exact iff_of_true Expression.safeJoins_nil rfl
  | cons m rest ih =>
    obtain ⟨⟨tests, formedFirst⟩, formedOthers⟩ := List.forall_mem_cons.mp formed
    rw [pithsAll, List.mem_append, not_or] at apart
    have opened : (expressionsFrom cat (m :: rest) (.bound name)).1 =
        m.testOn cat (.bound name) :: (expressionsFrom cat rest (.bound name)).1 := by
      have same : (expressionFrom cat m (.bound name)).2 = .bound name := by
        rw [expressionFrom_snd]
        split <;> rfl
      exact congrArg (fun p => m.testOn cat (.bound name) :: (expressionsFrom cat rest p).1) same
    rw [opened, looksAny]
    cases looking : m.looks with
    | false =>
      rw [safe_silent counted formedFirst tests looking, Bool.false_or]
      exact ih formedOthers apart.2
    | true =>
      refine iff_of_false (fun safe => ?_) (by simp)
      obtain ⟨accesses, rejects⟩ := can_reject counted formedFirst tests (.bound name)
      have orderly := (Expression.safeJoins_cons.mp safe).1 accesses false rejects
      have touched := touches_of_looks counted formedFirst looking rejects
      rcases List.mem_append.mp (orderly.mem_of_touches touched) with isWritten | isKnown
      · exact apart.1 (written_subset formedFirst rejects isWritten)
      · exact absent isKnown

theorem safe_members {members : List Check} {known : List String}
    (formed : ∀ m ∈ members, m.isPass = false ∧ m.Formed payload false scope)
    (settles : ∀ m ∈ members, m.Settles cat) (placed : Placed known p (pithsAll members)) :
    SafeJoins true known (expressionsFrom cat members p).1 ↔
      orderlyMembers p.pending.isSome members = true := by
  induction members generalizing p known with
  | nil => exact iff_of_true Expression.safeJoins_nil rfl
  | cons m rest ih =>
    obtain ⟨⟨tests, formedFirst⟩, formedOthers⟩ := List.forall_mem_cons.mp formed
    obtain ⟨settlesFirst, settlesOthers⟩ := List.forall_mem_cons.mp settles
    have opened : (expressionsFrom cat (m :: rest) p).1 =
        m.testOn cat p ::
          (expressionsFrom cat rest (if m.takes then .bound p.name else p)).1 := by
      rw [← expressionFrom_snd]
      rfl
    rw [pithsAll] at placed
    rw [opened, orderlyMembers]
    cases looking : m.looks with
    | true =>
      rw [if_pos rfl, takes_of_looks formedFirst looking, if_pos rfl, Expression.safeJoins_cons,
        Bool.and_eq_true, settlesFirst p known (placed.mono (List.sublist_append_left _ _))]
      refine and_congr_right fun orderly => ?_
      have safe := (settlesFirst p known (placed.mono (List.sublist_append_left _ _))).mpr orderly
      have next {accesses : List Access}
          (rejects : Evaluates (m.testOn cat p) accesses false) :=
        ih formedOthers settlesOthers (placed.later (written_subset formedFirst rejects)
          ((safe accesses false rejects).mem_of_touches
            (touches_of_looks counted formedFirst looking rejects)))
      constructor
      · intro others
        obtain ⟨accesses, rejects⟩ := can_reject counted formedFirst tests p
        exact (next rejects).mp (others accesses rejects)
      · exact fun others accesses rejects => (next rejects).mpr others
    | false =>
      rw [if_neg Bool.false_ne_true, safe_silent counted formedFirst tests looking]
      have placedOthers := placed.mono (List.sublist_append_right _ _)
      cases pending : p.pending.isSome with
      | false =>
        have same : (if m.takes then .bound p.name else p) = p := by
          rw [Pith.bound_of_not_pending pending]
          split <;> rfl
        rw [same, ih formedOthers settlesOthers placedOthers, pending]
        rfl
      | true =>
        cases m.takes with
        | false =>
          rw [if_neg Bool.false_ne_true, ih formedOthers settlesOthers placedOthers, pending]
          rfl
        | true =>
          have due : p.due = [p.name] := by rw [Pith.due, pending]; rfl
          have absent : p.name ∉ known := placed.apart p.name (by simp [due])
          have apart : p.name ∉ pithsAll rest := by
            have fresh := placedOthers.fresh
            rw [due] at fresh
            exact (List.nodup_cons.mp fresh).1
          rw [if_pos rfl, safe_unassigned counted formedOthers absent apart]
          simp

theorem safe_pairs {pairs : List (Check × Pith)} {known : List String}
    (formed : ∀ pair ∈ pairs, pair.1.Formed payload false scope)
    (settles : ∀ pair ∈ pairs, pair.1.Settles cat) (ready : ∀ pair ∈ pairs, pair.2.Ready known)
    (fresh : (pairs.flatMap fun pair => pair.2.due ++ pair.1.piths).Nodup)
    (apart : ∀ name ∈ pairs.flatMap fun pair => pair.2.due ++ pair.1.piths, name ∉ known) :
    SafeJoins false known (pairs.map fun pair => pair.1.testOn cat pair.2) ↔
      orderlyPairs pairs = true := by
  induction pairs generalizing known with
  | nil => exact iff_of_true Expression.safeJoins_nil rfl
  | cons pair rest ih =>
    obtain ⟨c, p⟩ := pair
    obtain ⟨formedFirst, formedOthers⟩ := List.forall_mem_cons.mp formed
    obtain ⟨settlesFirst, settlesOthers⟩ := List.forall_mem_cons.mp settles
    obtain ⟨readyFirst, readyOthers⟩ := List.forall_mem_cons.mp ready
    rw [List.flatMap_cons] at fresh apart
    obtain ⟨freshFirst, freshOthers, disjoint⟩ := List.nodup_append.mp fresh
    have placed : Placed known p c.piths :=
      ⟨readyFirst, freshFirst, fun name member => apart name (List.mem_append_left _ member)⟩
    have next {accesses : List Access} (accepts : Evaluates (c.testOn cat p) accesses true) :
        SafeJoins false (written accesses ++ known)
          (rest.map fun pair => pair.1.testOn cat pair.2) ↔ orderlyPairs rest = true := by
      refine ih formedOthers settlesOthers (fun pair member => ?_) freshOthers fun name member => ?_
      · exact (readyOthers pair member).mono (List.subset_append_right _ _)
      · rw [List.mem_append]
        rintro (isWritten | isKnown)
        · exact disjoint name (written_subset formedFirst accepts isWritten) name member rfl
        · exact apart name (List.mem_append_right _ member) isKnown
    rw [List.map_cons, Expression.safeJoins_cons, settlesFirst p known placed, orderlyPairs,
      Bool.and_eq_true]
    refine and_congr_right fun _ => ?_
    have accepting : Can (c.testOn cat p) true ↔ _ := can_accept_iff counted formedFirst p
    cases holds : c.canHold with
    | true =>
      obtain ⟨accesses, accepts⟩ := accepting.mpr holds
      rw [Bool.not_true, Bool.false_or]
      exact ⟨fun others => (next accepts).mp (others accesses accepts),
        fun others accesses accepts => (next accepts).mpr others⟩
    | false =>
      refine iff_of_true (fun accesses accepts => ?_) rfl
      rw [accepting.mp ⟨accesses, accepts⟩] at holds
      cases holds

theorem safe_parts {parts : List Check} {known : List String} {name : String}
    (formed : ∀ c ∈ parts, c.Formed payload false scope) (settles : ∀ c ∈ parts, c.Settles cat)
    (placed : Placed known (.bound name) (pithsAll parts)) :
    SafeJoins false known (expressionsFrom cat parts (.bound name)).1 ↔
      orderlyParts parts = true := by
  have each {property : Check × Pith → Prop} (holds : ∀ c ∈ parts, property (c, .bound name)) :
      ∀ pair ∈ parts.map fun c => (c, Pith.bound name), property pair := by
    simpa using holds
  rw [expressionsFrom_bound, orderlyParts_eq parts name]
  refine safe_pairs counted (each formed) (each settles) (each fun _ _ => placed.ready) ?_ ?_
  · rw [flatMap_bound]
    exact placed.fresh
  · rw [flatMap_bound]
    exact placed.apart

theorem safe_positions {items : List (Nat × Check)} {known : List String} {whole : String}
    (formed : ∀ c ∈ items.map Prod.snd, c.Formed payload false scope)
    (settles : ∀ c ∈ items.map Prod.snd, c.Settles cat)
    (placed : Placed known (.bound whole) (pithsItems items)) :
    SafeJoins false known (positionExpressions cat items whole) ↔ orderlyItems items = true := by
  have each {property : Check × Pith → Prop}
      (holds : ∀ entry ∈ items, property (entry.2, entry.2.pithIn (.position whole entry.1))) :
      ∀ pair ∈ placements whole items, property pair := by
    intro pair member
    obtain ⟨entry, isItem, rfl⟩ := List.mem_map.mp member
    exact holds entry isItem
  rw [positionExpressions_eq, orderlyItems_eq items whole]
  refine safe_pairs counted (each fun entry member => formed _ (List.mem_map_of_mem member))
    (each fun entry member => settles _ (List.mem_map_of_mem member)) (each fun entry _ => ?_) ?_ ?_
  · intro name isRead
    rw [List.mem_singleton.mp isRead]
    exact placed.ready
  · rw [flatMap_placements]
    exact placed.fresh
  · rw [flatMap_placements]
    exact placed.apart

/-- The two checks of a pair, of which the second reads the variable of the first. -/
theorem safe_keyed {k v : Check} {known : List String} {whole : String}
    (formed : k.Formed payload false scope) (tests : k.isPass = false)
    (settlesKey : k.Settles cat) (settlesValue : v.Settles cat)
    (placed : Placed known (.bound whole)
      ((k.subject.pith :: k.piths) ++ (v.subject.pith :: v.piths))) :
    Safe known (.conjunction [k.testOn cat (k.pithIn (.first whole)),
      v.testOn cat (v.pithIn (.under whole k.subject.pith))]) ↔
        k.orderly true = true ∧ (k.canHold = true → v.orderly true = true) := by
  have placedKey : Placed known (k.pithIn (.first whole)) k.piths :=
    placed.part rfl (List.sublist_append_left _ _)
  have fresh : ((k.subject.pith :: k.piths) ++ (v.subject.pith :: v.piths)).Nodup := placed.fresh
  obtain ⟨_, freshValue, disjoint⟩ := List.nodup_append.mp fresh
  rw [Expression.safe_conjunction, Expression.safeJoins_cons, settlesKey _ known placedKey]
  refine and_congr_right fun orderly => ?_
  have safe := (settlesKey _ known placedKey).mpr orderly
  have next {accesses : List Access}
      (accepts : Evaluates (k.testOn cat (k.pithIn (.first whole))) accesses true) :
      SafeJoins false (written accesses ++ known)
        [v.testOn cat (v.pithIn (.under whole k.subject.pith))] ↔ v.orderly true = true := by
    have looking : k.looks = true := by
      by_contra silent
      cases (evaluates_silent counted formed tests (by simpa using silent) accepts).2
    have isKnown := (safe accesses true accepts).mem_of_touches
      (touches_of_looks counted formed looking accepts)
    rw [Expression.safeJoins_single]
    refine settlesValue _ _ ⟨fun name isRead => ?_, freshValue, fun name member => ?_⟩
    · rcases List.mem_cons.mp isRead with rfl | isKey
      · exact List.mem_append_right _ placed.ready
      · rw [List.mem_singleton.mp isKey]
        exact isKnown
    · rw [List.mem_append]
      rintro (isWritten | isKnownName)
      · exact disjoint name (written_subset formed accepts isWritten) name member rfl
      · exact placed.apart name (List.mem_append_right (k.subject.pith :: k.piths) member)
          isKnownName
  have accepting : Can (k.testOn cat (k.pithIn (.first whole))) true ↔ _ :=
    can_accept_iff counted formed _
  constructor
  · intro others holds
    obtain ⟨accesses, accepts⟩ := accepting.mpr holds
    exact (next accepts).mp (others accesses accepts)
  · exact fun others accesses accepts => (next accepts).mpr (others (accepting.mp ⟨_, accepts⟩))

/-- Validators behind the check that they are put on. -/
theorem safe_validated {child : Check} {known : List String}
    (formed : child.Formed payload false scope) (tests : child.isPass = false)
    (settles : child.Settles cat) (placed : Placed known p child.piths)
    (vs : List ValidatorOperand) :
    SafeJoins false known
        (child.testOn cat p :: (validatorExpressions vs (expressionFrom cat child p).2).1) ↔
      child.orderly p.pending.isSome = true := by
  rw [Expression.safeJoins_cons, ← settles p known placed]
  refine and_iff_left_of_imp fun safe accesses accepts => ?_
  have looking : child.looks = true := by
    by_contra silent
    cases (evaluates_silent counted formed tests (by simpa using silent) accepts).2
  have isKnown : p.name ∈ written accesses ++ known :=
    (safe accesses true accepts).mem_of_touches (touches_of_looks counted formed looking accepts)
  refine (chain_validators vs _).safe ?_
  rw [expressionFrom_snd, takes_of_looks formed looking, if_pos rfl]
  exact isKnown

/-- Whatever its tests turn out, a check assigns variables before it reads them, exactly if it is
orderly. -/
theorem settles_of_formed (formed : c.Formed payload false scope) : c.Settles cat := by
  induction formed with
  | @mk c own inside ih =>
    intro p known placed
    have isKnown : p.name ∈ p.due ++ known := Pith.mem_due placed.ready
    cases behind : c.behind? cat p.name with
    | some pair =>
      obtain ⟨next, skip⟩ := pair
      rw [(opens_behind own behind).safe_iff (Pith.orderly_take placed.ready), Pith.written_take]
      have guarded (e : Expression) :
          Safe (p.due ++ known) (unlessEmpty p.name e) ↔ Safe (p.due ++ known) e :=
        (unlessEmpty_opens p.name e).safe_iff ⟨isKnown, trivial⟩
      have part {d : Check} (child : d ∈ c.children) {source : Source}
          (reads : source.reads = [p.name]) (within : (d.subject.pith :: d.piths).Sublist c.piths) :
          Safe (p.due ++ known) (d.testOn cat (d.pithIn source)) ↔ d.orderly true = true :=
        ih d child _ _ (placed.taken.part reads within)
      cases c with
      | isInstance | isSubclass | forwardInstance | forwardSubclass =>
        cases behind
        exact iff_of_true (Expression.safe_const true) rfl
      | sequence | reiterable =>
        cases behind
        rw [guarded, part (by simp [children]) rfl (by rw [piths]), orderly]
      | mapping s origin key value =>
        have placedParts := placed.taken
        rw [piths] at placedParts
        cases key <;> cases value <;> cases behind
        · exact iff_of_true (Expression.safe_const true) rfl
        · rw [guarded, part (by simp [children]) rfl (by rw [piths]; exact .refl _)]
          simp [orderly, orderlyOption]
        · rw [guarded, part (by simp [children]) rfl (by
            rw [piths, pithsOption, pithsOption, List.append_nil])]
          simp [orderly, orderlyOption]
        · rw [guarded, safe_keyed counted (inside _ (by simp [children])) (own.2.1 _ (by simp))
            (ih _ (by simp [children])) (ih _ (by simp [children])) placedParts]
          rw [orderly, orderlyOption, orderlyOption, Option.all_some, Bool.and_eq_true,
            Bool.or_eq_true, Bool.not_eq_true']
          refine and_congr_right fun _ => ?_
          cases canHold _ <;> simp
      | tupleFixed s origin len items =>
        cases behind
        have placedItems := placed.taken
        rw [piths] at placedItems
        have sized : (Expression.hasLength (.read p.name) len).tested? = some (.read p.name) := rfl
        rw [Expression.safe_conjunction, Expression.safeJoins_test sized ⟨isKnown, trivial⟩,
          orderly]
        exact safe_positions counted inside ih placedItems
      | attr =>
        cases behind
        rw [part (by simp [children]) rfl (by rw [piths]), orderly]
      | typedDict s origin required =>
        cases behind
        refine iff_of_true (Expression.safe_conjunction.mpr ?_) rfl
        exact (chain_keys required p.name).safe isKnown
      | pass | fail | any | all | literal | validators => cases behind
    | none =>
      cases c with
      | pass | fail => exact iff_of_true (Expression.safe_const _) rfl
      | any s members =>
        rw [piths] at placed
        exact Expression.safe_anyOf.trans (safe_members counted (fun m member =>
          ⟨(own m member).2, inside m member⟩) ih placed)
      | all s parts =>
        obtain ⟨_, t, classes, others, rfl⟩ := own
        obtain ⟨_, formedOthers⟩ := List.forall_mem_cons.mp inside
        obtain ⟨_, settlesOthers⟩ := List.forall_mem_cons.mp ih
        have placedOthers := placed.taken
        rw [piths, pithsAll, piths, List.nil_append] at placedOthers
        have opened : ((all s (isInstance t classes :: others)).testOn cat p) =
            .allOf ((isInstance t classes).testOn cat p ::
              (expressionsFrom cat others (.bound p.name)).1) := by
          rw [← p.take_snd]
          rfl
        have head : ((isInstance t classes).testOn cat p).tested? = some p.take.1 := rfl
        rw [opened, Expression.safe_allOf,
          Expression.safeJoins_test head (Pith.orderly_take placed.ready), Pith.written_take,
          safe_parts counted formedOthers settlesOthers placedOthers]
        rfl
      | literal s values =>
        exact iff_of_true (Expression.safe_anyOf.mpr
          ((chain_literals values p).safe placed.ready)) rfl
      | validators s child vs =>
        rw [piths] at placed
        rw [testOn_validators, Expression.safe_allOf, orderly]
        cases passes : child.isPass with
        | true =>
          refine iff_of_true ((chain_validators vs p).safe placed.ready) ?_
          cases child <;> first | rfl | cases passes
        | false =>
          exact safe_validated counted (inside child (by simp [children])) passes
            (ih child (by simp [children])) placed vs
      | mapping s origin key value => cases key <;> cases value <;> cases behind
      | _ => cases behind

theorem StandsOn.safe_iff {pith : String} {names : List String}
    (stands : c.StandsOn payload false pith names scope) (fresh : names.Nodup)
    (apart : pith ∉ c.piths) (cat : Catalog) :
    Safe [pith] (c.expression cat) ↔ c.orderly false = true := by
  obtain ⟨rfl, formed, within⟩ := stands
  refine settles_of_formed counted formed c.ownPith [c.subject.pith] ⟨?_, ?_, ?_⟩
  · exact List.mem_singleton_self _
  · exact within.nodup fresh
  · rintro name member isOwn
    rw [List.mem_singleton.mp isOwn] at member
    exact apart member

end Counted

end Check

namespace Session

variable {s : Session} {ctx : Context} {h : Hint} {scope after : Scope} {names : Naming}
  {pith : String} {check : Check}

/-- The expression of a check that samples containers assigns no variable twice. Its evaluations
all assign the variables of parts before they read them exactly if the check is orderly, and it is
where validators are put only on what is looked at or accepts everything. -/
theorem buildCheck_assigns (sampled : ctx.conf.thoroughness ≠ .exhaustive) (sound : scope.Sound)
    (named : h.WellNamed names) (grown : s.cache.Grown names s.catalog s.substitutes)
    (built : ((buildCheck ctx pith h scope).run.run s).1 = .ok (check, after))
    (apart : pith ∉ check.piths) (cat : Catalog) :
    (check.expression cat).assigned.Nodup ∧
      ((∀ accesses outcome, (check.expression cat).Evaluates accesses outcome →
        Orderly [pith] accesses) ↔ check.orderly false = true) ∧
      ((∀ subject child vs, check.HasNode (.validators subject child vs) →
        child.isPass = true ∨ child.looks = true) → check.orderly false = true) := by
  obtain ⟨handedOut, steps, stands⟩ := buildCheck_stands (hereditary_true _ _) ctx.keeps_true
    trivial sound named grown built
  rw [beq_eq_false_iff_ne.mpr sampled] at stands
  have stands := stands after fun _ _ => id
  exact ⟨stands.nodup_assigned steps.nodup cat,
    stands.safe_iff (Payload.counted_regular _ _) steps.nodup apart cat,
    fun seen => (Check.orderly_of_seen seen).2 false⟩

/-- `list[Union[Annotated[kind, IsEqual[1]], other]]` -/
def listOfOnes (kind other : Hint) : Hint :=
  .generic none Builtin.list [.typing none .union
    [.typing none .annotated [kind, .validator none ⟨0, .equal (.int 1)⟩], other]]

theorem wellNamed_listOfOnes {kind other : Hint} (named : kind.WellNamed names)
    (namedToo : other.WellNamed names) (rule : names.rule 0 = .equal (.int 1)) :
    (listOfOnes kind other).WellNamed names := by
  have isOne : (Hint.validator none ⟨0, .equal (.int 1)⟩).WellNamed names :=
    .intro nofun (by rintro _ _ ⟨⟩; exact rule) nofun
  have annotated : (Hint.typing none .annotated
      [kind, .validator none ⟨0, .equal (.int 1)⟩]).WellNamed names :=
    .ofArgs (List.forall_mem_cons.mpr ⟨named, List.forall_mem_singleton.mpr isOne⟩)
  refine .ofArgs (List.forall_mem_singleton.mpr (.ofArgs ?_))
  exact List.forall_mem_cons.mpr ⟨annotated, List.forall_mem_singleton.mpr namedToo⟩

/-- In the sampled item of a list, the first member of the union assigns the variable that the
second reads, also if the first rejects the item before its validator is called. -/
theorem buildCheck_assigns_sample :
    let h := listOfOnes Builtin.int Builtin.str
    let shown := "(isinstance(x, list) and (not x or " ++
      "((isinstance((__hg_pith_0 := x[__hg_random % len(x)]), int) and " ++
      "__hg_validator_0(__hg_pith_0)) or isinstance(__hg_pith_0, str))))"
    ∃ check after,
      ((buildCheck (.bare .standard) "x" h .empty).run.run start).1 = .ok (check, after) ∧
      check.text start.catalog = shown ∧ (check.expression start.catalog).assigned.Nodup ∧
      ∀ accesses outcome, (check.expression start.catalog).Evaluates accesses outcome →
        Orderly ["x"] accesses := by
  intro h shown
  have built : ((buildCheck (.bare .standard) "x" h .empty).run.run start).1.toOption.any
      (fun made => decide ("x" ∉ made.1.piths ∧ made.1.orderly false = true ∧
        made.1.text start.catalog = shown)) = true := by decide +kernel
  obtain ⟨⟨check, after⟩, built, decided⟩ := ok_of_any built
  obtain ⟨apart, orderly, isShown⟩ := of_decide_eq_true decided
  let names : Naming := ⟨fun _ => Builtin.object, fun _ => .equal (.int 1)⟩
  have named : h.WellNamed names := wellNamed_listOfOnes (.ofClass _) (.ofClass _) rfl
  obtain ⟨nodup, assigns, _⟩ := buildCheck_assigns (by decide) Scope.sound_empty named .empty
    built apart start.catalog
  exact ⟨check, after, built, isShown, nodup, assigns.mpr orderly⟩

/-- If the first member rejects everything, its validator is never called, and the variable that is
assigned in the call is read by the second member all the same. -/
theorem buildCheck_reads_unassigned :
    let h := listOfOnes (.form (.standard .never)) Builtin.int
    let shown := "(isinstance(x, list) and (not x or " ++
      "((False and __hg_validator_0((__hg_pith_0 := x[__hg_random % len(x)]))) or " ++
      "isinstance(__hg_pith_0, int))))"
    ∃ check after,
      ((buildCheck (.bare .standard) "x" h .empty).run.run start).1 = .ok (check, after) ∧
      check.text start.catalog = shown ∧
      ∃ accesses outcome, (check.expression start.catalog).Evaluates accesses outcome ∧
        ¬ Orderly ["x"] accesses := by
  intro h shown
  have built : ((buildCheck (.bare .standard) "x" h .empty).run.run start).1.toOption.any
      (fun made => decide ("x" ∉ made.1.piths ∧ made.1.orderly false = false ∧
        made.1.text start.catalog = shown)) = true := by decide +kernel
  obtain ⟨⟨check, after⟩, built, decided⟩ := ok_of_any built
  obtain ⟨apart, unorderly, isShown⟩ := of_decide_eq_true decided
  let names : Naming := ⟨fun _ => Builtin.object, fun _ => .equal (.int 1)⟩
  have never : (Hint.form (.standard .never)).WellNamed names := .intro nofun nofun nofun
  have named : h.WellNamed names := wellNamed_listOfOnes never (.ofClass _) rfl
  obtain ⟨_, steps, stands⟩ := buildCheck_stands (hereditary_true _ _) (Context.keeps_true _)
    trivial Scope.sound_empty named .empty built
  have settles := (stands after fun _ _ => id).safe_iff (Payload.counted_regular _ _) steps.nodup
    apart start.catalog
  refine ⟨check, after, built, isShown, ?_⟩
  by_contra none
  push Not at none
  rw [settles.mp none] at unorderly
  cases unorderly

end Session
end HintCheck
