import HintCheck.Class.Definition
import HintCheck.Proofs.Remembering

/-!
How references settle. A reference is looked up when something is asked of it, in the modules and
scopes of that moment. A class that was found is remembered, and so is that the name was lost with
its local scope; a failure leaves no trace, so that the next request looks again. All of this is
said of any sequence of requests and of changes to classes, modules and scopes between them.
-/
namespace HintCheck

/-! ### Dotted names -/

namespace Reference

/-- The part of the name before the first dot. -/
def head (ref : Reference) : String :=
  String.ofList (ref.name.toList.takeWhile (· ≠ '.'))

theorem splitOn_eq_takeWhile (dot : Char) (cs : List Char) :
    ∃ rest, cs.splitOn dot = cs.takeWhile (· ≠ dot) :: rest := by
  induction cs with
  | nil => exact ⟨[], rfl⟩
  | cons c cs ih =>
    obtain ⟨rest, split⟩ := ih
    rw [List.splitOn_cons_eq_if_modifyHead, split]
    by_cases isDot : c = dot
    · exact ⟨_, by simp [isDot]; rfl⟩
    · exact ⟨rest, by simp [isDot]⟩

theorem segments_eq_head (ref : Reference) : ∃ rest, segments ref.name = ref.head :: rest := by
  obtain ⟨rest, split⟩ := splitOn_eq_takeWhile '.' ref.name.toList
  exact ⟨rest.map String.ofList, by rw [segments, split, List.map_cons, head]⟩

theorem segments_of_plain {name : String} (plain : '.' ∉ name.toList) : segments name = [name] := by
  simp [segments, List.splitOn_eq_singleton plain]

theorem segments_append (module : String) {last : String} (plain : '.' ∉ last.toList) :
    segments (module ++ "." ++ last) = segments module ++ [last] := by
  have dotted : (module ++ "." ++ last).toList = module.toList ++ '.' :: last.toList := by simp
  rw [segments, dotted, List.splitOn_append_cons_self, List.splitOn_eq_singleton plain]
  simp [segments]

theorem intercalate_segments (name : String) : ".".intercalate (segments name) = name := by
  have dot : ".".toList = ['.'] := rfl
  rw [← String.toList_inj, String.toList_intercalate, segments, List.map_map]
  simp [dot, Function.comp_def, List.intercalate_splitOn]

theorem qualified?_append (module : String) {last : String} (plain : '.' ∉ last.toList) :
    qualified? (module ++ "." ++ last) = some (module, last) := by
  have named : ∃ first more, (segments module).reverse = first :: more := by
    refine List.exists_cons_of_ne_nil fun none => ?_
    simp [segments] at none
  obtain ⟨first, more, parts⟩ := named
  have whole : (first :: more).reverse = segments module := by rw [← parts, List.reverse_reverse]
  simp only [qualified?, segments_append module plain, List.reverse_append, List.reverse_singleton,
    List.singleton_append, parts, whole, intercalate_segments]

theorem exists_last_dot {name : String} (dotted : '.' ∈ name.toList) :
    ∃ module last : String, name = module ++ "." ++ last ∧ '.' ∉ last.toList := by
  obtain ⟨after, before, split, plain⟩ :=
    List.eq_append_cons_of_mem (List.mem_reverse.mpr dotted)
  refine ⟨String.ofList before.reverse, String.ofList after.reverse, ?_, by simpa using plain⟩
  have turned := congrArg List.reverse split
  rw [← String.toList_inj]
  simpa using turned

/-- A name is split at its last dot, if it has one. -/
theorem qualified?_eq_some {name module last : String} :
    qualified? name = some (module, last) ↔
      name = module ++ "." ++ last ∧ '.' ∉ last.toList := by
  constructor
  · intro split
    by_cases dotted : '.' ∈ name.toList
    · obtain ⟨m, l, rfl, plain⟩ := exists_last_dot dotted
      rw [qualified?_append m plain] at split
      cases split
      exact ⟨rfl, plain⟩
    · simp [qualified?, segments_of_plain dotted] at split
  · rintro ⟨rfl, plain⟩
    exact qualified?_append module plain

/-! ### Lost names -/

/-- A name that may have been defined in a local scope which has ended: neither a class around it
nor its module nor the builtins define it, or rather its first part, and what stands before its last
dot is no module. -/
structure Lost (around : Surroundings) (ref : Reference) : Prop where
  ended : ∃ scope, ref.locals = some scope ∧ around.namespaces.scope? scope = none
  noClass : ∀ c ∈ ref.classes, (around.catalog.get c).name ≠ ref.head ∧
    Entries.get? (around.catalog.get c).attrs ref.head = none
  noGlobal : ∀ name m, ref.module = some name → around.namespaces.import? name = some m →
    Entries.get? m.globals ref.head = none
  noBuiltin : Builtin.ofName? ref.head = none
  noModule : ∀ module last : String, ref.name = module ++ "." ++ last → '.' ∉ last.toList →
    around.namespaces.import? module = none

variable {around : Surroundings} {ref : Reference}

theorem inClasses?_eq_none {classes : List ClassId} {name : String} :
    inClasses? around classes name = none ↔
      ∀ c ∈ classes, (around.catalog.get c).name ≠ name ∧
        Entries.get? (around.catalog.get c).attrs name = none := by
  simp only [inClasses?, List.findSome?_eq_none_iff, List.mem_reverse]
  refine forall₂_congr fun c _ => ?_
  by_cases same : (around.catalog.get c).name = name <;> simp [same]

theorem inModule?_eq_none {module : Option String} {name : String} :
    inModule? around module name = none ↔
      ∀ found m, module = some found → around.namespaces.import? found = some m →
        Entries.get? m.globals name = none := by
  simp only [inModule?, Option.bind_eq_none_iff]
  exact ⟨fun nowhere found m isModule => nowhere found isModule m,
    fun nowhere found isModule m => nowhere found m isModule⟩

theorem lookupPlain_scopeEnded {name : String} :
    ref.lookupPlain around name = .scopeEnded ↔
      (∃ scope, ref.locals = some scope ∧ around.namespaces.scope? scope = none) ∧
      inClasses? around ref.classes name = none ∧ inModule? around ref.module name = none ∧
      Builtin.ofName? name = none := by
  unfold lookupPlain
  cases inClass : inClasses? around ref.classes name <;>
    cases inModule : inModule? around ref.module name <;>
    cases builtin : Builtin.ofName? name <;>
    cases locals : ref.locals with
    | none => simp
    | some scope =>
      cases ended : around.namespaces.scope? scope with
      | none => simp [ended]
      | some names => cases found : Entries.get? names name <;> simp [found, ended]

theorem follow_ne_scopeEnded (v : Value) (parts : List String) :
    follow around v parts ≠ .scopeEnded := by
  induction parts generalizing v with
  | nil => simp [follow]
  | cons part rest ih =>
    rw [follow]
    split
    · exact ih _
    · simp

/-- A look-up ends with the scope exactly if the name is lost. -/
theorem lookup_scopeEnded : ref.lookup around = .ok .scopeEnded ↔ ref.Lost around := by
  have lost (noModule : ∀ module last : String, ref.name = module ++ "." ++ last →
      '.' ∉ last.toList → around.namespaces.import? module = none) :
      ref.lookupPlain around ref.head = .scopeEnded ↔ ref.Lost around := by
    rw [lookupPlain_scopeEnded, inClasses?_eq_none, inModule?_eq_none]
    exact ⟨fun ⟨ended, noClass, noGlobal, noBuiltin⟩ =>
      ⟨ended, noClass, noGlobal, noBuiltin, noModule⟩,
      fun lost => ⟨lost.ended, lost.noClass, lost.noGlobal, lost.noBuiltin⟩⟩
  obtain ⟨rest, parts⟩ := segments_eq_head ref
  unfold lookup
  cases split : qualified? ref.name with
  | none =>
    have unqualified (module last : String) (written : ref.name = module ++ "." ++ last)
        (plain : '.' ∉ last.toList) : False := by
      rw [qualified?_eq_some.mpr ⟨written, plain⟩] at split
      cases split
    have plain : '.' ∉ ref.name.toList := by
      intro dotted
      obtain ⟨module, last, written, plain⟩ := exists_last_dot dotted
      exact unqualified module last written plain
    have whole : ref.head = ref.name := by
      rw [segments_of_plain plain] at parts
      exact (List.cons.inj parts).1.symm
    rw [← lost fun module last written plain => (unqualified module last written plain).elim, whole]
    simp
  | some pair =>
    obtain ⟨module, last⟩ := pair
    obtain ⟨written, plain⟩ := qualified?_eq_some.mp split
    cases imported : around.namespaces.import? module with
    | some m =>
      have found : ¬ ref.Lost around := fun lost => by
        rw [lost.noModule module last written plain] at imported
        cases imported
      cases global : Entries.get? m.globals last <;> simp [imported, global, found]
    | none =>
      have noModule (other part : String) (writtenToo : ref.name = other ++ "." ++ part)
          (plainToo : '.' ∉ part.toList) : around.namespaces.import? other = none := by
        have same := qualified?_eq_some.mpr ⟨writtenToo, plainToo⟩
        rw [split] at same
        cases same
        exact imported
      rw [← lost noModule]
      cases outcome : ref.lookupPlain around ref.head with
      | found v => simp [imported, parts, outcome, follow_ne_scopeEnded]
      | missing => simp [imported, parts, outcome]
      | scopeEnded => simp [imported, parts, outcome]

/-- A reference denotes no class, and yet no error, exactly if its name is lost. -/
theorem target_eq_none : ref.target around = .ok none ↔ ref.Lost around := by
  rw [← lookup_scopeEnded]
  unfold target
  rcases ref.lookup around with e | v | _ | _
  · simp
  · cases v <;> simp
  · simp
  · simp

end Reference

/-! ### Requests -/

namespace Resolution

/-- The answer to a request that is put to a reference for the first time. -/
def answerAnew (around : Surroundings) (ref : Reference) (request : Request) :
    Except ReferenceError Answer :=
  match request.reply? around.catalog with
  | some reply => (ref.target around).map reply
  | none => .ok (.verdict false)

/-- What one request can do: a settled reference answers from memory and stays as it is, and one
that is not settled is looked up, if at all, as if for the first time. -/
theorem ask_cases (state : Resolution) (around : Surroundings) (ref : Reference)
    (request : Request) :
    (∃ target, state.settled? = some target ∧ (state.ask around ref request).2 = state ∧
      (state.ask around ref request).1 =
        .ok (((request.reply? around.catalog).map (· target)).getD (.verdict false))) ∨
    state.settled? = none ∧ (state.ask around ref request).1 = answerAnew around ref request ∧
      (state.ask around ref request).2 =
        if (request.reply? around.catalog).isSome then after (ref.target around) else state := by
  unfold ask use answerAnew
  cases settled : state.settled? with
  | some target => cases request.reply? around.catalog <;> simp [Except.map]
  | none => cases request.reply? around.catalog <;> simp

theorem after_ne_resolving (outcome : Except ReferenceError (Option ClassId)) :
    after outcome ≠ .resolving := by
  rcases outcome with e | _ | c <;> simp [after]

theorem after_eq_ignored {outcome : Except ReferenceError (Option ClassId)} :
    after outcome = .ignored ↔ outcome = .ok none := by
  rcases outcome with e | _ | c <;> simp [after]

end Resolution

/-- The tests of a reference in the check of a wrapper are requests to the reference, and leave it
as the requests do. -/
theorem Check.accepts_reference (around : Surroundings) (owner : Nat) (random : UInt32)
    (s : Subject) (op : ReferenceOperand) (v : Value) (calls : CallState) :
    let o := Running.oracle around owner random
    let asked := (calls.resolution owner op.key).ask around op.reference
    (∃ verdict, verdict.map Answer.verdict = (asked (.isInstance v)).1 ∧
      ((forwardInstance s op).accepts o v).run.run calls =
        (verdict, calls.setResolution owner op.key (asked (.isInstance v)).2)) ∧
    ∀ sub, v = .type sub →
      ∃ verdict, verdict.map Answer.verdict = (asked (.isSubclass v)).1 ∧
        ((forwardSubclass s op).accepts o v).run.run calls =
          (verdict, calls.setResolution owner op.key (asked (.isSubclass v)).2) := by
  have opened {α : Type} (f : Option ClassId → α) :
      (do return f (← Running.resolve around owner op) : Checking α).run.run calls =
        let used := (calls.resolution owner op.key).use around op.reference
        (used.1.map f, calls.setResolution owner op.key used.2) := by
    rw [run_run_bind, Running.resolve_run]
    rcases (calls.resolution owner op.key).use around op.reference with ⟨_ | _, _⟩ <;> rfl
  have answered (f : Option ClassId → Bool) (outcome : Except ReferenceError (Option ClassId)) :
      (outcome.map f).map Answer.verdict = outcome.map fun c => .verdict (f c) := by
    cases outcome <;> rfl
  refine ⟨⟨_, answered _ _, opened _⟩, ?_⟩
  rintro sub rfl
  exact ⟨_, answered _ _, opened _⟩

/-! ### Runs -/

/-- A change to what references are looked up in. -/
inductive Change where
  /-- A module is registered, in the place of an earlier one of its name. -/
  | register (m : Module)
  | unregister (name : String)
  | setGlobal (module : Nat) (name : String) (v : Value)
  | unsetGlobal (module : Nat) (name : String)
  | openScope
  | setLocal (scope : Nat) (name : String) (v : Value)
  | closeScope (scope : Nat)
  | defineClass (draft : ClassDraft)
  | registerSubclass (c sub : ClassId)

def Change.apply (around : Surroundings) : Change → Surroundings
  | register m => { around with namespaces := around.namespaces.register m }
  | unregister name => { around with namespaces := around.namespaces.unregister name }
  | setGlobal m name v => { around with namespaces := around.namespaces.setGlobal m name v }
  | unsetGlobal m name => { around with namespaces := around.namespaces.unsetGlobal m name }
  | openScope => { around with namespaces := around.namespaces.openScope }
  | setLocal scope name v => { around with namespaces := around.namespaces.setLocal scope name v }
  | closeScope scope => { around with namespaces := around.namespaces.closeScope scope }
  | defineClass draft =>
    match around.catalog.define draft with
    | .ok (_, catalog) => { around with catalog }
    | .error _ => around
  | registerSubclass c sub => { around with catalog := around.catalog.register c sub }

/-- What can happen next to a reference. -/
inductive Move where
  | change (c : Change)
  | ask (request : Request)

/-- How far a reference has been resolved, and what is around it. -/
structure Situation where
  around : Surroundings
  state : Resolution

namespace Situation

/-- A new reference. -/
def start (around : Surroundings) : Situation :=
  ⟨around, .unresolved⟩

/-- The answer to a request that is put now. -/
def answer (now : Situation) (ref : Reference) (request : Request) :
    Except ReferenceError Answer :=
  (now.state.ask now.around ref request).1

def move (ref : Reference) (now : Situation) : Move → Situation
  | .change c => { now with around := c.apply now.around }
  | .ask request => { now with state := (now.state.ask now.around ref request).2 }

/-- The situation after some moves. -/
def run (ref : Reference) (now : Situation) (moves : List Move) : Situation :=
  moves.foldl (move ref) now

variable {ref : Reference} {now : Situation}

/-! #### Steps -/

theorem move_ne_resolving (proper : now.state ≠ .resolving) (m : Move) :
    (now.move ref m).state ≠ .resolving := by
  cases m with
  | change c => exact proper
  | ask request =>
    rcases now.state.ask_cases now.around ref request with
      ⟨target, _, stays, _⟩ | ⟨_, _, next⟩
    · rwa [move, stays]
    · rw [move, next]
      split
      · exact Resolution.after_ne_resolving _
      · exact proper

/-- What is settled stays so, whatever is asked and whatever changes. -/
theorem move_of_settled {target : Option ClassId} (settled : now.state.settled? = some target)
    (ref : Reference) (m : Move) : (now.move ref m).state = now.state := by
  cases m with
  | change c => rfl
  | ask request =>
    rcases now.state.ask_cases now.around ref request with
      ⟨_, _, stays, _⟩ | ⟨unsettled, _⟩
    · exact stays
    · rw [settled] at unsettled
      cases unsettled

theorem answer_of_settled {target : Option ClassId} (settled : now.state.settled? = some target) :
    now.answer ref .target = .ok (.target target) := by
  rcases now.state.ask_cases now.around ref .target with
    ⟨other, same, _, answered⟩ | ⟨unsettled, _⟩
  · rw [settled] at same
    cases same
    exact answered
  · rw [settled] at unsettled
    cases unsettled

/-- A reference is ignored from a move on only if the move is a request and the name is lost. -/
theorem lost_of_move_ignored {m : Move} (before : now.state ≠ .ignored)
    (ignored : (now.move ref m).state = .ignored) : ref.Lost now.around := by
  cases m with
  | change c => exact absurd ignored before
  | ask request =>
    rcases now.state.ask_cases now.around ref request with
      ⟨target, _, stays, _⟩ | ⟨_, _, next⟩
    · rw [move, stays] at ignored
      exact absurd ignored before
    · rw [move, next] at ignored
      split at ignored
      · exact Reference.target_eq_none.mp (Resolution.after_eq_ignored.mp ignored)
      · exact absurd ignored before

/-- As long as a reference is unresolved it answers like a new one. -/
theorem answer_of_unresolved (unresolved : now.state = .unresolved) (ref : Reference)
    (request : Request) :
    now.answer ref request = Resolution.answerAnew now.around ref request ∧
      (now.move ref (.ask request)).state =
        if (request.reply? now.around.catalog).isSome then .after (ref.target now.around)
        else .unresolved := by
  rcases now.state.ask_cases now.around ref request with
    ⟨target, settled, _⟩ | ⟨_, answered, next⟩
  · rw [unresolved] at settled
    cases settled
  · rw [unresolved] at next
    refine ⟨answered, ?_⟩
    rw [move, unresolved, next]

theorem unresolved_of_error (unresolved : now.state = .unresolved) {request : Request}
    {e : ReferenceError} (fails : now.answer ref request = .error e) :
    (now.move ref (.ask request)).state = .unresolved := by
  obtain ⟨answered, next⟩ := answer_of_unresolved unresolved ref request
  rw [fails, Resolution.answerAnew] at answered
  rw [next]
  cases reply : request.reply? now.around.catalog with
  | none => rfl
  | some f =>
    rw [reply] at answered
    cases target : ref.target now.around with
    | error e => rfl
    | ok c => rw [target] at answered; cases answered

/-! #### Runs -/

theorem run_ne_resolving (proper : now.state ≠ .resolving) (moves : List Move) :
    (now.run ref moves).state ≠ .resolving := by
  induction moves generalizing now with
  | nil => exact proper
  | cons m rest ih => exact ih (move_ne_resolving proper m)

theorem run_of_settled {target : Option ClassId} (settled : now.state.settled? = some target)
    (ref : Reference) (moves : List Move) : (now.run ref moves).state = now.state := by
  induction moves generalizing now with
  | nil => rfl
  | cons m rest ih =>
    have stays := move_of_settled settled ref m
    have later : ((now.move ref m).run ref rest).state = (now.move ref m).state :=
      ih (by rw [stays]; exact settled)
    exact later.trans stays

/-- Whatever is asked of a reference and whatever changes around it: no look-up is ever left under
way; a class that was found is the answer from then on, and so is that the name is ignored; until
then each answer is that of a new reference, a failure is not remembered, and what is found is; and
a name comes to be ignored only by a request that finds it lost. -/
theorem run_settles (ref : Reference) (around : Surroundings) (moves : List Move) :
    let now := (start around).run ref moves
    now.state ≠ .resolving ∧
    (∀ c, now.state = .resolved c → ∀ later, (now.run ref later).state = .resolved c ∧
      (now.run ref later).answer ref .target = .ok (.target (some c))) ∧
    (now.state = .ignored → ∀ later, (now.run ref later).state = .ignored ∧
      (now.run ref later).answer ref .target = .ok (.target none)) ∧
    (now.state = .unresolved →
      (∀ request, now.answer ref request = (start now.around).answer ref request ∧
        now.answer ref request = Resolution.answerAnew now.around ref request ∧
        ∀ e, now.answer ref request = .error e →
          (now.move ref (.ask request)).state = .unresolved) ∧
      (∀ c, ref.target now.around = .ok (some c) →
        (now.move ref (.ask .target)).state = .resolved c) ∧
      (ref.Lost now.around → (now.move ref (.ask .target)).state = .ignored)) ∧
    ∀ m, now.state ≠ .ignored → (now.move ref m).state = .ignored → ref.Lost now.around := by
  intro now
  have proper : now.state ≠ .resolving := run_ne_resolving (by simp [start]) moves
  refine ⟨proper, ?_, ?_, ?_, fun m => lost_of_move_ignored⟩
  · intro c resolved later
    have settled : now.state.settled? = some (some c) := by rw [resolved]; rfl
    have stays := run_of_settled settled ref later
    exact ⟨stays.trans resolved, answer_of_settled (by rw [stays]; exact settled)⟩
  · intro ignored later
    have settled : now.state.settled? = some none := by rw [ignored]; rfl
    have stays := run_of_settled settled ref later
    exact ⟨stays.trans ignored, answer_of_settled (by rw [stays]; exact settled)⟩
  · intro unresolved
    have next := (answer_of_unresolved unresolved ref .target).2
    refine ⟨fun request => ⟨?_, (answer_of_unresolved unresolved ref request).1, fun e =>
      unresolved_of_error unresolved⟩, fun c found => ?_, fun lost => ?_⟩
    · rw [answer, unresolved, start, answer]
    · rw [next, found]
      rfl
    · rw [next, Reference.target_eq_none.mpr lost]
      rfl

end Situation
end HintCheck
