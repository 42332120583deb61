import HintCheck.Proofs.Recollection
import HintCheck.Proofs.Weakening

/-!
Blame is genuine. A diagnosis goes down from a check to one of its children, and from a value to one
inside it, and only from a rejected pair to a rejected pair. Each way down adds its segment to the
path, so a failure names a value inside the first one that a check inside the first one rejects, and
its path says how to get there.
-/
namespace HintCheck

namespace Check

theorem mem_indexed {α : Type} {items : List α} {start : Nat} {entry : Nat × α}
    (member : entry ∈ indexed start items) :
    ∃ index, entry.1 = start + index ∧ items[index]? = some entry.2 := by
  induction items generalizing start with
  | nil => cases member
  | cons a rest ih =>
    rcases List.mem_cons.mp member with rfl | later
    · exact ⟨0, rfl, rfl⟩
    · obtain ⟨index, position, there⟩ := ih later
      exact ⟨index + 1, by omega, there⟩

theorem getElem?_of_mem_indexed {α : Type} {items : List α} {entry : Nat × α}
    (member : entry ∈ indexed 0 items) : items[entry.1]? = some entry.2 := by
  obtain ⟨index, position, there⟩ := mem_indexed member
  rwa [position, Nat.zero_add]

/-- A sample visits the position that the random number selects. -/
theorem visited_of_sample? {v x : Value} {random : UInt32} (found : v.sample? random = some x) :
    ∃ len, v.len? = some len ∧ v.at? (sampleIndex random len) = some x ∧
      visited random false v = [(sampleIndex random len, x)] := by
  obtain ⟨len, isLength, there⟩ := Value.at?_of_sample? found
  obtain ⟨isCount, isItem⟩ := Value.items_of_at? there
  have same : len = v.items.length := Option.some.inj (isLength.symm.trans isCount)
  refine ⟨len, isLength, there, ?_⟩
  simp only [visited, Bool.false_eq_true, if_false, ← same, isItem, Option.map_some,
    Option.toList_some]

/-! ### Ways down -/

variable {m : Type → Type}

/-- A diagnosis of a check goes on to a child, on the value itself or on a value inside it. The text
is the segment that leads there. Of a sequence it looks at the items that the check tests. Of a set
or a mapping it looks at all entries: a check that samples tests the first one only, but once it has
rejected the value the diagnosis takes any entry that fails. -/
inductive Descends (o : Oracle m) : Check → Value → String → Check → Value → Prop
  | member {s : Subject} {members : List Check} {v : Value} {c : Check} (among : c ∈ members) :
      Descends o (any s members) v "" c v
  | part {s : Subject} {parts : List Check} {v : Value} {c : Check} (among : c ∈ parts) :
      Descends o (all s parts) v "" c v
  | item {s : Subject} {origin : List ClassOperand} {item : Check} {v x : Value} {index : Nat}
      (there : v.items[index]? = some x) :
      Descends o (sequence s origin item true) v ("[" ++ toString index ++ "]") item x
  /-- Without testing all items, a sequence tests the one that the random number selects. -/
  | sampled {s : Subject} {origin : List ClassOperand} {item : Check} {v x : Value} {len : Nat}
      (isLength : v.len? = some len) (there : v.at? (sampleIndex o.random len) = some x) :
      Descends o (sequence s origin item false) v
        ("[" ++ toString (sampleIndex o.random len) ++ "]") item x
  | element {s : Subject} {origin : List ClassOperand} {item : Check} {exhaustive : Bool}
      {v x : Value} {index : Nat} (there : v.items[index]? = some x) :
      Descends o (reiterable s origin item exhaustive) v (" item " ++ toString index) item x
  | key {s : Subject} {origin : List ClassOperand} {key : Check} {value : Option Check}
      {exhaustive : Bool} {v : Value} {pairs : List (Value × Value)} {k x : Value}
      (isDict : v.pairs? = some pairs) (among : (k, x) ∈ pairs) :
      Descends o (mapping s origin (some key) value exhaustive) v " key" key k
  | value {s : Subject} {origin : List ClassOperand} {key : Option Check} {value : Check}
      {exhaustive : Bool} {v : Value} {pairs : List (Value × Value)} {k x : Value}
      (isDict : v.pairs? = some pairs) (among : (k, x) ∈ pairs) :
      Descends o (mapping s origin key (some value) exhaustive) v
        ("[" ++ k.text o.catalog ++ "]") value x
  | position {s : Subject} {origin : List ClassOperand} {len : Nat} {items : List (Nat × Check)}
      {v x : Value} {index : Nat} {c : Check} (among : (index, c) ∈ items)
      (there : v.at? index = some x) :
      Descends o (tupleFixed s origin len items) v ("[" ++ toString index ++ "]") c x
  | validated {s : Subject} {child : Check} {vs : List ValidatorOperand} {v : Value} :
      Descends o (validators s child vs) v "" child v
  | attribute {s : Subject} {name : String} {child : Check} {v a : Value}
      (there : o.catalog.attr? v name = some a) :
      Descends o (attr s name child) v ("." ++ name) child a

theorem Descends.child {o : Oracle m} {c d : Check} {v w : Value} {segment : String}
    (descends : Descends o c v segment d w) : d ∈ c.children := by
  cases descends with
  | member among | part among => exact among
  | position among => exact List.mem_map_of_mem (f := Prod.snd) among
  | key | value => simp [children]
  | _ => exact List.mem_singleton_self _

/-! ### One step of a diagnosis -/

section Steps
variable {ε : Type} {f : Failure}

theorem guarded_of_rejected {verdict : Except ε Bool} {next : Except ε (Option Failure)}
    (rejected : verdict = .ok false) : (do if ← verdict then pure none else next) = next := by
  rw [rejected]
  rfl

theorem guarded_eq_some {verdict : Except ε Bool} {next : Except ε (Option Failure)} :
    (do if ← verdict then pure none else next) = .ok (some f) ↔
      verdict = .ok false ∧ next = .ok (some f) := by
  rcases verdict with e | _ | _ <;> simp [bind, Except.bind, pure, Except.pure]

theorem orElse_eq_some {x next : Except ε (Option Failure)} :
    (do match ← x with | some failure => pure (some failure) | none => next) = .ok (some f) ↔
      x = .ok (some f) ∨ x = .ok none ∧ next = .ok (some f) := by
  rcases x with e | _ | g <;> simp [bind, Except.bind, pure, Except.pure]

theorem firstFailure_eq_some {α : Type} {find : α → Except ε (Option Failure)} {items : List α}
    (found : firstFailure find items = .ok (some f)) : ∃ a ∈ items, find a = .ok (some f) := by
  induction items with
  | nil => cases found
  | cons a rest ih =>
    rcases orElse_eq_some.mp found with here | ⟨_, later⟩
    · exact ⟨a, by simp, here⟩
    · obtain ⟨b, among, found⟩ := ih later
      exact ⟨b, List.mem_cons_of_mem _ among, found⟩

end Steps

section Blame
variable {o : Oracle (Except ReferenceError)} {v : Value} {path : String} {f : Failure}

theorem blameMembers_eq_some {members : List Check}
    (found : blameMembers o members v path = .ok (some f)) :
    ∃ c ∈ members, blame o c v path = .ok (some f) := by
  induction members with
  | nil => cases found
  | cons c rest ih =>
    have later (found : blameMembers o rest v path = .ok (some f)) :
        ∃ d ∈ c :: rest, blame o d v path = .ok (some f) := by
      obtain ⟨d, among, found⟩ := ih found
      exact ⟨d, List.mem_cons_of_mem _ among, found⟩
    rw [blameMembers] at found
    rcases passes : passesOutermost o c v with e | _ | _ <;> rw [passes] at found
    · cases found
    · exact later found
    · rcases orElse_eq_some.mp found with here | ⟨_, found⟩
      · exact ⟨c, by simp, here⟩
      · exact later found

theorem blameParts_eq (o : Oracle (Except ReferenceError)) (parts : List Check) (v : Value)
    (path : String) :
    blameParts o parts v path = firstFailure (fun c => blame o c v path) parts := by
  induction parts with
  | nil => rfl
  | cons c rest ih => rw [blameParts, firstFailure, ih]

/-- The failure of one position. -/
def blamePosition (o : Oracle (Except ReferenceError)) (v : Value) (path : String)
    (entry : Nat × Check) : Except ReferenceError (Option Failure) :=
  match v.at? entry.1 with
  | none => .ok none
  | some x => blame o entry.2 x (path ++ "[" ++ toString entry.1 ++ "]")

theorem blameItems_eq (o : Oracle (Except ReferenceError)) (items : List (Nat × Check)) (v : Value)
    (path : String) : blameItems o items v path = firstFailure (blamePosition o v path) items := by
  induction items with
  | nil => rfl
  | cons entry rest ih =>
    obtain ⟨index, c⟩ := entry
    rw [blameItems, firstFailure, ih, blamePosition]
    dsimp only
    cases v.at? index <;> rfl

theorem blameOption_eq_some {c : Option Check}
    (found : blameOption o c v path = .ok (some f)) :
    ∃ d, c = some d ∧ blame o d v path = .ok (some f) := by
  cases c with
  | none => cases found
  | some d => exact ⟨d, rfl, found⟩

theorem append_bracketed (path text : String) :
    path ++ "[" ++ text ++ "]" = path ++ ("[" ++ text ++ "]") := by
  simp only [String.append_assoc]

/-- Only what is rejected is blamed. -/
theorem rejected_of_blame {c : Check} (found : blame o c v path = .ok (some f)) :
    c.accepts o v = .ok false := by
  cases c with
  | pass => cases found
  | fail => rfl
  | _ =>
    rw [blame, guarded_eq_some] at found
    exact found.1

/-- What is visited in a sequence that was rejected for an item is what the check has tested. -/
theorem descends_of_visited {s : Subject} {origin : List ClassOperand} {item : Check}
    {exhaustive : Bool} (isInstance : o.catalog.isInstanceOf v origin = true)
    (rejected : (sequence s origin item exhaustive).accepts o v = .ok false)
    {entry : Nat × Value} (among : entry ∈ visited o.random exhaustive v) :
    Descends o (sequence s origin item exhaustive) v ("[" ++ toString entry.1 ++ "]") item
      entry.2 := by
  cases exhaustive with
  | true => exact .item (getElem?_of_mem_indexed among)
  | false =>
    -- A sample was rejected, so there is one, and it is the item that is visited.
    rw [accepts, if_neg (by simp [isInstance]), if_neg (by simp)] at rejected
    cases sampled : v.sample? o.random with
    | none => rw [sampled] at rejected; cases rejected
    | some x =>
      obtain ⟨len, isLength, there, isVisited⟩ := visited_of_sample? sampled
      rw [isVisited, List.mem_singleton] at among
      subst among
      exact .sampled isLength there

/-- A failure is blamed on the value itself or found further down, and the value is rejected. -/
theorem blame_cases {c : Check} (found : blame o c v path = .ok (some f)) :
    c.accepts o v = .ok false ∧
      ((∃ reason, f = .of o.catalog path v reason) ∨
        ∃ segment d w, Descends o c v segment d w ∧
          blame o d w (path ++ segment) = .ok (some f)) := by
  have rejected := rejected_of_blame found
  refine ⟨rejected, ?_⟩
  have itself {reason : String}
      (found : (.ok (some (.of o.catalog path v reason)) : Except ReferenceError _) =
        .ok (some f)) : ∃ reason, f = .of o.catalog path v reason :=
    ⟨reason, (Option.some.inj (Except.ok.inj found)).symm⟩
  have same (d : Check) (found : blame o d v path = .ok (some f)) :
      blame o d v (path ++ "") = .ok (some f) := by
    rwa [String.append_empty]
  cases c with
  | pass => cases found
  | fail => exact .inl (itself found)
  | isInstance | isSubclass | forwardInstance | forwardSubclass | literal =>
    rw [blame, guarded_of_rejected rejected] at found
    exact .inl (itself found)
  | any s members =>
    rw [blame, guarded_of_rejected rejected] at found
    rcases orElse_eq_some.mp found with found | ⟨_, found⟩
    · obtain ⟨c, among, found⟩ := blameMembers_eq_some found
      exact .inr ⟨"", c, v, .member among, same c found⟩
    · exact .inl (itself found)
  | all s parts =>
    rw [blame, guarded_of_rejected rejected] at found
    rcases orElse_eq_some.mp found with found | ⟨_, found⟩
    · rw [blameParts_eq] at found
      obtain ⟨c, among, found⟩ := firstFailure_eq_some found
      exact .inr ⟨"", c, v, .part among, same c found⟩
    · exact .inl (itself found)
  | sequence s origin item exhaustive =>
    rw [blame, guarded_of_rejected rejected] at found
    split at found
    · exact .inl (itself found)
    · next isInstance =>
      obtain ⟨entry, among, found⟩ := firstFailure_eq_some found
      rw [append_bracketed] at found
      exact .inr ⟨_, item, entry.2, descends_of_visited (by simpa using isInstance) rejected among,
        found⟩
  | reiterable s origin item exhaustive =>
    rw [blame, guarded_of_rejected rejected] at found
    split at found
    · exact .inl (itself found)
    · obtain ⟨entry, among, found⟩ := firstFailure_eq_some found
      rw [String.append_assoc] at found
      exact .inr ⟨_, item, entry.2, .element (getElem?_of_mem_indexed among), found⟩
  | mapping s origin key value exhaustive =>
    rw [blame, guarded_of_rejected rejected] at found
    split at found
    · exact .inl (itself found)
    · obtain ⟨⟨k, x⟩, among, found⟩ := firstFailure_eq_some found
      cases isDict : v.pairs? with
      | none => rw [isDict] at among; cases among
      | some pairs =>
        rw [isDict] at among
        rcases orElse_eq_some.mp found with found | ⟨_, found⟩
        · obtain ⟨d, rfl, found⟩ := blameOption_eq_some found
          exact .inr ⟨_, d, k, .key isDict among, found⟩
        · obtain ⟨d, rfl, found⟩ := blameOption_eq_some found
          rw [append_bracketed] at found
          exact .inr ⟨_, d, x, .value isDict among, found⟩
  | tupleFixed s origin len items =>
    rw [blame, guarded_of_rejected rejected] at found
    split at found
    · exact .inl (itself found)
    dsimp only at found
    split at found
    · exact .inl (itself found)
    · rw [blameItems_eq] at found
      obtain ⟨⟨index, d⟩, among, found⟩ := firstFailure_eq_some found
      rw [blamePosition] at found
      cases there : v.at? index with
      | none => rw [there] at found; cases found
      | some x =>
        rw [there] at found
        dsimp only at found
        rw [append_bracketed] at found
        exact .inr ⟨_, d, x, .position among there, found⟩
  | validators s child vs =>
    rw [blame, guarded_of_rejected rejected] at found
    rcases orElse_eq_some.mp found with found | ⟨_, found⟩
    · exact .inr ⟨"", child, v, .validated, same child found⟩
    · obtain ⟨x, _, isFailure⟩ := Option.map_eq_some_iff.mp (Except.ok.inj found)
      exact .inl ⟨_, isFailure.symm⟩
  | attr s name child =>
    rw [blame, guarded_of_rejected rejected] at found
    cases there : o.catalog.attr? v name with
    | none => rw [there] at found; cases found
    | some a =>
      rw [there] at found
      dsimp only at found
      rw [String.append_assoc] at found
      exact .inr ⟨_, child, a, .attribute there, found⟩
  | typedDict s origin required =>
    rw [blame, guarded_of_rejected rejected] at found
    split at found
    · exact .inl (itself found)
    · obtain ⟨key, _, isFailure⟩ := Option.map_eq_some_iff.mp (Except.ok.inj found)
      exact .inl ⟨_, isFailure.symm⟩

end Blame

/-! ### Ways through rejected values -/

/-- A way down from a rejected value to a rejected value, through rejected values only. -/
inductive Leads (o : Oracle (Except ReferenceError)) :
    Check → Value → List String → Check → Value → Prop
  | here {c : Check} {v : Value} (rejected : c.accepts o v = .ok false) : Leads o c v [] c v
  | down {c d e : Check} {v w x : Value} {segment : String} {segments : List String}
      (rejected : c.accepts o v = .ok false) (descends : Descends o c v segment d w)
      (leads : Leads o d w segments e x) : Leads o c v (segment :: segments) e x

section Leads
variable {o : Oracle (Except ReferenceError)} {c d : Check} {v w : Value} {segments : List String}

theorem Leads.rejected (leads : Leads o c v segments d w) : d.accepts o w = .ok false := by
  induction leads with
  | here rejected => exact rejected
  | down _ _ _ ih => exact ih

theorem Leads.references (leads : Leads o c v segments d w) : d.references ⊆ c.references := by
  induction leads with
  | here => exact List.Subset.refl _
  | down _ descends _ ih => exact List.Subset.trans ih (references_child descends.child)

/-- A failure is that of a value to which rejections lead, and its path is the way there. -/
theorem leads_of_blame {path : String} {f : Failure} (found : blame o c v path = .ok (some f)) :
    ∃ segments d w reason, Leads o c v segments d w ∧
      f = .of o.catalog (path ++ String.join segments) w reason := by
  induction c using induction_children generalizing v path with
  | step c ih =>
    obtain ⟨rejected, ⟨reason, rfl⟩ | ⟨segment, d, w, descends, found⟩⟩ := blame_cases found
    · exact ⟨[], c, v, reason, .here rejected, by simp⟩
    · obtain ⟨segments, e, x, reason, leads, rfl⟩ := ih d descends.child found
      refine ⟨segment :: segments, e, x, reason, .down rejected descends leads, ?_⟩
      rw [String.join_cons, String.append_assoc]

end Leads
end Check

/-! ### Checks of hints -/

namespace Session

variable {s : Session} {ctx : Context} {h : Hint} {scope : Scope} {names : Naming}

/-- The failure that a diagnosis gives is that of a value inside the first one that a check inside
the first one rejects, and its path is the way from the one to the other. -/
theorem buildCheck_blames (wellKept : scope.WellKept) (named : h.WellNamed names)
    (grown : s.cache.Grown names s.catalog s.substitutes) {pith : String} {check : Check}
    {after : Scope}
    (built : ((buildCheck ctx pith h scope).run.run s).1 = .ok (check, after))
    (around : Surroundings) (owner : Nat) (calls : CallState) (random : UInt32) (v : Value)
    {f : Failure}
    (found : ((check.diagnose (Running.oracle around owner random) v).run.run calls).1 =
      .ok (some f)) :
    ∃ segments c w, check.Leads (.recalling around owner calls random) v segments c w ∧
      ((c.accepts (Running.oracle around owner random) w).run.run calls).1 = .ok false ∧
      f.path = String.join segments ∧ f.typeName = w.typeName around.catalog ∧
      f.shown = abridged (w.text around.catalog) := by
  have closed := buildCheck_closed (hereditary_true _ _) ctx.keeps_true trivial wellKept named grown
    built
  rw [Check.diagnose_recalling closed (.refl calls)] at found
  obtain ⟨segments, c, w, reason, leads, rfl⟩ := Check.leads_of_blame found
  have inside : c.ClosedIn (fun _ => True) after :=
    fun op member => closed op (leads.references member)
  refine ⟨segments, c, w, leads, ?_, ?_, rfl, rfl⟩
  · rw [(Check.accepts_recalling inside (.refl calls) random w).1]
    exact leads.rejected
  · exact String.empty_append

/-- In a dictionary of lists of pairs, a sample of the list finds a pair whose second item is no
text. The union fails for the sake of that pair, since it is a pair. -/
theorem buildCheck_blames_nested :
    let ctx := Context.bare .standard
    let pair := Hint.generic none Builtin.tuple [Builtin.int, Builtin.str]
    let h := Hint.generic none Builtin.dict
      [Builtin.str, .generic none Builtin.list [.union none [pair, Builtin.bool]]]
    let v := Value.dict [(.str "a", .list [.bool true, .tuple [.int 2, .int 3]])]
    ∃ check after, ((buildCheck ctx "obj" h .empty).run.run start).1 = .ok (check, after) ∧
      ∃ segments c w,
        check.Leads (.recalling start.around 0 start.calls 3) v segments c w ∧
        ((c.accepts (Running.oracle start.around 0 3) w).run.run start.calls).1 = .ok false ∧
        "['a'][1][1]" = String.join segments ∧ "int" = w.typeName start.catalog ∧
        "3" = abridged (w.text start.catalog) := by
  intro ctx pair h v
  let f : Failure := ⟨"['a'][1][1]", "int", "3", "not instance of str"⟩
  let names : Naming := ⟨fun _ => Builtin.object, fun _ => .instanceOf []⟩
  have namedPair : pair.WellNamed names :=
    .ofArgs (by simpa using ⟨.ofClass _, .ofClass _⟩)
  have namedUnion : (Hint.union none [pair, Builtin.bool]).WellNamed names :=
    .ofParts rfl (fun _ _ same => by cases same)
      (by simpa [Hint.parts] using ⟨namedPair, .ofClass _⟩)
  have named : h.WellNamed names :=
    .ofArgs (by simpa using ⟨.ofClass _, .ofArgs (by simpa using namedUnion)⟩)
  have diagnosed : (((buildCheck ctx "obj" h .empty).run.run start).1.toOption.any fun made =>
      ((made.1.diagnose (Running.oracle start.around 0 3) v).run.run start.calls).1.toOption.any
        fun found => decide (found = some f)) = true := by decide +kernel
  obtain ⟨⟨check, after⟩, built, diagnosed⟩ := ok_of_any diagnosed
  obtain ⟨found, isFound, isFailure⟩ := ok_of_any diagnosed
  rw [of_decide_eq_true isFailure] at isFound
  exact ⟨check, after, built, buildCheck_blames Scope.wellKept_empty named .empty built
    start.around 0 start.calls 3 v isFound⟩

end Session
end HintCheck
