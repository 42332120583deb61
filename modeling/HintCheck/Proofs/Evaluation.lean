import HintCheck.Check.Expression

/-!
Evaluating expressions, as far as variables are concerned. Nothing is known of the tests, so each
may turn out either way; operators evaluate their operands from left to right and stop when the
outcome is known. An evaluation is seen as what it does to variables, one thing after the other, and
it is orderly if it reads a variable only after that was assigned.
-/
namespace HintCheck

/-! ### What happens to variables -/

inductive Access where
  | read (name : String)
  | write (name : String)
deriving DecidableEq, Repr

namespace Access

/-- The variables that are assigned. -/
def written : List Access → List String
  | [] => []
  | read _ :: rest => written rest
  | write name :: rest => name :: written rest

/-- Every variable is among the known ones or was assigned when it is read. -/
def Orderly (known : List String) : List Access → Prop
  | [] => True
  | read name :: rest => name ∈ known ∧ Orderly known rest
  | write name :: rest => Orderly (name :: known) rest

variable {known more : List String} {accesses others : List Access}

theorem written_append : written (accesses ++ others) = written accesses ++ written others := by
  induction accesses with
  | nil => rfl
  | cons access rest ih => cases access <;> simp [written, ih]

theorem Orderly.mono (subset : known ⊆ more) (orderly : Orderly known accesses) :
    Orderly more accesses := by
  induction accesses generalizing known more with
  | nil => trivial
  | cons access rest ih =>
    cases access with
    | read name => exact ⟨subset orderly.1, ih subset orderly.2⟩
    | write name => exact ih (List.cons_subset_cons name subset) orderly

theorem orderly_append :
    Orderly known (accesses ++ others) ↔
      Orderly known accesses ∧ Orderly (written accesses ++ known) others := by
  induction accesses generalizing known with
  | nil => simp [Orderly, written]
  | cons access rest ih =>
    cases access with
    | read name => simp [Orderly, written, ih, and_assoc]
    | write name =>
      simp only [List.cons_append, Orderly, written, ih]
      exact and_congr_right fun _ =>
        ⟨.mono List.perm_middle.subset, .mono List.perm_middle.symm.subset⟩

/-- What is read in order is known or was assigned. -/
theorem Orderly.mem_of_read {name : String} (orderly : Orderly known accesses)
    (isRead : .read name ∈ accesses) : name ∈ written accesses ++ known := by
  induction accesses generalizing known with
  | nil => cases isRead
  | cons access rest ih =>
    cases access with
    | read other =>
      rcases List.mem_cons.mp isRead with same | later
      · cases same
        exact List.mem_append_right _ orderly.1
      · exact ih orderly.2 later
    | write other =>
      rcases List.mem_cons.mp isRead with same | later
      · cases same
      · exact List.perm_middle.subset (ih orderly later)

theorem mem_written {name : String} (isWritten : .write name ∈ accesses) :
    name ∈ written accesses := by
  induction accesses with
  | nil => cases isWritten
  | cons access rest ih =>
    cases access with
    | read other =>
      rcases List.mem_cons.mp isWritten with same | later
      · cases same
      · exact ih later
    | write other =>
      rcases List.mem_cons.mp isWritten with same | later
      · cases same
        exact List.mem_cons_self
      · exact List.mem_cons_of_mem _ (ih later)

/-- The variable is read or assigned. -/
def Touches (name : String) (accesses : List Access) : Prop :=
  .read name ∈ accesses ∨ .write name ∈ accesses

theorem Touches.append_left {name : String} (touches : Touches name accesses)
    (others : List Access) : Touches name (accesses ++ others) :=
  touches.imp (List.mem_append_left others) (List.mem_append_left others)

/-- What is touched in order is known afterwards. -/
theorem Orderly.mem_of_touches {name : String} (orderly : Orderly known accesses)
    (touches : Touches name accesses) : name ∈ written accesses ++ known := by
  rcases touches with isRead | isWritten
  · exact orderly.mem_of_read isRead
  · exact List.mem_append_left _ (mem_written isWritten)

theorem orderly_reads {names : List String} :
    Orderly known (names.map read) ↔ ∀ name ∈ names, name ∈ known := by
  induction names with
  | nil => simp [Orderly]
  | cons name rest ih => simp [Orderly, ih]

theorem written_reads (names : List String) : written (names.map read) = [] := by
  induction names with
  | nil => rfl
  | cons name rest ih => exact ih

end Access

open Access (written Orderly)

/-- The variables that a source is read from. -/
def Source.reads : Source → List String
  | sampled whole | first whole | firstValue whole | position whole _ | attr whole _ => [whole]
  | under whole key => [whole, key]

def Operand.accesses : Operand → List Access
  | read name => [.read name]
  | assign name source => source.reads.map .read ++ [.write name]

namespace Expression

/-- The value that a single test is about. -/
def tested? : Expression → Option Operand
  | isInstance x _ | isSubclass x _ | referenceInstance _ x | referenceSubclass _ x
  | validated _ x | isObject x _ | equals x _ | hasKey _ x | hasAttr x _ | hasLength x _
  | truth x => some x
  | const _ | negation _ | conjunction _ | disjunction _ | every _ _ => none

mutual

/-- The ways in which an expression can be evaluated, with the outcome. A loop has variables of its
own and is not looked into. -/
inductive Evaluates : Expression → List Access → Bool → Prop
  | const (b : Bool) : Evaluates (const b) [] b
  | test {e : Expression} {x : Operand} (isTest : e.tested? = some x) (b : Bool) :
    Evaluates e x.accesses b
  | negation {e : Expression} {accesses : List Access} {b : Bool} (inner : Evaluates e accesses b) :
    Evaluates (negation e) accesses !b
  | conjunction {es : List Expression} {accesses : List Access} {b : Bool}
    (operands : Joins false es accesses b) : Evaluates (conjunction es) accesses b
  | disjunction {es : List Expression} {accesses : List Access} {b : Bool}
    (operands : Joins true es accesses b) : Evaluates (disjunction es) accesses b
  | loop (e : Expression) (range : Range) (b : Bool) : Evaluates (every e range) [] b

/-- The ways in which operands can be evaluated one after the other, up to one with the outcome
`stop`. -/
inductive Joins : Bool → List Expression → List Access → Bool → Prop
  | ends (stop : Bool) : Joins stop [] [] !stop
  | stops {stop : Bool} {e : Expression} {es : List Expression} {accesses : List Access}
    (last : Evaluates e accesses stop) : Joins stop (e :: es) accesses stop
  | goesOn {stop : Bool} {e : Expression} {es : List Expression} {accesses more : List Access}
    {b : Bool} (first : Evaluates e accesses !stop) (others : Joins stop es more b) :
    Joins stop (e :: es) (accesses ++ more) b

end

variable {e : Expression} {es : List Expression} {accesses : List Access} {stop b : Bool}

theorem Evaluates.of_test {x : Operand} (evaluates : Evaluates e accesses b)
    (isTest : e.tested? = some x) : accesses = x.accesses := by
  cases evaluates with
  | test isTestToo =>
    rw [isTest] at isTestToo
    cases isTestToo
    rfl
  | _ => cases isTest

theorem joins_single : Joins stop [e] accesses b ↔ Evaluates e accesses b := by
  constructor
  · intro joins
    cases joins with
    | stops last => exact last
    | goesOn first others =>
      cases others
      rwa [List.append_nil]
  · intro evaluates
    by_cases same : b = stop
    · subst same
      exact .stops evaluates
    · obtain rfl : b = !stop := Bool.eq_not.mpr same
      rw [← List.append_nil accesses]
      exact .goesOn evaluates (.ends stop)

theorem evaluates_const {value : Bool} :
    Evaluates (const value) accesses b ↔ accesses = [] ∧ b = value := by
  constructor
  · intro evaluates
    cases evaluates with
    | const => exact ⟨rfl, rfl⟩
    | test isTest => cases isTest
  · rintro ⟨rfl, rfl⟩
    exact .const _

theorem joins_nil : Joins stop [] accesses b ↔ accesses = [] ∧ b = !stop := by
  constructor
  · intro joins
    cases joins
    exact ⟨rfl, rfl⟩
  · rintro ⟨rfl, rfl⟩
    exact .ends stop

theorem evaluates_conjunction :
    Evaluates (conjunction es) accesses b ↔ Joins false es accesses b := by
  constructor
  · intro evaluates
    cases evaluates with
    | conjunction operands => exact operands
    | test isTest => cases isTest
  · exact .conjunction

theorem evaluates_disjunction :
    Evaluates (disjunction es) accesses b ↔ Joins true es accesses b := by
  constructor
  · intro evaluates
    cases evaluates with
    | disjunction operands => exact operands
    | test isTest => cases isTest
  · exact .disjunction

theorem evaluates_negation : Evaluates (negation e) accesses b ↔ Evaluates e accesses !b := by
  constructor
  · intro evaluates
    cases evaluates with
    | negation inner => rwa [Bool.not_not]
    | test isTest => cases isTest
  · intro inner
    rw [← Bool.not_not b]
    exact .negation inner

theorem evaluates_allOf : Evaluates (allOf es) accesses b ↔ Joins false es accesses b := by
  match es with
  | [] => rw [allOf, evaluates_const, joins_nil]; rfl
  | [e] => rw [allOf, joins_single]
  | _ :: _ :: _ => exact evaluates_conjunction

theorem evaluates_anyOf : Evaluates (anyOf es) accesses b ↔ Joins true es accesses b := by
  match es with
  | [] => rw [anyOf, evaluates_const, joins_nil]; rfl
  | [e] => rw [anyOf, joins_single]
  | _ :: _ :: _ => exact evaluates_disjunction

/-- Members that all reject, and do nothing else. -/
theorem Joins.of_silent (joins : Joins true es accesses b)
    (each : ∀ e ∈ es, ∀ accesses b, Evaluates e accesses b → accesses = [] ∧ b = false) :
    accesses = [] ∧ b = false := by
  induction es generalizing accesses b with
  | nil => exact joins_nil.mp joins
  | cons e rest ih =>
    obtain ⟨silent, silentOthers⟩ := List.forall_mem_cons.mp each
    cases joins with
    | stops last => cases (silent _ _ last).2
    | goesOn first others =>
      obtain ⟨rfl, _⟩ := silent _ _ first
      exact ih others silentOthers

end Expression

/-! ### Assignments -/

/-- The variable that an operand assigns, if it does. -/
def Operand.assigned : Operand → List String
  | read _ => []
  | assign name _ => [name]

namespace Expression

mutual

/-- The variables that are assigned in the text of an expression. -/
def assigned : Expression → List String
  | const _ => []
  | isInstance x _ | isSubclass x _ | referenceInstance _ x | referenceSubclass _ x
  | validated _ x | isObject x _ | equals x _ | hasKey _ x | hasAttr x _ | hasLength x _
  | truth x => x.assigned
  | negation e => assigned e
  | conjunction es | disjunction es => assignedAll es
  | every e _ => assigned e
termination_by structural e => e

def assignedAll : List Expression → List String
  | [] => []
  | e :: rest => assigned e ++ assignedAll rest
termination_by structural es => es

end

theorem assigned_of_test {e : Expression} {x : Operand} (isTest : e.tested? = some x) :
    e.assigned = x.assigned := by
  cases e <;> cases isTest <;> rw [assigned]

theorem assigned_allOf (es : List Expression) : (allOf es).assigned = assignedAll es := by
  match es with
  | [] => rfl
  | [e] => simp [allOf, assignedAll]
  | _ :: _ :: _ => simp [allOf, assigned]

theorem assigned_anyOf (es : List Expression) : (anyOf es).assigned = assignedAll es := by
  match es with
  | [] => rfl
  | [e] => simp [anyOf, assignedAll]
  | _ :: _ :: _ => simp [anyOf, assigned]

theorem written_operand (x : Operand) : written x.accesses = x.assigned := by
  cases x with
  | read => rfl
  | assign name source =>
    rw [Operand.accesses, Access.written_append, Access.written_reads]
    rfl

mutual

/-- An evaluation assigns only what is assigned in the text, in the same order. -/
theorem Evaluates.written_sublist {e : Expression} {accesses : List Access} {b : Bool} :
    Evaluates e accesses b → (written accesses).Sublist e.assigned
  | .const b => List.nil_sublist _
  | .test isTest b => ((written_operand _).trans (assigned_of_test isTest).symm) ▸ .refl _
  | .negation inner => by rw [assigned]; exact inner.written_sublist
  | .conjunction operands => by rw [assigned]; exact operands.written_sublist
  | .disjunction operands => by rw [assigned]; exact operands.written_sublist
  | .loop e range b => List.nil_sublist _

theorem Joins.written_sublist {stop : Bool} {es : List Expression} {accesses : List Access}
    {b : Bool} : Joins stop es accesses b → (written accesses).Sublist (assignedAll es)
  | .ends _ => List.nil_sublist _
  | .stops last => by
    rw [assignedAll]
    exact last.written_sublist.trans (List.sublist_append_left _ _)
  | .goesOn first others => by
    rw [assignedAll, Access.written_append]
    exact first.written_sublist.append others.written_sublist

end

/-! ### Some evaluation -/

mutual

/-- Every expression can be evaluated. -/
theorem exists_evaluates : (e : Expression) → ∃ accesses b, Evaluates e accesses b
  | const b => ⟨_, b, .const b⟩
  | isInstance _ _ | isSubclass _ _ | referenceInstance _ _ | referenceSubclass _ _
  | validated _ _ | isObject _ _ | equals _ _ | hasKey _ _ | hasAttr _ _ | hasLength _ _
  | truth _ => ⟨_, true, .test rfl true⟩
  | negation e =>
    let ⟨_, _, inner⟩ := exists_evaluates e
    ⟨_, _, .negation inner⟩
  | conjunction es =>
    let ⟨_, _, operands⟩ := exists_joins false es
    ⟨_, _, .conjunction operands⟩
  | disjunction es =>
    let ⟨_, _, operands⟩ := exists_joins true es
    ⟨_, _, .disjunction operands⟩
  | every e range => ⟨_, true, .loop e range true⟩

theorem exists_joins (stop : Bool) : (es : List Expression) → ∃ accesses b, Joins stop es accesses b
  | [] => ⟨_, _, .ends stop⟩
  | e :: rest => by
    obtain ⟨accesses, b, first⟩ := exists_evaluates e
    by_cases same : b = stop
    · subst same
      exact ⟨_, _, .stops first⟩
    · obtain rfl : b = !stop := Bool.eq_not.mpr same
      obtain ⟨_, _, others⟩ := exists_joins stop rest
      exact ⟨_, _, .goesOn first others⟩

end

/-! ### Safe expressions -/

/-- Every evaluation is orderly. -/
def Safe (known : List String) (e : Expression) : Prop :=
  ∀ accesses b, Evaluates e accesses b → Orderly known accesses

/-- Every evaluation of the operands is orderly. -/
def SafeJoins (stop : Bool) (known : List String) (es : List Expression) : Prop :=
  ∀ accesses b, Joins stop es accesses b → Orderly known accesses

/-- The expression can have the outcome. -/
def Can (e : Expression) (b : Bool) : Prop :=
  ∃ accesses, Evaluates e accesses b

variable {e next : Expression} {es : List Expression} {accesses : List Access} {stop skip b : Bool}
  {known : List String} {x : Operand} {name : String}

theorem safeJoins_cons :
    SafeJoins stop known (e :: es) ↔ Safe known e ∧
      ∀ accesses, Evaluates e accesses (!stop) → SafeJoins stop (written accesses ++ known) es := by
  constructor
  · intro safe
    refine ⟨fun accesses b first => ?_, fun accesses first more b others => ?_⟩
    · by_cases same : b = stop
      · subst same
        exact safe accesses b (.stops first)
      · obtain rfl : b = !stop := Bool.eq_not.mpr same
        obtain ⟨more, b, others⟩ := exists_joins stop es
        exact (Access.orderly_append.mp (safe _ b (.goesOn first others))).1
    · exact (Access.orderly_append.mp (safe _ b (.goesOn first others))).2
  · rintro ⟨safe, safeOthers⟩ accesses b joins
    cases joins with
    | stops last => exact safe accesses _ last
    | goesOn first others =>
      exact Access.orderly_append.mpr ⟨safe _ _ first, safeOthers _ first _ b others⟩

theorem safeJoins_nil : SafeJoins stop known [] :=
  fun accesses b joins => by rw [(joins_nil.mp joins).1]; trivial

theorem safe_const (value : Bool) : Safe known (const value) :=
  fun accesses b evaluates => by rw [(evaluates_const.mp evaluates).1]; trivial

theorem safe_anyOf : Safe known (anyOf es) ↔ SafeJoins true known es := by
  simp only [Safe, SafeJoins, evaluates_anyOf]

theorem safe_allOf : Safe known (allOf es) ↔ SafeJoins false known es := by
  simp only [Safe, SafeJoins, evaluates_allOf]

theorem safe_conjunction : Safe known (conjunction es) ↔ SafeJoins false known es := by
  simp only [Safe, SafeJoins, evaluates_conjunction]

theorem safeJoins_single : SafeJoins stop known [e] ↔ Safe known e := by
  simp only [Safe, SafeJoins, joins_single]

theorem safeJoins_test (isTest : e.tested? = some x) (orderly : Orderly known x.accesses) :
    SafeJoins stop known (e :: es) ↔ SafeJoins stop (written x.accesses ++ known) es := by
  rw [safeJoins_cons]
  constructor
  · exact fun safe => safe.2 _ (.test isTest _)
  · intro safe
    refine ⟨fun accesses b evaluates => ?_, fun accesses evaluates => ?_⟩
    · rwa [evaluates.of_test isTest]
    · rwa [evaluates.of_test isTest]

/-- Evaluation begins with the operand, and then either has the outcome `skip` at once or goes on
with another expression. -/
structure Opens (e : Expression) (x : Operand) (next : Expression) (skip : Bool) : Prop where
  evaluates_iff : ∀ accesses b, Evaluates e accesses b ↔
    accesses = x.accesses ∧ b = skip ∨
      ∃ more, accesses = x.accesses ++ more ∧ Evaluates next more b
  assigned_eq : e.assigned = x.assigned ++ next.assigned

theorem opens_test (isTest : e.tested? = some x) : Opens e x (const true) false := by
  refine ⟨fun accesses b => ⟨fun evaluates => ?_, ?_⟩, ?_⟩
  · cases evaluates.of_test isTest
    cases b with
    | false => exact .inl ⟨rfl, rfl⟩
    | true => exact .inr ⟨[], (List.append_nil _).symm, .const true⟩
  · rintro (⟨rfl, rfl⟩ | ⟨more, rfl, constant⟩)
    · exact .test isTest false
    · obtain ⟨rfl, rfl⟩ := evaluates_const.mp constant
      rw [List.append_nil]
      exact .test isTest true
  · rw [assigned_of_test isTest, assigned, List.append_nil]

theorem opens_conjunction (isTest : e.tested? = some x) :
    Opens (conjunction (e :: es)) x (conjunction es) false := by
  refine ⟨fun accesses b => ?_, ?_⟩
  · rw [evaluates_conjunction]
    constructor
    · intro joins
      cases joins with
      | stops last => exact .inl ⟨last.of_test isTest, rfl⟩
      | goesOn first others =>
        exact .inr ⟨_, by rw [first.of_test isTest], evaluates_conjunction.mpr others⟩
    · rintro (⟨rfl, rfl⟩ | ⟨more, rfl, others⟩)
      · exact .stops (.test isTest false)
      · exact .goesOn (.test isTest true) (evaluates_conjunction.mp others)
  · rw [assigned, assignedAll, assigned_of_test isTest, assigned]

theorem opens_pair (isTest : e.tested? = some x) : Opens (conjunction [e, next]) x next false := by
  have opens : Opens (conjunction [e, next]) x (conjunction [next]) false :=
    opens_conjunction isTest
  refine ⟨fun accesses b => ?_, ?_⟩
  · rw [opens.evaluates_iff]
    simp only [evaluates_conjunction, joins_single]
  · rw [opens.assigned_eq]
    simp only [assigned, assignedAll, List.append_nil]

/-- A test that has to succeed for the rest to matter. -/
theorem opens_guarded (isTest : e.tested? = some x) :
    Opens (disjunction [negation e, next]) x next true := by
  refine ⟨fun accesses b => ?_, ?_⟩
  · rw [evaluates_disjunction]
    constructor
    · intro joins
      cases joins with
      | stops last => exact .inl ⟨(evaluates_negation.mp last).of_test isTest, rfl⟩
      | goesOn first others =>
        refine .inr ⟨_, ?_, joins_single.mp others⟩
        rw [(evaluates_negation.mp first).of_test isTest]
    · rintro (⟨rfl, rfl⟩ | ⟨more, rfl, others⟩)
      · exact .stops (evaluates_negation.mpr (.test isTest _))
      · exact .goesOn (evaluates_negation.mpr (.test isTest _)) (joins_single.mpr others)
  · simp only [assigned, assignedAll, assigned_of_test isTest, List.append_nil]

theorem Opens.safe_iff (opens : Opens e x next skip) (orderly : Orderly known x.accesses) :
    Safe known e ↔ Safe (written x.accesses ++ known) next := by
  constructor
  · intro safe more b evaluates
    have whole := (opens.evaluates_iff _ b).mpr (.inr ⟨more, rfl, evaluates⟩)
    exact (Access.orderly_append.mp (safe _ b whole)).2
  · intro safe accesses b evaluates
    rcases (opens.evaluates_iff accesses b).mp evaluates with ⟨rfl, _⟩ | ⟨more, rfl, others⟩
    · exact orderly
    · exact Access.orderly_append.mpr ⟨orderly, safe more b others⟩

theorem Opens.can_iff (opens : Opens e x next skip) : Can e b ↔ b = skip ∨ Can next b := by
  constructor
  · rintro ⟨accesses, evaluates⟩
    rcases (opens.evaluates_iff accesses b).mp evaluates with ⟨_, same⟩ | ⟨more, _, others⟩
    · exact .inl same
    · exact .inr ⟨more, others⟩
  · rintro (rfl | ⟨more, others⟩)
    · exact ⟨_, (opens.evaluates_iff _ b).mpr (.inl ⟨rfl, rfl⟩)⟩
    · exact ⟨_, (opens.evaluates_iff _ b).mpr (.inr ⟨more, rfl, others⟩)⟩

theorem Opens.begins (opens : Opens e x next skip) (evaluates : Evaluates e accesses b) :
    ∃ more, accesses = x.accesses ++ more := by
  rcases (opens.evaluates_iff accesses b).mp evaluates with ⟨same, _⟩ | ⟨more, same, _⟩
  · exact ⟨[], by rw [same, List.append_nil]⟩
  · exact ⟨more, same⟩

/-- Whether operands can have an outcome is known from what each of them can have. -/
theorem joins_goes_on : (∃ accesses, Joins stop es accesses !stop) ↔ ∀ e ∈ es, Can e !stop := by
  induction es with
  | nil => simpa using ⟨[], .ends stop⟩
  | cons e rest ih =>
    rw [List.forall_mem_cons, ← ih]
    constructor
    · rintro ⟨accesses, joins⟩
      generalize outcome : (!stop) = b at joins
      cases joins with
      | stops last => simp at outcome
      | goesOn first others =>
        subst outcome
        exact ⟨⟨_, first⟩, _, others⟩
    · rintro ⟨⟨_, first⟩, _, others⟩
      exact ⟨_, .goesOn first others⟩

theorem joins_stops (each : ∀ e ∈ es, Can e !stop) :
    (∃ accesses, Joins stop es accesses stop) ↔ ∃ e ∈ es, Can e stop := by
  induction es with
  | nil => simp [joins_nil]
  | cons e rest ih =>
    obtain ⟨⟨_, first⟩, eachOther⟩ := List.forall_mem_cons.mp each
    simp only [List.mem_cons, exists_eq_or_imp, ← ih eachOther]
    constructor
    · rintro ⟨accesses, joins⟩
      cases joins with
      | stops last => exact .inl ⟨_, last⟩
      | goesOn _ others => exact .inr ⟨_, others⟩
    · rintro (⟨_, last⟩ | ⟨_, others⟩)
      · exact ⟨_, .stops last⟩
      · exact ⟨_, .goesOn first others⟩

theorem can_anyOf_false : Can (anyOf es) false ↔ ∀ e ∈ es, Can e false := by
  simp only [Can, evaluates_anyOf]
  exact @joins_goes_on es true

theorem can_anyOf_true (each : ∀ e ∈ es, Can e false) :
    Can (anyOf es) true ↔ ∃ e ∈ es, Can e true := by
  simp only [Can, evaluates_anyOf]
  exact joins_stops each

theorem can_allOf_true : Can (allOf es) true ↔ ∀ e ∈ es, Can e true := by
  simp only [Can, evaluates_allOf]
  exact @joins_goes_on es false

theorem can_conjunction_true : Can (conjunction es) true ↔ ∀ e ∈ es, Can e true := by
  rw [← can_allOf_true]
  simp only [Can, evaluates_allOf, evaluates_conjunction]

/-! ### Expressions that only read one variable -/

/-- No other variable is read, and none is assigned. -/
def ReadsOnly (name : String) (e : Expression) : Prop :=
  ∀ accesses b, Evaluates e accesses b → ∀ access ∈ accesses, access = .read name

theorem readsOnly_test (isTest : e.tested? = some (.read name)) : ReadsOnly name e := by
  intro accesses b evaluates access member
  rw [evaluates.of_test isTest] at member
  exact List.mem_singleton.mp member

theorem readsOnly_const (value : Bool) : ReadsOnly name (const value) := by
  intro accesses _ evaluates access member
  rw [(evaluates_const.mp evaluates).1] at member
  cases member

theorem readsOnly_negation (reads : ReadsOnly name e) : ReadsOnly name (negation e) :=
  fun accesses _ evaluates => reads accesses _ (evaluates_negation.mp evaluates)

theorem readsOnly_conjunction (each : ∀ e ∈ es, ReadsOnly name e) :
    ReadsOnly name (conjunction es) := by
  have joined (accesses : List Access) (b : Bool) (joins : Joins false es accesses b) :
      ∀ access ∈ accesses, access = .read name := by
    induction es generalizing accesses b with
    | nil => rw [(joins_nil.mp joins).1]; exact nofun
    | cons e rest ih =>
      obtain ⟨reads, readOthers⟩ := List.forall_mem_cons.mp each
      cases joins with
      | stops last => exact reads _ _ last
      | goesOn first others =>
        exact List.forall_mem_append.mpr ⟨reads _ _ first, ih readOthers _ _ others⟩
  exact fun accesses b evaluates => joined accesses b (evaluates_conjunction.mp evaluates)

theorem ReadsOnly.safe (reads : ReadsOnly name e) (isKnown : name ∈ known) : Safe known e := by
  intro accesses b evaluates
  have each := reads accesses b evaluates
  clear evaluates
  induction accesses with
  | nil => trivial
  | cons access rest ih =>
    obtain ⟨rfl, others⟩ := List.forall_mem_cons.mp each
    exact ⟨isKnown, ih others⟩

end Expression
end HintCheck
