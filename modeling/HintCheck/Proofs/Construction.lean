import HintCheck.Proofs.Keeping

/-!
How checks are put together. What tests the same value has the same variable, and a part of the
value has a variable of its own. These variables are among the ones that the scope handed out
meanwhile, in the same order. Whatever is known of the operands that the builder asks for is known
of the operands of every node: `Supplies` says what is known, and the walk over the builder is made
once, for all that may be known.
-/
namespace HintCheck

/-! ### Nodes -/

/-- What is known of the operands that checks have in a scope, and of the validators and the names
that hints bring into them. -/
structure Payload where
  cls : Scope → ClassOperand → Prop
  reference : Scope → ReferenceOperand → Prop
  validator : Scope → ValidatorOperand → Prop
  literal : Scope → LiteralOperand → Prop
  /-- How many validators a hint has. -/
  validators : Nat → Prop
  /-- Names of attributes, and keys of typed dictionaries. -/
  name : String → Prop

namespace Check

/-- The checks inside a check. -/
def children : Check → List Check
  | pass _ | fail _ | isInstance _ _ | isSubclass _ _ | forwardInstance _ _ | forwardSubclass _ _
  | literal _ _ | typedDict _ _ _ => []
  | any _ nodes | all _ nodes => nodes
  | sequence _ _ item _ | reiterable _ _ item _ => [item]
  | mapping _ _ key value _ => key.toList ++ value.toList
  | tupleFixed _ _ _ items => items.map Prod.snd
  | validators _ child _ | attr _ _ child => [child]

theorem sizeOf_child {c d : Check} (child : d ∈ c.children) : sizeOf d < sizeOf c := by
  cases c <;> simp only [children, List.not_mem_nil, List.mem_singleton, List.mem_append,
    Option.mem_toList, List.mem_map] at child
  case any nodes | all nodes =>
    have := List.sizeOf_lt_of_mem child
    simp only [any.sizeOf_spec, all.sizeOf_spec]
    omega
  case sequence | reiterable | validators | attr =>
    subst child
    simp only [sequence.sizeOf_spec, reiterable.sizeOf_spec, validators.sizeOf_spec,
      attr.sizeOf_spec]
    omega
  case mapping =>
    rcases child with rfl | rfl <;> simp only [mapping.sizeOf_spec, Option.some.sizeOf_spec] <;>
      omega
  case tupleFixed items =>
    obtain ⟨⟨index, d⟩, member, rfl⟩ := child
    have := List.sizeOf_lt_of_mem member
    simp only [tupleFixed.sizeOf_spec, Prod.mk.sizeOf_spec] at this ⊢
    omega

/-- What holds of a check if it holds of the checks inside it holds of every check. -/
theorem induction_children {P : Check → Prop} (step : ∀ c, (∀ d ∈ c.children, P d) → P c)
    (c : Check) : P c :=
  step c fun d child =>
    have := sizeOf_child child
    induction_children step d
termination_by sizeOf c

/-- How one node is put together. -/
def Proper (p : Payload) (exhaustive : Bool) (scope : Scope) : Check → Prop
  | pass _ | fail _ => True
  | isInstance _ classes | isSubclass _ classes => ∀ op ∈ classes, p.cls scope op
  | forwardInstance _ ref | forwardSubclass _ ref => p.reference scope ref
  | any s members => ∀ m ∈ members, m.subject.pith = s.pith ∧ m.isPass = false
  | all s parts =>
    (∀ m ∈ parts, m.subject.pith = s.pith ∧ m.isPass = false) ∧
      ∃ t classes others, parts = isInstance t classes :: others
  | sequence _ origin item every | reiterable _ origin item every =>
    (∀ op ∈ origin, p.cls scope op) ∧ item.isPass = false ∧ every = exhaustive
  | mapping _ origin key value every =>
    (∀ op ∈ origin, p.cls scope op) ∧ (∀ d ∈ key.toList ++ value.toList, d.isPass = false) ∧
      every = exhaustive
  | tupleFixed _ origin _ items =>
    (∀ op ∈ origin, p.cls scope op) ∧ ∀ entry ∈ items, entry.2.isPass = false
  | literal _ values => ∀ op ∈ values, p.literal scope op
  | validators s child vs =>
    child.subject.pith = s.pith ∧ (∀ op ∈ vs, p.validator scope op) ∧ p.validators vs.length
  | attr _ name child => child.isPass = false ∧ p.name name
  | typedDict _ origin required => (∀ op ∈ origin, p.cls scope op) ∧ ∀ key ∈ required, p.name key

/-- Every node is put together properly. -/
inductive Formed (p : Payload) (exhaustive : Bool) (scope : Scope) : Check → Prop
  | mk {c : Check} (own : c.Proper p exhaustive scope)
      (inside : ∀ d ∈ c.children, d.Formed p exhaustive scope) : c.Formed p exhaustive scope

mutual

/-- The variables of the parts of the value that a check looks at. -/
def piths : Check → List String
  | pass _ | fail _ | isInstance _ _ | isSubclass _ _ | forwardInstance _ _ | forwardSubclass _ _
  | literal _ _ | typedDict _ _ _ => []
  | any _ nodes | all _ nodes => pithsAll nodes
  | sequence _ _ item _ | reiterable _ _ item _ => item.subject.pith :: piths item
  | mapping _ _ key value _ => pithsOption key ++ pithsOption value
  | tupleFixed _ _ _ items => pithsItems items
  | validators _ child _ => piths child
  | attr _ _ child => child.subject.pith :: piths child
termination_by structural c => c

def pithsAll : List Check → List String
  | [] => []
  | c :: rest => piths c ++ pithsAll rest
termination_by structural cs => cs

def pithsOption : Option Check → List String
  | none => []
  | some c => c.subject.pith :: piths c
termination_by structural c => c

def pithsItems : List (Nat × Check) → List String
  | [] => []
  | (_, c) :: rest => c.subject.pith :: piths c ++ pithsItems rest
termination_by structural items => items

end

theorem pithsAll_append (cs ds : List Check) :
    pithsAll (cs ++ ds) = pithsAll cs ++ pithsAll ds := by
  induction cs with
  | nil => rw [pithsAll]; rfl
  | cons c rest ih => rw [List.cons_append, pithsAll, pithsAll, ih, List.append_assoc]

theorem pithsAll_eq_nil {cs : List Check} (each : ∀ c ∈ cs, c.piths = []) : pithsAll cs = [] := by
  induction cs with
  | nil => rw [pithsAll]
  | cons c rest ih =>
    rw [pithsAll, each c (by simp), ih fun d member => each d (by simp [member])]
    rfl

theorem subject_about (s : Subject) (c : Check) : (c.about s).subject = s := by
  cases c <;> rfl

theorem children_about (s : Subject) (c : Check) : (c.about s).children = c.children := by
  cases c <;> rfl

theorem piths_about (s : Subject) (c : Check) : (c.about s).piths = c.piths := by
  cases c <;> simp [about, piths]

variable {p : Payload} {exhaustive : Bool} {scope : Scope}

theorem proper_about {s : Subject} {c : Check} (same : c.subject.pith = s.pith)
    (proper : c.Proper p exhaustive scope) : (c.about s).Proper p exhaustive scope := by
  cases c with
  | any | all | validators =>
    simp only [about, Proper, subject] at same proper ⊢
    rwa [← same]
  | _ => exact proper

theorem piths_of_isPass {c : Check} (pass : c.isPass = true) : c.piths = [] := by
  cases c <;> first | rfl | cases pass

/-- A check on the variable `pith`, for which the scope handed out the variables `names`. -/
structure StandsOn (p : Payload) (exhaustive : Bool) (pith : String) (names : List String)
    (scope : Scope) (c : Check) : Prop where
  pith : c.subject.pith = pith
  formed : c.Formed p exhaustive scope
  within : c.piths.Sublist names

/-- A check on a variable of its own, which was handed out as well. -/
structure Apart (p : Payload) (exhaustive : Bool) (names : List String) (scope : Scope)
    (c : Check) : Prop where
  formed : c.Formed p exhaustive scope
  within : (c.subject.pith :: c.piths).Sublist names

theorem StandsOn.mono {pith : String} {names more : List String} {c : Check}
    (stands : c.StandsOn p exhaustive pith names scope) (wider : names.Sublist more) :
    c.StandsOn p exhaustive pith more scope :=
  ⟨stands.pith, stands.formed, stands.within.trans wider⟩

/-- Checks of one value, none of which lets every value pass. -/
structure Alongside (p : Payload) (exhaustive : Bool) (pith : String) (names : List String)
    (scope : Scope) (cs : List Check) : Prop where
  each : ∀ c ∈ cs, (c.subject.pith = pith ∧ c.isPass = false) ∧ c.Formed p exhaustive scope
  within : (pithsAll cs).Sublist names

theorem Formed.leaf {c : Check} (own : c.Proper p exhaustive scope) (none : c.children = []) :
    c.Formed p exhaustive scope :=
  .mk own fun d child => by rw [none] at child; cases child

namespace Alongside

variable {pith : String} {names more : List String} {cs ds : List Check}

theorem nil : Alongside p exhaustive pith names scope [] :=
  ⟨nofun, by rw [pithsAll]; exact List.nil_sublist _⟩

theorem single {c : Check} (stands : c.StandsOn p exhaustive pith names scope)
    (tests : c.isPass = false) : Alongside p exhaustive pith names scope [c] := by
  refine ⟨fun d member => ?_, by simpa [pithsAll] using stands.within⟩
  rw [List.mem_singleton.mp member]
  exact ⟨⟨stands.pith, tests⟩, stands.formed⟩

theorem append (first : Alongside p exhaustive pith names scope cs)
    (second : Alongside p exhaustive pith more scope ds) :
    Alongside p exhaustive pith (names ++ more) scope (cs ++ ds) := by
  refine ⟨fun c member => ?_, ?_⟩
  · rcases List.mem_append.mp member with before | behind
    · exact first.each c before
    · exact second.each c behind
  · rw [pithsAll_append]
    exact first.within.append second.within

theorem any {s : Subject} (alongside : Alongside p exhaustive s.pith names scope cs) :
    (Check.any s cs).StandsOn p exhaustive s.pith names scope :=
  ⟨rfl, .mk (fun m member => (alongside.each m member).1) fun m member =>
    (alongside.each m member).2, by rw [piths]; exact alongside.within⟩

/-- Further tests behind one of classes. -/
theorem all {s : Subject} {classes : List ClassOperand} (bound : ∀ op ∈ classes, p.cls scope op)
    (alongside : Alongside p exhaustive s.pith names scope cs) :
    (Check.all s (isInstance s classes :: cs)).StandsOn p exhaustive s.pith names scope := by
  have head : (isInstance s classes).StandsOn p exhaustive s.pith [] scope :=
    ⟨rfl, .leaf bound rfl, List.nil_sublist _⟩
  have whole := (single head rfl).append alongside
  exact ⟨rfl, .mk ⟨fun m member => (whole.each m member).1, s, classes, cs, rfl⟩ fun m member =>
    (whole.each m member).2, by rw [piths]; exact whole.within⟩

/-- The checks that are picked from a list, for each of whose members variables were handed out. -/
theorem of_picked {α : Type} {pick : α → Option Check} {parts : List (List String)} {as : List α}
    (each : List.Forall₂ (fun part a => ∀ c, pick a = some c →
      c.StandsOn p exhaustive pith part scope ∧ c.isPass = false) parts as) :
    Alongside p exhaustive pith parts.flatten scope (as.filterMap pick) := by
  induction each with
  | nil => exact nil
  | @cons part a parts as head _ ih =>
    rw [List.flatten_cons, List.filterMap_cons]
    cases picked : pick a with
    | none => exact ⟨ih.each, ih.within.trans (List.sublist_append_right _ _)⟩
    | some c => exact (single (head c picked).1 (head c picked).2).append ih

end Alongside

/-- The positions of a tuple that have a check. -/
theorem numbered_apart {parts : List (List String)} {items : List (Option Check)}
    (each : List.Forall₂ (fun part item => ∀ c, item = some c →
      c.Apart p exhaustive part scope ∧ c.isPass = false) parts items) (index : Nat) :
    (∀ entry ∈ Builder.numbered index items,
      entry.2.isPass = false ∧ entry.2.Formed p exhaustive scope) ∧
    (pithsItems (Builder.numbered index items)).Sublist parts.flatten := by
  induction each generalizing index with
  | nil => exact ⟨nofun, List.nil_sublist _⟩
  | @cons part item parts items head _ ih =>
    obtain ⟨formed, within⟩ := ih (index + 1)
    cases item with
    | none => exact ⟨formed, within.trans (List.sublist_append_right _ _)⟩
    | some c =>
      obtain ⟨apart, tests⟩ := head c rfl
      rw [Builder.numbered, pithsItems]
      refine ⟨fun entry member => ?_, apart.within.append within⟩
      rcases List.mem_cons.mp member with rfl | later
      · exact ⟨tests, apart.formed⟩
      · exact formed entry later

end Check

/-! ### Building -/

namespace Building

variable {α β : Type} {good : Scope → Prop} {x : Building α} {post : List String → Scope → α → Prop}

/-- From a scope in good order, building only binds things and hands out variables, which keeps the
scope so; and its result has a property of these variables that lasts while the scope grows. -/
def Ensures (good : Scope → Prop) (x : Building α) (post : List String → Scope → α → Prop) : Prop :=
  ∀ scope, good scope → ∃ names, scope.Steps names (outcome x scope).2 ∧ good (outcome x scope).2 ∧
    ∀ a, (outcome x scope).1 = .ok a → ∀ later, (outcome x scope).2.Grows later → post names later a

theorem ensures_pure {a : α} (holds : ∀ later, post [] later a) : Ensures good (pure a) post :=
  fun _ isGood => ⟨[], .refl, isGood, by rintro _ ⟨⟩ later _; exact holds later⟩

theorem ensures_throw (e : HintError) : Ensures good (throw e) post :=
  fun _ isGood => ⟨[], .refl, isGood, nofun⟩

theorem ensures_ofExcept {y : Except HintError α}
    (holds : ∀ a, y = .ok a → ∀ later, post [] later a) :
    Ensures good (Builder.ofExcept y) post := by
  cases y with
  | ok a => exact ensures_pure (holds a rfl)
  | error e => exact ensures_throw e

theorem ensures_bind {f : α → Building β} {after : List String → Scope → β → Prop}
    (first : Ensures good x post)
    (next : ∀ a, (∃ names scope, post names scope a) → Ensures good (f a) fun names later b =>
      ∀ before, post before later a → after (before ++ names) later b) :
    Ensures good (x >>= f) after := by
  intro scope isGood
  obtain ⟨names, steps, goodAfter, holds⟩ := first scope isGood
  rw [outcome_bind]
  rcases run : outcome x scope with ⟨_ | a, middle⟩ <;> rw [run] at steps goodAfter holds
  · exact ⟨names, steps, goodAfter, nofun⟩
  · have known := holds a rfl middle fun _ _ => id
    obtain ⟨more, further, goodAtEnd, holdsNext⟩ := next a ⟨names, middle, known⟩ middle goodAfter
    refine ⟨names ++ more, steps.trans further, goodAtEnd, fun b found later grows => ?_⟩
    refine holdsNext b found later grows names (holds a rfl later fun key entry there => ?_)
    exact grows key entry (further.grows key entry there)

theorem ensures_mono {wider : List String → Scope → α → Prop} (ensures : Ensures good x post)
    (widen : ∀ names later a, post names later a → wider names later a) :
    Ensures good x wider := by
  intro scope isGood
  obtain ⟨names, steps, goodAfter, holds⟩ := ensures scope isGood
  exact ⟨names, steps, goodAfter, fun a found later grows =>
    widen names later a (holds a found later grows)⟩

/-- A step that binds something. -/
theorem ensures_binding {f : Scope → α × Scope}
    (binds : ∀ scope : Scope, scope.Binds (f scope).2)
    (lasts : ∀ scope : Scope, good scope → good (f scope).2)
    (holds : ∀ scope : Scope, good scope → ∀ later, (f scope).2.Grows later →
      post [] later (f scope).1) : Ensures good (Builder.onScope f) post := by
  intro scope isGood
  rw [outcome_onScope]
  exact ⟨[], (binds scope).steps, lasts scope isGood, by rintro _ ⟨⟩; exact holds scope isGood⟩

theorem ensures_freshPith (lasts : ∀ scope : Scope, good scope → good scope.freshPith.2) :
    Ensures good (Builder.onScope Scope.freshPith) fun names _ pith => names = [pith] :=
  fun scope isGood =>
    ⟨[scope.freshPith.1], .pith .refl, lasts scope isGood, by rintro _ ⟨⟩ _ _; rfl⟩

theorem ensures_mapM {ι : Type} {f : ι → Building α} (hints : List ι)
    (each : ∀ i ∈ hints, Ensures good (f i) post) :
    Ensures good (hints.mapM f) fun names later as => as.length = hints.length ∧
      ∃ parts, names = parts.flatten ∧ List.Forall₂ (fun part a => post part later a) parts as := by
  induction hints with
  | nil => exact ensures_pure fun _ => ⟨rfl, [], rfl, .nil⟩
  | cons i rest ih =>
    rw [List.mapM_cons]
    refine ensures_bind (each i (by simp)) fun a _ => ?_
    refine ensures_bind (ih fun j member => each j (by simp [member])) fun as _ => ?_
    refine ensures_pure fun later names ⟨length, parts, isFlat, others⟩ head holds => ?_
    refine ⟨by simp [length], head :: parts, ?_, .cons holds others⟩
    rw [isFlat, List.append_nil, List.flatten_cons]

theorem ensures_mapM_each {ι : Type} {f : ι → Building α} {property : Scope → α → Prop}
    (hints : List ι) (each : ∀ i ∈ hints, Ensures good (f i) fun _ => property) :
    Ensures good (hints.mapM f) fun _ later as =>
      as.length = hints.length ∧ ∀ a ∈ as, property later a := by
  refine ensures_mono (ensures_mapM hints each) ?_
  rintro _ later as ⟨length, parts, -, all⟩
  refine ⟨length, ?_⟩
  clear length
  induction all with
  | nil => exact nofun
  | cons head _ ih => exact List.forall_mem_cons.mpr ⟨head, ih⟩

end Building

namespace Builder

open Building

/-! ### What is known -/

/-- What is known of the hints that are looked at, and of their classifications, reaches all hints
inside. -/
structure Carries (b : Builder) (seen : Context → Hint → Prop)
    (found : Context → Classified → Prop) : Prop where
  nested : ∀ {ctx h}, seen ctx h → seen ctx.nested h
  classified : ∀ {ctx h c}, seen ctx h → h.classify b.catalog b.substitutes ctx.nested = .ok c →
    found ctx.nested c
  children : ∀ {ctx c}, found ctx c → ∀ x ∈ c.children, seen ctx x
  inner : ∀ {ctx c vs inner}, found ctx c → c.data = .annotated vs inner → found ctx inner
  bases : ∀ {ctx c k substitutions supers}, found ctx c →
    c.data = .generic k substitutions supers →
      ∀ base ∈ supers, seen (ctx.bindAll substitutions) base
  fields : ∀ {ctx c k substitutions supers}, found ctx c →
    c.data = .generic k substitutions supers →
      ∀ entry ∈ boundFields b.catalog k substitutions, seen (ctx.bindAll substitutions) entry.2

/-- What is known of hints carries on, the operands that are asked for on their account are as they
should be, and so is all else that the hints bring into checks. -/
structure Supplies (b : Builder) (good : Scope → Prop) (p : Payload)
    (seen : Context → Hint → Prop) (found : Context → Classified → Prop) : Prop
    extends b.Carries seen found where
  fresh : ∀ scope : Scope, good scope → good scope.freshPith.2
  cls : ∀ k, Ensures good (operand k) fun _ => p.cls
  reference : ∀ {ctx c}, found ctx c →
    ∀ around, Ensures good (b.referenceOperand around c.hint) fun _ => p.reference
  validator : ∀ v, Ensures good (validatorOperand v) fun _ => p.validator
  literals : ∀ {ctx c values}, found ctx c → c.data = .literals values →
    ∀ v ∈ values, Ensures good (literalOperand v) fun _ => p.literal
  count : ∀ {ctx c vs inner}, found ctx c → c.data = .annotated vs inner → p.validators vs.length
  keys : ∀ {ctx c required}, found ctx c → c.data = .typedDict required →
    ∀ key ∈ required, p.name key
  names : ∀ {ctx c k substitutions supers}, found ctx c →
    c.data = .generic k substitutions supers →
      ∀ entry ∈ boundFields b.catalog k substitutions, p.name entry.1

variable {b : Builder} {good : Scope → Prop} {p : Payload} {ctx : Context} {make : Maker} {h : Hint}
  {c : Classified}

/-! ### Hints inside -/

/-- All values that a check looks at are looked at in full. -/
def isExhaustive (b : Builder) : Bool :=
  b.conf.thoroughness == .exhaustive

/-- The checks that are built stand on their variable. -/
def Makes (b : Builder) (good : Scope → Prop) (p : Payload) (found : Context → Classified → Prop)
    (make : Maker) : Prop :=
  ∀ ctx pith c, found ctx c → Ensures good (make ctx pith c) fun names later check =>
    check.StandsOn p b.isExhaustive pith names later

variable {seen : Context → Hint → Prop} {found : Context → Classified → Prop}
  (supplies : b.Supplies good p seen found)
include supplies

theorem ensures_originOperands (c : Classified) :
    Ensures good (b.originOperands c) fun _ later ops => ∀ op ∈ ops, p.cls later op := by
  unfold originOperands
  split
  · exact ensures_mono (ensures_mapM_each _ fun k _ => supplies.cls k) fun _ _ _ each => each.2
  · exact ensures_throw _

theorem ensures_classify (known : seen ctx h) :
    Ensures good (b.classify ctx.nested h) fun _ _ c => found ctx.nested c :=
  ensures_ofExcept fun _ classified _ => supplies.classified known classified

theorem ensures_onSame (makes : b.Makes good p found make) (pith : String) (known : seen ctx h) :
    Ensures good (b.onSame make ctx pith h) fun names later check =>
      check.StandsOn p b.isExhaustive pith names later := by
  refine ensures_bind (ensures_classify supplies known) fun c ⟨_, _, isFound⟩ => ?_
  refine ensures_mono (makes ctx.nested pith c isFound) fun names _ _ stands before _ => ?_
  exact stands.mono (List.sublist_append_right _ _)

theorem ensures_inside (makes : b.Makes good p found make) (known : seen ctx h) :
    Ensures good (b.inside make ctx h) fun names later check =>
      check.Apart p b.isExhaustive names later := by
  refine ensures_bind (ensures_classify supplies known) fun c ⟨_, _, isFound⟩ => ?_
  refine ensures_bind (ensures_freshPith supplies.fresh) fun pith _ => ?_
  refine ensures_mono (makes ctx.nested pith c isFound) fun names later check stands => ?_
  rintro _ rfl before _
  refine ⟨stands.formed, List.Sublist.trans ?_ (List.sublist_append_right _ _)⟩
  rw [stands.pith]
  exact stands.within.cons_cons pith

theorem ensures_inside? (makes : b.Makes good p found make) (known : seen ctx h) :
    Ensures good (b.inside? make ctx h) fun names later check => ∀ c, check = some c →
      c.Apart p b.isExhaustive names later ∧ c.isPass = false := by
  refine ensures_bind (ensures_inside supplies makes known) fun check _ => ?_
  refine ensures_pure fun later before apart c isSome => ?_
  split at isSome <;> cases isSome
  next tests => exact ⟨by rwa [List.append_nil], by simpa using tests⟩

/-! ### Unions -/

omit supplies in
theorem cls_mergeOperands {scope : Scope} {classes more : List ClassOperand}
    (bound : ∀ op ∈ classes, p.cls scope op) (boundToo : ∀ op ∈ more, p.cls scope op) :
    ∀ op ∈ mergeOperands classes more, p.cls scope op := by
  unfold mergeOperands
  induction more generalizing classes with
  | nil => exact bound
  | cons op rest ih =>
    obtain ⟨first, others⟩ := List.forall_mem_cons.mp boundToo
    refine ih ?_ others
    dsimp only
    split
    · exact bound
    · exact List.forall_mem_append.mpr ⟨bound, by simpa using first⟩

omit supplies in
theorem alongside_addMember {exhaustive : Bool} {pith : String} {names more : List String}
    {scope : Scope} {member : Check} {found : List Check}
    (alongside : Check.Alongside p exhaustive pith names scope found.reverse)
    (stands : member.StandsOn p exhaustive pith more scope) (tests : member.isPass = false) :
    Check.Alongside p exhaustive pith (names ++ more) scope (addMember member found).reverse := by
  have added :
      Check.Alongside p exhaustive pith (names ++ more) scope (member :: found).reverse := by
    rw [List.reverse_cons]
    exact alongside.append (.single stands tests)
  unfold addMember
  split
  case h_2 => exact added
  case h_1 s classes earlier =>
    split
    case h_2 => exact added
    case h_1 t others =>
      rw [List.reverse_cons] at alongside ⊢
      obtain ⟨each, within⟩ := alongside
      have last := each (.isInstance s classes) (by simp)
      have bound : ∀ op ∈ mergeOperands classes others, p.cls scope op := by
        obtain ⟨own, _⟩ := last.2
        obtain ⟨ownToo, _⟩ := stands.formed
        exact cls_mergeOperands own ownToo
      refine ⟨List.forall_mem_append.mpr ⟨fun c before => each c (by simp [before]), ?_⟩, ?_⟩
      · simpa using ⟨⟨last.1.1, rfl⟩, .leaf bound rfl⟩
      · rw [Check.pithsAll_append] at within ⊢
        exact within.trans (List.sublist_append_left _ _)

omit supplies in
theorem ensures_unionFrom {exhaustive : Bool} {s : Subject} {member : Hint → Building Check}
    (hints : List Hint)
    (members : ∀ h ∈ hints, Ensures good (member h) fun names later check =>
      check.StandsOn p exhaustive s.pith names later)
    (previous : Option Hint) (found : List Check) :
    Ensures good (unionFrom s member previous found hints) fun names later check => ∀ before,
      Check.Alongside p exhaustive s.pith before later found.reverse →
        check.StandsOn p exhaustive s.pith (before ++ names) later := by
  induction hints generalizing previous found with
  | nil =>
    have several : Ensures good (pure (Check.any s found.reverse)) fun names later check =>
        ∀ before, Check.Alongside p exhaustive s.pith before later found.reverse →
          check.StandsOn p exhaustive s.pith (before ++ names) later :=
      ensures_pure fun later before alongside => by rw [List.append_nil]; exact alongside.any
    match found with
    | [only] =>
      refine ensures_pure fun later before alongside => ?_
      obtain ⟨⟨pith, _⟩, own, inside⟩ := alongside.each only (by simp)
      refine ⟨by rw [Check.subject_about], .mk (Check.proper_about pith own) ?_, ?_⟩
      · rwa [Check.children_about]
      · rw [Check.piths_about, List.append_nil]
        simpa [Check.pithsAll] using alongside.within
    | [] | _ :: _ :: _ => exact several
  | cons h rest ih =>
    have others := ih fun h isMember => members h (List.mem_cons_of_mem _ isMember)
    rw [unionFrom]
    split
    · exact others previous found
    · refine ensures_bind (members h (by simp)) fun check _ => ?_
      split
      · next passes =>
        refine ensures_pure fun later names stands before _ => ⟨stands.pith, stands.formed, ?_⟩
        rw [Check.piths_of_isPass passes]
        exact List.nil_sublist _
      · next tests =>
        refine ensures_mono (others (some h) (addMember check found)) ?_
        intro names later result holds own stands before alongside
        rw [← List.append_assoc]
        exact holds _ (alongside_addMember alongside stands (by simpa using tests))

/-! ### Containers -/

omit supplies in
theorem standsOn_isInstance {exhaustive : Bool} {names : List String} {scope : Scope} {s : Subject}
    {classes : List ClassOperand} (bound : ∀ op ∈ classes, p.cls scope op) :
    (Check.isInstance s classes).StandsOn p exhaustive s.pith names scope :=
  ⟨rfl, .leaf bound rfl, List.nil_sublist _⟩

theorem ensures_tuple (makes : b.Makes good p found make) (s : Subject) (isFound : found ctx c) :
    Ensures good (b.tuple make ctx s c) fun names later check =>
      check.StandsOn p b.isExhaustive s.pith names later := by
  refine ensures_bind (ensures_originOperands supplies c) fun origin _ => ?_
  refine ensures_bind (ensures_mapM _ fun h isChild => ensures_inside? supplies makes
    (supplies.children isFound h isChild)) fun items _ => ?_
  refine ensures_pure ?_
  rintro later _ ⟨_, parts, rfl, each⟩ before bound
  obtain ⟨formed, within⟩ := Check.numbered_apart each 0
  refine ⟨rfl, .mk ⟨bound, fun entry member => (formed entry member).1⟩ fun d child => ?_, ?_⟩
  · obtain ⟨entry, member, rfl⟩ := List.mem_map.mp child
    exact (formed entry member).2
  · rw [List.append_nil, Check.piths]
    exact within.trans (List.sublist_append_right _ _)

theorem ensures_container (makes : b.Makes good p found make) (s : Subject) (isFound : found ctx c)
    {shape : List ClassOperand → Check → Check}
    (shaped : ∀ scope origin item names, (∀ op ∈ origin, p.cls scope op) → item.isPass = false →
      item.Apart p b.isExhaustive names scope →
        (shape origin item).StandsOn p b.isExhaustive s.pith names scope) :
    Ensures good (b.container make ctx s c shape) fun names later check =>
      check.StandsOn p b.isExhaustive s.pith names later := by
  refine ensures_bind (ensures_originOperands supplies c) fun origin _ => ?_
  split
  · exact ensures_pure fun _ _ bound => standsOn_isInstance bound
  · next h _ isChildren =>
    have known : seen ctx h := supplies.children isFound h (by rw [isChildren]; simp)
    refine ensures_bind (ensures_inside? supplies makes known) fun item _ => ?_
    cases item with
    | none => exact ensures_pure fun _ _ _ _ bound => standsOn_isInstance bound
    | some item =>
      refine ensures_pure fun later names apart before bound => ?_
      obtain ⟨apart, tests⟩ := apart item rfl
      rw [List.append_nil]
      exact (shaped later origin item names bound tests apart).mono (List.sublist_append_right _ _)

theorem ensures_mapping (makes : b.Makes good p found make) (s : Subject) (isFound : found ctx c) :
    Ensures good (b.mapping make ctx s c b.isExhaustive) fun names later check =>
      check.StandsOn p b.isExhaustive s.pith names later := by
  have ofOption {part : Option Check} {names : List String} {scope : Scope}
      (apart : ∀ d, part = some d →
        d.Apart p b.isExhaustive names scope ∧ d.isPass = false) :
      (∀ d ∈ part.toList, d.isPass = false ∧ d.Formed p b.isExhaustive scope) ∧
        (Check.pithsOption part).Sublist names := by
    cases part with
    | none => exact ⟨nofun, List.nil_sublist _⟩
    | some d =>
      obtain ⟨apart, tests⟩ := apart d rfl
      exact ⟨by simpa using ⟨tests, apart.formed⟩, by rw [Check.pithsOption]; exact apart.within⟩
  refine ensures_bind (ensures_originOperands supplies c) fun origin _ => ?_
  split
  case h_2 => exact ensures_pure fun _ _ bound => standsOn_isInstance bound
  case h_1 keyHint valueHint isChildren =>
    have known := supplies.children isFound
    rw [isChildren] at known
    refine ensures_bind (ensures_inside? supplies makes (known keyHint (by simp))) fun key _ => ?_
    refine ensures_bind (ensures_inside? supplies makes (known valueHint (by simp)))
      fun value _ => ?_
    split
    · exact ensures_pure fun _ _ _ _ _ _ bound => standsOn_isInstance bound
    · refine ensures_pure fun later more ofValue names ofKey before bound => ?_
      obtain ⟨keyFormed, keyWithin⟩ := ofOption ofKey
      obtain ⟨valueFormed, valueWithin⟩ := ofOption ofValue
      have formed := List.forall_mem_append.mpr ⟨keyFormed, valueFormed⟩
      refine ⟨rfl, .mk ⟨bound, fun d member => (formed d member).1, rfl⟩ fun d member =>
        (formed d member).2, ?_⟩
      rw [List.append_nil, Check.piths]
      exact (keyWithin.append valueWithin).trans (List.sublist_append_right _ _)

/-! ### Classes as values, generic classes -/

theorem ensures_subclassTargets (pith : String) (bound : Nat) (known : seen ctx.nested h) :
    Ensures good (b.subclassTargets ctx pith bound h) fun _ later checks => ∀ c ∈ checks,
      c.StandsOn p b.isExhaustive pith [] later ∧ c.isPass = false := by
  induction bound generalizing h with
  | zero => exact ensures_throw _
  | succ bound ih =>
    rw [subclassTargets]
    have classifies := ensures_classify supplies known
    refine ensures_bind classifies fun c ⟨_, _, isFound⟩ => ?_
    dsimp only
    split
    · exact ensures_pure fun _ _ _ c member => by cases member
    · have each : ∀ x ∈ c.children, Ensures good _ _ := fun x isChild =>
        ih (supplies.children isFound x isChild)
      refine ensures_bind (ensures_mapM_each _ each) fun targets _ => ?_
      refine ensures_pure fun later _ each _ _ check member => ?_
      obtain ⟨checks, isTarget, inside⟩ := List.mem_flatten.mp member
      exact each.2 checks isTarget check inside
    · refine ensures_bind (supplies.reference isFound _) fun ref _ => ?_
      refine ensures_pure fun later _ bound _ _ check member => ?_
      rw [List.mem_singleton.mp member]
      exact ⟨⟨rfl, .leaf bound rfl, List.nil_sublist _⟩, rfl⟩
    · split
      · exact ensures_pure fun _ _ _ c member => by cases member
      · refine ensures_bind (supplies.cls _) fun target _ => ?_
        refine ensures_pure fun later _ bound _ _ check member => ?_
        rw [List.mem_singleton.mp member]
        exact ⟨⟨rfl, .leaf (by simpa [Check.Proper] using bound) rfl, List.nil_sublist _⟩, rfl⟩

theorem ensures_classValue (s : Subject) (isFound : found ctx c) :
    Ensures good (b.classValue ctx s c) fun names later check =>
      check.StandsOn p b.isExhaustive s.pith names later := by
  have single {scope : Scope} {type : ClassOperand} (bound : p.cls scope type) :
      ∀ op ∈ [type], p.cls scope op := by simpa using bound
  refine ensures_bind (supplies.cls _) fun type _ => ?_
  dsimp only
  split
  · exact ensures_pure fun _ _ bound => standsOn_isInstance (single bound)
  · next h _ isChildren =>
    have known : seen ctx h := supplies.children isFound h (by rw [isChildren]; simp)
    refine ensures_bind (ensures_subclassTargets supplies s.pith _ (supplies.nested known))
      fun targets _ => ?_
    split
    · exact ensures_pure fun _ _ _ _ bound => standsOn_isInstance (single bound)
    · refine ensures_pure fun later names each before bound => ?_
      have none : ∀ c ∈ targets, c.piths = [] := fun c member =>
        List.sublist_nil.mp (each c member).1.within
      have alongside : Check.Alongside p b.isExhaustive s.pith [] later targets :=
        ⟨fun c member => ⟨⟨(each c member).1.pith, (each c member).2⟩, (each c member).1.formed⟩,
          by rw [Check.pithsAll_eq_nil none]⟩
      exact ((Check.Alongside.single alongside.any rfl).all (single bound)).mono
        (List.nil_sublist _)

theorem ensures_field? (makes : b.Makes good p found make) (s : Subject) {entry : String × Hint}
    (named : p.name entry.1) (known : seen ctx entry.2) :
    Ensures good (b.field? make ctx s entry) fun names later check => ∀ c, check = some c →
      c.StandsOn p b.isExhaustive s.pith names later ∧ c.isPass = false := by
  refine ensures_bind (ensures_inside? supplies makes known) fun check _ => ?_
  refine ensures_pure fun later names apart c isSome => ?_
  obtain ⟨child, isChild, rfl⟩ := Option.map_eq_some_iff.mp isSome
  obtain ⟨apart, tests⟩ := apart child isChild
  refine ⟨⟨rfl, .mk ⟨tests, named⟩ (by simpa [Check.children] using apart.formed), ?_⟩, rfl⟩
  rw [List.append_nil, Check.piths]
  exact apart.within

theorem ensures_genericClass (makes : b.Makes good p found make) (s : Subject)
    (isFound : found ctx c) {k : ClassId} {substitutions : List (Hint × Hint)} {supers : List Hint}
    (data : c.data = .generic k substitutions supers) :
    Ensures good (b.genericClass make ctx s k substitutions supers) fun names later check =>
      check.StandsOn p b.isExhaustive s.pith names later := by
  refine ensures_bind (supplies.cls k) fun cls _ => ?_
  refine ensures_bind (ensures_mapM _ fun base isBase => ensures_onSame supplies makes s.pith
    (supplies.bases isFound data base isBase)) fun bases _ => ?_
  refine ensures_bind (ensures_mapM _ fun entry isField => ensures_field? supplies makes s
    (supplies.names isFound data entry isField) (supplies.fields isFound data entry isField))
    fun fields _ => ?_
  have parts {later : Scope} {names more : List (List String)}
      (ofBases : List.Forall₂ (fun part base =>
        base.StandsOn p b.isExhaustive s.pith part later) names bases)
      (ofFields : List.Forall₂ (fun part field => ∀ c, field = some c →
        c.StandsOn p b.isExhaustive s.pith part later ∧ c.isPass = false) more fields) :
      Check.Alongside p b.isExhaustive s.pith (names.flatten ++ more.flatten) later
        (bases.filter (fun base => !base.isPass) ++ fields.filterMap id) := by
    refine .append ?_ (.of_picked ofFields)
    rw [← List.filterMap_eq_filter]
    refine .of_picked (ofBases.imp fun part base stands c picked => ?_)
    obtain ⟨rfl, tests⟩ := Option.guard_eq_some_iff.mp picked
    exact ⟨stands, by simpa using tests⟩
  split
  · refine ensures_pure fun _ _ _ _ _ _ bound => standsOn_isInstance (by simpa using bound)
  · refine ensures_pure ?_
    rintro later _ ⟨_, more, rfl, ofFields⟩ _ ⟨_, names, rfl, ofBases⟩ before bound
    rw [List.append_nil]
    exact ((parts ofBases ofFields).all (by simpa using bound)).mono
      (List.sublist_append_right _ _)

/-! ### All hints -/

theorem ensures_shape (makes : b.Makes good p found make) (pith : String) (isFound : found ctx c) :
    Ensures good (b.shape make ctx pith c) fun names later check =>
      check.StandsOn p b.isExhaustive pith names later := by
  unfold Builder.shape
  cases c.sign.strategy.emit with
  | pass | fail => exact ensures_pure fun _ => ⟨rfl, .leaf trivial rfl, List.nil_sublist _⟩
  | isInstance | originOnly =>
    refine ensures_bind (ensures_originOperands supplies c) fun origin _ => ?_
    exact ensures_pure fun _ _ bound => ⟨rfl, .leaf bound rfl, List.nil_sublist _⟩
  | union =>
    refine ensures_mono (ensures_unionFrom c.children (fun h isChild => ensures_onSame supplies
      makes pith (supplies.children isFound h isChild)) _ _) fun names later check stands => ?_
    exact stands [] .nil
  | literal =>
    cases data : c.data with
    | literals values =>
      have each := supplies.literals isFound data
      refine ensures_bind (ensures_mapM_each _ each) fun operands _ => ?_
      exact ensures_pure fun _ _ each => ⟨rfl, .leaf each.2 rfl, List.nil_sublist _⟩
    | _ => exact ensures_throw _
  | validators =>
    cases data : c.data with
    | annotated vs inner =>
      have counted := supplies.count isFound data
      refine ensures_bind (makes ctx pith inner (supplies.inner isFound data)) fun child _ => ?_
      refine ensures_bind (ensures_mapM_each _ fun v _ => supplies.validator v) fun operands _ => ?_
      refine ensures_pure fun later names ⟨length, bound⟩ before stands => ⟨rfl, .mk ?_ ?_, ?_⟩
      · exact ⟨stands.pith, bound, length ▸ counted⟩
      · simpa [Check.children] using stands.formed
      · rw [Check.piths]
        exact stands.within.trans (List.sublist_append_left _ _)
    | _ => exact ensures_throw _
  | tupleFixed => exact ensures_tuple supplies makes _ isFound
  | sequence | reiterable =>
    refine ensures_container supplies makes _ isFound fun _ _ _ _ bound tests apart =>
      ⟨rfl, .mk ⟨bound, tests, rfl⟩ ?_, by rw [Check.piths]; exact apart.within⟩
    simpa [Check.children] using apart.formed
  | mapping => exact ensures_mapping supplies makes _ isFound
  | isSubclass => exact ensures_classValue supplies _ isFound
  | generic =>
    cases data : c.data with
    | generic k substitutions supers => exact ensures_genericClass supplies makes _ isFound data
    | _ => exact ensures_throw _
  | forwardRef =>
    refine ensures_bind (supplies.reference isFound ctx) fun ref _ => ?_
    exact ensures_pure fun _ _ bound => ⟨rfl, .leaf bound rfl, List.nil_sublist _⟩
  | typedDict =>
    cases data : c.data with
    | typedDict required =>
      refine ensures_bind (supplies.cls _) fun dict _ => ?_
      exact ensures_pure fun _ _ bound => ⟨rfl, .leaf ⟨by simpa using bound,
        supplies.keys isFound data⟩ rfl, List.nil_sublist _⟩
    | _ => exact ensures_throw _
  | reduced => exact ensures_throw _

theorem makes_buildWithin (room : Nat) : b.Makes good p found (b.buildWithin room) := by
  induction room with
  | zero => exact fun _ _ _ _ => ensures_throw _
  | succ room ih => exact fun ctx pith c isFound => ensures_shape supplies ih pith isFound

/-- A check that is built stands on its variable, and building steps from scope to scope. -/
theorem makes_build : b.Makes good p found b.build :=
  makes_buildWithin supplies (maxNesting + 1)

end Builder
end HintCheck
