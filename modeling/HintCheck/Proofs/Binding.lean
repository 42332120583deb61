import Mathlib.Logic.Relation
import HintCheck.Proofs.Sessions

/-!
Names and what they stand for. However many checks are built in one scope, of whatever hints and in
whatever contexts, and whether building succeeds or not: each name that one of the checks mentions
is bound to what the check holds there, for good; a class has one name, which no other class has;
and the variables that are handed out all differ.
-/
namespace HintCheck

/-! ### Operands -/

/-- The class is bound under its name, if it has one. -/
def ClassOperand.In (scope : Scope) : ClassOperand → Prop
  | inline c => Catalog.isSpellable c = true
  | bound key c => scope.get? key = some (.cls c)

def ReferenceOperand.In (scope : Scope) (op : ReferenceOperand) : Prop :=
  scope.get? op.key = some (.reference op.reference)

def ValidatorOperand.In (scope : Scope) (op : ValidatorOperand) : Prop :=
  scope.get? op.key = some (.validator op.validator)

/-- The literal is bound under its name, and has one if it is an instance. -/
structure LiteralOperand.In (scope : Scope) (op : LiteralOperand) : Prop where
  bound : ∀ key, op.key = some key → scope.get? key = some (.literal op.value)
  named : ∀ label c attrs held, op.value = .inst label c attrs held → op.key.isSome

namespace Builder

open Building

/-- A step that binds something in a scope in order, and finds it there ever after. -/
theorem ensures_entry {f : Scope → ScopeKey × Scope} {entry : ScopeEntry}
    (binds : ∀ scope : Scope, scope.Binds (f scope).2)
    (there : ∀ scope : Scope, scope.Sound → (f scope).2.get? (f scope).1 = some entry) :
    Ensures Scope.Sound (onScope f) fun _ later key => later.get? key = some entry :=
  ensures_binding binds (fun scope => (binds scope).sound) fun scope sound _ grows =>
    grows _ _ (there scope sound)

theorem ensures_operand (k : ClassId) :
    Ensures Scope.Sound (operand k) fun _ later op => op.In later := by
  unfold operand
  split
  · next spellable => exact ensures_pure fun _ => spellable
  · have bound := ensures_entry (fun scope => .cls scope k) fun _ sound =>
      Scope.get?_bindClass sound k
    exact ensures_bind bound fun key _ => ensures_pure fun later _ there => there

theorem ensures_referenceOperand (b : Builder) (ctx : Context) (h : Hint) :
    Ensures Scope.Sound (b.referenceOperand ctx h) fun _ later op => op.In later := by
  unfold referenceOperand
  split
  · exact ensures_throw _
  · next ref _ =>
    have binds (scope : Scope) := Scope.Binds.reference scope ref
    refine ensures_binding binds (fun scope => (binds scope).sound) ?_
    intro scope sound later grows
    exact grows _ _ (Scope.get?_bindReference sound.wellKept ref)

theorem ensures_validatorOperand (v : Validator) :
    Ensures Scope.Sound (validatorOperand v) fun _ later op => op.In later := by
  have bound := ensures_entry (fun scope => .validator scope v) fun _ sound =>
    Scope.get?_insert_self sound rfl
  exact ensures_bind bound fun key _ => ensures_pure fun later _ there => there

theorem ensures_literalOperand {value : Value → Prop} {v : Value} (known : value v) :
    Ensures Scope.Sound (literalOperand v) fun _ later op => op.In later ∧ value op.value := by
  have bound (w : Value) := ensures_entry (fun scope => .literal scope w) fun _ sound =>
    Scope.get?_insert_self sound rfl
  unfold literalOperand
  split
  · refine ensures_bind (bound _) fun key _ => ensures_pure fun later _ there => ?_
    exact ⟨⟨by rintro _ ⟨⟩; exact there, fun _ _ _ _ _ => rfl⟩, known⟩
  · next other =>
    exact ensures_pure fun later => ⟨⟨nofun, fun label c attrs held isInst =>
      (other label c attrs held isInst).elim⟩, known⟩

end Builder

/-- Operands are bound in the scope under the names that they have. More may be known of the values
of literals, of how many validators there are, and of names. -/
def Payload.bound (value : Value → Prop) (count : Nat → Prop) (name : String → Prop) : Payload where
  cls scope op := op.In scope
  reference scope op := op.In scope
  validator scope op := op.In scope
  literal scope op := op.In scope ∧ value op.value
  validators := count
  name := name

/-- What the hints bring into checks is all that has to be known of them. -/
theorem Builder.Carries.supplies {b : Builder} {seen : Context → Hint → Prop}
    {found : Context → Classified → Prop} {value : Value → Prop} {count : Nat → Prop}
    {name : String → Prop} (carries : b.Carries seen found)
    (literals : ∀ {ctx c values}, found ctx c → c.data = .literals values → ∀ v ∈ values, value v)
    (counted : ∀ {ctx c vs inner}, found ctx c → c.data = .annotated vs inner → count vs.length)
    (keys : ∀ {ctx c required}, found ctx c → c.data = .typedDict required →
      ∀ key ∈ required, name key)
    (names : ∀ {ctx c k substitutions supers}, found ctx c →
      c.data = .generic k substitutions supers →
        ∀ entry ∈ Builder.boundFields b.catalog k substitutions, name entry.1) :
    b.Supplies Scope.Sound (.bound value count name) seen found where
  toCarries := carries
  fresh _ sound := ⟨sound.free, sound.classes, sound.references⟩
  cls := ensures_operand
  reference _ around := ensures_referenceOperand b around _
  validator := ensures_validatorOperand
  literals isFound data v member := ensures_literalOperand (literals isFound data v member)
  count := counted
  keys := keys
  names := names

/-! ### What a check mentions -/

/-- The name of a class, and what it should be bound to. -/
def ClassOperand.mention? : ClassOperand → Option (ScopeKey × ScopeEntry)
  | inline _ => none
  | bound key c => some (key, .cls c)

def LiteralOperand.mention? (op : LiteralOperand) : Option (ScopeKey × ScopeEntry) :=
  op.key.map fun key => (key, .literal op.value)

namespace Check

/-- The names that a node itself mentions, each with what the node holds under it. -/
def mentions : Check → List (ScopeKey × ScopeEntry)
  | isInstance _ classes | isSubclass _ classes | sequence _ classes _ _ | reiterable _ classes _ _
  | mapping _ classes _ _ _ | tupleFixed _ classes _ _ | typedDict _ classes _ =>
    classes.filterMap ClassOperand.mention?
  | forwardInstance _ ref | forwardSubclass _ ref => [(ref.key, .reference ref.reference)]
  | literal _ values => values.filterMap LiteralOperand.mention?
  | validators _ _ vs => vs.map fun op => (op.key, .validator op.validator)
  | pass _ | fail _ | any _ _ | all _ _ | attr _ _ _ => []

/-- The check itself is one of its nodes, and so are the nodes of the checks inside. -/
def HasNode : Check → Check → Prop :=
  Relation.ReflTransGen fun c d => d ∈ c.children

theorem mem_classKeys {key : ScopeKey} {classes : List ClassOperand} :
    key ∈ classKeys classes ↔ ∃ entry, (key, entry) ∈ classes.filterMap ClassOperand.mention? := by
  simp only [classKeys, List.mem_filterMap]
  constructor
  · rintro ⟨op, member, named⟩
    cases op with
    | inline c => cases named
    | bound _ c => cases named; exact ⟨.cls c, .bound key c, member, rfl⟩
  · rintro ⟨entry, op, member, named⟩
    cases op with
    | inline c => cases named
    | bound _ c => cases named; exact ⟨.bound key c, member, rfl⟩

theorem mem_scopeKeysAll {key : ScopeKey} {cs : List Check} :
    key ∈ scopeKeysAll cs ↔ ∃ c ∈ cs, key ∈ c.scopeKeys := by
  induction cs with
  | nil => simp [scopeKeysAll]
  | cons c rest ih => simp [scopeKeysAll, ih]

theorem mem_scopeKeysOption {key : ScopeKey} {c : Option Check} :
    key ∈ scopeKeysOption c ↔ ∃ d ∈ c.toList, key ∈ d.scopeKeys := by
  cases c <;> simp [scopeKeysOption]

theorem mem_scopeKeysItems {key : ScopeKey} {items : List (Nat × Check)} :
    key ∈ scopeKeysItems items ↔ ∃ c ∈ items.map Prod.snd, key ∈ c.scopeKeys := by
  induction items with
  | nil => simp [scopeKeysItems]
  | cons entry rest ih => simp [scopeKeysItems, ih]

/-- The names of a check are those that it mentions itself and those of the checks inside. -/
theorem mem_scopeKeys_cases {key : ScopeKey} {c : Check} :
    key ∈ c.scopeKeys ↔
      (∃ entry, (key, entry) ∈ c.mentions) ∨ ∃ d ∈ c.children, key ∈ d.scopeKeys := by
  cases c with
  | pass | fail => simp [scopeKeys, mentions, children]
  | isInstance s classes | isSubclass s classes =>
    simp [scopeKeys, mentions, children, mem_classKeys]
  | typedDict s origin required => simp [scopeKeys, mentions, children, mem_classKeys]
  | forwardInstance s ref | forwardSubclass s ref =>
    simp [scopeKeys, mentions, children]
  | any s nodes | all s nodes => simp [scopeKeys, mentions, children, mem_scopeKeysAll]
  | sequence s origin item | reiterable s origin item =>
    simp [scopeKeys, mentions, children, mem_classKeys]
  | mapping s origin k v =>
    simp [scopeKeys, mentions, children, mem_classKeys, mem_scopeKeysOption, or_and_right,
      exists_or]
  | tupleFixed s origin len items =>
    simp [scopeKeys, mentions, children, mem_classKeys, mem_scopeKeysItems]
  | literal s values =>
    simp [scopeKeys, mentions, children, LiteralOperand.mention?]
  | validators s child vs =>
    simp [scopeKeys, mentions, children, or_comm]
  | attr s name child => simp [scopeKeys, mentions, children]

/-- A name belongs to a check exactly if one of its nodes mentions it. -/
theorem mem_scopeKeys {key : ScopeKey} {c : Check} :
    key ∈ c.scopeKeys ↔ ∃ node entry, c.HasNode node ∧ (key, entry) ∈ node.mentions := by
  constructor
  · induction c using induction_children with
    | step c ih =>
      intro member
      rcases mem_scopeKeys_cases.mp member with ⟨entry, own⟩ | ⟨d, child, inside⟩
      · exact ⟨c, entry, .refl, own⟩
      · obtain ⟨node, entry, isNode, mentioned⟩ := ih d child inside
        exact ⟨node, entry, .head child isNode, mentioned⟩
  · rintro ⟨node, entry, isNode, mentioned⟩
    induction isNode using Relation.ReflTransGen.head_induction_on with
    | refl => exact mem_scopeKeys_cases.mpr (.inl ⟨entry, mentioned⟩)
    | head child _ ih => exact mem_scopeKeys_cases.mpr (.inr ⟨_, child, ih⟩)

variable {p : Payload} {value : Value → Prop} {count : Nat → Prop} {name : String → Prop}
  {exhaustive : Bool} {scope : Scope} {c node : Check}

theorem Formed.ofNode (formed : c.Formed p exhaustive scope) (isNode : c.HasNode node) :
    node.Formed p exhaustive scope := by
  induction isNode with
  | refl => exact formed
  | tail _ child ih =>
    obtain ⟨_, inside⟩ := ih
    exact inside _ child

theorem bound_of_classes {classes : List ClassOperand} (each : ∀ op ∈ classes, op.In scope)
    {key : ScopeKey} {entry : ScopeEntry}
    (mentioned : (key, entry) ∈ classes.filterMap ClassOperand.mention?) :
    scope.get? key = some entry := by
  obtain ⟨op, member, named⟩ := List.mem_filterMap.mp mentioned
  cases op with
  | inline c => cases named
  | bound _ c => cases named; exact each _ member

/-- What a node that was put together properly mentions is bound to what it holds. -/
theorem Proper.bound (proper : node.Proper (.bound value count name) exhaustive scope)
    {key : ScopeKey} {entry : ScopeEntry} (mentioned : (key, entry) ∈ node.mentions) :
    scope.get? key = some entry := by
  cases node with
  | pass | fail | any | all | attr => cases mentioned
  | isInstance | isSubclass => exact bound_of_classes proper mentioned
  | sequence | reiterable | mapping | tupleFixed | typedDict =>
    exact bound_of_classes proper.1 mentioned
  | forwardInstance s ref | forwardSubclass s ref =>
    cases List.mem_singleton.mp mentioned
    exact proper
  | literal s values =>
    obtain ⟨op, member, named⟩ := List.mem_filterMap.mp mentioned
    obtain ⟨_, isKey, same⟩ := Option.map_eq_some_iff.mp named
    cases same
    exact (proper op member).1.bound key isKey
  | validators s child vs =>
    obtain ⟨op, member, same⟩ := List.mem_map.mp mentioned
    cases same
    exact proper.2.1 op member

end Check

/-! ### Many checks in one scope -/

/-- A check that is asked for: what reads the classes and the configuration, the context, the
variable and the classified hint. -/
structure Order where
  builder : Builder
  ctx : Context
  pith : String
  hint : Classified

namespace Order

/-- The outcome of building, and the scope that is left. -/
def carryOut (o : Order) (scope : Scope) : Except HintError Check × Scope :=
  Building.outcome (o.builder.build o.ctx o.pith o.hint) scope

/-- The outcomes of building one check after the other, and the scope that is left. -/
def carryOutAll : List Order → Scope → List (Except HintError Check) × Scope
  | [], scope => ([], scope)
  | o :: rest, scope =>
    let (outcome, scope) := o.carryOut scope
    let (outcomes, scope) := carryOutAll rest scope
    (outcome :: outcomes, scope)

end Order

/-- Nothing is known of what hints bring into checks. -/
def Payload.unknown : Payload :=
  .bound (fun _ => True) (fun _ => True) fun _ => True

theorem Builder.supplies_unknown (b : Builder) :
    b.Supplies Scope.Sound .unknown (fun _ _ => True) fun _ _ => True := by
  have carries : b.Carries (fun _ _ => True) fun _ _ => True := by
    constructor <;> intros <;> trivial
  exact carries.supplies (fun _ _ _ _ => trivial) (fun _ _ => trivial) (fun _ _ _ _ => trivial)
    fun _ _ _ _ => trivial

namespace Order

/-- The checks among some outcomes. -/
def successes (outcomes : List (Except HintError Check)) : List Check :=
  outcomes.filterMap Except.toOption

/-- What one order leaves: steps to another scope, and a check on the variables handed out. -/
theorem carryOut_steps (o : Order) {scope : Scope} (sound : scope.Sound) :
    ∃ names, scope.Steps names (o.carryOut scope).2 ∧ ∀ c, (o.carryOut scope).1 = .ok c →
      ∀ later, (o.carryOut scope).2.Grows later →
        c.StandsOn .unknown o.builder.isExhaustive o.pith names later := by
  obtain ⟨names, steps, _, stands⟩ :=
    Builder.makes_build o.builder.supplies_unknown o.ctx o.pith o.hint trivial scope sound
  exact ⟨names, steps, stands⟩

theorem carryOutAll_steps (orders : List Order) {scope : Scope} (sound : scope.Sound) :
    ∃ names, scope.Steps names (carryOutAll orders scope).2 ∧
      ((successes (carryOutAll orders scope).1).flatMap Check.piths).Sublist names ∧
      ∀ c ∈ successes (carryOutAll orders scope).1, ∀ later,
        (carryOutAll orders scope).2.Grows later →
          ∃ exhaustive, c.Formed .unknown exhaustive later := by
  induction orders generalizing scope with
  | nil => exact ⟨[], .refl, List.nil_sublist _, nofun⟩
  | cons o rest ih =>
    obtain ⟨names, steps, stands⟩ := o.carryOut_steps sound
    obtain ⟨more, further, within, formed⟩ := ih (steps.sound sound)
    have opened : carryOutAll (o :: rest) scope =
        ((o.carryOut scope).1 :: (carryOutAll rest (o.carryOut scope).2).1,
          (carryOutAll rest (o.carryOut scope).2).2) := rfl
    rw [opened]
    refine ⟨names ++ more, steps.trans further, ?_⟩
    cases outcome : (o.carryOut scope).1 with
    | error e => exact ⟨within.trans (List.sublist_append_right _ _), formed⟩
    | ok check =>
      have lasts (later : Scope) (grows : (carryOutAll rest (o.carryOut scope).2).2.Grows later) :=
        stands check outcome later fun key entry there =>
          grows key entry (further.grows key entry there)
      refine ⟨(lasts _ fun _ _ => id).within.append within, fun c member later grows => ?_⟩
      rcases List.mem_cons.mp member with rfl | inRest
      · exact ⟨_, (lasts later grows).formed⟩
      · exact formed c inRest later grows

/-- Whatever checks are built in one scope, the names of each of them are those that its nodes
mention, and each is bound to what the node holds; what is bound stays bound, whatever is asked for
next; two names of classes are the same exactly if the classes are; and the variables that were
handed out, those of the checks among them, all differ. -/
theorem carryOutAll_binds (orders : List Order) :
    let checks := successes (carryOutAll orders .empty).1
    let scope := (carryOutAll orders .empty).2
    (∀ c ∈ checks,
      (∀ key, key ∈ c.scopeKeys ↔ ∃ node entry, c.HasNode node ∧ (key, entry) ∈ node.mentions) ∧
      ∀ node, c.HasNode node → ∀ key entry, (key, entry) ∈ node.mentions →
        scope.get? key = some entry) ∧
    (∀ (o : Order) key entry, scope.get? key = some entry →
      (o.carryOut scope).2.get? key = some entry) ∧
    (∀ key other c d, scope.get? key = some (.cls c) → scope.get? other = some (.cls d) →
      (key = other ↔ c = d)) ∧
    ∃ names, Scope.Steps .empty names scope ∧ names.Nodup ∧
      (checks.flatMap Check.piths).Sublist names := by
  intro checks scope
  obtain ⟨names, steps, within, formed⟩ := carryOutAll_steps orders Scope.sound_empty
  have sound : scope.Sound := steps.sound Scope.sound_empty
  refine ⟨fun c member => ⟨fun key => Check.mem_scopeKeys, fun node isNode key entry => ?_⟩,
    fun o => ?_, fun key other c d bound boundToo => sound.key_eq_iff bound boundToo,
    names, steps, steps.nodup, within⟩
  · obtain ⟨_, formed⟩ := formed c member scope fun _ _ => id
    obtain ⟨proper, _⟩ := formed.ofNode isNode
    exact proper.bound
  · obtain ⟨_, further, _⟩ := o.carryOut_steps sound
    exact further.grows

end Order

/-! ### What hints bring into checks -/

/-- The class is named by a hint with the property. -/
def Hint.Names (P : Hint → Prop) (k : ClassId) : Prop :=
  ∃ h, P h ∧ (h.class? = some k ∨ h.origin? = some k)

/-- What hints bring into checks by the rules: values that literals can have, at least one validator
where there are any, and the names of annotations of classes that the hints name. -/
def Payload.regular (cat : Catalog) (P : Hint → Prop) : Payload :=
  .bound (fun v => v.isLiteral = true) (fun n => 0 < n) fun name =>
    ∃ k, Hint.Names P k ∧ name ∈ (cat.allAnnotations k).map Prod.fst

theorem Hereditary.supplies {b : Builder} {P : Hint → Prop}
    (hereditary : Hereditary b.catalog b.substitutes P) :
    b.Supplies Scope.Sound (.regular b.catalog P) (fun ctx h => ctx.Keeps P ∧ P h)
      fun ctx c => ctx.Keeps P ∧ c.Holds b.catalog P := by
  refine hereditary.carries.supplies ?_ ?_ ?_ ?_
  · rintro ctx c values ⟨_, holds⟩ data
    cases holds with
    | plain of => exact of.literals values data
    | annotated => cases data
  · rintro ctx c vs inner ⟨_, holds⟩ data
    cases holds with
    | plain of => exact (of.plain _ _ data).elim
    | annotated _ _ _ occupied => cases data; exact List.length_pos_iff.mpr occupied
  · rintro ctx c required ⟨_, holds⟩ data key isKey
    cases holds with
    | annotated => cases data
    | @plain h _ of holds =>
      obtain ⟨k, isClass, rfl⟩ := of.keys required data
      obtain ⟨entry, member, rfl⟩ := List.mem_map.mp isKey
      exact ⟨k, ⟨h, holds, .inl isClass⟩, List.mem_map_of_mem (List.mem_of_mem_filter member)⟩
  · rintro ctx c k substitutions supers ⟨_, holds⟩ data entry isField
    cases holds with
    | annotated => cases data
    | @plain h _ of holds =>
      have named := (of.generic k substitutions supers data).1
      exact ⟨k, ⟨h, holds, named⟩, List.mem_map_of_mem (List.mem_of_mem_filter isField)⟩

/-- A check that a session builds stands on its variable. -/
theorem Session.buildCheck_stands {s : Session} {ctx : Context} {h : Hint} {scope after : Scope}
    {names : Naming} {pith : String} {check : Check} {P : Hint → Prop}
    (hereditary : Hereditary s.catalog s.substitutes P) (keeps : ctx.Keeps P) (holds : P h)
    (sound : scope.Sound) (named : h.WellNamed names)
    (grown : s.cache.Grown names s.catalog s.substitutes)
    (built : ((buildCheck ctx pith h scope).run.run s).1 = .ok (check, after)) :
    ∃ handedOut, scope.Steps handedOut after ∧ ∀ later, after.Grows later →
      check.StandsOn (.regular s.catalog P) (ctx.conf.thoroughness == .exhaustive) pith handedOut
        later := by
  obtain ⟨c, classified, run⟩ := outcome_of_buildCheck named grown built
  let b : Builder := ⟨s.catalog, s.substitutes, ctx.conf⟩
  have supplies : b.Supplies Scope.Sound (.regular s.catalog P) _ _ := hereditary.supplies
  obtain ⟨handedOut, steps, _, stands⟩ := Builder.makes_build supplies ctx pith c
    ⟨keeps, hereditary.ofClassify keeps holds classified⟩ scope sound
  rw [run] at steps stands
  exact ⟨handedOut, steps, stands check rfl⟩

end HintCheck
