import HintCheck.Proofs.Satisfaction
import HintCheck.Proofs.Steps
import Mathlib.Data.List.Nodup

/-!
Canonical forms of simple hints. Each step towards the canonical form keeps the values that satisfy
the hint, but for the validators that it sets aside; no step leads out of the simple hints, and none
makes a hint deeper, so that the members of unions are reached within the bound.
-/
namespace HintCheck

/-- A limit was reached; the hint itself breaks no rule. -/
def HintError.isLimit : HintError → Bool
  | recursion _ _ | nesting _ _ => true
  | _ => false

/-- The outcome is a good result, or a limit was reached where `limited` allows for that. -/
def Within {α : Type} (limited : Prop) (good : α → Prop) : Except HintError α → Prop :=
  Ends (fun e => e.isLimit = true ∧ limited) good

namespace Within

variable {α β : Type} {limited : Prop} {x : Except HintError α} {good : α → Prop}

theorem bind {f : α → Except HintError β} {better : β → Prop} (first : Within limited good x)
    (next : ∀ a, good a → Within limited better (f a)) : Within limited better (x >>= f) :=
  Ends.bind first next

theorem mono {other : Prop} (within : Within limited good x) (allows : limited → other) :
    Within other good x :=
  Ends.mono within (fun _ limit => ⟨limit.1, allows limit.2⟩) fun _ => id

end Within

/-! ### The spellings of forms -/

theorem Form.mem_all (f : Form) : f ∈ Form.all := by
  cases f <;> decide

theorem Form.isAlpha_name (f : Form) : ∀ c ∈ f.name.toList, c.isAlpha = true := by
  have letters : f.name.toList.all Char.isAlpha = true := by cases f <;> decide
  exact List.all_eq_true.mp letters

theorem Form.name_injective {f g : Form} (same : f.name = g.name) : f = g := by
  have nodup : (Form.all.map Form.name).Nodup := by decide +kernel
  exact List.inj_on_of_nodup_map nodup f.mem_all g.mem_all same

theorem FormModule.isWord_name (m : FormModule) :
    ∀ c ∈ m.name.toList, (c.isAlpha || c == '_') = true := by
  have letters : (m.name.toList.all fun c => c.isAlpha || c == '_') = true := by
    cases m <;> decide
  exact List.all_eq_true.mp letters

theorem FormModule.name_injective {m n : FormModule} (same : m.name = n.name) : m = n := by
  cases m <;> cases n <;> first | rfl | exact absurd same (by decide)

theorem SpecialForm.noBracket (f : SpecialForm) : '[' ∉ f.text.toList := by
  have module : '[' ∉ f.module.name.toList := fun member =>
    absurd (f.module.isWord_name _ member) (by decide)
  have form : '[' ∉ f.form.name.toList := fun member =>
    absurd (f.form.isAlpha_name _ member) (by decide)
  simp [SpecialForm.text, module, form]

/-- The text of a form is split at its dot in one way. -/
theorem SpecialForm.parts_of_text {f : SpecialForm} {module name : String}
    (same : f.text = module ++ "." ++ name) : f.module.name = module ∧ f.form.name = name := by
  have noDotModule : '.' ∉ f.module.name.toList := fun member =>
    absurd (f.module.isWord_name _ member) (by decide)
  have noDotName : '.' ∉ f.form.name.toList := fun member =>
    absurd (f.form.isAlpha_name _ member) (by decide)
  have split := congrArg String.toList same
  simp only [SpecialForm.text, String.toList_append] at split
  rw [List.append_assoc, List.append_assoc] at split
  obtain ⟨modules, _, names⟩ := (List.append_cons_inj_of_notMem noDotModule noDotName).mp split
  exact ⟨String.toList_inj.mp modules, String.toList_inj.mp names⟩

theorem Spelling.stem_append {text rest : String} (noBracket : '[' ∉ text.toList) :
    Spelling.stem (text ++ rest) =
      text ++ String.ofList (rest.toList.takeWhile (· != '[')) := by
  have before : ∀ c ∈ text.toList, (c != '[') = true :=
    fun c member => bne_iff_ne.mpr fun bracket => noBracket (bracket ▸ member)
  rw [Spelling.stem, String.toList_append, List.takeWhile_append_of_pos before,
    String.ofList_append, String.ofList_toList]

theorem Spelling.stem_eq_self {text : String} (noBracket : '[' ∉ text.toList) :
    Spelling.stem text = text := by
  have stem : Spelling.stem (text ++ "") = _ := Spelling.stem_append noBracket
  simpa using stem

/-- Only forms that a class superseded are spelled as superseded. -/
theorem Spelling.alias_of_isDeprecated {f : SpecialForm}
    (deprecated : Spelling.isDeprecated f.text = true) :
    f.form.isDeprecatedAlias = true := by
  rw [Spelling.isDeprecated, Spelling.stem_eq_self f.noBracket, List.contains_iff_mem] at deprecated
  obtain ⟨g, superseded, isSpelling⟩ := List.mem_flatMap.mp deprecated
  obtain ⟨m, _, same⟩ := List.mem_map.mp isSpelling
  obtain ⟨_, names⟩ := SpecialForm.parts_of_text same
  exact Form.name_injective names ▸ (List.mem_filter.mp superseded).2

/-! ### Settled hints -/

/-- What is the root in the one catalog is the root in the other. -/
def Catalog.KeepsRoot (cat world : Catalog) : Prop :=
  ∀ c, (cat.get c).root = true → (world.get c).root = true

theorem Catalog.KeepsRoot.refl (cat : Catalog) : cat.KeepsRoot cat :=
  fun _ => id

namespace Hint

/-- The simple hints that are in canonical form, unless a union can be simplified further. -/
def isSettled : Hint → Bool
  | cls _ | union _ _ | subscription _ (.cls _) _ => true
  | subscription _ (.form f) _ => f.form == .union || f.form == .literal
  | _ => false

/-- What is left of a simple hint: a simple hint that is no deeper, and validators. Which values
satisfy the hints is a matter of the classes that there are when it is asked. -/
structure Simplified (cat world : Catalog) (tower : Bool) (names : Naming) (h : Hint)
    (r : Reduced) : Prop where
  simple : r.hint.Simple cat
  named : r.hint.WellNamed names
  depth : r.hint.depth ≤ h.depth
  admits : ∀ v, h.admits world tower v =
    (r.hint.admits world tower v && r.validators.all fun x => x.holds world v)
  /-- Validators are found around the hint that is left. -/
  below : r.validators ≠ [] → r.hint.depth < h.depth

variable {cat world : Catalog} {tower : Bool} {names : Naming} {h : Hint}

namespace Simplified

/-- No validator is set aside. -/
theorem plain {next : Hint} (simple : next.Simple cat) (named : next.WellNamed names)
    (depth : next.depth ≤ h.depth)
    (admits : ∀ v, h.admits world tower v = next.admits world tower v) :
    Simplified cat world tower names h ⟨next, []⟩ :=
  ⟨simple, named, depth, fun v => by rw [admits, List.all_nil, Bool.and_true],
    fun some => (some rfl).elim⟩

theorem refl (simple : h.Simple cat) (named : h.WellNamed names) :
    Simplified cat world tower names h ⟨h, []⟩ :=
  .plain simple named (Nat.le_refl _) fun _ => rfl

theorem trans {middle next : Hint} {validators found : List Validator}
    (first : Simplified cat world tower names h ⟨middle, validators⟩)
    (then_ : Simplified cat world tower names middle ⟨next, found⟩) :
    Simplified cat world tower names h ⟨next, found ++ validators⟩ :=
  { simple := then_.simple
    named := then_.named
    depth := Nat.le_trans then_.depth first.depth
    admits := fun v => by rw [first.admits, then_.admits, List.all_append, Bool.and_assoc]
    below := fun some => by
      by_cases later : found = []
      · exact Nat.lt_of_le_of_lt then_.depth (first.below (by simpa [later] using some))
      · exact Nat.lt_of_lt_of_le (then_.below later) first.depth }

end Simplified

/-! ### Simple hints -/

theorem admits_root {c : ClassId} (isRoot : (world.get c).root = true) (v : Value) :
    (cls c).admits world tower v = true := by
  have kinds : c.kinds tower = [c] := by
    unfold ClassId.kinds
    split
    · simp [Catalog.get, Builtin.toClass] at isRoot
    · simp [Catalog.get, Builtin.toClass] at isRoot
    · rfl
  simp [admits, kinds, Catalog.isInstance, isRoot]

theorem isIgnorable_cases (ignorable : h.isIgnorable cat = true) :
    ∃ c, h = cls c ∧ (cat.get c).root = true := by
  unfold isIgnorable at ignorable
  split at ignorable
  · exact ⟨_, rfl, ignorable⟩
  · simp at ignorable

theorem simple_object : object.Simple cat :=
  .root rfl

theorem admits_object (v : Value) : object.admits world tower v = true :=
  admits_root (show (world.get Builtin.object).root = true from rfl) v

theorem Simple.notUnpack (simple : h.Simple cat) : h.subscriptedForm? ≠ some .unpack := by
  cases simple with
  | union _ isUnion => simp [subscriptedForm?, isUnion]
  | optional _ isOptional => simp [subscriptedForm?, isOptional]
  | deprecated _ standsFor =>
    intro unpack
    simp only [subscriptedForm?, Option.some.injEq] at unpack
    simp [unpack, Form.origin?] at standsFor
  | literal _ isLiteral => simp [subscriptedForm?, isLiteral]
  | annotated _ isAnnotated => simp [subscriptedForm?, isAnnotated]
  | qualified _ isQualifier =>
    intro unpack
    simp only [subscriptedForm?, Option.some.injEq] at unpack
    simp [unpack, Form.isQualifier] at isQualifier
  | _ => simp [subscriptedForm?, generic, Hint.tupleOf]

theorem Simple.placed (simple : h.Simple cat) {ctx : Context}
    (notVariadic : ctx.position.isVariadic = false) : h.placed cat ctx = .ok h :=
  placed_of_notUnpack notVariadic simple.notUnpack

/-! ### Members of unions -/

/-- Simple hints that together admit what `whole` holds of, none deeper than `depth`. -/
structure MembersOf (cat world : Catalog) (tower : Bool) (names : Naming) (depth : Nat)
    (whole : Value → Bool) (members : List Hint) : Prop where
  nonempty : members ≠ []
  simple : ∀ m ∈ members, m.Simple cat
  named : ∀ m ∈ members, m.WellNamed names
  depth : ∀ m ∈ members, m.depth ≤ depth
  admits : ∀ v, whole v = members.any fun m => m.admits world tower v

namespace MembersOf

theorem single (simple : h.Simple cat) (named : h.WellNamed names) {depth : Nat}
    (bounded : h.depth ≤ depth) :
    MembersOf cat world tower names depth (h.admits world tower) [h] where
  nonempty := by simp
  simple := by simpa using simple
  named := by simpa using named
  depth := by simpa using bounded
  admits := by simp

theorem append {depth : Nat} {first second : Value → Bool} {xs ys : List Hint}
    (left : MembersOf cat world tower names depth first xs)
    (right : MembersOf cat world tower names depth second ys) :
    MembersOf cat world tower names depth (fun v => first v || second v) (xs ++ ys) where
  nonempty := by simp [left.nonempty]
  simple := List.forall_mem_append.mpr ⟨left.simple, right.simple⟩
  named := List.forall_mem_append.mpr ⟨left.named, right.named⟩
  depth := List.forall_mem_append.mpr ⟨left.depth, right.depth⟩
  admits := fun v => by rw [left.admits, right.admits, List.any_append]

theorem mono {depth deeper : Nat} {whole : Value → Bool} {xs : List Hint} (le : depth ≤ deeper)
    (members : MembersOf cat world tower names depth whole xs) :
    MembersOf cat world tower names deeper whole xs :=
  { members with depth := fun m member => Nat.le_trans (members.depth m member) le }

theorem congr {depth : Nat} {whole other : Value → Bool} {xs : List Hint}
    (members : MembersOf cat world tower names depth whole xs) (same : ∀ v, other v = whole v) :
    MembersOf cat world tower names depth other xs :=
  { members with admits := fun v => (same v).trans (members.admits v) }

end MembersOf

theorem admits_union (isUnion : h.isUnion = true) (v : Value) :
    h.admits world tower v = h.args.any fun m => m.admits world tower v := by
  rcases isUnion_cases isUnion with ⟨label, members, rfl⟩ | ⟨label, f, members, form, rfl⟩
  · rw [admits, admitsEach_eq_map, List.any_map]
    rfl
  · rw [admits, Satisfaction.subscription, form, Satisfaction.subscribedForm, admitsEach_eq_map,
      List.any_map]
    rfl

theorem Simple.args_of_union (simple : h.Simple cat) (isUnion : h.isUnion = true) :
    h.args ≠ [] ∧ ∀ m ∈ h.args, m.Simple cat := by
  cases simple with
  | pipe label nonempty each => exact ⟨nonempty, each⟩
  | union label isUnion home nonempty each => exact ⟨nonempty, each⟩
  | optional _ isOptional => simp [Hint.isUnion, isOptional] at isUnion
  | deprecated _ standsFor =>
    rw [beq_iff_eq.mp isUnion] at standsFor
    simp [Form.origin?] at standsFor
  | literal _ isLiteral => simp [Hint.isUnion, isLiteral] at isUnion
  | annotated _ isAnnotated => simp [Hint.isUnion, isAnnotated] at isUnion
  | qualified _ isQualifier =>
    rw [beq_iff_eq.mp isUnion] at isQualifier
    simp [Form.isQualifier] at isQualifier
  | _ => simp [Hint.isUnion, generic, Hint.tupleOf] at isUnion

/-- The members of simple hints, one after the other. -/
theorem membersOf_flattenAll {members : List Hint} (nonempty : members ≠ []) {depth : Nat}
    (each : ∀ h ∈ members, MembersOf cat world tower names depth (h.admits world tower) h.flatten) :
    MembersOf cat world tower names depth (fun v => members.any fun m => m.admits world tower v)
      (flattenAll members) := by
  induction members with
  | nil => exact (nonempty rfl).elim
  | cons h rest ih =>
    rw [flattenAll]
    have first := each h (by simp)
    cases rest with
    | nil => simpa [flattenAll] using first
    | cons next more =>
      have others := ih (by simp) fun m member => each m (List.mem_cons_of_mem h member)
      exact (first.append others).congr fun v => by rw [List.any_cons]

theorem Simple.membersOf_flatten (simple : h.Simple cat) (named : h.WellNamed names) :
    MembersOf cat world tower names h.depth (h.admits world tower) h.flatten := by
  induction h using induction_parts with
  | step h ih =>
    cases isUnion : h.isUnion with
    | false =>
      rw [flatten_other isUnion]
      exact .single simple named (Nat.le_refl _)
    | true =>
      obtain ⟨nonempty, each⟩ := simple.args_of_union isUnion
      rw [flatten_union isUnion]
      refine (membersOf_flattenAll nonempty fun m member => ?_).congr (admits_union isUnion)
      rw [← parts_union isUnion] at member
      exact (ih m member (each m (parts_union isUnion ▸ member)) (named.part m member)).mono
        (Nat.le_of_lt (depth_lt_of_mem_parts member))

/-! ### One step -/

/-- The outcome of bringing a simple hint to canonical form. -/
def Settles (limited : Prop) (cat world : Catalog) (tower : Bool) (names : Naming) (h : Hint) :
    Except HintError Reduced → Prop :=
  Within limited fun r => Simplified cat world tower names h r ∧ r.hint.isSettled = true

/-- Canonical members that admit what `whole` holds of; if there are none, that is every value. -/
def Covers (cat world : Catalog) (tower : Bool) (names : Naming) (depth : Nat)
    (whole : Value → Bool) : Option (List Hint) → Prop
  | Option.none => ∀ v, whole v = true
  | some forms => MembersOf cat world tower names depth whole forms

/-- What a member contributes to a union admits what the member does. -/
theorem covers_memberForms (root : cat.KeepsRoot world) {r : Reduced} (simple : h.Simple cat)
    (named : h.WellNamed names)
    (simplified : Simplified cat world tower names h r) :
    Covers cat world tower names h.depth (h.admits world tower) (memberForms cat h r) := by
  unfold memberForms
  split
  case isTrue => exact MembersOf.single simple named (Nat.le_refl _)
  case isFalse noValidators =>
    have validators : r.validators = [] := by simpa using noValidators
    have same : ∀ v, h.admits world tower v = r.hint.admits world tower v := fun v => by
      rw [simplified.admits, validators, List.all_nil, Bool.and_true]
    split
    case isTrue ignorable =>
      intro v
      obtain ⟨c, isClass, isRoot⟩ := isIgnorable_cases ignorable
      rw [same, isClass, admits_root (root c isRoot)]
    case isFalse =>
      split
      case isTrue isUnion =>
        obtain ⟨nonempty, each⟩ := simplified.simple.args_of_union isUnion
        have inParts : ∀ m ∈ r.hint.args, m ∈ r.hint.parts := by
          rw [parts_union isUnion]
          exact fun _ => id
        exact
          { nonempty
            simple := each
            named := fun m member => simplified.named.part m (inParts m member)
            depth := fun m member => Nat.le_trans
              (Nat.le_of_lt (depth_lt_of_mem_parts (inParts m member))) simplified.depth
            admits := fun v => by rw [same, admits_union isUnion] }
      case isFalse =>
        exact (MembersOf.single simplified.simple simplified.named simplified.depth).congr same

variable {reduce : Hint → Except HintError Reduced} {limited : Prop}

theorem covers_append {depth : Nat} {first second : Value → Bool} {mine : List Hint}
    {theirs : Option (List Hint)} (left : MembersOf cat world tower names depth first mine)
    (right : Covers cat world tower names depth second theirs) :
    Covers cat world tower names depth (fun v => first v || second v) (theirs.map (mine ++ ·)) := by
  cases theirs with
  | none => exact fun v => by simp only [right v, Bool.or_true]
  | some theirs => exact left.append right

theorem Covers.congr {depth : Nat} {whole other : Value → Bool} {found : Option (List Hint)}
    (covers : Covers cat world tower names depth whole found) (same : ∀ v, other v = whole v) :
    Covers cat world tower names depth other found := by
  cases found with
  | none => exact fun v => (same v).trans (covers v)
  | some forms => exact MembersOf.congr covers same

/-- The canonical members of a union admit what its members do. -/
theorem covers_unionForms (root : cat.KeepsRoot world) {depth : Nat} {whole : Value → Bool}
    {flat : List Hint}
    (members : MembersOf cat world tower names depth whole flat)
    (each : ∀ m ∈ flat, Settles limited cat world tower names m (reduce m)) :
    Within limited (Covers cat world tower names depth whole) (unionForms cat reduce flat) := by
  induction flat generalizing whole with
  | nil => exact (members.nonempty rfl).elim
  | cons m rest ih =>
    have simple := members.simple m (by simp)
    have admits := members.admits
    simp only [List.any_cons] at admits
    rw [unionForms_cons]
    refine (each m (by simp)).bind fun r settled => ?_
    have forms := covers_memberForms root simple (members.named m (by simp)) settled.1
    cases contributed : memberForms cat m r with
    | none =>
      rw [contributed] at forms
      exact fun v => by rw [admits, forms v, Bool.true_or]
    | some mine =>
      rw [contributed] at forms
      have mine := MembersOf.mono (members.depth m (by simp)) forms
      cases rest with
      | nil =>
        show MembersOf _ _ _ _ _ _ (_ ++ [])
        rw [List.append_nil]
        exact mine.congr fun v => by simpa using admits v
      | cons next more =>
        refine Within.bind (ih ?_ fun m member => each m (List.mem_cons_of_mem _ member))
          fun theirs covers => (covers_append mine covers).congr admits
        exact
          { nonempty := by simp
            simple := fun m member => members.simple m (List.mem_cons_of_mem _ member)
            named := fun m member => members.named m (List.mem_cons_of_mem _ member)
            depth := fun m member => members.depth m (List.mem_cons_of_mem _ member)
            admits := fun v => rfl }

/-- What a step does to a simple hint: it stays, or it is simplified. -/
def Steps (cat world : Catalog) (tower : Bool) (names : Naming) (h : Hint) (s : Step) : Prop :=
  match s.next with
  | Option.none => h.isSettled = true
  | some next => Simplified cat world tower names h ⟨next, s.validators⟩

/-- The members are brought to canonical form. -/
def SettlesInside (limited : Prop) (cat world : Catalog) (tower : Bool) (names : Naming)
    (depth : Nat) (reduce : Hint → Except HintError Reduced) : Prop :=
  ∀ m, m.Simple cat → m.WellNamed names → m.depth < depth →
    Settles limited cat world tower names m (reduce m)

theorem Simple.respelled {members : List Hint} (nonempty : members ≠ [])
    (each : ∀ m ∈ members, m.Simple cat) (h : Hint) : (h.respelled members).Simple cat := by
  unfold Hint.respelled
  split
  · exact .pipe Option.none nonempty each
  · exact .union Option.none rfl (by decide) nonempty each

/-- A union of canonical members in the place of a union. -/
theorem simplified_respelled {members : List Hint} {depth : Nat}
    (below : depth < h.depth)
    (cover : MembersOf cat world tower names depth (h.admits world tower) members) :
    Simplified cat world tower names h ⟨h.respelled members, []⟩ := by
  obtain ⟨respelled, args⟩ := isUnion_respelled h members
  refine .plain (.respelled cover.nonempty cover.simple h) ?_ ?_ fun v => ?_
  · exact wellNamed_respelled cover.named h
  · rw [depth_union respelled, args]
    have := depthAll_le cover.depth
    omega
  · rw [admits_union respelled, args]
    exact cover.admits v

theorem simplified_joined {members : List Hint} {depth : Nat}
    (below : depth < h.depth)
    (cover : MembersOf cat world tower names depth (h.admits world tower) members) :
    Simplified cat world tower names h ⟨h.joined members, []⟩ := by
  match members with
  | [only] =>
    refine .plain (cover.simple only (by simp)) (cover.named only (by simp)) ?_ fun v => ?_
    · exact Nat.le_trans (cover.depth only (by simp)) (Nat.le_of_lt below)
    · rw [cover.admits]
      simp [joined]
  | [] => exact (cover.nonempty rfl).elim
  | first :: second :: rest => exact simplified_respelled below cover

/-- The flattened members of a union admit what the union does, and are less deep. -/
theorem Simple.flat (simple : h.Simple cat) (named : h.WellNamed names)
    (isUnion : h.isUnion = true) :
    MembersOf cat world tower names (h.depth - 1) (h.admits world tower) (flattenAll h.args) := by
  obtain ⟨nonempty, each⟩ := simple.args_of_union isUnion
  have below : ∀ m ∈ h.args, m.WellNamed names ∧ m.depth ≤ h.depth - 1 := by
    rw [← parts_union isUnion]
    exact fun m member => ⟨named.part m member, Nat.le_pred_of_lt (depth_lt_of_mem_parts member)⟩
  refine (membersOf_flattenAll nonempty fun m member => ?_).congr (admits_union isUnion)
  exact ((each m member).membersOf_flatten (below m member).1).mono (below m member).2

/-- The step of a union of simple hints. -/
theorem steps_stepUnion (root : cat.KeepsRoot world) (simple : h.Simple cat)
    (named : h.WellNamed names) (isUnion : h.isUnion = true)
    (inside : SettlesInside limited cat world tower names h.depth reduce) :
    Within limited (fun next => Steps cat world tower names h ⟨next, []⟩)
      (h.stepUnion cat reduce) := by
  have flat : MembersOf cat world tower names (h.depth - 1) (h.admits world tower)
      (flattenAll h.args) := simple.flat named isUnion
  have smaller : h.depth - 1 < h.depth := Nat.pred_lt (Nat.ne_of_gt h.depth_pos)
  rw [stepUnion_eq flat.nonempty]
  refine Within.bind (covers_unionForms root flat fun m member => inside m (flat.simple m member)
    (flat.named m member) (Nat.lt_of_le_of_lt (flat.depth m member) smaller)) fun found cover => ?_
  cases found with
  | none =>
    refine Simplified.plain simple_object (.ofClass _) h.depth_pos fun v => ?_
    rw [cover v, admits_object]
  | some members =>
    dsimp only
    split
    case isTrue =>
      rcases isUnion_cases isUnion with ⟨label, members, rfl⟩ | ⟨label, f, members, form, rfl⟩
      · rfl
      · show (_ || _) = true
        rw [form]
        rfl
    case isFalse => exact simplified_joined smaller cover

/-! ### All steps -/

theorem isDeprecated_alias {f : SpecialForm} (superseded : f.form.isDeprecatedAlias = true)
    (home : f.module ≠ .dataclasses) : Spelling.isDeprecated f.text = true := by
  have noInitVar : f.form ≠ .initVar := fun initVar => by
    rw [initVar] at superseded
    cases superseded
  rw [Spelling.isDeprecated, Spelling.stem_eq_self f.noBracket, List.contains_iff_mem,
    Spelling.deprecated, List.mem_flatMap]
  refine ⟨f.form, List.mem_filter.mpr ⟨f.form.mem_all, superseded⟩, ?_⟩
  rw [Spelling.spellingsOf, Spelling.modulesOf, if_neg noInitVar]
  refine List.mem_map.mpr ⟨f.module, ?_, rfl⟩
  cases module : f.module with
  | typing | extensions => simp
  | dataclasses => exact (home module).elim

theorem stepSubscribed_alias {f : SpecialForm} {b : Builtin} {args : List Hint}
    (standsFor : f.form.origin? = some b) (superseded : f.form.isDeprecatedAlias = true)
    (home : f.module ≠ .dataclasses) :
    h.stepSubscribed cat reduce f args = .ok ⟨some (generic Option.none b args), []⟩ := by
  have deprecated := isDeprecated_alias superseded home
  unfold stepSubscribed
  cases form : f.form <;> rw [form] at standsFor superseded <;>
    simp_all [Form.origin?, Form.isQualifier, Form.isDeprecatedAlias]

theorem subscribedForm_origin {form : Form} {b : Builtin} (standsFor : form.origin? = some b)
    (args : List Hint) (tests : List (Value → Bool)) (v : Value) :
    Satisfaction.subscribedForm cat form args tests v =
      Satisfaction.contents cat b args tests v := by
  cases form <;> simp_all [Satisfaction.subscribedForm, Form.origin?, Form.isQualifier]

theorem subscribedForm_qualifier {form : Form} (isQualifier : form.isQualifier = true)
    (args : List Hint) (tests : List (Value → Bool)) (v : Value) :
    Satisfaction.subscribedForm cat form args tests v = tests.all fun inner => inner v := by
  cases form <;> simp_all [Satisfaction.subscribedForm, Form.isQualifier]

/-- Only forms that a class superseded have the class of a container for an origin. -/
theorem isDeprecatedAlias_of_simple {form : Form} {b : Builtin} (standsFor : form.origin? = some b)
    {label : Option Nat} {args : List Hint} (simple : (generic label b args).Simple cat) :
    form.isDeprecatedAlias = true := by
  have notSpecial : b ≠ .generic ∧ b ≠ .protocol := by
    cases simple with
    | items _ isContainer | pairs _ isContainer =>
      constructor <;> (rintro rfl; exact absurd isContainer (by decide))
    | tuple | tupleOf => decide
  cases form <;> simp_all [Form.origin?, Form.isDeprecatedAlias]

/-- The validators among metadata are all that it asks for. -/
theorem all_passes (metadata : List Hint) (v : Value) :
    metadata.all (Satisfaction.passes world v) =
      (metadataValidators metadata).all fun x => x.holds world v := by
  induction metadata with
  | nil => rfl
  | cons item rest ih =>
    rw [List.all_cons, ih]
    cases item <;> rfl

theorem step_class {ctx : Context} {c : ClassId} (notGeneric : c ≠ Builtin.generic)
    (notProtocol : c ≠ Builtin.protocol) :
    (cls c).step cat ctx reduce = .ok ⟨Option.none, []⟩ := by
  simp [step, notGeneric, notProtocol]

theorem step_subscribedClass {ctx : Context} {label : Option Nat} {c : ClassId} {args : List Hint}
    (notTuple : c ≠ Builtin.tuple) :
    (subscription label (.cls c) args).step cat ctx reduce = .ok ⟨Option.none, []⟩ := by
  simp [step, notTuple]

theorem step_tuple {ctx : Context} {label : Option Nat} {args : List Hint}
    (noUnpack : ∀ a ∈ args, a.subscriptedForm? ≠ some .unpack) :
    (subscription label (.cls Builtin.tuple) args).step cat ctx reduce = .ok ⟨Option.none, []⟩ := by
  have none : (args.filter fun a => a.subscriptedForm? == some .unpack) = [] := by
    simpa [List.filter_eq_nil_iff] using noUnpack
  simp [step, stepTuple, none]

theorem ne_generic_of_plain {c : ClassId} (isPlain : Cache.isPlainClass cat c = true) :
    c ≠ Builtin.generic := by
  rintro rfl
  simp [Cache.isPlainClass] at isPlain

theorem ne_protocol_of_plain {c : ClassId} (isPlain : Cache.isPlainClass cat c = true) :
    c ≠ Builtin.protocol := by
  rintro rfl
  simp [Cache.isPlainClass] at isPlain

/-- What a step does to a simple hint that is no union. -/
inductive Moves (cat world : Catalog) (tower : Bool) (names : Naming) (h : Hint) : Step → Prop
  | stays (settled : h.isSettled = true) : Moves cat world tower names h ⟨Option.none, []⟩
  | becomes {next : Hint} {validators : List Validator} (unsettled : h.isSettled = false)
      (simplified : Simplified cat world tower names h ⟨next, validators⟩)
      (progress : next.depth < h.depth ∨ next.isSettled = true) :
      Moves cat world tower names h ⟨some next, validators⟩

theorem Moves.steps {s : Step} (moves : Moves cat world tower names h s) :
    Steps cat world tower names h s := by
  cases moves with
  | stays settled => exact settled
  | becomes _ simplified => exact simplified

/-- The step of a simple hint that is no union depends on nothing else. -/
theorem Simple.moves (simple : h.Simple cat) (named : h.WellNamed names)
    (notUnion : h.isUnion = false) :
    ∃ s, (∀ ctx reduce, h.step cat ctx reduce = .ok s) ∧ Moves cat world tower names h s := by
  cases simple with
  | pipe => simp [Hint.isUnion] at notUnion
  | union _ form => simp [Hint.isUnion, form] at notUnion
  | plain isPlain =>
    exact ⟨_, fun ctx reduce =>
      step_class (ne_generic_of_plain isPlain) (ne_protocol_of_plain isPlain), .stays rfl⟩
  | root isRoot =>
    exact ⟨_, fun ctx reduce =>
      step_class (by rintro rfl; cases isRoot) (by rintro rfl; cases isRoot), .stays rfl⟩
  | @any f isAny =>
    refine ⟨⟨some object, []⟩, fun ctx reduce => by simp [step, stepForm, isAny],
      .becomes rfl (.plain simple_object (.ofClass _) (Nat.le_refl _) fun v => ?_) (.inr rfl)⟩
    rw [admits_object, admits, isAny]
    rfl
  | none label =>
    refine ⟨_, fun ctx reduce => rfl,
      .becomes rfl (.plain (.plain rfl) (.ofClass _) (Nat.le_refl _) fun v => ?_) (.inr rfl)⟩
    simp [admits, ClassId.kinds]
  | @optional label f isOptional inner simple =>
    have each : ∀ m ∈ [inner, Hint.none Option.none], m.Simple cat := by
      simpa using ⟨simple, .none Option.none⟩
    refine ⟨⟨some (typing Option.none .union [inner, Hint.none Option.none]), []⟩,
      fun ctx reduce => by simp [step, stepSubscribed, isOptional, Form.isQualifier],
      .becomes (by simp [isSettled, isOptional])
        (.plain (.union Option.none rfl (by decide) (by simp) each)
          (.ofArgs ?_) ?_ fun v => ?_) (.inr rfl)⟩
    · simpa using ⟨named.part inner (by simp [parts]), .ofNone⟩
    · have := inner.depth_pos
      simp only [typing, depth, depthAll]
      omega
    · have isUnion :
          (typing Option.none .union [inner, Hint.none Option.none]).isUnion = true := rfl
      rw [admits_union isUnion]
      simp [admits, admitsEach, Satisfaction.subscription, Satisfaction.subscribedForm, isOptional,
        typing, args]
  | items label isContainer simple =>
    exact ⟨_, fun ctx reduce =>
      step_subscribedClass (by rintro ⟨⟩; exact absurd isContainer (by decide)), .stays rfl⟩
  | pairs label isContainer simpleKey simpleValue =>
    exact ⟨_, fun ctx reduce =>
      step_subscribedClass (by rintro ⟨⟩; exact absurd isContainer (by decide)), .stays rfl⟩
  | tuple label each =>
    exact ⟨_, fun ctx reduce => step_tuple fun a member => (each a member).notUnpack, .stays rfl⟩
  | @tupleOf label dots item simple =>
    have noUnpack : ∀ a ∈ [item, value dots .ellipsis], a.subscriptedForm? ≠ some .unpack := by
      simpa using ⟨simple.notUnpack, by simp [subscriptedForm?]⟩
    exact ⟨_, fun ctx reduce => step_tuple noUnpack, .stays rfl⟩
  | @deprecated label f b standsFor home args simple =>
    have superseded := isDeprecatedAlias_of_simple standsFor simple
    have unsettled : (subscription label (.form f) args).isSettled = false := by
      rw [isSettled]
      cases form : f.form <;> simp_all [Form.origin?]
    refine ⟨_, fun ctx reduce => stepSubscribed_alias standsFor superseded home,
      .becomes unsettled (.plain simple (.ofArgs named.part)
        (Nat.le_refl _) fun v => ?_) (.inr rfl)⟩
    rw [admits, Satisfaction.subscription, subscribedForm_origin standsFor]
    simp [generic, admits, Satisfaction.subscription]
  | @literal label f isLiteral home members nonempty each =>
    exact ⟨⟨Option.none, []⟩, fun ctx reduce => by
      simp [step, stepSubscribed, isLiteral, Form.isQualifier, Form.origin?],
      .stays (by simp [isSettled, isLiteral])⟩
  | @annotated label f isAnnotated inner simple metadata nonempty =>
    obtain ⟨first, more, rfl⟩ := List.exists_cons_of_ne_nil nonempty
    have below := depth_lt_of_mem_parts
      (show inner ∈ (subscription label (.form f) (inner :: first :: more)).parts by simp [parts])
    refine ⟨⟨some inner, metadataValidators (first :: more)⟩, fun ctx reduce => by
      simp [step, stepSubscribed, isAnnotated, Form.isQualifier],
      .becomes (by simp [isSettled, isAnnotated]) ⟨simple, named.part inner (by simp [parts]),
        Nat.le_of_lt below, fun v => ?_, fun _ => below⟩ (.inl below)⟩
    rw [admits, Satisfaction.subscription, isAnnotated, admitsEach, Satisfaction.subscribedForm,
      List.tail_cons, all_passes]
  | @newType label name module supertype simple =>
    have below := depth_lt_of_mem_parts
      (show supertype ∈ (Hint.newType label name module supertype).parts by simp [parts])
    exact ⟨_, fun ctx reduce => rfl, .becomes rfl (.plain simple (named.part _ (by simp [parts]))
      (Nat.le_of_lt below) fun v => by simp [admits]) (.inl below)⟩
  | @qualified label f isQualifier inner simple =>
    have below := depth_lt_of_mem_parts
      (show inner ∈ (subscription label (.form f) [inner]).parts by simp [parts])
    have unsettled : (subscription label (.form f) [inner]).isSettled = false := by
      rw [isSettled]
      cases form : f.form <;> simp_all [Form.isQualifier]
    refine ⟨⟨some inner, []⟩, fun ctx reduce => by simp [step, stepSubscribed, isQualifier],
      .becomes unsettled (.plain simple (named.part inner (by simp [parts])) (Nat.le_of_lt below)
        fun v => ?_) (.inl below)⟩
    rw [admits, Satisfaction.subscription, subscribedForm_qualifier isQualifier]
    simp [admitsEach]

theorem Simple.steps (root : cat.KeepsRoot world) (simple : h.Simple cat)
    (named : h.WellNamed names)
    (inside : SettlesInside limited cat world tower names h.depth reduce) (ctx : Context) :
    Within limited (Steps cat world tower names h) (h.step cat ctx reduce) := by
  cases isUnion : h.isUnion with
  | true =>
    rw [step_union ctx isUnion]
    exact (steps_stepUnion root simple named isUnion inside).bind fun next steps => steps
  | false =>
    obtain ⟨s, stepped, moves⟩ : ∃ s, _ ∧ Moves cat world tower names h s :=
      simple.moves named isUnion
    rw [stepped]
    exact moves.steps

/-! ### Canonical forms -/

/-- Any number of steps keeps what has been simplified so far. -/
theorem settles_iterate (root : cat.KeepsRoot world) (ctx : Context)
    (inside : SettlesInside limited cat world tower names h.depth reduce) (steps : Nat)
    {current : Hint} {validators : List Validator}
    (simplified : Simplified cat world tower names h ⟨current, validators⟩) :
    Within limited (fun found => ∀ r, found = some r →
      Simplified cat world tower names h r ∧ r.hint.isSettled = true)
      (iterate cat ctx reduce steps current validators) := by
  induction steps generalizing current validators with
  | zero => exact fun r impossible => by cases impossible
  | succ steps ih =>
    rw [iterate_succ]
    have insideCurrent : SettlesInside limited cat world tower names current.depth reduce :=
      fun m simple named below => inside m simple named (Nat.lt_of_lt_of_le below simplified.depth)
    have steps := simplified.simple.steps root simplified.named insideCurrent ctx
    refine steps.bind fun s stepped => ?_
    obtain ⟨next, found⟩ := s
    cases next with
    | none =>
      rintro r same
      cases same
      exact ⟨simplified, stepped⟩
    | some next => exact ih (simplified.trans stepped)

/-- A simple hint has a canonical form that means the same, unless it takes too many steps. -/
theorem Simple.settles (root : cat.KeepsRoot world) (simple : h.Simple cat)
    (named : h.WellNamed names) {ctx : Context} (notVariadic : ctx.position.isVariadic = false)
    {bound : Nat} (enough : h.depth < bound) :
    Settles True cat world tower names h (canonicalWithin cat bound ctx h) := by
  induction bound generalizing ctx h with
  | zero => exact absurd enough (Nat.not_lt_zero _)
  | succ bound ih =>
    have inside : SettlesInside True cat world tower names h.depth
        (canonicalWithin cat bound ctx.nested) :=
      fun m simple named below => ih simple named rfl (by omega)
    rw [canonicalWithin_succ, simple.placed notVariadic]
    show Settles True cat world tower names h (iterate cat ctx _ maxSteps h [] >>= _)
    refine Within.bind (settles_iterate root ctx inside maxSteps (.refl simple named))
      fun found settled => ?_
    cases found with
    | none => exact ⟨rfl, trivial⟩
    | some r => exact settled r rfl

theorem foldl_add_le (entries : List (HintId × Hint)) (start : Nat) :
    start ≤ entries.foldl (fun total entry => total + entry.2.depth + 1) start := by
  induction entries generalizing start with
  | nil => exact Nat.le_refl _
  | cons entry rest ih =>
    have more : start ≤ start + entry.2.depth + 1 := by omega
    exact Nat.le_trans more (ih _)

theorem depth_lt_nestingBound (ctx : Context) (h : Hint) : h.depth < h.nestingBound ctx :=
  Nat.lt_of_lt_of_le (Nat.lt_add_of_pos_right (by decide)) (foldl_add_le ctx.bindings (h.depth + 2))

end Hint
end HintCheck
