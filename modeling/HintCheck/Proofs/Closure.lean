import HintCheck.Proofs.Construction
import HintCheck.Proofs.Hereditary
import HintCheck.Proofs.Uniformity

/-!
What a check closes over. Each reference of a check that was built is bound in the scope under its
own name, and what a scope binds it never binds anew; so two references of a check with one name are
one reference. Each also stands for a hint that the check was built from: a hint that leads to no
reference has a check without references.
-/
namespace HintCheck

/-- A class known by name only. -/
def Hint.isReference : Hint → Bool
  | quoted _ _ | forwardRef _ _ _ => true
  | _ => false

/-! ### The references of checks -/

namespace Check

/-- The reference that a node itself tests its value against. -/
def reference? : Check → Option ReferenceOperand
  | forwardInstance _ ref | forwardSubclass _ ref => some ref
  | _ => none

theorem mem_referencesAll {op : ReferenceOperand} {cs : List Check} :
    op ∈ referencesAll cs ↔ ∃ c ∈ cs, op ∈ c.references := by
  induction cs with
  | nil => simp [referencesAll]
  | cons c rest ih => simp [referencesAll, ih]

theorem mem_referencesOption {op : ReferenceOperand} {c : Option Check} :
    op ∈ referencesOption c ↔ ∃ d ∈ c.toList, op ∈ d.references := by
  cases c <;> simp [referencesOption]

theorem mem_referencesItems {op : ReferenceOperand} {items : List (Nat × Check)} :
    op ∈ referencesItems items ↔ ∃ c ∈ items.map Prod.snd, op ∈ c.references := by
  induction items with
  | nil => simp [referencesItems]
  | cons entry rest ih => simp [referencesItems, ih]

/-- The references of a check are its own and those of the checks inside. -/
theorem mem_references {op : ReferenceOperand} {c : Check} :
    op ∈ c.references ↔ c.reference? = some op ∨ ∃ d ∈ c.children, op ∈ d.references := by
  cases c with
  | any s nodes | all s nodes => simp [references, reference?, children, mem_referencesAll]
  | mapping s origin k v =>
    simp [references, reference?, children, mem_referencesOption, or_and_right, exists_or]
  | tupleFixed s origin len items =>
    simp [references, reference?, children, mem_referencesItems]
  | forwardInstance | forwardSubclass => simp [references, reference?, children, eq_comm]
  | _ => simp [references, reference?, children]

/-- The references of a check inside a check are among its own. -/
theorem references_child {c d : Check} (child : d ∈ c.children) : d.references ⊆ c.references :=
  fun _ member => mem_references.mpr (.inr ⟨d, child, member⟩)

/-- Each reference is bound under its name, and stands for a hint with the property. -/
def ClosedIn (P : Hint → Prop) (scope : Scope) (c : Check) : Prop :=
  ∀ op ∈ c.references, scope.get? op.key = some (.reference op.reference) ∧
    ∃ h, P h ∧ h.isReference = true

end Check

/-! ### Hints with a property -/

theorem Hereditary.carries {b : Builder} {P : Hint → Prop}
    (hereditary : Hereditary b.catalog b.substitutes P) :
    b.Carries (fun ctx h => ctx.Keeps P ∧ P h) fun ctx c =>
      ctx.Keeps P ∧ c.Holds b.catalog P where
  nested := fun ⟨keeps, holds⟩ => ⟨keeps.nested, holds⟩
  classified := fun ⟨keeps, holds⟩ classified =>
    ⟨keeps.nested, hereditary.ofClassify keeps.nested holds classified⟩
  children := fun ⟨keeps, holds⟩ x member => ⟨keeps, hereditary.ofChildren holds x member⟩
  inner := fun ⟨keeps, holds⟩ data => ⟨keeps, Hereditary.ofInner holds data⟩
  bases := fun ⟨keeps, holds⟩ data base isBase =>
    ⟨keeps.bindAll (hereditary.ofArguments holds data), hereditary.ofSupers holds data base isBase⟩
  fields := fun ⟨keeps, holds⟩ data entry isField =>
    ⟨keeps.bindAll (hereditary.ofArguments holds data),
      hereditary.ofBoundFields holds data entry isField⟩

/-- References are bound and stand for hints with the property; nothing is known of the rest. -/
def Payload.closed (P : Hint → Prop) : Payload where
  cls _ _ := True
  reference scope op :=
    scope.get? op.key = some (.reference op.reference) ∧ ∃ h, P h ∧ h.isReference = true
  validator _ _ := True
  literal _ _ := True
  validators _ := True
  name _ := True

theorem Check.Formed.closedIn {P : Hint → Prop} {exhaustive : Bool} {scope : Scope} {c : Check}
    (formed : c.Formed (.closed P) exhaustive scope) : c.ClosedIn P scope := by
  induction formed with
  | @mk c own _ ih =>
    intro op member
    rcases mem_references.mp member with isOwn | ⟨d, child, inside⟩
    · cases c with
      | forwardInstance | forwardSubclass => cases isOwn; exact own
      | _ => cases isOwn
    · exact ih d child op inside

namespace Builder

open Building

variable {b : Builder} {P : Hint → Prop} {ctx : Context} {c : Classified}

/-- A step that binds something of which nothing need be known. -/
theorem ensures_wellKept {α : Type} {f : Scope → α × Scope}
    (binds : ∀ scope : Scope, scope.Binds (f scope).2) :
    Ensures Scope.WellKept (onScope f) fun _ _ _ => True :=
  ensures_binding binds (fun scope => (binds scope).wellKept) fun _ _ _ _ => trivial

theorem ensures_closed_reference {h : Hint} (holds : P h) (ctx : Context) :
    Ensures Scope.WellKept (b.referenceOperand ctx h) fun _ => (Payload.closed P).reference := by
  unfold referenceOperand
  split
  · exact ensures_throw _
  · next ref written =>
    have isReference : h.isReference = true := by
      cases h <;> first | rfl | cases written
    have binds (scope : Scope) := Scope.Binds.reference scope ref
    refine ensures_binding binds (fun scope => (binds scope).wellKept) ?_
    intro scope wellKept later grows
    exact ⟨grows _ _ (Scope.get?_bindReference wellKept ref), h, holds, isReference⟩

theorem supplies_closed (hereditary : Hereditary b.catalog b.substitutes P) :
    b.Supplies Scope.WellKept (.closed P) (fun ctx h => ctx.Keeps P ∧ P h) fun ctx c =>
      ctx.Keeps P ∧ c.Holds b.catalog P where
  toCarries := hereditary.carries
  fresh _ wellKept := ⟨wellKept.bound, wellKept.free⟩
  cls k := by
    unfold operand
    split
    · exact ensures_pure fun _ => trivial
    · exact ensures_bind (ensures_wellKept fun scope => .cls scope k) fun _ _ =>
        ensures_pure fun _ _ _ => trivial
  reference := fun ⟨_, holds⟩ => ensures_closed_reference (Hereditary.ofHint holds)
  validator v := ensures_bind (ensures_wellKept fun scope => .validator scope v) fun _ _ =>
    ensures_pure fun _ _ _ => trivial
  literals _ _ v _ := by
    unfold literalOperand
    split
    · exact ensures_bind (ensures_wellKept fun scope => .literal scope _) fun _ _ =>
        ensures_pure fun _ _ _ => trivial
    · exact ensures_pure fun _ => trivial
  count _ _ := trivial
  keys _ _ _ _ := trivial
  names _ _ _ _ := trivial

/-- The references of a check that was built are bound in the scope that it leaves. -/
theorem build_closed (hereditary : Hereditary b.catalog b.substitutes P) {scope after : Scope}
    {check : Check} {pith : String} (wellKept : scope.WellKept) (keeps : ctx.Keeps P)
    (holds : c.Holds b.catalog P)
    (built : outcome (b.build ctx pith c) scope = (.ok check, after)) : check.ClosedIn P after := by
  obtain ⟨_, _, _, stands⟩ :=
    makes_build (supplies_closed hereditary) ctx pith c ⟨keeps, holds⟩ scope wellKept
  rw [built] at stands
  exact (stands check rfl after fun _ _ => id).formed.closedIn

end Builder
end HintCheck
