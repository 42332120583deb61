import HintCheck.Proofs.Closure
import HintCheck.Proofs.Meaning

/-!
Why a classified hint has no meaning. Reading it fails if something that its strategy needs is
missing from it, or where reading a hint inside fails; there is no other reason. The hints inside
are those that are classified on the way.
-/
namespace HintCheck

/-- The check starts from the origin of the hint. -/
def Emit.needsOrigin : Emit → Bool
  | isInstance | originOnly | tupleFixed | sequence | reiterable | mapping => true
  | _ => false

/-- The payload that the check needs is there. -/
def SignData.serves {α : Type} : SignData α → Emit → Bool
  | literals _, .literal | annotated _ _, .validators | generic _ _ _, .generic
  | typedDict _, .typedDict => true
  | _, .literal | _, .validators | _, .generic | _, .typedDict => false
  | _, _ => true

theorem Hint.isSome_ofHint? (h : Hint) (ctx : Context) :
    (Reference.ofHint? ctx h).isSome = h.isReference := by
  cases h <;> rfl

/-- A classified hint has all that its strategy needs. -/
structure Classified.IsComplete (c : Classified) : Prop where
  notReduced : c.sign.isIn .reduced = false
  origin : c.sign.strategy.emit.needsOrigin = true → c.origin.isSome = true
  data : c.data.serves c.sign.strategy.emit = true
  reference : c.sign = .forwardRef → c.hint.isReference = true
  pairs : c.sign.isIn .mapping = true → c.children = [] ∨ c.children.length = 2
  items : c.sign.isIn .singleArgContainer = true → c.children.length ≤ 1

/-- The hints that are classified where the check of a classified hint is built, each with its
context. -/
inductive Classified.Part (b : Builder) (ctx : Context) (c : Classified) : Context → Hint → Prop
  | child {h : Hint} (isChild : h ∈ c.children) : Part b ctx c ctx.nested h
  /-- The members of unions in the argument of `type`. -/
  | member {h x : Hint} {d : Classified} (isType : c.sign = .type)
    (argument : Part b ctx c ctx.nested h)
    (classified : h.classify b.catalog b.substitutes ctx.nested = .ok d)
    (isUnion : d.sign = .union) (isMember : x ∈ d.children) : Part b ctx c ctx.nested x
  | base {k : ClassId} {substitutions : List (Hint × Hint)} {supers : List Hint} {h : Hint}
    (data : c.data = .generic k substitutions supers) (isBase : h ∈ supers) :
    Part b ctx c (ctx.bindAll substitutions).nested h
  | field {k : ClassId} {substitutions : List (Hint × Hint)} {supers : List Hint}
    {entry : String × Hint} (data : c.data = .generic k substitutions supers)
    (isField : entry ∈ Builder.boundFields b.catalog k substitutions) :
    Part b ctx c (ctx.bindAll substitutions).nested entry.2

/-- The hints that are classified inherit what the classified hint has. -/
theorem Classified.Part.holds {b : Builder} {P : Hint → Prop}
    (hereditary : Hereditary b.catalog b.substitutes P) {ctx near : Context} {c : Classified}
    {h : Hint} (keeps : ctx.Keeps P) (holds : c.Holds b.catalog P) (part : c.Part b ctx near h) :
    near.Keeps P ∧ P h := by
  induction part with
  | child isChild => exact ⟨keeps.nested, hereditary.ofChildren holds _ isChild⟩
  | member _ _ classified _ isMember ih =>
    have holdsArgument := hereditary.ofClassify keeps.nested ih.2 classified
    exact ⟨keeps.nested, hereditary.ofChildren holdsArgument _ isMember⟩
  | base data isBase =>
    exact ⟨(keeps.bindAll (hereditary.ofArguments holds data)).nested,
      hereditary.ofSupers holds data _ isBase⟩
  | field data isField =>
    exact ⟨(keeps.bindAll (hereditary.ofArguments holds data)).nested,
      hereditary.ofBoundFields holds data _ isField⟩

namespace Reading

variable {m : Type → Type} (r : Reading m) {excused : HintError → Prop} {sense : Sense m}
  {ctx : Context} {c : Classified}

/-- Reading ends with a result or with an excused error. -/
abbrev Settles {α : Type} (excused : HintError → Prop) : Except HintError α → Prop :=
  Ends excused fun _ => True

/-- Whatever is missing from the hint, the error is excused. -/
def Forgives (excused : HintError → Prop) (c : Classified) : Prop :=
  ¬ c.IsComplete → ∀ shown reason, excused (.unsupported shown) ∧ excused (.malformed shown reason)

theorem settles_originClasses (forgives : Forgives excused c)
    (needs : c.sign.strategy.emit.needsOrigin = true) : Settles excused (r.originClasses c) := by
  unfold originClasses
  split
  · exact trivial
  · next missing =>
    refine (forgives (fun complete => ?_) _ "").1
    have present := complete.origin needs
    rw [missing] at present
    cases present

theorem settles_reference (forgives : Forgives excused c) (isReference : c.sign = .forwardRef)
    (ctx : Context) : Settles excused (r.reference ctx c.hint) := by
  unfold reference
  split
  · next missing =>
    refine (forgives (fun complete => ?_) _ "").1
    have present := complete.reference isReference
    rw [← Hint.isSome_ofHint? _ ctx, missing] at present
    cases present
  · exact trivial

theorem settles_members {member : Hint → Except HintError (Option (Test m))} {hints : List Hint}
    (each : ∀ h ∈ hints, Settles excused (member h)) (previous : Option Hint) :
    Settles excused (members member previous hints) := by
  induction hints generalizing previous with
  | nil => exact trivial
  | cons h rest ih =>
    have others := ih fun h isMember => each h (List.mem_cons_of_mem _ isMember)
    rw [members]
    split
    · exact others previous
    · refine (each h (by simp)).bind fun t _ => ?_
      cases t with
      | none => exact trivial
      | some t => exact (others (some h)).bind fun _ _ => trivial

variable [Monad m]

/-- The tests that a classified argument of `type` asks for are found if those of its members
are. -/
theorem settles_subclassTestsOf {member : Hint → Except HintError (List (Test m))}
    (forgives : Forgives excused c)
    (members : c.sign = .union → ∀ x ∈ c.children, Settles excused (member x)) :
    Settles excused (r.subclassTestsOf ctx member c) := by
  unfold subclassTestsOf
  split
  · exact trivial
  · next isUnion => exact (Ends.mapM (members isUnion)).bind fun _ _ => trivial
  · next isReference =>
    exact (r.settles_reference forgives isReference ctx.nested).bind fun _ _ => trivial
  · split <;> exact trivial

section

variable (forgives : Forgives excused c)
  (children : ∀ h ∈ c.children, Settles excused (r.inside sense ctx h))
include forgives children

theorem settles_tuple (isTuple : c.sign.strategy.emit = .tupleFixed) :
    Settles excused (r.tuple sense ctx c) := by
  refine (r.settles_originClasses forgives (by rw [isTuple]; rfl)).bind fun _ _ => ?_
  exact (Ends.mapM children).bind fun _ _ => trivial

theorem settles_container (needs : c.sign.strategy.emit.needsOrigin = true)
    (select : Value → List Value) : Settles excused (r.container sense ctx c select) := by
  refine (r.settles_originClasses forgives needs).bind fun _ _ => ?_
  split
  · exact trivial
  · next h _ isChildren => exact (children h (by simp [isChildren])).bind fun _ _ => trivial

theorem settles_mapping (isMapping : c.sign.strategy.emit = .mapping) :
    Settles excused (r.mapping sense ctx c) := by
  refine (r.settles_originClasses forgives (by rw [isMapping]; rfl)).bind fun _ _ => ?_
  split
  · next key value isChildren =>
    refine (children key (by simp [isChildren])).bind fun _ _ => ?_
    exact (children value (by simp [isChildren])).bind fun _ _ => trivial
  · exact trivial

end

theorem settles_classValue
    (tests : ∀ h ∈ c.children, Settles excused (r.subclassTests ctx (r.unionBound ctx h) h)) :
    Settles excused (r.classValue ctx c) := by
  unfold classValue
  dsimp only
  split
  · exact trivial
  · next h _ isChildren =>
    refine (tests h (by simp [isChildren])).bind fun found _ => ?_
    split <;> exact trivial

theorem settles_genericClass {k : ClassId} {substitutions : List (Hint × Hint)}
    {supers : List Hint}
    (bases : ∀ h ∈ supers, Settles excused (r.inside sense (ctx.bindAll substitutions) h))
    (fields : ∀ entry ∈ Builder.boundFields r.catalog k substitutions,
      Settles excused (r.inside sense (ctx.bindAll substitutions) entry.2)) :
    Settles excused (r.genericClass sense ctx k substitutions supers) := by
  have attributes : ∀ entry ∈ Builder.boundFields r.catalog k substitutions,
      Settles excused (r.field sense (ctx.bindAll substitutions) entry) :=
    fun entry isField => (fields entry isField).bind fun _ _ => trivial
  refine (Ends.mapM bases).bind fun _ _ => ?_
  exact (Ends.mapM attributes).bind fun _ _ => trivial

/-- Reading a classified hint settles if it has all that it needs, and reading what is inside
settles. -/
theorem settles_shape (forgives : Forgives excused c)
    (children : ∀ h ∈ c.children, Settles excused (r.inside sense ctx h))
    (inner : ∀ validators inner, c.data = .annotated validators inner →
      Settles excused (sense ctx inner))
    (tests : c.sign = .type → ∀ h ∈ c.children,
      Settles excused (r.subclassTests ctx (r.unionBound ctx h) h))
    (bases : ∀ k substitutions supers, c.data = .generic k substitutions supers →
      ∀ h ∈ supers, Settles excused (r.inside sense (ctx.bindAll substitutions) h))
    (fields : ∀ k substitutions supers, c.data = .generic k substitutions supers →
      ∀ entry ∈ Builder.boundFields r.catalog k substitutions,
        Settles excused (r.inside sense (ctx.bindAll substitutions) entry.2)) :
    Settles excused (r.shape sense ctx c) := by
  have missing (unserved : c.data.serves c.sign.strategy.emit = false) (shown reason : String) :
      excused (.unsupported shown) ∧ excused (.malformed shown reason) := by
    refine forgives (fun complete => ?_) shown reason
    rw [complete.data] at unserved
    cases unserved
  unfold shape
  cases emitted : c.sign.strategy.emit with
  | pass | fail => exact trivial
  | isInstance | originOnly =>
    exact (r.settles_originClasses forgives (by rw [emitted]; rfl)).bind fun _ _ => trivial
  | union => exact (settles_members children _).bind fun _ _ => trivial
  | literal =>
    cases data : c.data with
    | literals => exact trivial
    | _ => exact (missing (by rw [data, emitted]; rfl) _ _).2
  | validators =>
    cases data : c.data with
    | annotated => exact (inner _ _ data).bind fun _ _ => trivial
    | _ => exact (missing (by rw [data, emitted]; rfl) _ "").1
  | tupleFixed => exact r.settles_tuple forgives children emitted
  | sequence | reiterable => exact r.settles_container forgives children (by rw [emitted]; rfl) _
  | mapping => exact r.settles_mapping forgives children emitted
  | isSubclass =>
    have isType : c.sign = .type := by
      cases isSign : c.sign <;> rw [isSign] at emitted <;> first | rfl | cases emitted
    exact r.settles_classValue (tests isType)
  | generic =>
    cases data : c.data with
    | generic k substitutions supers =>
      exact r.settles_genericClass (bases _ _ _ data) (fields _ _ _ data)
    | _ => exact (missing (by rw [data, emitted]; rfl) _ "").1
  | forwardRef =>
    have isReference : c.sign = .forwardRef := by
      cases isSign : c.sign <;> rw [isSign] at emitted <;> first | rfl | cases emitted
    exact (r.settles_reference forgives isReference ctx).bind fun _ _ => trivial
  | typedDict =>
    cases data : c.data with
    | typedDict => exact trivial
    | _ => exact (missing (by rw [data, emitted]; rfl) _ "").1
  | reduced =>
    refine (forgives (fun complete => ?_) _ "").1
    have notReduced := complete.notReduced
    rw [Sign.isIn, emitted] at notReduced
    cases notReduced

end Reading
end HintCheck
