import HintCheck.Proofs.Assignment
import HintCheck.Text.Lines

/-!
What is mentioned in the text of a check. A check that takes its value writes the operand that it
takes it with, and the texts of the checks inside it are parts of its own text. So a sequence whose
item is sampled shows in the text of every check around it, unless the check of the item does not
look at the item at all; and where no random number is mentioned, none matters.
-/
namespace HintCheck

/-! ### Texts in texts -/

namespace Text

theorem occurs_iff {needle text : List Char} : occurs needle text = true ↔ needle <:+: text := by
  induction text with
  | nil => simp [occurs]
  | cons c rest ih => simp [occurs, ih, List.infix_cons_iff]

/-- A text is part of another. -/
def IsPart (part whole : String) : Prop :=
  part.toList <:+: whole.toList

namespace IsPart

variable {part mid whole : String}

theorem refl (text : String) : IsPart text text :=
  List.infix_refl _

theorem trans (first : IsPart part mid) (second : IsPart mid whole) : IsPart part whole :=
  List.IsInfix.trans first second

theorem before (isPart : IsPart part whole) (more : String) : IsPart part (whole ++ more) := by
  rw [IsPart, String.toList_append]
  exact List.IsInfix.trans isPart (List.prefix_append _ _).isInfix

theorem behind (isPart : IsPart part whole) (more : String) : IsPart part (more ++ whole) := by
  rw [IsPart, String.toList_append]
  exact List.IsInfix.trans isPart (List.suffix_append _ _).isInfix

theorem intercalate (between : String) {texts : List String} (member : part ∈ texts) :
    IsPart part (between.intercalate texts) := by
  induction texts with
  | nil => cases member
  | cons text rest ih =>
    cases rest with
    | nil =>
      rw [List.mem_singleton.mp member, String.intercalate_singleton]
      exact refl _
    | cons next rest =>
      rw [String.intercalate_cons_cons]
      rcases List.mem_cons.mp member with rfl | later
      · exact ((refl _).before _).before _
      · exact (ih later).behind _

end IsPart
end Text

open Text (IsPart)

namespace Expression

variable {e : Expression} {es : List Expression}

theorem operand_isPart {x : Operand} (isTest : e.tested? = some x) : IsPart x.text e.text := by
  have here := IsPart.refl x.text
  cases e with
  | isInstance | isSubclass =>
    cases isTest
    exact (((here.behind _).before _).before _).before _
  | referenceInstance | referenceSubclass | validated =>
    cases isTest
    exact (here.behind _).before _
  | isObject | equals =>
    cases isTest
    exact (here.before _).before _
  | hasKey =>
    cases isTest
    exact here.behind _
  | hasAttr =>
    cases isTest
    exact (((here.behind _).before _).before _).before _
  | hasLength =>
    cases isTest
    exact ((here.behind _).before _).before _
  | truth =>
    cases isTest
    exact here
  | _ => cases isTest

theorem mem_texts (member : e ∈ es) : e.text ∈ texts es := by
  induction es with
  | nil => cases member
  | cons first rest ih =>
    rcases List.mem_cons.mp member with rfl | later
    · exact List.mem_cons_self
    · exact List.mem_cons_of_mem _ (ih later)

theorem isPart_conjunction (member : e ∈ es) : IsPart e.text (conjunction es).text :=
  ((IsPart.intercalate " and " (mem_texts member)).behind _).before _

theorem operand_isPart_first {x : Operand} (isTest : e.tested? = some x) :
    IsPart x.text (conjunction (e :: es)).text :=
  (operand_isPart isTest).trans (isPart_conjunction List.mem_cons_self)

theorem isPart_disjunction (member : e ∈ es) : IsPart e.text (disjunction es).text :=
  ((IsPart.intercalate " or " (mem_texts member)).behind _).before _

theorem isPart_every (e : Expression) (range : Range) : IsPart e.text (every e range).text :=
  ((((IsPart.refl _).behind _).before _).before _).before _

theorem isPart_allOf (member : e ∈ es) : IsPart e.text (allOf es).text := by
  rcases es with _ | ⟨first, _ | ⟨second, rest⟩⟩
  · cases member
  · rw [List.mem_singleton.mp member]
    exact .refl _
  · exact isPart_conjunction member

theorem isPart_anyOf (member : e ∈ es) : IsPart e.text (anyOf es).text := by
  rcases es with _ | ⟨first, _ | ⟨second, rest⟩⟩
  · cases member
  · rw [List.mem_singleton.mp member]
    exact .refl _
  · exact isPart_disjunction member

end Expression

namespace Check

variable {c d : Check} {cs : List Check} {cat : Catalog}

theorem isPart_every (head e : Expression) (range : Range) :
    IsPart e.text (Expression.conjunction [head, .every e range]).text :=
  (Expression.isPart_every e range).trans (Expression.isPart_conjunction (by simp))

theorem isPart_unlessEmpty (head e : Expression) (whole : String) :
    IsPart e.text (Expression.conjunction [head, unlessEmpty whole e]).text := by
  have inside : IsPart e.text (unlessEmpty whole e).text :=
    Expression.isPart_disjunction (List.mem_cons_of_mem _ List.mem_cons_self)
  exact inside.trans (Expression.isPart_conjunction (by simp))

/-- The expressions of checks of the same value, one for each. -/
theorem testOn_mem (cat : Catalog) (member : c ∈ cs) (p : Pith) :
    ∃ q, c.testOn cat q ∈ (expressionsFrom cat cs p).1 := by
  induction cs generalizing p with
  | nil => cases member
  | cons first rest ih =>
    have opened : (expressionsFrom cat (first :: rest) p).1 =
        first.testOn cat p :: (expressionsFrom cat rest (expressionFrom cat first p).2).1 := rfl
    rw [opened]
    rcases List.mem_cons.mp member with rfl | later
    · exact ⟨p, List.mem_cons_self⟩
    · obtain ⟨q, isTest⟩ := ih later (expressionFrom cat first p).2
      exact ⟨q, List.mem_cons_of_mem _ isTest⟩

/-- The text of a check inside a check is part of its text. -/
theorem child_isPart (child : d ∈ c.children) (tests : d.isPass = false) (p : Pith) :
    ∃ q, IsPart (d.testOn cat q).text (c.testOn cat p).text := by
  cases c with
  | any s nodes =>
    obtain ⟨q, isTest⟩ := testOn_mem cat child p
    exact ⟨q, Expression.isPart_anyOf isTest⟩
  | all s nodes =>
    obtain ⟨q, isTest⟩ := testOn_mem cat child p
    exact ⟨q, Expression.isPart_allOf isTest⟩
  | sequence s origin item every | reiterable s origin item every =>
    cases List.mem_singleton.mp child
    cases every with
    | true => exact ⟨_, isPart_every _ _ _⟩
    | false => exact ⟨_, isPart_unlessEmpty _ _ _⟩
  | mapping s origin key value every =>
    have left {e other : Expression} : IsPart e.text (Expression.conjunction [e, other]).text :=
      Expression.isPart_conjunction (by simp)
    have right {e other : Expression} : IsPart e.text (Expression.conjunction [other, e]).text :=
      Expression.isPart_conjunction (by simp)
    rcases List.mem_append.mp child with isKey | isValue
    · cases Option.mem_toList.mp isKey
      cases value with
      | none =>
        cases every with
        | true => exact ⟨_, isPart_every _ _ _⟩
        | false => exact ⟨_, isPart_unlessEmpty _ _ _⟩
      | some value =>
        cases every with
        | true => exact ⟨_, left.trans (isPart_every _ _ _)⟩
        | false => exact ⟨_, left.trans (isPart_unlessEmpty _ _ _)⟩
    · cases Option.mem_toList.mp isValue
      cases key with
      | none =>
        cases every with
        | true => exact ⟨_, isPart_every _ _ _⟩
        | false => exact ⟨_, isPart_unlessEmpty _ _ _⟩
      | some key =>
        cases every with
        | true => exact ⟨_, right.trans (isPart_every _ _ _)⟩
        | false => exact ⟨_, right.trans (isPart_unlessEmpty _ _ _)⟩
  | tupleFixed s origin len items =>
    obtain ⟨entry, among, rfl⟩ := List.mem_map.mp child
    have isTest : entry.2.testOn cat (entry.2.pithIn (.position p.take.2.name entry.1)) ∈
        positionExpressions cat items p.take.2.name := by
      rw [positionExpressions_eq, placements, List.map_map]
      exact List.mem_map_of_mem among
    exact ⟨_, Expression.isPart_conjunction
      (List.mem_cons_of_mem _ (List.mem_cons_of_mem _ isTest))⟩
  | validators s child vs =>
    cases List.mem_singleton.mp child
    rw [testOn_validators, if_neg (by simp [tests])]
    exact ⟨p, Expression.isPart_allOf List.mem_cons_self⟩
  | attr s name child =>
    cases List.mem_singleton.mp child
    exact ⟨_, Expression.isPart_disjunction (List.mem_cons_of_mem _ List.mem_cons_self)⟩
  | _ => cases child

theorem literal_isPart (l : LiteralOperand) (x : Operand) (name : String) :
    IsPart x.text (l.expression cat x name).text := by
  unfold LiteralOperand.expression
  split
  · exact Expression.operand_isPart rfl
  · exact Expression.operand_isPart rfl
  · exact Expression.operand_isPart rfl
  · exact Expression.operand_isPart_first rfl
  · exact Expression.operand_isPart_first rfl

theorem validators_isPart {vs : List ValidatorOperand} (some : vs.isEmpty = false) (p : Pith) :
    ∃ e ∈ (validatorExpressions vs p).1, IsPart p.take.1.text e.text := by
  cases vs with
  | nil => cases some
  | cons v rest =>
    exact ⟨.validated v.key.text p.take.1, List.mem_cons_self, Expression.operand_isPart rfl⟩

theorem members_isPart (each : ∀ c ∈ cs, c.takes = true → ∀ p : Pith,
      IsPart p.take.1.text (c.testOn cat p).text) (taken : takesAny cs = true) (p : Pith) :
    ∃ e ∈ (expressionsFrom cat cs p).1, IsPart p.take.1.text e.text := by
  induction cs with
  | nil => cases taken
  | cons c rest ih =>
    obtain ⟨first, others⟩ := List.forall_mem_cons.mp each
    have opened : (expressionsFrom cat (c :: rest) p).1 =
        c.testOn cat p :: (expressionsFrom cat rest (expressionFrom cat c p).2).1 := rfl
    rw [opened]
    cases takes : c.takes with
    | true => exact ⟨_, List.mem_cons_self, first takes p⟩
    | false =>
      rw [takesAny, takes, Bool.false_or] at taken
      obtain ⟨e, member, isPart⟩ := ih others taken
      rw [expressionFrom_snd, takes, if_neg Bool.false_ne_true]
      exact ⟨e, List.mem_cons_of_mem _ member, isPart⟩

/-- The value that a check takes is written into its text. -/
theorem operand_isPart (cat : Catalog) (taken : c.takes = true) (p : Pith) :
    IsPart p.take.1.text (c.testOn cat p).text := by
  induction c using induction_children generalizing p with
  | step c ih =>
    cases c with
    | pass | fail => cases taken
    | isInstance | isSubclass =>
      exact ((((IsPart.refl _).behind _).before _).before _).before _
    | forwardInstance | forwardSubclass =>
      exact ((IsPart.refl _).behind _).before _
    | any s nodes =>
      obtain ⟨e, member, isPart⟩ := members_isPart ih taken p
      exact isPart.trans (Expression.isPart_anyOf member)
    | all s nodes =>
      obtain ⟨e, member, isPart⟩ := members_isPart ih taken p
      exact isPart.trans (Expression.isPart_allOf member)
    | literal s values =>
      cases values with
      | nil => cases taken
      | cons l rest =>
        exact (literal_isPart l p.take.1 _).trans (Expression.isPart_anyOf List.mem_cons_self)
    | validators s child vs =>
      rw [testOn_validators]
      cases passes : child.isPass with
      | true =>
        have silent : child.takes = false := by cases child <;> first | rfl | cases passes
        have some : vs.isEmpty = false := by simpa [takes, silent] using taken
        obtain ⟨e, member, isPart⟩ := validators_isPart some p
        exact isPart.trans (Expression.isPart_allOf member)
      | false =>
        cases taken' : child.takes with
        | true =>
          have inside := ih child (by simp [children]) taken' p
          exact inside.trans (Expression.isPart_allOf List.mem_cons_self)
        | false =>
          have some : vs.isEmpty = false := by simpa [takes, taken'] using taken
          obtain ⟨e, member, isPart⟩ := validators_isPart some p
          rw [expressionFrom_snd, taken', if_neg Bool.false_ne_true]
          exact isPart.trans (Expression.isPart_allOf (List.mem_cons_of_mem _ member))
    | mapping s origin key value =>
      cases key <;> cases value
      · exact Expression.operand_isPart rfl
      all_goals exact Expression.operand_isPart_first rfl
    | attr s name child =>
      have guarded : IsPart p.take.1.text (Expression.negation (.hasAttr p.take.1 name)).text :=
        ((((IsPart.refl _).behind _).before _).before _).before _ |>.behind _
      exact guarded.trans (Expression.isPart_disjunction List.mem_cons_self)
    | sequence | reiterable | tupleFixed | typedDict => exact Expression.operand_isPart_first rfl

/-! ### Checks that need no random number -/

/-- Wherever one item of a sequence is tested, the test does not look at it. -/
def Steady (c : Check) : Prop :=
  ∀ s origin item, c.HasNode (.sequence s origin item false) → item.takes = false

/-- All sequences are tested in full. -/
def Thorough (c : Check) : Prop :=
  ∀ s origin item, ¬ c.HasNode (.sequence s origin item false)

theorem Thorough.steady (thorough : c.Thorough) : c.Steady :=
  fun s origin item isNode => absurd isNode (thorough s origin item)

theorem Steady.node (steady : c.Steady) (isNode : c.HasNode d) : d.Steady :=
  fun s origin item isNodeToo => steady s origin item (isNode.trans isNodeToo)

theorem Formed.thorough {payload : Payload} {scope : Scope} (formed : c.Formed payload true scope) :
    c.Thorough := by
  intro s origin item isNode
  cases formed.ofNode isNode with
  | mk own _ => exact Bool.false_ne_true own.2.2

/-- A sample that is looked at is selected in the text. -/
theorem random_isPart {s : Subject} {origin : List ClassOperand} {item : Check}
    (isNode : c.HasNode (.sequence s origin item false)) (taken : item.takes = true) (p : Pith) :
    IsPart randomName (c.testOn cat p).text := by
  induction isNode using Relation.ReflTransGen.head_induction_on generalizing p with
  | refl =>
    have sampled (whole : String) : IsPart randomName (Source.sampled whole).text :=
      ((((IsPart.refl _).behind _).before _).before _).before _
    have assigned (name whole : String) :
        IsPart randomName (Operand.assign name (.sampled whole)).text :=
      ((sampled whole).behind _).before _
    have looked := operand_isPart cat taken (item.pithIn (.sampled p.take.2.name))
    exact ((assigned _ _).trans looked).trans (isPart_unlessEmpty _ _ _)
  | @head c d child isNode ih =>
    have tests : d.isPass = false := by
      cases d with
      | pass =>
        rcases Relation.ReflTransGen.cases_head isNode with same | ⟨_, child, _⟩
        · cases same
        · cases child
      | _ => rfl
    obtain ⟨q, isPart⟩ := child_isPart child tests p
    exact (ih q).trans isPart

/-- A check that does not mention the random number does not need one. -/
theorem steady_of_text (absent : Text.occurs randomName.toList (c.text cat).toList = false) :
    c.Steady := by
  intro s origin item isNode
  by_contra taken
  have isPart : IsPart randomName (c.text cat) :=
    random_isPart isNode (by simpa using taken) c.ownPith
  rw [Text.occurs_iff.mpr isPart] at absent
  cases absent

end Check

end HintCheck
