import HintCheck.Check
import HintCheck.Expression

/-!
Checks as expressions. The value under a node is read where the node first needs it: it is taken
from the value around it and assigned to the node's variable, which every later test reads.
-/
namespace HintCheck

/-- The variable of a node, and the source that it is still to be assigned from. -/
structure Pith where
  name : String
  pending : Option Source
deriving DecidableEq, Repr

namespace Pith

/-- A variable that has its value. -/
def bound (name : String) : Pith :=
  ⟨name, none⟩

/-- Reads the variable, which assigns it if that has not happened yet. -/
def take (p : Pith) : Operand × Pith :=
  match p.pending with
  | some source => (.assign p.name source, bound p.name)
  | none => (.read p.name, p)

end Pith

/-- A class as it is written. -/
def ClassOperand.written (cat : Catalog) : ClassOperand → String
  | inline c => (cat.get c).name
  | bound key _ => key.text

/-- The test of one literal. A truth value is no number, though its class is one of numbers. -/
def LiteralOperand.expression (cat : Catalog) (literal : LiteralOperand) (x : Operand)
    (name : String) : Expression :=
  match literal.key, literal.value with
  | some key, _ => .isObject x key.text
  | none, .none => .isObject x (Value.none.text cat)
  | none, .bool b => .isObject x ((Value.bool b).text cat)
  | none, .int n =>
    .conjunction
      [.isInstance x ["int"], .negation (.isInstance (.read name) ["bool"]),
        .equals (.read name) ((Value.int n).text cat)]
  | none, value =>
    .conjunction
      [.isInstance x [(cat.get value.classOf).name], .equals (.read name) (value.text cat)]

namespace Check

/-- The tests of some literals. -/
def literalExpressions (cat : Catalog) : List LiteralOperand → Pith → List Expression × Pith
  | [], p => ([], p)
  | l :: rest, p =>
    let (x, p) := p.take
    let (es, p) := literalExpressions cat rest p
    (l.expression cat x p.name :: es, p)

/-- The calls of some validators. -/
def validatorExpressions : List ValidatorOperand → Pith → List Expression × Pith
  | [], p => ([], p)
  | v :: rest, p =>
    let (x, p) := p.take
    let (es, p) := validatorExpressions rest p
    (.validated v.key.text x :: es, p)

/-- A test of the outermost class, and the variable after it. -/
def originExpression (cat : Catalog) (origin : List ClassOperand) (p : Pith) : Expression × Pith :=
  let (x, p) := p.take
  (.isInstance x (origin.map (ClassOperand.written cat)), p)

/-- The variable of a check, with its value. -/
def ownPith (c : Check) : Pith :=
  .bound c.subject.pith

/-- The variable of a check of a part, before it is assigned. -/
def pithIn (c : Check) (source : Source) : Pith :=
  ⟨c.subject.pith, some source⟩

/-- A container is empty, or the tests on its items hold. -/
def unlessEmpty (whole : String) (e : Expression) : Expression :=
  .disjunction [.negation (.truth (.read whole)), e]

mutual

/-- A check as an expression, and its variable after it. -/
def expressionFrom (cat : Catalog) : Check → Pith → Expression × Pith
  | pass _, p => (.const true, p)
  | fail _, p => (.const false, p)
  | isInstance _ classes, p => originExpression cat classes p
  | isSubclass _ classes, p =>
    let (x, p) := p.take
    (.isSubclass x (classes.map (ClassOperand.written cat)), p)
  | forwardInstance _ ref, p =>
    let (x, p) := p.take
    (.referenceInstance ref.key.text x, p)
  | forwardSubclass _ ref, p =>
    let (x, p) := p.take
    (.referenceSubclass ref.key.text x, p)
  | any _ members, p =>
    let (es, p) := expressionsFrom cat members p
    (.anyOf es, p)
  | all _ parts, p =>
    let (es, p) := expressionsFrom cat parts p
    (.allOf es, p)
  | sequence _ origin item exhaustive, p =>
    let (head, p) := originExpression cat origin p
    let inside :=
      if exhaustive then
        .every (expressionFrom cat item item.ownPith).1 (.items item.subject.pith p.name)
      else unlessEmpty p.name (expressionFrom cat item (item.pithIn (.sampled p.name))).1
    (.conjunction [head, inside], p)
  | reiterable _ origin item exhaustive, p =>
    let (head, p) := originExpression cat origin p
    let inside :=
      if exhaustive then
        .every (expressionFrom cat item item.ownPith).1 (.items item.subject.pith p.name)
      else unlessEmpty p.name (expressionFrom cat item (item.pithIn (.first p.name))).1
    (.conjunction [head, inside], p)
  | mapping _ origin key value exhaustive, p =>
    let (head, p) := originExpression cat origin p
    match key, value with
    | none, none => (head, p)
    | some k, none =>
      let inside :=
        if exhaustive then .every (expressionFrom cat k k.ownPith).1 (.items k.subject.pith p.name)
        else unlessEmpty p.name (expressionFrom cat k (k.pithIn (.first p.name))).1
      (.conjunction [head, inside], p)
    | none, some v =>
      let inside :=
        if exhaustive then .every (expressionFrom cat v v.ownPith).1 (.values v.subject.pith p.name)
        else unlessEmpty p.name (expressionFrom cat v (v.pithIn (.firstValue p.name))).1
      (.conjunction [head, inside], p)
    | some k, some v =>
      let inside :=
        if exhaustive then
          .every
            (.conjunction [(expressionFrom cat k k.ownPith).1, (expressionFrom cat v v.ownPith).1])
            (.pairs k.subject.pith v.subject.pith p.name)
        else
          let held := Source.under p.name k.subject.pith
          unlessEmpty p.name (.conjunction
            [(expressionFrom cat k (k.pithIn (.first p.name))).1,
              (expressionFrom cat v (v.pithIn held)).1])
      (.conjunction [head, inside], p)
  | tupleFixed _ origin len items, p =>
    let (head, p) := originExpression cat origin p
    let positions := positionExpressions cat items p.name
    (.conjunction (head :: .hasLength (.read p.name) len :: positions), p)
  | literal _ values, p =>
    let (es, p) := literalExpressions cat values p
    (.anyOf es, p)
  | validators _ child vs, p =>
    if child.isPass then
      let (es, p) := validatorExpressions vs p
      (.allOf es, p)
    else
      let (e, p) := expressionFrom cat child p
      let (es, p) := validatorExpressions vs p
      (.allOf (e :: es), p)
  | attr _ name child, p =>
    let (x, p) := p.take
    let inside := (expressionFrom cat child (child.pithIn (.attr p.name name))).1
    (.disjunction [.negation (.hasAttr x name), inside], p)
  | typedDict _ origin required, p =>
    let (head, p) := originExpression cat origin p
    (.conjunction (head :: required.map fun key => .hasKey key (.read p.name)), p)
termination_by structural c => c

/-- Checks of the same value, from left to right. -/
def expressionsFrom (cat : Catalog) : List Check → Pith → List Expression × Pith
  | [], p => ([], p)
  | c :: rest, p =>
    let (e, p) := expressionFrom cat c p
    let (es, p) := expressionsFrom cat rest p
    (e :: es, p)
termination_by structural cs => cs

/-- The checks of the items at some positions. -/
def positionExpressions (cat : Catalog) : List (Nat × Check) → String → List Expression
  | [], _ => []
  | (index, c) :: rest, whole =>
    (expressionFrom cat c (c.pithIn (.position whole index))).1 ::
      positionExpressions cat rest whole
termination_by structural items => items

end

/-- A check as an expression about a variable that has its value. -/
def expression (cat : Catalog) (c : Check) : Expression :=
  (expressionFrom cat c c.ownPith).1

/-- A check as it is written. -/
def text (cat : Catalog) (c : Check) : String :=
  (c.expression cat).text

end Check
end HintCheck
