import HintCheck.Proofs.Balancing
import HintCheck.Proofs.Looking

/-!
How checks are written. The text of an expression is balanced if its names are plain, its literals
are balanced and the names that it writes between quotes can stand there. A check that was built has
such an expression: the names of its variables and of what it closes over are generated, classes
that it spells out are builtin, and literals are escaped. Only the names of attributes and of keys
are written as they are.
-/
namespace HintCheck

open Text (Balanced IsPlain Quotable LeavesOpen balanced_of_isPlain)

/-! ### Operands -/

/-- Variables have plain names, and the name of an attribute can stand between quotes. -/
def Source.Legible : Source → Prop
  | sampled whole | first whole | firstValue whole | position whole _ => IsPlain whole
  | under whole key => IsPlain whole ∧ IsPlain key
  | attr whole name => IsPlain whole ∧ Quotable name

theorem Source.Legible.balanced {source : Source} (legible : source.Legible) :
    Balanced source.text := by
  cases source with
  | sampled whole =>
    have named := balanced_of_isPlain legible
    have random : Balanced randomName := balanced_of_isPlain (by decide)
    have opened := (named.next (b := "[") rfl (by decide)).balanced random
    have index := opened.next (b := " % len(") rfl (by decide)
    exact (index.balanced named).next rfl (by decide)
  | first whole | firstValue whole =>
    have opened : LeavesOpen "next(iter(" ⟨['(', '('], none⟩ := .ofScan rfl (by decide)
    exact (opened.balanced (balanced_of_isPlain legible)).next rfl (by decide)
  | under whole key =>
    have opened := (balanced_of_isPlain legible.1).next (b := "[") rfl (by decide)
    exact (opened.balanced (balanced_of_isPlain legible.2)).next rfl (by decide)
  | position whole index =>
    have opened := (balanced_of_isPlain legible).next (b := "[") rfl (by decide)
    exact (opened.balanced (balanced_of_isPlain (Text.isPlain_toString index))).next rfl (by decide)
  | attr whole name =>
    have opened : LeavesOpen "getattr(" ⟨['('], none⟩ := .ofScan rfl (by decide)
    have quote := (opened.balanced (balanced_of_isPlain legible.1)).next (b := ", '") rfl
      (by decide)
    exact (quote.quoted legible.2).next rfl (by decide)

def Operand.Legible : Operand → Prop
  | read name => IsPlain name
  | assign name source => IsPlain name ∧ source.Legible

theorem Operand.Legible.balanced {x : Operand} (legible : x.Legible) : Balanced x.text := by
  cases x with
  | read name => exact balanced_of_isPlain legible
  | assign name source =>
    have opened : LeavesOpen "(" ⟨['('], none⟩ := .ofScan rfl (by decide)
    have named := (opened.balanced (balanced_of_isPlain legible.1)).next (b := " := ") rfl
      (by decide)
    exact (named.balanced legible.2.balanced).next rfl (by decide)

def Range.Legible : Range → Prop
  | items item whole => IsPlain item ∧ IsPlain whole
  | values value whole => IsPlain value ∧ IsPlain whole
  | pairs key value whole => IsPlain key ∧ IsPlain value ∧ IsPlain whole

theorem Range.Legible.balanced {range : Range} (legible : range.Legible) : Balanced range.text := by
  have within : Balanced " in " := balanced_of_isPlain (by decide)
  cases range with
  | items item whole =>
    exact ((balanced_of_isPlain legible.1).append within).append (balanced_of_isPlain legible.2)
  | values value whole =>
    have named := ((balanced_of_isPlain legible.1).append within).append
      (balanced_of_isPlain legible.2)
    exact named.next rfl (by decide)
  | pairs key value whole =>
    have pair : Balanced (key ++ ", " ++ value) :=
      ((balanced_of_isPlain legible.1).next rfl (by decide)).balanced
        (balanced_of_isPlain legible.2.1)
    exact ((pair.append within).append (balanced_of_isPlain legible.2.2)).next rfl (by decide)

/-! ### Expressions -/

namespace Expression

mutual

/-- All that an expression is written with is legible. -/
def Legible : Expression → Prop
  | const _ => True
  | isInstance x classes | isSubclass x classes => x.Legible ∧ ∀ name ∈ classes, IsPlain name
  | referenceInstance key x | referenceSubclass key x | validated key x => x.Legible ∧ IsPlain key
  | isObject x shown | equals x shown => x.Legible ∧ Balanced shown
  | hasKey name x | hasAttr x name => x.Legible ∧ Quotable name
  | hasLength x _ | truth x => x.Legible
  | negation e => Legible e
  | conjunction es | disjunction es => LegibleAll es
  | every e range => Legible e ∧ range.Legible
termination_by structural e => e

def LegibleAll : List Expression → Prop
  | [] => True
  | e :: rest => Legible e ∧ LegibleAll rest
termination_by structural es => es

end

theorem legibleAll_iff {es : List Expression} : LegibleAll es ↔ ∀ e ∈ es, e.Legible := by
  induction es with
  | nil => simp [LegibleAll]
  | cons e rest ih => simp [LegibleAll, ih]

theorem legible_allOf {es : List Expression} (each : ∀ e ∈ es, e.Legible) : (allOf es).Legible := by
  match es with
  | [] => exact trivial
  | [e] => exact each e (by simp)
  | _ :: _ :: _ => exact legibleAll_iff.mpr each

theorem legible_anyOf {es : List Expression} (each : ∀ e ∈ es, e.Legible) : (anyOf es).Legible := by
  match es with
  | [] => exact trivial
  | [e] => exact each e (by simp)
  | _ :: _ :: _ => exact legibleAll_iff.mpr each

/-- Texts with something between them, in brackets. -/
theorem balanced_bracketed {between : String} (separates : Balanced between) {texts : List String}
    (each : ∀ text ∈ texts, Balanced text) :
    Balanced ("(" ++ between.intercalate texts ++ ")") := by
  have opened : LeavesOpen "(" ⟨['('], none⟩ := .ofScan rfl (by decide)
  exact (opened.balanced (Text.balanced_intercalate separates each)).next rfl (by decide)

theorem balanced_classesText {names : List String} (plain : ∀ name ∈ names, IsPlain name) :
    Balanced (classesText names) := by
  have several : Balanced ("(" ++ ", ".intercalate names ++ ")") :=
    balanced_bracketed (balanced_of_isPlain (by decide)) fun name member =>
      balanced_of_isPlain (plain name member)
  match names with
  | [name] => exact balanced_of_isPlain (plain name (by simp))
  | [] | _ :: _ :: _ => exact several

/-- A call with one argument. -/
theorem balanced_call {name : String} {x : Operand} (opened : LeavesOpen name ⟨['('], none⟩)
    (legible : x.Legible) : Balanced (name ++ x.text ++ ")") :=
  (opened.balanced legible.balanced).next rfl (by decide)

/-- A test against some classes. -/
theorem balanced_classTest {name : String} {x : Operand} {classes : List String}
    (opened : LeavesOpen name ⟨['('], none⟩) (legible : x.Legible)
    (plain : ∀ name ∈ classes, IsPlain name) :
    Balanced (name ++ x.text ++ ", " ++ classesText classes ++ ")") := by
  have first := (opened.balanced legible.balanced).next (b := ", ") rfl (by decide)
  exact (first.balanced (balanced_classesText plain)).next rfl (by decide)

mutual

/-- The text of a legible expression is balanced. -/
theorem Legible.balanced {e : Expression} (legible : e.Legible) : Balanced e.text := by
  cases e with
  | const b => cases b <;> exact balanced_of_isPlain (by decide)
  | isInstance x classes =>
    exact balanced_classTest (.ofScan rfl (by decide)) legible.1 legible.2
  | isSubclass x classes =>
    exact balanced_classTest (.ofScan rfl (by decide)) legible.1 legible.2
  | referenceInstance key x =>
    exact balanced_call ((balanced_of_isPlain legible.2).next rfl (by decide)) legible.1
  | referenceSubclass key x =>
    exact balanced_call ((balanced_of_isPlain legible.2).next rfl (by decide)) legible.1
  | validated key x =>
    exact balanced_call ((balanced_of_isPlain legible.2).next rfl (by decide)) legible.1
  | isObject x shown =>
    exact (legible.1.balanced.append (balanced_of_isPlain (by decide))).append legible.2
  | equals x shown =>
    exact (legible.1.balanced.append (balanced_of_isPlain (by decide))).append legible.2
  | hasKey key x =>
    have quote : LeavesOpen "'" ⟨[], some Quoted.singleQuote⟩ := .ofScan rfl (by decide)
    exact ((quote.quoted legible.2).next rfl (by decide)).balanced legible.1.balanced
  | hasAttr x name =>
    have opened : LeavesOpen "hasattr(" ⟨['('], none⟩ := .ofScan rfl (by decide)
    have quote := (opened.balanced legible.1.balanced).next (b := ", '") rfl (by decide)
    exact (quote.quoted legible.2).next rfl (by decide)
  | hasLength x len =>
    have opened : LeavesOpen "len(" ⟨['('], none⟩ := .ofScan rfl (by decide)
    have compared : Balanced ("len(" ++ x.text ++ ") == ") :=
      (opened.balanced (Operand.Legible.balanced legible)).next rfl (by decide)
    exact compared.append (balanced_of_isPlain (Text.isPlain_toString len))
  | truth x => exact Operand.Legible.balanced legible
  | negation e =>
    have before : Balanced "not " := balanced_of_isPlain (by decide)
    show Balanced ("not " ++ e.text)
    exact before.append (Legible.balanced legible)
  | conjunction es =>
    show Balanced ("(" ++ " and ".intercalate (texts es) ++ ")")
    exact balanced_bracketed (balanced_of_isPlain (by decide)) (LegibleAll.balanced legible)
  | disjunction es =>
    show Balanced ("(" ++ " or ".intercalate (texts es) ++ ")")
    exact balanced_bracketed (balanced_of_isPlain (by decide)) (LegibleAll.balanced legible)
  | every e range =>
    have opened : LeavesOpen "all(" ⟨['('], none⟩ := .ofScan rfl (by decide)
    have loop := (opened.balanced (Legible.balanced legible.1)).next (b := " for ") rfl (by decide)
    show Balanced ("all(" ++ e.text ++ " for " ++ range.text ++ ")")
    exact (loop.balanced legible.2.balanced).next rfl (by decide)
termination_by structural e

theorem LegibleAll.balanced {es : List Expression} (legible : LegibleAll es) :
    ∀ text ∈ texts es, Balanced text := by
  cases es with
  | nil => exact nofun
  | cons e rest =>
    exact List.forall_mem_cons.mpr ⟨Legible.balanced legible.1, LegibleAll.balanced legible.2⟩
termination_by structural es

end

end Expression

/-! ### Names -/

theorem Builtin.isPlain_name (b : Builtin) : IsPlain b.name := by
  cases b <;> decide

theorem Scope.isPlain_pithName (n : Nat) : IsPlain (pithName n) :=
  .append (by decide) (Text.isPlain_toString n)

/-- Generated names are plain. -/
theorem Scope.Numbered.isPlain {scope : Scope} (numbered : scope.Numbered) {key : ScopeKey}
    {entry : ScopeEntry} (bound : scope.get? key = some entry) : IsPlain key.text := by
  obtain ⟨kind, n, isKind, rfl⟩ := numbered.of_get? bound
  have plain : IsPlain ("__hg_" ++ kind ++ "_") := by
    cases entry <;> cases isKind <;> decide
  exact plain.append (Text.isPlain_toString n)

theorem ClassOperand.isPlain_written {scope : Scope} (numbered : scope.Numbered)
    {op : ClassOperand} (bound : op.In scope) (cat : Catalog) : IsPlain (op.written cat) := by
  match op with
  | inline (.builtin b) => exact b.isPlain_name
  | inline (.user n) => cases bound
  | .bound key c => exact numbered.isPlain bound

namespace Pith

/-- The variable and what it is assigned from can be written. -/
structure Legible (p : Pith) : Prop where
  name : IsPlain p.name
  source : ∀ source, p.pending = some source → source.Legible

theorem legible_bound {name : String} (plain : IsPlain name) : (bound name).Legible :=
  ⟨plain, nofun⟩

theorem Legible.take {p : Pith} (legible : p.Legible) : p.take.1.Legible := by
  rcases p with ⟨name, _ | source⟩
  · exact legible.name
  · exact ⟨legible.name, legible.source source rfl⟩

theorem Legible.taken {p : Pith} (legible : p.Legible) : p.take.2.Legible := by
  rw [take_snd]
  exact legible_bound legible.name

end Pith

namespace Check

theorem legible_snd {cat : Catalog} {c : Check} {p : Pith} (legible : p.Legible) :
    (expressionFrom cat c p).2.Legible := by
  rw [expressionFrom_snd]
  split
  · exact Pith.legible_bound legible.name
  · exact legible

/-- The check is written legibly wherever its own variable is. -/
def Writes (cat : Catalog) (c : Check) : Prop :=
  ∀ p : Pith, p.Legible → (expressionFrom cat c p).1.Legible

theorem legible_expressionsFrom {cat : Catalog} {cs : List Check} (each : ∀ c ∈ cs, c.Writes cat)
    {p : Pith} (legible : p.Legible) : ∀ e ∈ (expressionsFrom cat cs p).1, e.Legible := by
  induction cs generalizing p with
  | nil => exact nofun
  | cons c rest ih =>
    obtain ⟨first, others⟩ := List.forall_mem_cons.mp each
    exact List.forall_mem_cons.mpr ⟨first p legible, ih others (legible_snd legible)⟩

theorem legible_positions {cat : Catalog} {items : List (Nat × Check)}
    (each : ∀ entry ∈ items, entry.2.Writes cat)
    (plain : ∀ entry ∈ items, IsPlain entry.2.subject.pith) {whole : String}
    (plainWhole : IsPlain whole) : ∀ e ∈ positionExpressions cat items whole, e.Legible := by
  induction items with
  | nil => exact nofun
  | cons entry rest ih =>
    obtain ⟨first, others⟩ := List.forall_mem_cons.mp each
    obtain ⟨plainFirst, plainOthers⟩ := List.forall_mem_cons.mp plain
    refine List.forall_mem_cons.mpr ⟨first _ ⟨plainFirst, ?_⟩, ih others plainOthers⟩
    rintro _ ⟨⟩
    exact plainWhole

/-! ### Checks -/

theorem mem_pithsAll {name : String} {cs : List Check} {c : Check} (member : c ∈ cs)
    (inside : name ∈ c.piths) : name ∈ pithsAll cs := by
  obtain ⟨before, behind, rfl⟩ := List.append_of_mem member
  rw [pithsAll_append, pithsAll]
  simp [inside]

theorem mem_pithsItems {name : String} {items : List (Nat × Check)} {entry : Nat × Check}
    (member : entry ∈ items) (inside : name ∈ entry.2.subject.pith :: entry.2.piths) :
    name ∈ pithsItems items := by
  induction items with
  | nil => cases member
  | cons first rest ih =>
    rw [pithsItems, List.mem_append]
    rcases List.mem_cons.mp member with rfl | later
    · exact .inl inside
    · exact .inr (ih later)

theorem mem_piths_of_child {name : String} {c d : Check} (child : d ∈ c.children)
    (inside : name ∈ d.piths) : name ∈ c.piths := by
  cases c with
  | any | all =>
    rw [piths]
    exact mem_pithsAll child inside
  | sequence | reiterable | validators | attr =>
    cases List.mem_singleton.mp child
    simp [piths, inside]
  | mapping s origin key value =>
    rw [piths, List.mem_append]
    rcases List.mem_append.mp child with isKey | isValue
    · cases Option.mem_toList.mp isKey
      exact .inl (by simp [pithsOption, inside])
    · cases Option.mem_toList.mp isValue
      exact .inr (by simp [pithsOption, inside])
  | tupleFixed s origin len items =>
    obtain ⟨entry, member, rfl⟩ := List.mem_map.mp child
    rw [piths]
    exact mem_pithsItems member (List.mem_cons_of_mem _ inside)
  | pass | fail | isInstance | isSubclass | forwardInstance | forwardSubclass | literal
  | typedDict => cases child

theorem legible_unlessEmpty {whole : String} (plain : IsPlain whole) {e : Expression}
    (legible : e.Legible) : (unlessEmpty whole e).Legible :=
  ⟨plain, legible, trivial⟩

section Checks
variable {value : Value → Prop} {count : Nat → Prop} {spelt : String → Prop} {exhaustive : Bool}
  {scope : Scope} (numbered : scope.Numbered) (cat : Catalog)
include numbered

theorem legible_originExpression {origin : List ClassOperand} (bound : ∀ op ∈ origin, op.In scope)
    {p : Pith} (legible : p.Legible) : (originExpression cat origin p).1.Legible := by
  refine ⟨legible.take, fun name member => ?_⟩
  obtain ⟨op, isOp, rfl⟩ := List.mem_map.mp member
  exact op.isPlain_written numbered (bound op isOp) cat

theorem legible_literal {op : LiteralOperand} (bound : op.In scope)
    (isLiteral : op.value.isLiteral = true) {x : Operand} (legible : x.Legible) {name : String}
    (plain : IsPlain name) : (op.expression cat x name).Legible := by
  obtain ⟨bound, named⟩ := bound
  have read : (Operand.read name).Legible := plain
  have ofClass (b : Builtin) : ∀ shown ∈ [b.name], IsPlain shown :=
    List.forall_mem_singleton.mpr b.isPlain_name
  rcases op with ⟨value, _ | key⟩
  · cases value with
    | none => exact ⟨legible, balanced_of_isPlain (show IsPlain "None" by decide)⟩
    | bool b =>
      have shown : IsPlain ((Value.bool b).text cat) := by
        cases b
        · exact (by decide : IsPlain "False")
        · exact (by decide : IsPlain "True")
      exact ⟨legible, balanced_of_isPlain shown⟩
    | int n =>
      have shown := balanced_of_isPlain (Text.isPlain_toString_int n)
      exact ⟨⟨legible, ofClass .int⟩, ⟨read, ofClass .bool⟩, ⟨read, shown⟩, trivial⟩
    | str text => exact ⟨⟨legible, ofClass .str⟩, ⟨read, Text.balanced_ofString text⟩, trivial⟩
    | bytes bytes => exact ⟨⟨legible, ofClass .bytes⟩, ⟨read, Text.balanced_ofBytes bytes⟩, trivial⟩
    | inst label c attrs held => cases named label c attrs held rfl
    | _ => cases isLiteral
  · exact ⟨legible, balanced_of_isPlain (numbered.isPlain (bound key rfl))⟩

theorem legible_literalExpressions {values : List LiteralOperand}
    (bound : ∀ op ∈ values, op.In scope ∧ op.value.isLiteral = true) {p : Pith}
    (legible : p.Legible) : ∀ e ∈ (literalExpressions cat values p).1, e.Legible := by
  induction values generalizing p with
  | nil => exact nofun
  | cons op rest ih =>
    obtain ⟨⟨first, isLiteral⟩, others⟩ := List.forall_mem_cons.mp bound
    have name : IsPlain (literalExpressions cat rest p.take.2).2.name := by
      rw [literalExpressions_snd]
      split <;> exact legible.taken.name
    exact List.forall_mem_cons.mpr
      ⟨legible_literal numbered cat first isLiteral legible.take name, ih others legible.taken⟩

theorem legible_validatorExpressions {vs : List ValidatorOperand} (bound : ∀ op ∈ vs, op.In scope)
    {p : Pith} (legible : p.Legible) : ∀ e ∈ (validatorExpressions vs p).1, e.Legible := by
  induction vs generalizing p with
  | nil => exact nofun
  | cons v rest ih =>
    obtain ⟨first, others⟩ := List.forall_mem_cons.mp bound
    exact List.forall_mem_cons.mpr
      ⟨⟨legible.take, numbered.isPlain first⟩, ih others legible.taken⟩

/-- A check is written legibly if its variables have plain names and the names of attributes and
keys can stand between quotes. -/
theorem Formed.writes {c : Check} (formed : c.Formed (.bound value count spelt) exhaustive scope)
    (literals : ∀ v, value v → v.isLiteral = true)
    (quotable : ∀ name, spelt name → Quotable name)
    (plain : ∀ name ∈ c.piths, IsPlain name) : c.Writes cat := by
  induction formed with
  | @mk c own inside ih =>
    have writes : ∀ d ∈ c.children, d.Writes cat := fun d child =>
      ih d child fun name member => plain name (mem_piths_of_child child member)
    intro p legible
    have whole : IsPlain p.take.2.name := legible.taken.name
    -- a part is read from a variable or from a source, which is written at its first use
    have part {d : Check} (source : Source) (child : d ∈ c.children)
        (named : d.subject.pith ∈ c.piths) (readable : source.Legible) :
        (expressionFrom cat d (d.pithIn source)).1.Legible :=
      writes d child _ ⟨plain _ named, fun _ pending => Option.some.inj pending ▸ readable⟩
    have looped {d : Check} (child : d ∈ c.children) (named : d.subject.pith ∈ c.piths) :
        (expressionFrom cat d d.ownPith).1.Legible :=
      writes d child _ (Pith.legible_bound (plain _ named))
    -- some items are sampled, or all of them are gone through
    have items {d : Check} (every : Bool) (source : Source) (range : Range) (child : d ∈ c.children)
        (named : d.subject.pith ∈ c.piths) (readable : source.Legible) (runs : range.Legible) :
        (if every then Expression.every (expressionFrom cat d d.ownPith).1 range
          else unlessEmpty p.take.2.name (expressionFrom cat d (d.pithIn source)).1).Legible := by
      cases every with
      | true => exact ⟨looped child named, runs⟩
      | false => exact legible_unlessEmpty whole (part source child named readable)
    cases c with
    | pass | fail => exact trivial
    | isInstance s classes => exact legible_originExpression numbered cat own legible
    | isSubclass s classes => exact legible_originExpression numbered cat own legible
    | forwardInstance s ref | forwardSubclass s ref => exact ⟨legible.take, numbered.isPlain own⟩
    | any s members => exact Expression.legible_anyOf (legible_expressionsFrom writes legible)
    | all s parts => exact Expression.legible_allOf (legible_expressionsFrom writes legible)
    | sequence s origin item every =>
      have head := legible_originExpression numbered cat own.1 legible
      have named : item.subject.pith ∈ (sequence s origin item every).piths := by simp [piths]
      have inside := items every (.sampled p.take.2.name) (.items item.subject.pith p.take.2.name)
        (by simp [children]) named whole ⟨plain _ named, whole⟩
      exact ⟨head, inside, trivial⟩
    | reiterable s origin item every =>
      have head := legible_originExpression numbered cat own.1 legible
      have named : item.subject.pith ∈ (reiterable s origin item every).piths := by simp [piths]
      have inside := items every (.first p.take.2.name) (.items item.subject.pith p.take.2.name)
        (by simp [children]) named whole ⟨plain _ named, whole⟩
      exact ⟨head, inside, trivial⟩
    | mapping s origin key value every =>
      have head := legible_originExpression numbered cat own.1 legible
      cases key with
      | none =>
        cases value with
        | none => exact head
        | some v =>
          have named : v.subject.pith ∈ (mapping s origin none (some v) every).piths := by
            simp [piths, pithsOption]
          have inside := items every (.firstValue p.take.2.name)
            (.values v.subject.pith p.take.2.name) (by simp [children]) named whole
            ⟨plain _ named, whole⟩
          exact ⟨head, inside, trivial⟩
      | some k =>
        have named : k.subject.pith ∈ (mapping s origin (some k) value every).piths := by
          simp [piths, pithsOption]
        cases value with
        | none =>
          have inside := items every (.first p.take.2.name) (.items k.subject.pith p.take.2.name)
            (by simp [children]) named whole ⟨plain _ named, whole⟩
          exact ⟨head, inside, trivial⟩
        | some v =>
          have namedValue : v.subject.pith ∈ (mapping s origin (some k) (some v) every).piths := by
            simp [piths, pithsOption]
          refine ⟨head, ?_, trivial⟩
          cases every with
          | true =>
            have ofKey := looped (by simp [children]) named
            have ofValue := looped (by simp [children]) namedValue
            exact ⟨⟨ofKey, ofValue, trivial⟩, plain _ named, plain _ namedValue, whole⟩
          | false =>
            have ofKey := part (.first p.take.2.name) (by simp [children]) named whole
            have ofValue := part (.under p.take.2.name k.subject.pith) (by simp [children])
              namedValue ⟨whole, plain _ named⟩
            exact legible_unlessEmpty whole ⟨ofKey, ofValue, trivial⟩
    | tupleFixed s origin len items =>
      have head := legible_originExpression numbered cat own.1 legible
      have positions := legible_positions
        (fun entry member => writes _ (List.mem_map_of_mem member))
        (fun entry member =>
          plain _ (by rw [piths]; exact mem_pithsItems member List.mem_cons_self)) whole
      exact ⟨head, whole, Expression.legibleAll_iff.mpr positions⟩
    | literal s values =>
      have bound : ∀ op ∈ values, op.In scope ∧ op.value.isLiteral = true := fun op member =>
        ⟨(own op member).1, literals _ (own op member).2⟩
      exact Expression.legible_anyOf (legible_literalExpressions numbered cat bound legible)
    | validators s child vs =>
      show ((validators s child vs).testOn cat p).Legible
      rw [testOn_validators]
      refine Expression.legible_allOf ?_
      split
      next => exact legible_validatorExpressions numbered own.2.1 legible
      next =>
        exact List.forall_mem_cons.mpr ⟨writes child (by simp [children]) p legible,
          legible_validatorExpressions numbered own.2.1 (legible_snd legible)⟩
    | attr s name child =>
      have named : child.subject.pith ∈ (attr s name child).piths := by simp [piths]
      have quoted := quotable name own.2
      have inside := part (.attr _ _) (by simp [children]) named ⟨whole, quoted⟩
      exact ⟨⟨legible.take, quoted⟩, inside, trivial⟩
    | typedDict s origin required =>
      have head := legible_originExpression numbered cat own.1 legible
      refine ⟨head, Expression.legibleAll_iff.mpr fun e member => ?_⟩
      obtain ⟨key, isKey, rfl⟩ := List.mem_map.mp member
      exact ⟨whole, quotable key (own.2 key isKey)⟩

/-- A check that was built is written legibly, if its value has a plain name. -/
theorem StandsOn.legible {c : Check} {pith : String} {handedOut : List String}
    (stands : c.StandsOn (.bound value count spelt) exhaustive pith handedOut scope)
    (literals : ∀ v, value v → v.isLiteral = true)
    (quotable : ∀ name, spelt name → Quotable name) (plainPith : IsPlain pith)
    (plain : ∀ name ∈ handedOut, IsPlain name) : (c.expression cat).Legible := by
  have writes := stands.formed.writes numbered cat literals quotable fun name member =>
    plain name (stands.within.subset member)
  exact writes c.ownPith (Pith.legible_bound (stands.pith ▸ plainPith))

end Checks
end Check
end HintCheck
