import HintCheck.Check.Scope
import HintCheck.Hint.Classified

/-!
Building the check of a hint. The hints inside are classified where they stand and checked on values
of their own, each in a new variable; what the check closes over is bound in the scope on the way.
A hint inside that every value satisfies leaves no trace in the check.
-/
namespace HintCheck

/-- How deep checks can be nested. -/
def maxNesting : Nat := 100

/-- Building a check can fail; what was bound in the scope before stays bound. -/
abbrev Building := ExceptT HintError (StateM Scope)

/-- What the builder reads: the classes, what extensions stand for, and the configuration. -/
structure Builder where
  catalog : Catalog
  substitutes : Substitutes
  conf : Config

namespace Builder

/-- How a check is built of the value in a variable, by a classified hint in its context. -/
abbrev Maker := Context → String → Classified → Building Check

/-- Runs a function on the scope. -/
def onScope {α : Type} (f : Scope → α × Scope) : Building α :=
  modifyGet f

/-- An outcome that does not depend on the scope. -/
def ofExcept {α : Type} : Except HintError α → Building α
  | .ok a => pure a
  | .error e => throw e

/-! ### Operands -/

/-- A class as an operand: a name in the scope, unless its own name can be written anywhere. -/
def operand (c : ClassId) : Building ClassOperand :=
  if Catalog.isSpellable c then pure (.inline c)
  else do
    let key ← onScope fun scope => scope.bindClass c
    return .bound key c

/-- The classes that stand for an origin: with the numeric tower, numbers take the kinds below. -/
def widened (conf : Config) (c : ClassId) : List ClassId :=
  if conf.tower && c == Builtin.float then [Builtin.float, Builtin.int]
  else if conf.tower && c == Builtin.complex then [Builtin.complex, Builtin.float, Builtin.int]
  else [c]

/-- The operands of the origin of a classified hint. -/
def originOperands (b : Builder) (c : Classified) : Building (List ClassOperand) :=
  match c.origin with
  | some origin => (widened b.conf origin).mapM operand
  | none => throw (.unsupported (c.hint.text b.catalog))

/-- A reference as an operand; references to one name in one module share a name in the scope. -/
def referenceOperand (b : Builder) (ctx : Context) (h : Hint) : Building ReferenceOperand :=
  match Reference.ofHint? ctx h with
  | none => throw (.unsupported (h.text b.catalog))
  | some ref => onScope fun scope => scope.bindReference ref ref.module

/-- A literal as an operand: instances have no spelling and get a name in the scope. -/
def literalOperand (v : Value) : Building LiteralOperand :=
  match v with
  | .inst _ _ _ _ => do
    let key ← onScope fun scope => scope.bindLiteral v
    return ⟨v, some key⟩
  | _ => pure ⟨v, none⟩

def validatorOperand (v : Validator) : Building ValidatorOperand := do
  let key ← onScope fun scope => scope.bindValidator v
  return ⟨key, v⟩

/-! ### Hints inside -/

def classify (b : Builder) (ctx : Context) (h : Hint) : Building Classified :=
  ofExcept (h.classify b.catalog b.substitutes ctx)

/-- The check of a hint inside, on a value in a new variable. -/
def inside (b : Builder) (make : Maker) (ctx : Context) (h : Hint) : Building Check := do
  let c ← b.classify ctx.nested h
  let pith ← onScope Scope.freshPith
  make ctx.nested pith c

/-- The check of a hint inside, unless every value passes it. -/
def inside? (b : Builder) (make : Maker) (ctx : Context) (h : Hint) : Building (Option Check) := do
  let check ← b.inside make ctx h
  return if check.isPass then none else some check

/-- The check of a hint inside, on the same value. -/
def onSame (b : Builder) (make : Maker) (ctx : Context) (pith : String) (h : Hint) :
    Building Check := do
  let c ← b.classify ctx.nested h
  make ctx.nested pith c

/-! ### Unions -/

/-- Puts the classes of one test behind those of another, leaving out the ones it has. -/
def mergeOperands (classes more : List ClassOperand) : List ClassOperand :=
  more.foldl
    (fun acc c => if acc.any fun known => known.target == c.target then acc else acc ++ [c]) classes

/-- Adds a member to those found so far, the latest first: neighbouring tests of classes become
one. -/
def addMember (member : Check) : List Check → List Check
  | .isInstance s classes :: earlier =>
    match member with
    | .isInstance _ more => .isInstance s (mergeOperands classes more) :: earlier
    | _ => member :: .isInstance s classes :: earlier
  | earlier => member :: earlier

/-- The check of a union from its members on, after the members found so far. A member equal to the
one before it is left out, and one that every value passes is the check of the whole union. -/
def unionFrom (s : Subject) (member : Hint → Building Check) :
    Option Hint → List Check → List Hint → Building Check
  | _, [only], [] => pure (only.about s)
  | _, found, [] => pure (.any s found.reverse)
  | previous, found, h :: rest =>
    if previous.any fun p => p.structEq h then unionFrom s member previous found rest
    else do
      let check ← member h
      if check.isPass then return check
      unionFrom s member (some h) (addMember check found) rest

/-! ### Containers -/

/-- The checks that there are, with their positions. -/
def numbered (index : Nat) : List (Option Check) → List (Nat × Check)
  | [] => []
  | none :: rest => numbered (index + 1) rest
  | some c :: rest => (index, c) :: numbered (index + 1) rest

def tuple (b : Builder) (make : Maker) (ctx : Context) (s : Subject) (c : Classified) :
    Building Check := do
  let origin ← b.originOperands c
  let items ← c.children.mapM (b.inside? make ctx)
  return .tupleFixed s origin c.children.length (numbered 0 items)

/-- A container with one hint for all items, of which `shape` says what is tested. -/
def container (b : Builder) (make : Maker) (ctx : Context) (s : Subject) (c : Classified)
    (shape : List ClassOperand → Check → Check) : Building Check := do
  let origin ← b.originOperands c
  match c.children with
  | [] => return .isInstance s origin
  | h :: _ =>
    match ← b.inside? make ctx h with
    | none => return .isInstance s origin
    | some item => return shape origin item

def mapping (b : Builder) (make : Maker) (ctx : Context) (s : Subject) (c : Classified)
    (exhaustive : Bool) : Building Check := do
  let origin ← b.originOperands c
  match c.children with
  | [keyHint, valueHint] =>
    let key ← b.inside? make ctx keyHint
    let value ← b.inside? make ctx valueHint
    match key, value with
    | none, none => return .isInstance s origin
    | key, value => return .mapping s origin key value exhaustive
  | _ => return .isInstance s origin

/-! ### Classes as values -/

/-- The tests that the argument of `type` asks for, where unions are nested at most `bound` deep.
Each member of a union adds its own; a hint without a class asks for nothing. -/
def subclassTargets (b : Builder) (ctx : Context) (pith : String) :
    Nat → Hint → Building (List Check)
  | 0, h => throw (.endless (h.text b.catalog))
  | bound + 1, h => do
    let c ← b.classify ctx.nested h
    let s : Subject := ⟨pith, c.hint.text b.catalog⟩
    match c.sign with
    | .ignorable => return []
    | .union =>
      let targets ← c.children.mapM (subclassTargets b ctx pith bound)
      return targets.flatten
    | .forwardRef =>
      let ref ← b.referenceOperand ctx.nested c.hint
      return [.forwardSubclass s ref]
    | _ =>
      match c.origin with
      | none => return []
      | some origin =>
        let target ← operand origin
        return [.isSubclass s [target]]

/-- How deep unions can be nested in a hint, in what its type variables are bound to and in what
extensions stand for, if nothing leads back to itself. -/
def unionBound (b : Builder) (ctx : Context) (h : Hint) : Nat :=
  b.substitutes.foldl (fun total entry => total + entry.2.depth + 1) (h.nestingBound ctx)

/-- A class, and a subclass of what the argument of `type` asks for. -/
def classValue (b : Builder) (ctx : Context) (s : Subject) (c : Classified) : Building Check := do
  let type ← operand Builtin.type
  let targets ← match c.children with
    | [] => pure []
    | h :: _ => b.subclassTargets ctx s.pith (b.unionBound ctx h) h
  match targets with
  | [] => return .isInstance s [type]
  | targets => return .all s [.isInstance s [type], .any s targets]

/-! ### Generic classes -/

/-- The annotations of a class that mention a bound type parameter. -/
def boundFields (cat : Catalog) (c : ClassId) (substitutions : List (Hint × Hint)) :
    Entries Hint :=
  (cat.allAnnotations c).filter fun entry =>
    entry.2.typeVars.any fun v => substitutions.any fun pair => pair.1.isSame v

/-- The test of one attribute, unless every value passes it. -/
def field? (b : Builder) (make : Maker) (ctx : Context) (s : Subject) (entry : String × Hint) :
    Building (Option Check) := do
  let check ← b.inside? make ctx entry.2
  return check.map (.attr s entry.1)

/-- An instance of a generic class: its subscribed bases, and the attributes whose annotations
mention a type parameter, are checked with the type parameters bound. -/
def genericClass (b : Builder) (make : Maker) (ctx : Context) (s : Subject) (c : ClassId)
    (substitutions : List (Hint × Hint)) (supers : List Hint) : Building Check := do
  let cls ← operand c
  let bound := ctx.bindAll substitutions
  let bases ← supers.mapM (b.onSame make bound s.pith)
  let fields ← (boundFields b.catalog c substitutions).mapM (b.field? make bound s)
  match bases.filter (fun base => !base.isPass) ++ fields.filterMap id with
  | [] => return .isInstance s [cls]
  | parts => return .all s (.isInstance s [cls] :: parts)

/-! ### All hints -/

/-- The check that the strategy of a classified hint asks for; `make` builds the checks inside. -/
def shape (b : Builder) (make : Maker) (ctx : Context) (pith : String) (c : Classified) :
    Building Check := do
  let shown := c.hint.text b.catalog
  let s : Subject := ⟨pith, shown⟩
  let exhaustive := b.conf.thoroughness == .exhaustive
  match c.sign.strategy.emit, c.data with
  | .pass, _ => return .pass s
  | .fail, _ => return .fail s
  | .isInstance, _ | .originOnly, _ =>
    let origin ← b.originOperands c
    return .isInstance s origin
  | .union, _ => unionFrom s (b.onSame make ctx pith) none [] c.children
  | .literal, .literals values =>
    let operands ← values.mapM literalOperand
    return .literal s operands
  | .literal, _ => throw (.malformed shown "literal without values")
  | .validators, .annotated validators inner =>
    let child ← make ctx pith inner
    let operands ← validators.mapM validatorOperand
    return .validators s child operands
  | .tupleFixed, _ => b.tuple make ctx s c
  | .sequence, _ => b.container make ctx s c fun origin item => .sequence s origin item exhaustive
  | .reiterable, _ =>
    b.container make ctx s c fun origin item => .reiterable s origin item exhaustive
  | .mapping, _ => b.mapping make ctx s c exhaustive
  | .isSubclass, _ => b.classValue ctx s c
  | .generic, .generic cls substitutions supers =>
    b.genericClass make ctx s cls substitutions supers
  | .forwardRef, _ =>
    let ref ← b.referenceOperand ctx c.hint
    return .forwardInstance s ref
  | .typedDict, .typedDict required =>
    let dict ← operand Builtin.dict
    return .typedDict s [dict] required
  | .validators, _ | .generic, _ | .typedDict, _ | .reduced, _ => throw (.unsupported shown)

/-- The check of a classified hint with room for `room` checks nested in each other. -/
def buildWithin (b : Builder) : Nat → Maker
  | 0, _, _, c => throw (.nesting (c.hint.text b.catalog) maxNesting)
  | room + 1, ctx, pith, c => b.shape (b.buildWithin room) ctx pith c

/-- The check of a classified hint on the value in the variable `pith`. -/
def build (b : Builder) : Maker :=
  b.buildWithin (maxNesting + 1)

end Builder
end HintCheck
