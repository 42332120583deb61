import HintCheck.Hint.Text
import HintCheck.Sign

/-!
From spellings to signs. A spelling is looked up by the part before the first bracket. Most special
forms mean something with and without a subscription; some forms, and the classes that superseded
forms, are in the tables only for subscriptions.
-/
namespace HintCheck

/-- The sign of a form, for the forms that have a check. -/
def Form.sign? : Form → Option Sign
  | any => some .any
  | union => some .union
  | optional => some .optional
  | literal => some .literal
  | annotated => some .annotated
  | classVar | final | initVar | required | notRequired | readOnly => some .qualifier
  | generic => some .generic
  | protocol => some .protocol
  | tuple => some .tuple
  | list => some .list
  | dict => some .dict
  | set => some .set
  | frozenSet => some .frozenSet
  | type => some .type
  | callable => some .callable
  | iterable => some .iterable
  | iterator => some .iterator
  | reversible => some .reversible
  | container => some .container
  | collection => some .collection
  | sequence => some .sequence
  | mutableSequence => some .mutableSequence
  | byteString => some .byteString
  | abstractSet => some .abstractSet
  | mutableSet => some .mutableSet
  | mapping => some .mapping
  | mutableMapping => some .mutableMapping
  | sized => some .sized
  | hashable => some .hashable
  | generator => some .generator
  | awaitable => some .awaitable
  | coroutine => some .coroutine
  | asyncIterable => some .asyncIterable
  | asyncIterator => some .asyncIterator
  | asyncGenerator => some .asyncGenerator
  | mappingView => some .mappingView
  | keysView => some .keysView
  | itemsView => some .itemsView
  | valuesView => some .valuesView
  | deque => some .deque
  | defaultDict => some .defaultDict
  | orderedDict => some .orderedDict
  | counter => some .counter
  | chainMap => some .chainMap
  | noReturn | never => some .noReturn
  | selfType => some .selfType
  | literalString => some .literalString
  | typeGuard | typeIs => some .typeGuard
  | unpack => some .unpack
  | concatenate | typeAlias => none

namespace Spelling

/-- The modules under which a form is known. -/
def modulesOf (f : Form) : List FormModule :=
  if f = .initVar then [.dataclasses] else [.typing, .extensions]

/-- The spellings of a form. -/
def spellingsOf (f : Form) : List String :=
  (modulesOf f).map fun m => SpecialForm.text ⟨m, f⟩

/-- The forms that mean nothing without a subscription. -/
def needsSubscription : Form → Bool
  | .literal | .annotated | .initVar => true
  | _ => false

/-- The spellings of the given forms, with their signs. -/
def table (forms : List Form) : List (String × Sign) :=
  forms.flatMap fun f =>
    match f.sign? with
    | some sign => (spellingsOf f).map fun spelling => (spelling, sign)
    | none => []

/-- The spellings known with and without a subscription. -/
def free : List (String × Sign) :=
  table (Form.all.filter fun f => !needsSubscription f)

/-- The classes that superseded a form, with the sign of the form. -/
def superseding : List (Builtin × Sign) :=
  (Form.all.filter Form.isDeprecatedAlias).filterMap fun f =>
    match f.origin?, f.sign? with
    | some origin, some sign => some (origin, sign)
    | _, _ => none

/-- The spellings known only with a subscription. -/
def subscribed : List (String × Sign) :=
  table (Form.all.filter needsSubscription) ++
    superseding.map fun entry => (entry.1.toClass.text, entry.2)

/-- The spellings superseded by a class. -/
def deprecated : List String :=
  (Form.all.filter Form.isDeprecatedAlias).flatMap spellingsOf

/-- The part of a spelling before the first bracket. -/
def stem (text : String) : String :=
  String.ofList (text.toList.takeWhile (· != '['))

/-- The sign of a spelling. -/
def sign? (text : String) : Option Sign :=
  let known := stem text
  (free.lookup known).or
    (if text.toList.contains '[' then subscribed.lookup known else none)

/-- Whether a spelling is one that a class superseded. -/
def isDeprecated (text : String) : Bool :=
  deprecated.contains (stem text)

end Spelling

/-- The sign of a subscription of a class. -/
def Sign.ofOrigin? : ClassId → Option Sign
  | .builtin b => Spelling.superseding.lookup b
  | .user _ => none

namespace Hint

/-- The sign that the kind of a hint alone decides. -/
def kindSign? (cat : Catalog) : Hint → Option Sign
  | cls c =>
    let k := cat.get c
    some (if k.root then .ignorable
      else if k.flags.typedDict then .typedDict
      else if !k.genericBases.isEmpty then .generic
      else .isinstanceable)
  | none _ => some .isinstanceable
  | quoted _ _ | forwardRef _ _ _ => some .forwardRef
  | union _ _ => some .union
  | typeVar _ _ _ _ _ | paramSpec _ _ | typeVarTuple _ _ => some .typeVar
  | newType _ _ _ _ => some .newType
  | _ => Option.none

/-- The sign of a hint: by its kind, else by its spelling, else by the class it subscribes. -/
def sign? (cat : Catalog) (h : Hint) : Option Sign :=
  (h.kindSign? cat).or ((Spelling.sign? (h.text cat)).or (h.origin?.bind Sign.ofOrigin?))

end Hint
end HintCheck
