import HintCheck.Class.Builtin

/-!
Special forms: the named attributes of the typing modules that annotations are written with. A form
is told apart from the class it may stand for: `typing.List` is a form whose origin is the class
`list`.
-/
namespace HintCheck

/-- The modules that export special forms. -/
inductive FormModule where
  | typing
  | extensions
  | dataclasses
deriving DecidableEq, Repr

/-- The name of a module of forms. -/
def FormModule.name : FormModule → String
  | typing => "typing"
  | extensions => "typing_extensions"
  | dataclasses => "dataclasses"

/-- The special forms, in the order in which the typing module lists them. -/
inductive Form where
  | any
  | union
  | optional
  | literal
  | annotated
  | classVar
  | final
  | initVar
  | generic
  | protocol
  | tuple
  | list
  | dict
  | set
  | frozenSet
  | type
  | callable
  | iterable
  | iterator
  | reversible
  | container
  | collection
  | sequence
  | mutableSequence
  | byteString
  | abstractSet
  | mutableSet
  | mapping
  | mutableMapping
  | sized
  | hashable
  | generator
  | awaitable
  | coroutine
  | asyncIterable
  | asyncIterator
  | asyncGenerator
  | mappingView
  | keysView
  | itemsView
  | valuesView
  | deque
  | defaultDict
  | orderedDict
  | counter
  | chainMap
  | noReturn
  | never
  | selfType
  | literalString
  | typeGuard
  | typeIs
  | unpack
  | required
  | notRequired
  | readOnly
  | concatenate
  | typeAlias
deriving DecidableEq, Repr

namespace Form

/-- All forms. -/
def all : List Form :=
  [any, union, optional, literal, annotated, classVar, final, initVar, generic, protocol, tuple,
    list, dict, set, frozenSet, type, callable, iterable, iterator, reversible, container,
    collection, sequence, mutableSequence, byteString, abstractSet, mutableSet, mapping,
    mutableMapping, sized, hashable, generator, awaitable, coroutine, asyncIterable,
    asyncIterator, asyncGenerator, mappingView, keysView, itemsView, valuesView, deque,
    defaultDict, orderedDict, counter, chainMap, noReturn, never, selfType, literalString,
    typeGuard, typeIs, unpack, required, notRequired, readOnly, concatenate, typeAlias]

/-- The name of a form in its module. -/
def name : Form → String
  | any => "Any"
  | union => "Union"
  | optional => "Optional"
  | literal => "Literal"
  | annotated => "Annotated"
  | classVar => "ClassVar"
  | final => "Final"
  | initVar => "InitVar"
  | generic => "Generic"
  | protocol => "Protocol"
  | tuple => "Tuple"
  | list => "List"
  | dict => "Dict"
  | set => "Set"
  | frozenSet => "FrozenSet"
  | type => "Type"
  | callable => "Callable"
  | iterable => "Iterable"
  | iterator => "Iterator"
  | reversible => "Reversible"
  | container => "Container"
  | collection => "Collection"
  | sequence => "Sequence"
  | mutableSequence => "MutableSequence"
  | byteString => "ByteString"
  | abstractSet => "AbstractSet"
  | mutableSet => "MutableSet"
  | mapping => "Mapping"
  | mutableMapping => "MutableMapping"
  | sized => "Sized"
  | hashable => "Hashable"
  | generator => "Generator"
  | awaitable => "Awaitable"
  | coroutine => "Coroutine"
  | asyncIterable => "AsyncIterable"
  | asyncIterator => "AsyncIterator"
  | asyncGenerator => "AsyncGenerator"
  | mappingView => "MappingView"
  | keysView => "KeysView"
  | itemsView => "ItemsView"
  | valuesView => "ValuesView"
  | deque => "Deque"
  | defaultDict => "DefaultDict"
  | orderedDict => "OrderedDict"
  | counter => "Counter"
  | chainMap => "ChainMap"
  | noReturn => "NoReturn"
  | never => "Never"
  | selfType => "Self"
  | literalString => "LiteralString"
  | typeGuard => "TypeGuard"
  | typeIs => "TypeIs"
  | unpack => "Unpack"
  | required => "Required"
  | notRequired => "NotRequired"
  | readOnly => "ReadOnly"
  | concatenate => "Concatenate"
  | typeAlias => "TypeAlias"

/-- The form with the given name. -/
def ofName? (name : String) : Option Form :=
  all.find? fun f => f.name == name

/-- The class that a form stands for at run time. -/
def origin? : Form → Option Builtin
  | generic => some .generic
  | protocol => some .protocol
  | tuple => some .tuple
  | list => some .list
  | dict => some .dict
  | set => some .set
  | frozenSet => some .frozenset
  | type => some .type
  | callable => some .callable
  | iterable => some .iterable
  | iterator => some .iteratorAbc
  | reversible => some .reversible
  | container => some .container
  | collection => some .collection
  | sequence => some .sequence
  | mutableSequence => some .mutableSequence
  | byteString => some .byteString
  | abstractSet => some .abstractSet
  | mutableSet => some .mutableSet
  | mapping => some .mapping
  | mutableMapping => some .mutableMapping
  | sized => some .sized
  | hashable => some .hashable
  | generator => some .generator
  | awaitable => some .awaitable
  | coroutine => some .coroutine
  | asyncIterable => some .asyncIterable
  | asyncIterator => some .asyncIterator
  | asyncGenerator => some .asyncGenerator
  | mappingView => some .mappingView
  | keysView => some .keysView
  | itemsView => some .itemsView
  | valuesView => some .valuesView
  | deque => some .deque
  | defaultDict => some .defaultdict
  | orderedDict => some .orderedDict
  | counter => some .counter
  | chainMap => some .chainMap
  | _ => none

/-- The forms superseded by the class that they stand for. -/
def isDeprecatedAlias (f : Form) : Bool :=
  f != generic && f != protocol && f.origin?.isSome

/-- The forms that qualify a declaration without changing the type of its value. -/
def isQualifier : Form → Bool
  | classVar | final | initVar | required | notRequired | readOnly => true
  | _ => false

/-- The module that a form is at home in. -/
def home : Form → FormModule
  | initVar => .dataclasses
  | _ => .typing

end Form

/-- A form as exported by one of the modules. -/
structure SpecialForm where
  module : FormModule
  form : Form
deriving DecidableEq, Repr

namespace SpecialForm

/-- The form in its home module. -/
def standard (f : Form) : SpecialForm :=
  ⟨f.home, f⟩

/-- The form in the extensions module. -/
def extended (f : Form) : SpecialForm :=
  ⟨.extensions, f⟩

/-- The dotted name of a form. -/
def text (s : SpecialForm) : String :=
  s.module.name ++ "." ++ s.form.name

end SpecialForm
end HintCheck
