/-!
Signs: what a hint means, whatever its spelling. Each sign has one strategy, which says what is
checked at run time and how many arguments a subscription takes. The categories of signs follow from
the strategies.
-/
namespace HintCheck

/-- The meaning of a hint. -/
inductive Sign where
  /-- A class whose instances satisfy the hint. -/
  | isinstanceable
  /-- Satisfied by every value. -/
  | ignorable
  | union
  | optional
  | literal
  | annotated
  /-- A tuple whose shape is not known yet. -/
  | tuple
  /-- A tuple with one hint for each item. -/
  | tupleFixed
  /-- A tuple of any length with one hint for all items. -/
  | tupleVariadic
  | list
  | sequence
  | mutableSequence
  | byteString
  | deque
  | set
  | frozenSet
  | abstractSet
  | mutableSet
  | collection
  | container
  | iterable
  | reversible
  | keysView
  | valuesView
  | itemsView
  | mappingView
  | dict
  | mapping
  | mutableMapping
  | defaultDict
  | orderedDict
  | chainMap
  | counter
  /-- A class below the argument. -/
  | type
  | callable
  | iterator
  | generator
  | awaitable
  | coroutine
  | asyncIterable
  | asyncIterator
  | asyncGenerator
  | hashable
  | sized
  /-- A subscribed user class, or a class with subscribed bases. -/
  | generic
  | protocol
  | forwardRef
  | typedDict
  | newType
  | typeVar
  | noReturn
  | any
  /-- A qualifier of a declaration. -/
  | qualifier
  | selfType
  | literalString
  | typeGuard
  | unpack
deriving DecidableEq, Repr

/-- The check that a sign asks for. -/
inductive Emit where
  | pass
  | fail
  | isInstance
  | isSubclass
  | union
  | literal
  | validators
  | tupleFixed
  /-- The origin, then the item at a random position. -/
  | sequence
  /-- The origin, then the first item. -/
  | reiterable
  /-- The origin, then the first key and its value. -/
  | mapping
  /-- The origin alone; arguments are not looked at. -/
  | originOnly
  | generic
  | forwardRef
  | typedDict
  /-- No check: such hints are replaced before a check is built. -/
  | reduced
deriving DecidableEq, Repr

/-- The number of arguments of a subscription. -/
inductive Arity where
  | zero
  | one
  | two
  | many
deriving DecidableEq, Repr

structure Strategy where
  emit : Emit
  arity : Arity
deriving DecidableEq, Repr

/-- Groups of signs that are treated alike. -/
inductive Category where
  /-- Containers with one hint for all items. -/
  | singleArgContainer
  /-- Containers of which the item at a random position is checked. -/
  | sequence
  /-- Containers of which the first item is checked. -/
  | reiterable
  /-- Containers of which the first key and value are checked. -/
  | mapping
  | union
  | tuple
  /-- Valid for returned values only. -/
  | returnOnly
  /-- Replaced before a check is built. -/
  | reduced
deriving DecidableEq, Repr

namespace Sign

/-- All signs. -/
def all : List Sign :=
  [isinstanceable, ignorable, union, optional, literal, annotated, tuple, tupleFixed,
    tupleVariadic, list, sequence, mutableSequence, byteString, deque, set, frozenSet,
    abstractSet, mutableSet, collection, container, iterable, reversible, keysView, valuesView,
    itemsView, mappingView, dict, mapping, mutableMapping, defaultDict, orderedDict, chainMap,
    counter, type, callable, iterator, generator, awaitable, coroutine, asyncIterable,
    asyncIterator, asyncGenerator, hashable, sized, generic, protocol, forwardRef, typedDict,
    newType, typeVar, noReturn, any, qualifier, selfType, literalString, typeGuard, unpack]

/-- The name of a sign. -/
def name : Sign → String
  | isinstanceable => "Isinstanceable"
  | ignorable => "Ignorable"
  | union => "Union"
  | optional => "Optional"
  | literal => "Literal"
  | annotated => "Annotated"
  | tuple => "Tuple"
  | tupleFixed => "TupleFixed"
  | tupleVariadic => "TupleVariadic"
  | list => "List"
  | sequence => "Sequence"
  | mutableSequence => "MutableSequence"
  | byteString => "ByteString"
  | deque => "Deque"
  | set => "Set"
  | frozenSet => "FrozenSet"
  | abstractSet => "AbstractSet"
  | mutableSet => "MutableSet"
  | collection => "Collection"
  | container => "Container"
  | iterable => "Iterable"
  | reversible => "Reversible"
  | keysView => "KeysView"
  | valuesView => "ValuesView"
  | itemsView => "ItemsView"
  | mappingView => "MappingView"
  | dict => "Dict"
  | mapping => "Mapping"
  | mutableMapping => "MutableMapping"
  | defaultDict => "DefaultDict"
  | orderedDict => "OrderedDict"
  | chainMap => "ChainMap"
  | counter => "Counter"
  | type => "Type"
  | callable => "Callable"
  | iterator => "Iterator"
  | generator => "Generator"
  | awaitable => "Awaitable"
  | coroutine => "Coroutine"
  | asyncIterable => "AsyncIterable"
  | asyncIterator => "AsyncIterator"
  | asyncGenerator => "AsyncGenerator"
  | hashable => "Hashable"
  | sized => "Sized"
  | generic => "Generic"
  | protocol => "Protocol"
  | forwardRef => "ForwardRef"
  | typedDict => "TypedDict"
  | newType => "NewType"
  | typeVar => "TypeVar"
  | noReturn => "NoReturn"
  | any => "Any"
  | qualifier => "Qualifier"
  | selfType => "Self"
  | literalString => "LiteralString"
  | typeGuard => "TypeGuard"
  | unpack => "Unpack"

/-- The strategy of a sign. -/
def strategy : Sign → Strategy
  | isinstanceable => ⟨.isInstance, .zero⟩
  | ignorable => ⟨.pass, .zero⟩
  | union => ⟨.union, .many⟩
  | literal => ⟨.literal, .many⟩
  | annotated => ⟨.validators, .one⟩
  | tupleFixed => ⟨.tupleFixed, .many⟩
  | tupleVariadic | list | sequence | mutableSequence | byteString | deque => ⟨.sequence, .one⟩
  | set | frozenSet | abstractSet | mutableSet | collection | iterable | reversible | keysView
  | valuesView | counter => ⟨.reiterable, .one⟩
  | dict | mapping | mutableMapping | defaultDict | orderedDict | chainMap => ⟨.mapping, .two⟩
  | type => ⟨.isSubclass, .one⟩
  | container | itemsView | mappingView | callable | iterator | generator | awaitable | coroutine
  | asyncIterable | asyncIterator | asyncGenerator | hashable | sized => ⟨.originOnly, .many⟩
  | generic => ⟨.generic, .many⟩
  | forwardRef => ⟨.forwardRef, .zero⟩
  | typedDict => ⟨.typedDict, .zero⟩
  | noReturn => ⟨.fail, .zero⟩
  | tuple | optional | protocol | newType | typeVar | any | qualifier | selfType | literalString
  | typeGuard | unpack => ⟨.reduced, .many⟩

/-- Whether a sign belongs to a category. -/
def isIn (s : Sign) : Category → Bool
  | .singleArgContainer => s.strategy.emit == .sequence || s.strategy.emit == .reiterable
  | .sequence => s.strategy.emit == .sequence
  | .reiterable => s.strategy.emit == .reiterable
  | .mapping => s.strategy.emit == .mapping
  | .union => s.strategy.emit == .union || s == optional
  | .tuple => s.strategy.emit == .tupleFixed || s == tuple || s == tupleVariadic
  | .returnOnly => s.strategy.emit == .fail
  | .reduced => s.strategy.emit == .reduced

end Sign

namespace Category

/-- All categories. -/
def all : List Category :=
  [singleArgContainer, sequence, reiterable, mapping, union, tuple, returnOnly, reduced]

def name : Category → String
  | singleArgContainer => "SingleArgContainer"
  | sequence => "Sequence"
  | reiterable => "Reiterable"
  | mapping => "Mapping"
  | union => "Union"
  | tuple => "Tuple"
  | returnOnly => "ReturnOnly"
  | reduced => "Reduced"

end Category

def Emit.name : Emit → String
  | pass => "Pass"
  | fail => "Fail"
  | isInstance => "IsInstance"
  | isSubclass => "IsSubclass"
  | union => "Union"
  | literal => "Literal"
  | validators => "Validators"
  | tupleFixed => "TupleFixed"
  | sequence => "Sequence"
  | reiterable => "Reiterable"
  | mapping => "Mapping"
  | originOnly => "OriginOnly"
  | generic => "Generic"
  | forwardRef => "ForwardRef"
  | typedDict => "TypedDict"
  | reduced => "Reduced"

def Arity.name : Arity → String
  | zero => "Zero"
  | one => "One"
  | two => "Two"
  | many => "Many"

end HintCheck
