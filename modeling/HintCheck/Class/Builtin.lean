/-!
The classes that are always there, and the names of classes. A builtin class is named by itself,
any other class by the number of its definition.
-/
namespace HintCheck

/-- The builtin classes: the plain ones, the collections, the abstract collections, and the bases
of generic, protocol and enumeration classes. -/
inductive Builtin where
  | object
  | type
  | noneType
  | ellipsis
  | int
  | bool
  | float
  | complex
  | str
  | bytes
  | list
  | tuple
  | dict
  | set
  | frozenset
  | function
  | method
  | iterator
  | module
  | deque
  | defaultdict
  | orderedDict
  | counter
  | chainMap
  | container
  | hashable
  | iterable
  | iteratorAbc
  | reversible
  | generator
  | sized
  | callable
  | collection
  | sequence
  | mutableSequence
  | byteString
  | abstractSet
  | mutableSet
  | mapping
  | mutableMapping
  | mappingView
  | keysView
  | itemsView
  | valuesView
  | awaitable
  | coroutine
  | asyncIterable
  | asyncIterator
  | asyncGenerator
  | generic
  | protocol
  | enum
deriving DecidableEq, Repr

/-- The identity of a class. -/
inductive ClassId where
  | builtin (b : Builtin)
  | user (n : Nat)
deriving DecidableEq, Repr

instance : Coe Builtin ClassId := ⟨ClassId.builtin⟩

namespace Builtin

/-- All builtin classes. -/
def all : List Builtin :=
  [object, type, noneType, ellipsis, int, bool, float, complex, str, bytes, list, tuple, dict, set,
    frozenset, function, method, iterator, module, deque, defaultdict, orderedDict, counter,
    chainMap, container, hashable, iterable, iteratorAbc, reversible, generator, sized, callable,
    collection, sequence, mutableSequence, byteString, abstractSet, mutableSet, mapping,
    mutableMapping, mappingView, keysView, itemsView, valuesView, awaitable, coroutine,
    asyncIterable, asyncIterator, asyncGenerator, generic, protocol, enum]

/-- The name of a builtin class in its module. -/
def name : Builtin → String
  | object => "object"
  | type => "type"
  | noneType => "NoneType"
  | ellipsis => "ellipsis"
  | int => "int"
  | bool => "bool"
  | float => "float"
  | complex => "complex"
  | str => "str"
  | bytes => "bytes"
  | list => "list"
  | tuple => "tuple"
  | dict => "dict"
  | set => "set"
  | frozenset => "frozenset"
  | function => "function"
  | method => "builtin_function_or_method"
  | iterator => "iterator"
  | module => "module"
  | deque => "deque"
  | defaultdict => "defaultdict"
  | orderedDict => "OrderedDict"
  | counter => "Counter"
  | chainMap => "ChainMap"
  | container => "Container"
  | hashable => "Hashable"
  | iterable => "Iterable"
  | iteratorAbc => "Iterator"
  | reversible => "Reversible"
  | generator => "Generator"
  | sized => "Sized"
  | callable => "Callable"
  | collection => "Collection"
  | sequence => "Sequence"
  | mutableSequence => "MutableSequence"
  | byteString => "ByteString"
  | abstractSet => "Set"
  | mutableSet => "MutableSet"
  | mapping => "Mapping"
  | mutableMapping => "MutableMapping"
  | mappingView => "MappingView"
  | keysView => "KeysView"
  | itemsView => "ItemsView"
  | valuesView => "ValuesView"
  | awaitable => "Awaitable"
  | coroutine => "Coroutine"
  | asyncIterable => "AsyncIterable"
  | asyncIterator => "AsyncIterator"
  | asyncGenerator => "AsyncGenerator"
  | generic => "Generic"
  | protocol => "Protocol"
  | enum => "Enum"

/-- The module a builtin class lives in. -/
def home : Builtin → String
  | deque | defaultdict | orderedDict | counter | chainMap => "collections"
  | container | hashable | iterable | iteratorAbc | reversible | generator | sized | callable
  | collection | sequence | mutableSequence | byteString | abstractSet | mutableSet | mapping
  | mutableMapping | mappingView | keysView | itemsView | valuesView | awaitable | coroutine
  | asyncIterable | asyncIterator | asyncGenerator => "collections.abc"
  | generic | protocol => "typing"
  | enum => "enum"
  | _ => "builtins"

/-- The abstract collections: those of `collections.abc`. -/
def isAbstract (b : Builtin) : Bool :=
  b.home == "collections.abc"

/-- The classes whose bare name can be written in any source text. -/
def spellable : List Builtin :=
  [object, type, int, bool, float, complex, str, bytes, list, tuple, dict, set, frozenset]

/-- The builtin class that a bare name denotes in any scope. -/
def ofName? (name : String) : Option Builtin :=
  spellable.find? fun b => b.name == name

end Builtin
end HintCheck
