import HintCheck.Class

/-!
The catalog of classes: the builtin ones, which are always there, and those defined so far, together
with the virtual subclasses that abstract classes have been told about.
-/
namespace HintCheck

namespace Builtin

/-- The direct bases of a builtin class. -/
def bases : Builtin → List Builtin
  | object => []
  | bool => [int]
  | defaultdict | orderedDict | counter => [dict]
  | chainMap => [mutableMapping]
  | iteratorAbc | reversible => [iterable]
  | generator => [iteratorAbc]
  | collection => [sized, iterable, container]
  | sequence => [reversible, collection]
  | mutableSequence | byteString => [sequence]
  | abstractSet | mapping => [collection]
  | mutableSet => [abstractSet]
  | mutableMapping => [mapping]
  | mappingView => [sized]
  | keysView | itemsView => [mappingView, abstractSet]
  | valuesView => [mappingView, collection]
  | coroutine => [awaitable]
  | asyncIterator => [asyncIterable]
  | asyncGenerator => [asyncIterator]
  | protocol => [generic]
  | _ => [object]

/-- The classes above a builtin class. -/
def ancestors : Builtin → List Builtin
  | object => []
  | bool => [int, object]
  | defaultdict | orderedDict | counter => [dict, object]
  | chainMap => [mutableMapping, mapping, collection, sized, iterable, container, object]
  | iteratorAbc | reversible => [iterable, object]
  | generator => [iteratorAbc, iterable, object]
  | collection => [sized, iterable, container, object]
  | sequence => [reversible, collection, sized, iterable, container, object]
  | mutableSequence | byteString =>
    [sequence, reversible, collection, sized, iterable, container, object]
  | abstractSet | mapping => [collection, sized, iterable, container, object]
  | mutableSet => [abstractSet, collection, sized, iterable, container, object]
  | mutableMapping => [mapping, collection, sized, iterable, container, object]
  | mappingView => [sized, object]
  | keysView | itemsView =>
    [mappingView, abstractSet, collection, sized, iterable, container, object]
  | valuesView => [mappingView, collection, sized, iterable, container, object]
  | coroutine => [awaitable, object]
  | asyncIterator => [asyncIterable, object]
  | asyncGenerator => [asyncIterator, asyncIterable, object]
  | protocol => [generic, object]
  | _ => [object]

/-- The methods of a builtin class. -/
def methods : Builtin → List String
  | object => ["__eq__", "__hash__", "__repr__", "__str__"]
  | type | method => ["__call__"]
  | noneType => ["__bool__"]
  | int => ["__abs__", "__add__", "__bool__", "__float__", "__index__", "__int__", "__lt__",
      "__round__"]
  | float => ["__abs__", "__add__", "__bool__", "__float__", "__int__", "__lt__", "__round__"]
  | complex => ["__abs__", "__add__", "__bool__", "__complex__"]
  | str | bytes | tuple =>
    ["__add__", "__contains__", "__getitem__", "__iter__", "__len__", "__lt__"]
  | list | deque => ["__add__", "__contains__", "__getitem__", "__iter__", "__len__",
      "__reversed__", "__setitem__"]
  | dict | chainMap => ["__contains__", "__getitem__", "__iter__", "__len__", "__reversed__",
      "__setitem__"]
  | set | frozenset => ["__contains__", "__iter__", "__len__"]
  | function => ["__call__", "__get__"]
  | iterator => ["__iter__", "__next__"]
  | _ => []

/-- The classes whose instances have no hash. -/
def isUnhashable : Builtin → Bool
  | list | dict | set | deque | chainMap => true
  | _ => false

/-- The attributes that make any class a subclass of an abstract collection. -/
def hook : Builtin → List String
  | container => ["__contains__"]
  | hashable => ["__hash__"]
  | iterable => ["__iter__"]
  | sized => ["__len__"]
  | callable => ["__call__"]
  | awaitable => ["__await__"]
  | asyncIterable => ["__aiter__"]
  | iteratorAbc => ["__iter__", "__next__"]
  | reversible => ["__reversed__", "__iter__"]
  | generator => ["__iter__", "__next__", "send", "throw", "close"]
  | collection => ["__len__", "__iter__", "__contains__"]
  | coroutine => ["send", "throw", "close", "__await__"]
  | asyncIterator => ["__aiter__", "__anext__"]
  | asyncGenerator => ["__aiter__", "__anext__", "asend", "athrow", "aclose"]
  | _ => []

/-- The class object of a builtin class. -/
def toClass (b : Builtin) : Class where
  name := b.name
  module := b.home
  qualname := b.name
  bases := b.bases.map ClassId.builtin
  ancestors := b.ancestors.map ClassId.builtin
  attrs := b.methods.map (fun m => (m, Value.method m)) ++
    (if b.isUnhashable then [("__hash__", Value.none)] else [])
  annotations := []
  typeParams := []
  declaredBases := []
  flags := { ClassFlags.unset with abstractBase := b.isAbstract, protocol := b == .protocol }
  hook := b.hook
  root := b == .object

end Builtin

/-- What is read in the place of a class that does not exist: like `object`, but not above all
classes. -/
def Class.missing : Class :=
  { Builtin.object.toClass with root := false }

/-- The classes that exist, and the virtual subclasses of abstract ones: a pair of an abstract class
and a class registered with it. -/
structure Catalog where
  defined : Array Class
  registered : List (ClassId × ClassId)

namespace Catalog

/-- The class object of a class. -/
def get (cat : Catalog) : ClassId → Class
  | .builtin b => b.toClass
  | .user n => cat.defined[n]?.getD Class.missing

/-- A class and the classes above it. -/
def lineage (cat : Catalog) (c : ClassId) : List ClassId :=
  c :: (cat.get c).ancestors

/-- Registers `sub` with an abstract class and with the abstract classes above it. -/
def register (cat : Catalog) (c sub : ClassId) : Catalog :=
  let hosts := (cat.lineage c).filter fun host => (cat.get host).flags.abstractBase
  let known := hosts.foldl
    (fun known host => if known.contains (host, sub) then known else known ++ [(host, sub)])
    cat.registered
  { cat with registered := known }

/-- The catalog before any definition, with the builtin classes registered as the collections that
they are. -/
def builtin : Catalog :=
  [(Builtin.sequence, Builtin.tuple), (.sequence, .str), (.mutableSequence, .list),
    (.mutableSequence, .deque), (.byteString, .bytes), (.abstractSet, .frozenset),
    (.mutableSet, .set), (.mutableMapping, .dict)].foldl
    (fun cat pair => cat.register pair.1 pair.2) ⟨#[], []⟩

/-- The attribute of a class: its own, or that of the first class above it that has one. -/
def classAttr? (cat : Catalog) (c : ClassId) (name : String) : Option Value :=
  (cat.lineage c).findSome? fun k => Entries.get? (cat.get k).attrs name

/-- The annotations of a class and of the classes above it: the topmost class comes first, and a
class redeclares in place. -/
def allAnnotations (cat : Catalog) (c : ClassId) : Entries Hint :=
  (cat.lineage c).reverse.foldl (fun acc k => Entries.insertAll acc (cat.get k).annotations) []

/-- The attribute names that no protocol asks for. -/
def nonMembers : List String :=
  ["__init__", "__module__", "__qualname__", "__doc__", "__slots__", "__dict__", "__weakref__",
    "__annotations__", "__parameters__", "__orig_bases__", "__class_getitem__",
    "__init_subclass__", "__subclasshook__", "__abstractmethods__"]

/-- The names that a protocol asks for: those of its attributes and annotations, and those of the
protocols above it. -/
def protocolMembers (cat : Catalog) (c : ClassId) : List String :=
  let protocols := ((cat.lineage c).map cat.get).filter Class.isUserProtocol
  (protocols.flatMap fun k => Entries.names k.attrs ++ Entries.names k.annotations).foldl
    (fun found name =>
      if nonMembers.contains name || found.contains name then found else found ++ [name]) []

/-- The class that a bare name denotes in any source text, so that no scope is needed for it. -/
def isSpellable : ClassId → Bool
  | .builtin b => Builtin.spellable.contains b
  | .user _ => false

end Catalog
end HintCheck
