import HintCheck.Class.Builtin
import HintCheck.Double
import HintCheck.Entries

/-!
Runtime values. A container owns its items, and pairs of a dictionary stand in the order in which
they were given. An instance carries a label: two instances are one object exactly when their
labels agree. An instance may wrap a payload, the builtin value that a subclass of a builtin class
is made of; operations on the contents look through payloads.
-/
namespace HintCheck

/-- A callable as a value: which callable it is, and its qualified name. -/
structure FunctionRef where
  index : Nat
  qualname : String
deriving DecidableEq, Repr

/-- A runtime value. -/
inductive Value where
  | ellipsis
  | none
  | bool (b : Bool)
  | int (i : Int)
  | float (x : Double)
  | complex (re im : Double)
  | str (s : String)
  | bytes (bs : List UInt8)
  | list (items : List Value)
  | tuple (items : List Value)
  | dict (pairs : List (Value × Value))
  | set (items : List Value)
  | frozenset (items : List Value)
  | deque (items : List Value)
  | type (c : ClassId)
  | inst (label : Nat) (c : ClassId) (attrs : List (String × Value)) (payload : Option Value)
  | function (f : FunctionRef)
  | method (name : String)
  | iterator (items : List Value)
  | module (name : String)

namespace Value

instance : Inhabited Value := ⟨Value.none⟩

/-- The class of a value. -/
def classOf : Value → ClassId
  | ellipsis => Builtin.ellipsis
  | none => Builtin.noneType
  | bool _ => Builtin.bool
  | int _ => Builtin.int
  | float _ => Builtin.float
  | complex _ _ => Builtin.complex
  | str _ => Builtin.str
  | bytes _ => Builtin.bytes
  | list _ => Builtin.list
  | tuple _ => Builtin.tuple
  | dict _ => Builtin.dict
  | set _ => Builtin.set
  | frozenset _ => Builtin.frozenset
  | deque _ => Builtin.deque
  | type _ => Builtin.type
  | inst _ c _ _ => c
  | function _ => Builtin.function
  | method _ => Builtin.method
  | iterator _ => Builtin.iterator
  | module _ => Builtin.module

/-- The value behind all payloads. -/
def data : Value → Value
  | inst _ _ _ (some payload) => data payload
  | v => v

/-- A one-character text. -/
def ofChar (c : Char) : Value :=
  str (String.singleton c)

def ofByte (b : UInt8) : Value :=
  int b.toNat

/-- The number of items, for values that have one; texts are counted in characters. -/
def len? (v : Value) : Option Nat :=
  match v.data with
  | str s => some s.length
  | bytes bs => some bs.length
  | list items | tuple items | set items | frozenset items | deque items => some items.length
  | dict pairs => some pairs.length
  | _ => Option.none

def isEmpty (v : Value) : Bool :=
  v.len? == some 0

/-- The item at a position, for the containers that are indexed by position. -/
def at? (v : Value) (index : Nat) : Option Value :=
  match v.data with
  | list items | tuple items | deque items => items[index]?
  | str s => s.toList[index]?.map ofChar
  | bytes bs => bs[index]?.map ofByte
  | _ => Option.none

/-- The items that iteration yields; those of a dictionary are its keys. -/
def items (v : Value) : List Value :=
  match v.data with
  | list items | tuple items | set items | frozenset items | deque items => items
  | dict pairs => pairs.map Prod.fst
  | str s => s.toList.map ofChar
  | bytes bs => bs.map ofByte
  | _ => []

/-- The first item that iteration yields. -/
def first? (v : Value) : Option Value :=
  match v.data with
  | dict pairs => pairs.head?.map Prod.fst
  | set items | frozenset items => items.head?
  | _ => v.at? 0

/-- The pairs of a dictionary. -/
def pairs? (v : Value) : Option (List (Value × Value)) :=
  match v.data with
  | dict pairs => some pairs
  | _ => Option.none

/-- Whether a dictionary holds the given text as a key. -/
def hasKey (v : Value) (key : String) : Bool :=
  match v.pairs? with
  | some pairs => pairs.any fun pair =>
      match pair.1 with
      | str s => s == key
      | _ => false
  | Option.none => false

/-- Identity: singletons, classes, instances, callables and methods can be one object; any other
two values are told apart. -/
def isSame : Value → Value → Bool
  | none, none => true
  | ellipsis, ellipsis => true
  | bool a, bool b => a == b
  | type a, type b => a == b
  | inst a _ _ _, inst b _ _ _ => a == b
  | function f, function g => f.index == g.index
  | method a, method b => a == b
  | _, _ => false

end Value
end HintCheck
