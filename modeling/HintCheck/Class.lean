import HintCheck.Hint

/-!
Class objects. A class is described once, when it is defined, and never changes; what is registered
later as a virtual subclass is kept apart, in the catalog.
-/
namespace HintCheck

/-- The marks that a class can carry. -/
structure ClassFlags where
  protocol : Bool
  runtimeCheckable : Bool
  typedDict : Bool
  /-- Keys of a typed dictionary are required unless they are marked otherwise. -/
  total : Bool
  enumeration : Bool
  /-- The class takes registrations of virtual subclasses. -/
  abstractBase : Bool
  noTypeCheck : Bool
deriving DecidableEq, Repr

/-- No mark. -/
def ClassFlags.unset : ClassFlags :=
  ⟨false, false, false, false, false, false, false⟩

/-- A class object. -/
structure Class where
  name : String
  module : String
  qualname : String
  bases : List ClassId
  /-- The classes above this one, in the order in which attributes are looked up. -/
  ancestors : List ClassId
  attrs : Entries Value
  annotations : Entries Hint
  /-- The hints that a subscription of the class gives arguments for. -/
  typeParams : List Hint
  /-- The bases as they were written, where they were written as hints. -/
  declaredBases : List Hint
  flags : ClassFlags
  /-- A class that has all of these attributes counts as a subclass. -/
  hook : List String
  /-- The class above all others. -/
  root : Bool

namespace Class

def isGeneric (c : Class) : Bool :=
  !c.typeParams.isEmpty

/-- A protocol, other than the class that protocols derive from. -/
def isUserProtocol (c : Class) : Bool :=
  c.flags.protocol && !(c.module == "typing" && c.name == "Protocol")

/-- A class of the module of builtins. -/
def isBuiltin (c : Class) : Bool :=
  c.module == "builtins"

/-- How a class is written: builtins bare, others after their module. -/
def text (c : Class) : String :=
  if c.isBuiltin then c.qualname else c.module ++ "." ++ c.qualname

/-- How a class object is shown. -/
def shown (c : Class) : String :=
  "<class '" ++ c.text ++ "'>"

/-- The subscribed bases whose arguments say something about the contents of an instance. -/
def genericBases (c : Class) : List Hint :=
  c.declaredBases.filter fun h =>
    h.isSubscripted && h.subscriptedForm? != some .generic && h.subscriptedForm? != some .protocol

end Class
end HintCheck
