import HintCheck.Class.Catalog
import HintCheck.Class.Linearization

/-!
Defining classes. A draft collects what is said about a class; defining it fixes the order of its
ancestors and puts it into the catalog.
-/
namespace HintCheck

/-- Why a class cannot be defined. -/
inductive ClassError where
  /-- The bases, by name, have no common linear order. -/
  | inconsistent (bases : List String)
  | tooDeep
deriving DecidableEq, Repr

/-- The largest number of ancestors that a class can have. -/
def maxAncestors : Nat := 2600

/-- A class with this many ancestors can have no subclass. -/
def maxInheritanceDepth : Nat := 1000

def ClassError.message : ClassError → String
  | inconsistent bases =>
    "Cannot create a consistent method resolution order (MRO) for bases " ++ ", ".intercalate bases
  | tooDeep => "inheritance chain too deep (maximum depth 1000)"

/-- What has been said about a class that is being defined. -/
structure ClassDraft where
  name : String
  module : String
  qualname : Option String
  bases : List ClassId
  attrs : Entries Value
  annotations : Entries Hint
  typeParams : List Hint
  declaredBases : List Hint
  flags : ClassFlags

namespace ClassDraft

/-- A class of the main module of which only the name is known. -/
def named (name : String) : ClassDraft :=
  { name, module := "__main__", qualname := none, bases := [], attrs := [], annotations := [],
    typeParams := [], declaredBases := [], flags := .unset }

def inModule (d : ClassDraft) (module : String) : ClassDraft :=
  { d with module }

def withQualname (d : ClassDraft) (qualname : String) : ClassDraft :=
  { d with qualname := some qualname }

def withBase (d : ClassDraft) (base : ClassId) : ClassDraft :=
  { d with bases := d.bases ++ [base] }

/-- A base written as a hint. A subscription of the generic or the protocol form declares type
parameters; any other hint contributes the class that it is a subscription of, if there is one. -/
def withDeclaredBase (d : ClassDraft) (h : Hint) : ClassDraft :=
  let d := { d with declaredBases := d.declaredBases ++ [h] }
  match h.subscriptedForm? with
  | some .generic =>
    { d.withBase Builtin.generic with typeParams := d.typeParams ++ h.args }
  | some .protocol =>
    { d.withBase Builtin.protocol with
      typeParams := d.typeParams ++ h.args, flags := { d.flags with protocol := true } }
  | _ =>
    match h.origin? with
    | some origin => d.withBase origin
    | none => d

def withAttr (d : ClassDraft) (name : String) (v : Value) : ClassDraft :=
  { d with attrs := Entries.insert d.attrs name v }

def withMethod (d : ClassDraft) (name : String) : ClassDraft :=
  d.withAttr name (.method name)

def withAnnotation (d : ClassDraft) (name : String) (h : Hint) : ClassDraft :=
  { d with annotations := Entries.insert d.annotations name h }

def asProtocol (d : ClassDraft) : ClassDraft :=
  { d.withBase Builtin.protocol with flags := { d.flags with protocol := true } }

def asRuntimeCheckable (d : ClassDraft) : ClassDraft :=
  { d with flags := { d.flags with runtimeCheckable := true } }

def asTypedDict (d : ClassDraft) (total : Bool) : ClassDraft :=
  { d.withBase Builtin.dict with flags := { d.flags with typedDict := true, total } }

def asEnumeration (d : ClassDraft) : ClassDraft :=
  { d.withBase Builtin.enum with flags := { d.flags with enumeration := true } }

def asAbstractBase (d : ClassDraft) : ClassDraft :=
  { d with flags := { d.flags with abstractBase := true } }

def asUnchecked (d : ClassDraft) : ClassDraft :=
  { d with flags := { d.flags with noTypeCheck := true } }

/-- The bases of the class; without any it derives from `object`. -/
def parents (d : ClassDraft) : List ClassId :=
  if d.bases.isEmpty then [.builtin .object] else d.bases

/-- The class that a draft describes, with the given classes above it. One that declares no type
parameters has the type variables of its declared bases. -/
def toClass (d : ClassDraft) (ancestors : List ClassId) : Class where
  name := d.name
  module := d.module
  qualname := d.qualname.getD d.name
  bases := d.parents
  ancestors
  attrs := d.attrs
  annotations := d.annotations
  typeParams := if d.typeParams.isEmpty then Hint.collectAll d.declaredBases [] else d.typeParams
  declaredBases := d.declaredBases
  flags := d.flags
  hook := []
  root := false

end ClassDraft

namespace Catalog

/-- The linear order of the ancestors of a class with the given bases. -/
def linearize (cat : Catalog) (bases : List ClassId) : Except ClassError (List ClassId) :=
  if bases.any fun b => maxInheritanceDepth ≤ (cat.get b).ancestors.length then .error .tooDeep
  else
    match Linearization.merge maxAncestors (bases.map cat.lineage ++ [bases]) with
    | .ok order => .ok order
    | .error .tooLong => .error .tooDeep
    | .error .noHead => .error (.inconsistent (bases.map fun b => (cat.get b).name))

/-- Puts a class into the catalog. -/
def define (cat : Catalog) (d : ClassDraft) : Except ClassError (ClassId × Catalog) :=
  match cat.linearize d.parents with
  | .error e => .error e
  | .ok ancestors =>
    .ok (.user cat.defined.size, { cat with defined := cat.defined.push (d.toClass ancestors) })

theorem define_of_linearize {cat : Catalog} {d : ClassDraft} {order : List ClassId}
    (linearized : cat.linearize d.parents = .ok order) :
    cat.define d = .ok (.user cat.defined.size,
      { cat with defined := cat.defined.push (d.toClass order) }) := by
  rw [define, linearized]

end Catalog
end HintCheck
