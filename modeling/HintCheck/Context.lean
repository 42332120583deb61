import HintCheck.Hint
import HintCheck.Signature.Kind

/-!
Where a hint stands: its position, how thoroughly values are checked, and the scope of the
declaration, against which references and type variables are read.
-/
namespace HintCheck

/-- How much of a container is checked. -/
inductive Thoroughness where
  /-- Nothing is checked. -/
  | off
  /-- One item of each container. -/
  | sampled
  /-- Every item of each container. -/
  | exhaustive
deriving DecidableEq, Repr

/-- What a caller can configure. -/
structure Config where
  thoroughness : Thoroughness
  /-- `float` takes integers too, and `complex` takes integers and floats. -/
  tower : Bool
  /-- Violations are coloured; unset means that they are not. -/
  color : Option Bool
deriving DecidableEq, Repr

namespace Config

/-- Containers are sampled, there is no numeric tower, and colour is unset. -/
def standard : Config :=
  ⟨.sampled, false, none⟩

def usesColor (conf : Config) : Bool :=
  conf.color.getD false

end Config

/-- The position of a hint. -/
inductive Position where
  | param (kind : ParamKind)
  | result
  /-- Inside another hint. -/
  | nested
  /-- In a check of its own. -/
  | standalone
deriving DecidableEq, Repr

/-- The position of a parameter that takes any number of arguments. -/
def Position.isVariadic : Position → Bool
  | param kind => kind.isVariadic
  | _ => false

/-- Where a hint stands. -/
structure Context where
  position : Position
  conf : Config
  module : Option String
  /-- The enclosing classes, the innermost last. -/
  classes : List ClassId
  /-- What type variables are bound to; the latest binding comes first. -/
  bindings : List (HintId × Hint)
  /-- The local scope of the enclosing function, if there is one. -/
  locals : Option Nat

namespace Context

/-- A check of its own, outside any scope. -/
def bare (conf : Config) : Context :=
  ⟨.standalone, conf, none, [], [], none⟩

/-- The same scope at another position. -/
def placedAt (ctx : Context) (position : Position) : Context :=
  { ctx with position }

def nested (ctx : Context) : Context :=
  ctx.placedAt .nested

def inModule (ctx : Context) (module : String) : Context :=
  { ctx with module := some module }

/-- The context inside the body of a class. -/
def inClass (ctx : Context) (c : ClassId) : Context :=
  { ctx with classes := ctx.classes ++ [c] }

/-- The context with a type variable bound. -/
def bind (ctx : Context) (typeVar h : Hint) : Context :=
  match typeVar.id? with
  | some id => { ctx with bindings := (id, h) :: ctx.bindings }
  | none => ctx

/-- The context inside a generic class whose type parameters are bound. -/
def bindAll (ctx : Context) (pairs : List (Hint × Hint)) : Context :=
  pairs.foldl (fun acc pair => acc.bind pair.1 pair.2) ctx.nested

/-- What a type variable is bound to. -/
def binding? (ctx : Context) (typeVar : Hint) : Option Hint :=
  typeVar.id?.bind fun id => ctx.bindings.lookup id

/-- Reading a hint here depends on nothing but the hint and its position. -/
def isScopeFree (ctx : Context) : Bool :=
  ctx.classes.isEmpty && ctx.bindings.isEmpty

end Context
end HintCheck
