import HintCheck.Value

/-!
The namespaces that names are looked up in: modules, of which the registered ones can be imported by
name, and the local scopes of functions. A local scope can end while references to it remain.
-/
namespace HintCheck

/-- A module object. -/
structure Module where
  name : String
  globals : Entries Value
  noTypeCheck : Bool

instance : Inhabited Module := ⟨⟨"", [], false⟩⟩

/-- All module objects and local scopes, by number; a local scope that has ended is `none`. -/
structure Namespaces where
  modules : Array Module
  registered : List (String × Nat)
  scopes : Array (Option (Entries Value))

namespace Namespaces

def empty : Namespaces :=
  ⟨#[], [], #[]⟩

/-- Creates a module and registers it under its name, in the place of an earlier one. -/
def register (ns : Namespaces) (m : Module) : Namespaces :=
  { ns with
    modules := ns.modules.push m
    registered := (m.name, ns.modules.size) :: ns.registered.filter fun entry => entry.1 != m.name }

/-- The registered module of a name. -/
def import? (ns : Namespaces) (name : String) : Option Module :=
  (ns.registered.lookup name).bind fun index => ns.modules[index]?

def unregister (ns : Namespaces) (name : String) : Namespaces :=
  { ns with registered := ns.registered.filter fun entry => entry.1 != name }

/-- Binds a global name of a module. -/
def setGlobal (ns : Namespaces) (index : Nat) (name : String) (v : Value) : Namespaces :=
  { ns with modules := ns.modules.modify index fun m =>
      { m with globals := Entries.insert m.globals name v } }

/-- Unbinds a global name of a module. -/
def unsetGlobal (ns : Namespaces) (index : Nat) (name : String) : Namespaces :=
  { ns with modules := ns.modules.modify index fun m =>
      { m with globals := Entries.erase m.globals name } }

def global? (ns : Namespaces) (index : Nat) (name : String) : Option Value :=
  ns.modules[index]?.bind fun m => Entries.get? m.globals name

/-- Opens a local scope. -/
def openScope (ns : Namespaces) : Namespaces :=
  { ns with scopes := ns.scopes.push (some []) }

/-- Ends a local scope. -/
def closeScope (ns : Namespaces) (index : Nat) : Namespaces :=
  { ns with scopes := ns.scopes.modify index fun _ => none }

/-- The names of a local scope, unless it has ended. -/
def scope? (ns : Namespaces) (index : Nat) : Option (Entries Value) :=
  (ns.scopes[index]?).join

def setLocal (ns : Namespaces) (index : Nat) (name : String) (v : Value) : Namespaces :=
  { ns with scopes := ns.scopes.modify index fun scope =>
      scope.map fun names => Entries.insert names name v }

def local? (ns : Namespaces) (index : Nat) (name : String) : Option Value :=
  (ns.scope? index).bind fun names => Entries.get? names name

end Namespaces
end HintCheck
