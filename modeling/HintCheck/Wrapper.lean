import HintCheck.Check.Scope
import HintCheck.Text.Balance
import HintCheck.Wrapper.Listing

/-!
Wrappers: the checks around a function. Before a wrapper is handed out its listing is examined: the
names that the checks refer to are bound, so are the defaults, and brackets nest.
-/
namespace HintCheck

/-- The check of one parameter. -/
structure ParamCheck where
  /-- The position of the parameter in the signature. -/
  index : Nat
  name : String
  check : Check

/-- The file that the listing of a wrapper is shown under; it belongs to the wrapped function. -/
structure Filename where
  module : String
  qualname : String
  serial : Nat
deriving DecidableEq, Repr

/-- The file of a function's wrapper. -/
def Declaration.filename (d : Declaration) : Filename :=
  ⟨d.module, d.qualname, d.label⟩

/-- The file as it is shown; the number of the function is not. -/
def Filename.text (f : Filename) : String :=
  "<@hintguard(" ++ f.module ++ "." ++ f.qualname ++ ") at 0xID>"

/-- The checks around a function. -/
structure Wrapper where
  /-- Tells the wrapper from any other. -/
  label : Nat
  params : List ParamCheck
  result : Option Check
  scope : Scope
  source : String
  /-- The listing refers to the random number, so that one is drawn for each call. -/
  samples : Bool
  conf : Config

/-- What is wrong with a listing. -/
inductive ListingFault where
  | undefinedName (key : ScopeKey)
  | undefinedDefault (key : ScopeKey)
  | unbalanced (i : Text.Imbalance)
deriving DecidableEq, Repr

def ListingFault.message : ListingFault → String
  | undefinedName key => "name '" ++ key.text ++ "' is not defined"
  | undefinedDefault key => "default '" ++ key.text ++ "' is not defined"
  | unbalanced i => i.message

/-- A listing that cannot be used. -/
structure ListingError where
  function : String
  fault : ListingFault
  code : String
deriving DecidableEq, Repr

def ListingError.message (e : ListingError) : String :=
  "generated wrapper for " ++ e.function ++ "() failed to compile: " ++ e.fault.message ++ "\n" ++
    e.code

namespace Declaration

/-- The defaults of all parameters are bound in a scope. -/
def bindDefaults (d : Declaration) (scope : Scope) : Scope :=
  d.signature.params.foldl
    (fun scope p =>
      match p.default with
      | some v => scope.bindDefault p.name v
      | none => scope)
    scope

/-- The guard of a parameter. -/
def guardOf (d : Declaration) (cat : Catalog) (p : ParamCheck) : Guard :=
  let exempts := (d.signature.params[p.index]?.map Parameter.hasDefault).getD false
  ⟨p.name, p.name, exempts, p.check.expression cat⟩

/-- The listing of a wrapper of the function. -/
def listing (d : Declaration) (cat : Catalog) (params : List ParamCheck) (result : Option Check) :
    Listing :=
  let mentionsRandom (c : Check) := Text.occurs randomName.toList (c.text cat).toList
  { name := d.name
    signature := d.signature
    samples := params.any (fun p => mentionsRandom p.check) || result.any mentionsRandom
    params := params.map (d.guardOf cat)
    result := result.map fun c => ⟨"return", resultName, false, c.expression cat⟩ }

/-- The first name of the checks that the scope does not bind. -/
def undefinedName? (params : List ParamCheck) (result : Option Check) (scope : Scope) :
    Option ScopeKey :=
  (params.map ParamCheck.check ++ result.toList).findSome? fun c =>
    c.scopeKeys.find? fun key => !scope.contains key

/-- The first default that the scope does not bind. -/
def undefinedDefault? (d : Declaration) (scope : Scope) : Option ScopeKey :=
  (d.signature.params.filter Parameter.hasDefault).findSome? fun p =>
    match scope.get? (Scope.defaultKey p.name) with
    | some (.default _) => none
    | _ => some (Scope.defaultKey p.name)

/-- What is wrong with the listing of a wrapper, if anything is. -/
def fault? (d : Declaration) (params : List ParamCheck) (result : Option Check) (scope : Scope)
    (source : String) : Option ListingFault :=
  ((undefinedName? params result scope).map .undefinedName).or
    (((d.undefinedDefault? scope).map .undefinedDefault).or
      ((Text.imbalance? source).map .unbalanced))

/-- Puts checks around a function; they are in the order of the parameters. -/
def wrap (d : Declaration) (cat : Catalog) (label : Nat) (params : List ParamCheck)
    (result : Option Check) (scope : Scope) (conf : Config) : Except ListingError Wrapper :=
  let scope := d.bindDefaults scope
  let listing := d.listing cat params result
  let source := listing.text
  match d.fault? params result scope source with
  | some fault => .error ⟨d.qualname, fault, source⟩
  | none => .ok ⟨label, params, result, scope, source, listing.samples, conf⟩

end Declaration
end HintCheck
