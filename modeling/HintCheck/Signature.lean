import HintCheck.Hint
import HintCheck.Signature.Kind

/-!
Signatures: lists of parameters in a valid order. A signature is written with a slash after the
positional-only parameters and a star before the keyword-only ones, unless a variadic parameter
already stands there.
-/
namespace HintCheck

/-- One parameter. -/
structure Parameter where
  name : String
  kind : ParamKind
  default : Option Value
  hint : Option Hint

namespace Parameter

/-- A parameter without annotation and default. -/
def plain (name : String) (kind : ParamKind) : Parameter :=
  ⟨name, kind, none, none⟩

def hasDefault (p : Parameter) : Bool :=
  p.default.isSome

end Parameter

/-- Why a list of parameters is no signature. -/
inductive SignatureError where
  | duplicateName (name : String)
  | wrongOrder (name : String) (kind previous : ParamKind)
  /-- A positional parameter without a default after one that has one. -/
  | defaultOrder (name : String)
  | variadicDefault (name : String)
deriving DecidableEq, Repr

def SignatureError.message : SignatureError → String
  | duplicateName name => "parameter '" ++ name ++ "' declared twice"
  | wrongOrder name kind previous =>
    "parameter '" ++ name ++ "' of kind " ++ kind.text ++ " cannot follow " ++ previous.text
  | defaultOrder name => "non-default parameter '" ++ name ++ "' follows default parameter"
  | variadicDefault name => "variadic parameter '" ++ name ++ "' cannot have a default"

/-- A kind may stand right after another: kinds come in order, and a variadic one comes once. -/
def ParamKind.mayFollow (kind previous : ParamKind) : Bool :=
  previous.rank < kind.rank || (kind == previous && !kind.isVariadic)

namespace Signature

/-- The first fault in a list of parameters. `seen` are the names so far, `previous` is the kind of
the last parameter, and `defaults` tells that a positional parameter had a default. -/
def faultFrom (seen : List String) (previous : Option ParamKind) (defaults : Bool) :
    List Parameter → Option SignatureError
  | [] => none
  | p :: rest =>
    if seen.contains p.name then some (.duplicateName p.name)
    else
      match previous.filter fun k => !p.kind.mayFollow k with
      | some k => some (.wrongOrder p.name p.kind k)
      | none =>
        if p.kind.isVariadic && p.hasDefault then some (.variadicDefault p.name)
        else if p.kind.acceptsPosition && defaults && !p.hasDefault then some (.defaultOrder p.name)
        else
          faultFrom (seen ++ [p.name]) (some p.kind)
            (defaults || (p.kind.acceptsPosition && p.hasDefault)) rest

/-- The first fault in a list of parameters. -/
def fault? (params : List Parameter) : Option SignatureError :=
  faultFrom [] none false params

end Signature

/-- A list of parameters without a fault. -/
structure Signature where
  params : List Parameter
  sound : Signature.fault? params = none

/-- One entry of a signature as it is written. -/
inductive SignatureItem where
  /-- The end of the positional-only parameters. -/
  | slash
  /-- The start of the keyword-only parameters. -/
  | star
  | plain (name : String) (hasDefault : Bool)
  | starred (name : String)
  | doubleStarred (name : String)
deriving DecidableEq, Repr

/-- The name of the default of a parameter. -/
def defaultName (param : String) : String :=
  "__hg_default_" ++ param

def SignatureItem.text : SignatureItem → String
  | slash => "/"
  | star => "*"
  | plain name false => name
  | plain name true => name ++ "=" ++ defaultName name
  | starred name => "*" ++ name
  | doubleStarred name => "**" ++ name

/-- One argument of a call that hands parameters on, as it is written. -/
inductive Argument where
  | positional (name : String)
  | spread (name : String)
  | keyword (name : String)
  | spreadKeywords (name : String)
deriving DecidableEq, Repr

def Argument.text : Argument → String
  | positional name => name
  | spread name => "*" ++ name
  | keyword name => name ++ "=" ++ name
  | spreadKeywords name => "**" ++ name

/-- The argument that hands a parameter on to a function of the same signature. -/
def Parameter.argument (p : Parameter) : Argument :=
  match p.kind with
  | .positionalOnly | .positionalOrKeyword => .positional p.name
  | .varPositional => .spread p.name
  | .keywordOnly => .keyword p.name
  | .varKeyword => .spreadKeywords p.name

namespace Signature

/-- The signature with the given parameters. -/
def ofParameters (params : List Parameter) : Except SignatureError Signature :=
  match fault : fault? params with
  | some e => .error e
  | none => .ok ⟨params, fault⟩

/-- The entries of a signature; `slashDue` tells that positional-only parameters came last, and
`starDue` that keyword-only parameters still need a star in front. -/
def itemsFrom (slashDue starDue : Bool) : List Parameter → List SignatureItem
  | [] => if slashDue then [.slash] else []
  | p :: rest =>
    let ends := if slashDue && p.kind != .positionalOnly then [SignatureItem.slash] else []
    let shown := SignatureItem.plain p.name p.hasDefault
    match p.kind with
    | .positionalOnly => shown :: itemsFrom true starDue rest
    | .positionalOrKeyword => ends ++ shown :: itemsFrom false starDue rest
    | .varPositional => ends ++ .starred p.name :: itemsFrom false false rest
    | .keywordOnly =>
      let starts := if starDue then [SignatureItem.star] else []
      ends ++ starts ++ shown :: itemsFrom false false rest
    | .varKeyword => ends ++ .doubleStarred p.name :: itemsFrom false starDue rest

def items (s : Signature) : List SignatureItem :=
  itemsFrom false true s.params

/-- A signature as it is written. -/
def text (s : Signature) : String :=
  ", ".intercalate (s.items.map SignatureItem.text)

/-- The arguments that hand all parameters on, as they are written. -/
def argumentsText (s : Signature) : String :=
  ", ".intercalate (s.params.map fun p => p.argument.text)

end Signature
end HintCheck
