import HintCheck.Signature

/-!
Binding the arguments of a call to the parameters of a signature. Positional arguments fill the
positional parameters in order, keywords fill the parameters that they name, and variadic parameters
take what is left over: as a tuple and as a dictionary.
-/
namespace HintCheck

/-- The arguments of a call. -/
structure Call where
  positional : List Value
  keywords : List (String × Value)

/-- Why arguments do not fit a signature. -/
inductive BindError where
  | tooManyPositional (expected given : Nat)
  | missing (name : String)
  | unexpectedKeyword (name : String)
  | multipleValues (name : String)
  | positionalOnlyAsKeyword (name : String)
deriving DecidableEq, Repr

/-- The error in words, for a function. -/
def BindError.message (function : String) : BindError → String
  | tooManyPositional expected given =>
    function ++ "() takes " ++ toString expected ++ " positional arguments but " ++
      toString given ++
      " were given"
  | missing name => function ++ "() missing required argument: '" ++ name ++ "'"
  | unexpectedKeyword name => function ++ "() got an unexpected keyword argument '" ++ name ++ "'"
  | multipleValues name => function ++ "() got multiple values for argument '" ++ name ++ "'"
  | positionalOnlyAsKeyword name =>
    function ++ "() got some positional-only arguments passed as keyword arguments: '" ++ name ++
      "'"

/-- The value of a parameter in a call. -/
structure Bound where
  name : String
  value : Value
  /-- An argument was given for it; a variadic parameter has to have received one. -/
  passed : Bool

/-- What a parameter has received so far. -/
structure Slot where
  param : Parameter
  given : Option Value

namespace Slot

def isFree (s : Slot) : Bool :=
  s.given.isNone

/-- Hands positional arguments to the parameters that take one, in order. The second part holds the
arguments that are left over. -/
def fill : List Parameter → List Value → List Slot × List Value
  | [], args => ([], args)
  | p :: rest, args =>
    if p.kind.acceptsPosition then
      match args with
      | v :: more =>
        let (slots, extra) := fill rest more
        (⟨p, some v⟩ :: slots, extra)
      | [] =>
        let (slots, extra) := fill rest []
        (⟨p, none⟩ :: slots, extra)
    else
      let (slots, extra) := fill rest args
      (⟨p, none⟩ :: slots, extra)

/-- Puts a value into the slot of a parameter. -/
def set (name : String) (v : Value) (slots : List Slot) : List Slot :=
  slots.map fun s => if s.param.name == name then { s with given := some v } else s

/-- Hands keywords to the parameters that they name, in the order of the call. With `absorbs` there
is a parameter for the keywords that no other takes, and the second part holds these. -/
def fillKeywords (absorbs : Bool) :
    List (String × Value) → List Slot → Except BindError (List Slot × List (String × Value))
  | [], slots => .ok (slots, [])
  | (name, v) :: rest, slots =>
    let surplus : Except BindError (List Slot × List (String × Value)) :=
      if absorbs then do
        let (slots, extra) ← fillKeywords absorbs rest slots
        return (slots, (name, v) :: extra)
      else .error (.unexpectedKeyword name)
    match slots.find? fun s => s.param.name == name with
    | none => surplus
    | some s =>
      if s.param.kind.acceptsKeyword then
        if s.isFree then fillKeywords absorbs rest (set name v slots)
        else .error (.multipleValues name)
      else if s.param.kind == .positionalOnly && !absorbs then
        .error (.positionalOnlyAsKeyword name)
      else surplus

/-- The value of a parameter, once all arguments are handed out. -/
def settle (extra : List Value) (extraKeywords : List (String × Value)) (s : Slot) :
    Except BindError Bound :=
  match s.param.kind with
  | .varPositional => .ok ⟨s.param.name, .tuple extra, !extra.isEmpty⟩
  | .varKeyword =>
    let pairs := extraKeywords.map fun (name, v) => (Value.str name, v)
    .ok ⟨s.param.name, .dict pairs, !extraKeywords.isEmpty⟩
  | _ =>
    match s.given, s.param.default with
    | some v, _ => .ok ⟨s.param.name, v, true⟩
    | none, some v => .ok ⟨s.param.name, v, false⟩
    | none, none => .error (.missing s.param.name)

end Slot

namespace Signature

/-- A parameter of the given kind is declared. -/
def has (s : Signature) (kind : ParamKind) : Bool :=
  s.params.any fun p => p.kind == kind

/-- Binds the arguments of a call: one value for each parameter, in the order of declaration. -/
def bind (s : Signature) (call : Call) : Except BindError (List Bound) := do
  let (slots, extra) := Slot.fill s.params call.positional
  if !extra.isEmpty && !s.has .varPositional then
    throw (.tooManyPositional (s.params.filter fun p => p.kind.acceptsPosition).length
      call.positional.length)
  let (slots, extraKeywords) ← Slot.fillKeywords (s.has .varKeyword) call.keywords slots
  slots.mapM (Slot.settle extra extraKeywords)

end Signature

/-- The value bound to a name. -/
def Bound.get? (bound : List Bound) (name : String) : Option Value :=
  (bound.find? fun b => b.name == name).map Bound.value

end HintCheck
