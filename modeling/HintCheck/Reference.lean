import HintCheck.Class.Relation
import HintCheck.Context
import HintCheck.Namespace
import HintCheck.Text.DoubleQuoted
import HintCheck.Value.Text

/-!
Forward references: classes known by name only, looked up when a value is first checked against
them. A reference that was found stays resolved, and one whose scope has ended without defining the
name is ignored from then on; after a failure the next use looks again.
-/
namespace HintCheck

/-- Why a reference has no class. -/
inductive ReferenceError where
  /-- The module in front of the name cannot be imported. -/
  | moduleNotFound (name module : String)
  /-- No scope defines the name. -/
  | nameNotFound (name scope : String)
  /-- The name denotes something else than a class. -/
  | notAClass (name shown : String)
deriving DecidableEq, Repr

def ReferenceError.message : ReferenceError → String
  | moduleNotFound name module =>
    "forward reference '" ++ name ++ "' unresolvable: module '" ++ module ++ "' not found"
  | nameNotFound name scope =>
    "forward reference '" ++ name ++ "' unresolvable: name undefined in " ++ scope
  | notAClass name shown =>
    "forward reference '" ++ name ++ "' referent " ++ shown ++ " not a class"

/-- What names are looked up in. -/
structure Surroundings where
  catalog : Catalog
  namespaces : Namespaces

/-- A name and the scope that it was written in. -/
structure Reference where
  name : String
  module : Option String
  /-- The enclosing classes, the innermost last. -/
  classes : List ClassId
  locals : Option Nat
deriving DecidableEq, Repr

/-- The outcome of a look-up. -/
inductive Lookup where
  | found (v : Value)
  | missing
  /-- The name may have been defined in a local scope that has ended. -/
  | scopeEnded

namespace Reference

/-- A name written in a context. -/
def ofName (name : String) (ctx : Context) : Reference :=
  ⟨name, ctx.module, ctx.classes, ctx.locals⟩

/-- The reference that a hint stands for; a module given with the name takes precedence. -/
def ofHint? (ctx : Context) : Hint → Option Reference
  | .quoted _ name => some (ofName name ctx)
  | .forwardRef _ name module =>
    let ref := ofName name ctx
    some { ref with module := module.or ref.module }
  | _ => none

/-- The parts of a dotted name. -/
def segments (name : String) : List String :=
  (name.toList.splitOn '.').map String.ofList

/-- A dotted name split at its last dot. -/
def qualified? (name : String) : Option (String × String) :=
  match (segments name).reverse with
  | last :: first :: more => some (".".intercalate (first :: more).reverse, last)
  | _ => none

/-- The name as the enclosing classes define it: a class itself, or one of its own attributes. -/
def inClasses? (around : Surroundings) (classes : List ClassId) (name : String) : Option Value :=
  classes.reverse.findSome? fun c =>
    let k := around.catalog.get c
    if k.name == name then some (.type c) else Entries.get? k.attrs name

/-- The name as the module of the scope defines it. -/
def inModule? (around : Surroundings) (module : Option String) (name : String) : Option Value :=
  module.bind fun m =>
    (around.namespaces.import? m).bind fun found => Entries.get? found.globals name

/-- Looks a plain name up: in the enclosing classes, the module, the local scope, the builtins. -/
def lookupPlain (around : Surroundings) (ref : Reference) (name : String) : Lookup :=
  let scope := ref.locals.map around.namespaces.scope?
  let inScope := scope.join.bind fun names => Entries.get? names name
  match (inClasses? around ref.classes name).or ((inModule? around ref.module name).or inScope) with
  | some v => .found v
  | none =>
    match Builtin.ofName? name with
    | some b => .found (.type b)
    | none =>
      match scope with
      | some none => .scopeEnded
      | _ => .missing

/-- Follows attributes from a value. -/
def follow (around : Surroundings) : Value → List String → Lookup
  | v, [] => .found v
  | v, part :: rest =>
    match around.catalog.attr? v part with
    | some next => follow around next rest
    | none => .missing

/-- Looks a reference up. The part before the last dot is a module if one of that name can be
imported; else the first part is a plain name, and the others are attributes. -/
def lookup (around : Surroundings) (ref : Reference) : Except ReferenceError Lookup :=
  match qualified? ref.name with
  | none => .ok (ref.lookupPlain around ref.name)
  | some (module, last) =>
    match around.namespaces.import? module with
    | some m =>
      match Entries.get? m.globals last with
      | some v => .ok (.found v)
      | none => .ok .missing
    | none =>
      match segments ref.name with
      | [] => .ok .missing
      | head :: rest =>
        match ref.lookupPlain around head with
        | .found v => .ok (follow around v rest)
        | .scopeEnded => .ok .scopeEnded
        | .missing => .error (.moduleNotFound ref.name module)

/-- The scope that a name is missing in, in words. -/
def scopeText (ref : Reference) : String :=
  match ref.module with
  | some module => "module '" ++ module ++ "'"
  | none => "builtins"

/-- The class that a reference denotes now; `none` if its scope has ended. -/
def target (around : Surroundings) (ref : Reference) : Except ReferenceError (Option ClassId) :=
  match ref.lookup around with
  | .error e => .error e
  | .ok (.found (.type c)) => .ok (some c)
  | .ok (.found v) => .error (.notAClass ref.name (v.text around.catalog))
  | .ok .scopeEnded => .ok none
  | .ok .missing => .error (.nameNotFound ref.name ref.scopeText)

/-- A reference that has not been looked up, as it is shown. -/
def text (ref : Reference) : String :=
  let module :=
    match ref.module with
    | some m => "Some(" ++ DoubleQuoted.ofString m ++ ")"
    | none => "None"
  "ForwardRef \x7b name: " ++ DoubleQuoted.ofString ref.name ++ ", scope_module: " ++ module ++
    ", state: Unresolved, .. \x7d"

end Reference

/-- How far a reference has been resolved. -/
inductive Resolution where
  | unresolved
  /-- A look-up is under way. -/
  | resolving
  | resolved (c : ClassId)
  /-- The scope ended without defining the name: every value is accepted. -/
  | ignored
deriving DecidableEq, Repr

namespace Resolution

/-- The outcome of a resolution that is settled for good. -/
def settled? : Resolution → Option (Option ClassId)
  | resolved c => some (some c)
  | ignored => some none
  | unresolved | resolving => none

/-- The state after a look-up with the given outcome: a failure leaves the reference unresolved. -/
def after : Except ReferenceError (Option ClassId) → Resolution
  | .ok (some c) => resolved c
  | .ok none => ignored
  | .error _ => unresolved

/-- Uses a reference: a settled one answers from memory, any other is looked up now. -/
def use (around : Surroundings) (ref : Reference) (state : Resolution) :
    Except ReferenceError (Option ClassId) × Resolution :=
  match state.settled? with
  | some outcome => (.ok outcome, state)
  | none =>
    let outcome := ref.target around
    (outcome, after outcome)

end Resolution

/-- Whether a value is an instance of what a reference denotes; an ignored one accepts any. -/
def Catalog.isReferenceInstance (cat : Catalog) (v : Value) : Option ClassId → Bool
  | some c => cat.isInstance v c
  | none => true

/-- Whether a class is below what a reference denotes; an ignored one accepts any class. -/
def Catalog.isReferenceSubclass (cat : Catalog) (sub : ClassId) : Option ClassId → Bool
  | some c => cat.isSubclass sub c
  | none => true

/-- What can be asked of a reference. -/
inductive Request where
  /-- The class that it denotes. -/
  | target
  /-- Whether a value is an instance of that class. -/
  | isInstance (v : Value)
  /-- Whether a value is a class below that class. -/
  | isSubclass (v : Value)

/-- What a reference answers. -/
inductive Answer where
  | target (c : Option ClassId)
  | verdict (b : Bool)
deriving DecidableEq, Repr

/-- The answer to a request by what the reference denotes. A value that is no class needs none: it
is below no class. -/
def Request.reply? (cat : Catalog) : Request → Option (Option ClassId → Answer)
  | target => some .target
  | isInstance v => some fun c => .verdict (cat.isReferenceInstance v c)
  | isSubclass (.type sub) => some fun c => .verdict (cat.isReferenceSubclass sub c)
  | isSubclass _ => none

/-- Puts a request to a reference, which is looked up only if the answer depends on it. -/
def Resolution.ask (around : Surroundings) (ref : Reference) (state : Resolution)
    (request : Request) : Except ReferenceError Answer × Resolution :=
  match request.reply? around.catalog with
  | some reply =>
    let (outcome, after) := state.use around ref
    (outcome.map reply, after)
  | none => (.ok (.verdict false), state)

end HintCheck
