import HintCheck.Context
import HintCheck.Hint.Error
import HintCheck.Sign.Spelling

/-!
Canonical forms. Many spellings mean the same; a hint is simplified step by step until no rule
applies. The validators of annotated hints are set aside on the way, those of an inner hint before
those of an outer one. A hint that still changes after `maxSteps` steps has no canonical form.

The members of a union are brought to canonical form in turn, as deep as unions are nested. What
type variables are bound to may mention them again, so nothing in a hint bounds that depth: the
rules are stated with an explicit bound, and the bound that `canonical` uses suffices unless a
binding leads back to itself.
-/
namespace HintCheck

/-- A canonical hint and the validators set aside on the way to it. -/
structure Reduced where
  hint : Hint
  validators : List Validator

/-- The number of steps that a hint may take. -/
def maxSteps : Nat := 64

namespace Hint

/-- Satisfied by every value. -/
def isIgnorable (cat : Catalog) : Hint → Bool
  | cls c => (cat.get c).root
  | _ => false

/-- The hint for the value that a variadic parameter is bound to: `*args: T` binds a tuple of items
that satisfy `T`, and `**kwargs: T` a dictionary of such values. -/
def spread (cat : Catalog) (kind : ParamKind) (h : Hint) : Except HintError Hint :=
  match kind, h with
  | .varPositional, subscription _ (.form ⟨_, .unpack⟩) [inner] =>
    match inner with
    | typeVarTuple _ _ => .ok object
    | inner =>
      if inner.origin? = some (.builtin .tuple) then .ok inner
      else .error (.malformed (h.text cat) "*args unpack requires a TypeVarTuple or tuple hint")
  | .varKeyword, subscription _ (.form ⟨_, .unpack⟩) [inner] =>
    match inner with
    | cls c =>
      if (cat.get c).flags.typedDict then .ok inner
      else .error (.malformed (h.text cat) "**kwargs unpack requires a TypedDict")
    | _ => .error (.malformed (h.text cat) "**kwargs unpack requires a TypedDict")
  | _, subscription _ (.form ⟨_, .unpack⟩) _ =>
    .error (.malformed (h.text cat) "Unpack outside a variadic parameter")
  | .varPositional, h => .ok (tupleOf Option.none Option.none h)
  | .varKeyword, h => .ok (generic Option.none Builtin.dict [Builtin.str, h])
  | _, h => .ok h

/-- The hint to start from at a position. -/
def placed (cat : Catalog) (ctx : Context) (h : Hint) : Except HintError Hint :=
  match ctx.position with
  | .param kind => h.spread cat kind
  | _ => .ok h

/-- The step of a bare special form. -/
def stepForm (cat : Catalog) (ctx : Context) (f : SpecialForm) : Except HintError (Option Hint) :=
  let malformed (reason : String) : Except HintError (Option Hint) :=
    .error (.malformed f.text reason)
  if f.form = .any || f.form = .generic || f.form = .protocol then .ok (some object)
  else if Spelling.isDeprecated f.text then .ok (f.form.origin?.map fun origin => cls origin)
  else if f.form.isQualifier then .ok (some object)
  else
    match f.form with
    | .literalString => .ok (some Builtin.str)
    | .typeGuard | .typeIs => .ok (some Builtin.bool)
    | .selfType =>
      match ctx.classes.getLast? with
      | some c => .ok (some (cls c))
      | Option.none => malformed "typing.Self outside a class"
    | other =>
      if ((form f).sign? cat).any (·.isIn .returnOnly) then
        match ctx.position with
        | .param _ => malformed "only valid as a return hint"
        | _ => .ok Option.none
      else
        match other with
        | .optional | .union | .literal | .annotated | .unpack => malformed "requires subscription"
        | _ => .ok Option.none

/-- The step of a subscribed tuple: one with an unpacked item is checked as a plain tuple. -/
def stepTuple (cat : Catalog) (h : Hint) (args : List Hint) : Except HintError (Option Hint) :=
  match (args.filter fun a => a.subscriptedForm? == some .unpack).length with
  | 0 => .ok Option.none
  | 1 => .ok (some Builtin.tuple)
  | _ => .error (.malformed (h.text cat) "tuple hint contains more than one unpack")

mutual

/-- The members of a union, with the members of unions directly inside it in their place. -/
def flatten : Hint → List Hint
  | union _ members => flattenAll members
  | subscription label (.form f) args =>
    if f.form = .union then flattenAll args else [subscription label (.form f) args]
  | h => [h]
termination_by structural h => h

def flattenAll : List Hint → List Hint
  | [] => []
  | h :: rest => flatten h ++ flattenAll rest
termination_by structural hints => hints

end

/-- The canonical members that one member of a union contributes; `none` means that the union is
satisfied by every value. A member with validators keeps its spelling, so that classification finds
the validators again. -/
def memberForms (cat : Catalog) (member : Hint) (reduced : Reduced) : Option (List Hint) :=
  if !reduced.validators.isEmpty then some [member]
  else if reduced.hint.isIgnorable cat then Option.none
  else if reduced.hint.isUnion then some reduced.hint.args
  else some [reduced.hint]

/-- The canonical members of a union; the first member that every value satisfies ends the walk. -/
def unionForms (cat : Catalog) (reduce : Hint → Except HintError Reduced) :
    List Hint → Except HintError (Option (List Hint))
  | [] => .ok (some [])
  | member :: rest =>
    match reduce member with
    | .error e => .error e
    | .ok reduced =>
      match memberForms cat member reduced with
      | Option.none => .ok Option.none
      | some forms =>
        match unionForms cat reduce rest with
        | .error e => .error e
        | .ok Option.none => .ok Option.none
        | .ok (some more) => .ok (some (forms ++ more))

/-- A union of the given members in the spelling of `h`. -/
def respelled (h : Hint) (members : List Hint) : Hint :=
  match h with
  | union _ _ => union Option.none members
  | _ => typing Option.none .union members

/-- The step of a union: its members are flattened and brought to canonical form. A union with one
member is that member, and a union that does not change has taken no step. -/
def stepUnion (cat : Catalog) (reduce : Hint → Except HintError Reduced) (h : Hint) :
    Except HintError (Option Hint) :=
  match flattenAll h.args with
  | [] => .error (.malformed (h.text cat) "union without members")
  | flat =>
    match unionForms cat reduce flat with
    | .error e => .error e
    | .ok Option.none => .ok (some object)
    | .ok (some members) =>
      let next := match members with
        | [only] => only
        | members => h.respelled members
      .ok (if next.structEq h then Option.none else some next)

/-- What one step does: the next hint, if any rule applies, and the validators set aside. -/
structure Step where
  next : Option Hint
  validators : List Validator

/-- The validators among the metadata of an annotated hint. -/
def metadataValidators (metadata : List Hint) : List Validator :=
  metadata.filterMap fun m =>
    match m with
    | validator _ v => some v
    | _ => Option.none

/-- The step of a subscribed special form. -/
def stepSubscribed (cat : Catalog) (reduce : Hint → Except HintError Reduced) (h : Hint)
    (f : SpecialForm) (args : List Hint) : Except HintError Step :=
  let malformed (reason : String) : Except HintError Step := .error (.malformed (h.text cat) reason)
  let becomes (next : Hint) : Except HintError Step := .ok ⟨some next, []⟩
  let stays : Except HintError Step := .ok ⟨Option.none, []⟩
  if f.form.isQualifier then
    match args with
    | [inner] => becomes inner
    | _ => malformed (f.form.name ++ " requires exactly one argument")
  else
    match f.form with
    | .optional =>
      match args with
      | [inner] => becomes (typing Option.none .union [inner, none Option.none])
      | _ => malformed "Optional requires exactly one argument"
    | .union =>
      match stepUnion cat reduce h with
      | .error e => .error e
      | .ok next => .ok ⟨next, []⟩
    | .annotated =>
      match args with
      | inner :: first :: more => .ok ⟨some inner, metadataValidators (first :: more)⟩
      | _ => malformed "Annotated requires at least one metadata item"
    | .typeGuard | .typeIs => becomes Builtin.bool
    | .generic | .protocol => becomes object
    | .unpack => malformed "Unpack outside a variadic parameter or tuple hint"
    | .any | .noReturn | .never | .selfType | .literalString => malformed "not subscriptable"
    | other =>
      if Spelling.isDeprecated f.text then
        match other.origin? with
        | some origin => becomes (generic Option.none origin args)
        | Option.none => stays
      else stays

/-- What a type variable stands for: what it is bound to here, else its bound, else the union of its
constraints. -/
def typeVarMeaning (ctx : Context) (h : Hint) (bound : Option Hint) (constraints : List Hint) :
    Hint :=
  match ctx.binding? h with
  | some bound => bound
  | Option.none =>
    match bound, constraints with
    | some bound, _ => bound
    | Option.none, [] => object
    | Option.none, constraints => typing Option.none .union constraints

/-- One step. Members of unions are brought to canonical form by `reduce`. -/
def step (cat : Catalog) (ctx : Context) (reduce : Hint → Except HintError Reduced) (h : Hint) :
    Except HintError Step :=
  let plain (next : Except HintError (Option Hint)) : Except HintError Step :=
    match next with
    | .error e => .error e
    | .ok next => .ok ⟨next, []⟩
  match h with
  | none _ => .ok ⟨some Builtin.noneType, []⟩
  | typeVar _ _ _ bound constraints => .ok ⟨some (h.typeVarMeaning ctx bound constraints), []⟩
  | paramSpec _ _ | typeVarTuple _ _ => .ok ⟨some ((ctx.binding? h).getD object), []⟩
  | newType _ _ _ supertype => .ok ⟨some supertype, []⟩
  | union _ _ => plain (h.stepUnion cat reduce)
  | form f => plain (stepForm cat ctx f)
  | subscription _ (.form f) args => h.stepSubscribed cat reduce f args
  | subscription _ (.cls c) args =>
    if c = Builtin.tuple then plain (h.stepTuple cat args) else .ok ⟨Option.none, []⟩
  | cls c =>
    if c = Builtin.generic || c = Builtin.protocol then .ok ⟨some object, []⟩
    else .ok ⟨Option.none, []⟩
  | _ => .ok ⟨Option.none, []⟩

/-- Takes at most `steps` steps; `none` means that they were not enough. The validators found later,
further inside, come first. -/
def iterate (cat : Catalog) (ctx : Context) (reduce : Hint → Except HintError Reduced) :
    Nat → Hint → List Validator → Except HintError (Option Reduced)
  | 0, _, _ => .ok Option.none
  | steps + 1, h, validators =>
    match h.step cat ctx reduce with
    | .error e => .error e
    | .ok ⟨Option.none, _⟩ => .ok (some ⟨h, validators⟩)
    | .ok ⟨some next, found⟩ => iterate cat ctx reduce steps next (found ++ validators)

/-- The canonical form of a hint, where unions are nested at most `bound` deep. -/
def canonicalWithin (cat : Catalog) : Nat → Context → Hint → Except HintError Reduced
  | 0, _, h => .error (.endless (h.text cat))
  | bound + 1, ctx, h =>
    match h.placed cat ctx with
    | .error e => .error e
    | .ok start =>
      match iterate cat ctx (canonicalWithin cat bound ctx.nested) maxSteps start [] with
      | .error e => .error e
      | .ok Option.none => .error (.recursion (h.text cat) maxSteps)
      | .ok (some reduced) => .ok reduced

/-- How deep unions can be nested in a hint and in what its type variables are bound to, if no
binding leads back to itself. -/
def nestingBound (ctx : Context) (h : Hint) : Nat :=
  ctx.bindings.foldl (fun total entry => total + entry.2.depth + 1) (h.depth + 2)

/-- The canonical form of a hint. -/
def canonical (cat : Catalog) (ctx : Context) (h : Hint) : Except HintError Reduced :=
  h.canonicalWithin cat (h.nestingBound ctx) ctx

end Hint
end HintCheck
