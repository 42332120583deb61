import HintCheck.Hint.Canonical

/-!
Classified hints: what is known about a hint once it is in canonical form. The sign says what the
hint means, and the sign's payload holds what the check needs beyond the hints inside.
-/
namespace HintCheck

/-- What belongs to some signs alone; `α` is the type of classified hints. -/
inductive SignData (α : Type) where
  | none
  /-- The members of a literal, in order. -/
  | literals (values : List Value)
  /-- The validators, and the hint that they are put on. -/
  | annotated (validators : List Validator) (inner : α)
  /-- A generic class, what its type parameters are bound to, and its subscribed bases. -/
  | generic (c : ClassId) (substitutions : List (Hint × Hint)) (supers : List Hint)
  /-- The keys that a typed dictionary must hold. -/
  | typedDict (required : List String)

/-- A classified hint. -/
structure Classified where
  sign : Sign
  /-- The canonical hint, or the hint as written where it has validators. -/
  hint : Hint
  /-- The hints inside, in order. -/
  children : List Hint
  /-- The class that the check starts from. -/
  origin : Option ClassId
  data : SignData Classified

namespace Classified

def leaf (sign : Sign) (hint : Hint) (origin : Option ClassId) : Classified :=
  ⟨sign, hint, [], origin, .none⟩

def container (sign : Sign) (hint : Hint) (origin : Option ClassId) (children : List Hint) :
    Classified :=
  ⟨sign, hint, children, origin, .none⟩

/-- Satisfied by every value. -/
def isIgnorable (c : Classified) : Bool :=
  c.sign == .ignorable

end Classified

/-- What extension objects stand for. -/
abbrev Substitutes := List (Nat × Hint)

/-- The number of times that an extension may be replaced by what it stands for. -/
def maxSubstitutions : Nat := 32

namespace Hint

/-- The ellipsis in an argument list. -/
def isDots : Hint → Bool
  | value _ .ellipsis => true
  | _ => false

/-- A subscription of the class or the special form of a container, by the number of arguments that
its sign takes. -/
def classifyByArity (cat : Catalog) (sign : Sign) (h : Hint) (origin : Option ClassId) :
    Except HintError Classified :=
  let counted (expected : Nat) : Except HintError Classified :=
    if h.args.length ≠ expected then
      .error (.malformed (h.text cat)
        ("expected " ++ toString expected ++ " type argument(s), got " ++ toString h.args.length))
    else if h.args.any isDots then
      .error (.malformed (h.text cat) "'...' only valid as the last tuple argument")
    else .ok (.container sign h origin h.args)
  if sign.isIn .reduced then .error (.unsupported (h.text cat))
  else if !h.isSubscripted then .ok (.leaf sign h origin)
  else
    match sign.strategy.arity with
    | .zero => counted 0
    | .one => counted 1
    | .two => counted 2
    | .many => .ok (.container sign h origin h.args)

/-- A tuple: `tuple[A, ...]` has any length, other tuples have one hint for each item. -/
def classifyTuple (cat : Catalog) (h : Hint) (origin : Option ClassId) :
    Except HintError Classified :=
  let fixed : Except HintError Classified :=
    if h.args.any isDots then
      .error (.malformed (h.text cat) "'...' only valid as the last of two tuple arguments")
    else .ok (.container .tupleFixed h origin h.args)
  match h.args with
  | [item, last] =>
    if !last.isDots then fixed
    else if item.isDots then .error (.malformed (h.text cat) "'...' cannot be the tuple item hint")
    else .ok (.container .tupleVariadic h origin [item])
  | _ => fixed

/-- The value that a member of a literal stands for: a number, a truth value, a text, a sequence of
bytes, `None` or an enumeration member. -/
def literalValue? (cat : Catalog) : Hint → Option Value
  | none _ => some .none
  | value _ v =>
    match v with
    | .int _ | .bool _ | .str _ | .bytes _ | .none => some v
    | .inst _ c _ _ => if (cat.get c).flags.enumeration then some v else Option.none
    | _ => Option.none
  | _ => Option.none

/-- The values of the members of a literal, up to the first that is none. -/
def literalValues (cat : Catalog) (h : Hint) : List Hint → Except HintError (List Value)
  | [] => .ok []
  | member :: rest =>
    match member.literalValue? cat with
    | Option.none =>
      .error (.malformed (h.text cat) (member.text cat ++ " not a valid literal value"))
    | some v =>
      match literalValues cat h rest with
      | .error e => .error e
      | .ok values => .ok (v :: values)

def classifyLiteral (cat : Catalog) (h : Hint) : Except HintError Classified :=
  match h.args with
  | [] => .error (.malformed (h.text cat) "Literal requires at least one value")
  | members =>
    match literalValues cat h members with
    | .error e => .error e
    | .ok values => .ok { Classified.leaf .literal h Option.none with data := .literals values }

/-- The keys that a typed dictionary must hold: those marked as required, and if the class is total
also those that are not marked. -/
def requiredKeys (cat : Catalog) (c : ClassId) : List String :=
  ((cat.allAnnotations c).filter fun entry =>
    match entry.2.subscriptedForm? with
    | some .required => true
    | some .notRequired => false
    | _ => (cat.get c).flags.total).map Prod.fst

def classifyTypedDict (cat : Catalog) (h : Hint) : Except HintError Classified :=
  match h.class? with
  | Option.none => .error (.unsupported (h.text cat))
  | some c => .ok { Classified.leaf .typedDict h (some Builtin.dict) with
      data := .typedDict (requiredKeys cat c) }

/-- A generic class with its type parameters bound. -/
def genericOf (cat : Catalog) (h : Hint) (c : ClassId) (substitutions : List (Hint × Hint)) :
    Classified :=
  { Classified.container .generic h (some c) h.args with
    data := .generic c substitutions (cat.get c).genericBases }

/-- A class with subscribed bases, itself not subscribed. -/
def classifyBareGeneric (cat : Catalog) (h : Hint) : Except HintError Classified :=
  match h.class? with
  | Option.none => .error (.unsupported (h.text cat))
  | some c => .ok (h.genericOf cat c [])

/-- A subscription of a user class: one argument for each type parameter. -/
def classifyUserGeneric (cat : Catalog) (h : Hint) : Except HintError Classified :=
  match h.origin? with
  | Option.none => .error (.unsupported (h.text cat))
  | some c =>
    let params := (cat.get c).typeParams
    if params.isEmpty then
      .error (.malformed (h.text cat) ((cat.get c).text ++ " not a generic class"))
    else if h.args.length ≠ params.length then
      .error (.malformed (h.text cat)
        ("expected " ++ toString params.length ++ " type argument(s), got " ++
          toString h.args.length))
    else .ok (h.genericOf cat c (params.zip h.args))

/-- Classifies a hint in canonical form. -/
def classifyCanonical (cat : Catalog) (h : Hint) : Except HintError Classified :=
  match h.sign? cat with
  | Option.none => h.classifyUserGeneric cat
  | some sign =>
    let origin := h.origin?.or h.class?
    match sign with
    | .ignorable | .isinstanceable | .forwardRef | .noReturn => .ok (.leaf sign h origin)
    | .union | .optional =>
      if h.args.isEmpty then .error (.malformed (h.text cat) "union without members")
      else .ok (.container sign h Option.none h.args)
    | .literal => h.classifyLiteral cat
    | .tuple | .tupleFixed | .tupleVariadic => h.classifyTuple cat origin
    | .typedDict => h.classifyTypedDict cat
    | .generic => h.classifyBareGeneric cat
    | sign => h.classifyByArity cat sign origin

/-- Puts the validators back on a classified hint. -/
def annotate (h : Hint) (reduced : Reduced) (inner : Classified) : Classified :=
  if reduced.validators.isEmpty then inner
  else ⟨.annotated, h, [reduced.hint], inner.origin, .annotated reduced.validators inner⟩

/-- Classifies a hint in which at most `room` extensions are replaced one after the other. -/
def classifyWithin (cat : Catalog) (subs : Substitutes) :
    Nat → Context → Hint → Except HintError Classified
  | _, _, value label v => .error (.notAHint (text cat (value label v)))
  | _, _, validator label v => .error (.notAHint (text cat (validator label v)))
  | _, _, params label hints => .error (.notAHint (text cat (params label hints)))
  | 0, _, extension _ shown => .error (.recursion shown maxSubstitutions)
  | room + 1, ctx, extension label shown =>
    match subs.lookup label with
    | some h => classifyWithin cat subs room ctx h
    | Option.none => .error (.unsupported shown)
  | room, ctx, h =>
    match h.canonical cat ctx with
    | .error e => .error e
    | .ok reduced =>
      match reduced.hint, room with
      | extension _ shown, 0 => .error (.recursion shown maxSubstitutions)
      | extension label shown, room + 1 =>
        (classifyWithin cat subs room ctx.nested (extension label shown)).map (h.annotate reduced)
      | canonical, _ => (canonical.classifyCanonical cat).map (h.annotate reduced)

/-- Classifies a hint. -/
def classify (cat : Catalog) (subs : Substitutes) (ctx : Context) (h : Hint) :
    Except HintError Classified :=
  h.classifyWithin cat subs maxSubstitutions ctx

end Hint
end HintCheck
