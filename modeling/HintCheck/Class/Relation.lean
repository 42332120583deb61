import HintCheck.Class.Catalog

/-!
Subclasses and instances. A class is below another by its ancestors, by having the attributes that
the other class's hook or protocol asks for, or because it or one of its ancestors was registered
with the other class.
-/
namespace HintCheck.Catalog

/-- The class has the attribute, and it is not disabled by the value `None`. -/
def hasLiveAttr (cat : Catalog) (c : ClassId) (name : String) : Bool :=
  match cat.classAttr? c name with
  | some .none => false
  | some _ => true
  | none => false

/-- `sub` is `cls` or one of the classes below it. -/
def isSubclass (cat : Catalog) (sub cls : ClassId) : Bool :=
  let target := cat.get cls
  let above := (cat.get sub).ancestors
  sub == cls || target.root || above.contains cls ||
    (!target.hook.isEmpty && target.hook.all (cat.hasLiveAttr sub)) ||
    (target.isUserProtocol &&
      (let members := cat.protocolMembers cls
       !members.isEmpty && members.all (cat.hasLiveAttr sub))) ||
    (target.flags.abstractBase &&
      cat.registered.any fun pair => pair.1 == cls && (pair.2 == sub || above.contains pair.2))

/-- Whether a value has an attribute of the given name. -/
def hasAttr (cat : Catalog) (v : Value) (name : String) : Bool :=
  match v with
  | .inst _ c attrs _ => Entries.contains attrs name || (cat.classAttr? c name).isSome
  | .type c => (cat.classAttr? c name).isSome || (cat.classAttr? Builtin.type name).isSome
  | v => (cat.classAttr? v.classOf name).isSome

/-- The attribute of a value. -/
def attr? (cat : Catalog) (v : Value) (name : String) : Option Value :=
  match v with
  | .inst _ c attrs _ => (Entries.get? attrs name).or (cat.classAttr? c name)
  | .type c => cat.classAttr? c name
  | .complex re im =>
    if name == "real" then some (.float re)
    else if name == "imag" then some (.float im)
    else cat.classAttr? Builtin.complex name
  | v => cat.classAttr? v.classOf name

/-- The value is an instance of the class: its class is below it, or the class is a protocol whose
members the value has. -/
def isInstance (cat : Catalog) (v : Value) (cls : ClassId) : Bool :=
  let target := cat.get cls
  target.root || cat.isSubclass v.classOf cls ||
    (target.isUserProtocol &&
      (let members := cat.protocolMembers cls
       !members.isEmpty && members.all (cat.hasAttr v)))

/-- The value is an instance of one of the classes. -/
def isInstanceOfAny (cat : Catalog) (v : Value) (classes : List ClassId) : Bool :=
  classes.any (cat.isInstance v)

end HintCheck.Catalog

namespace HintCheck

/-- Whether a value satisfies a condition. -/
def Rule.holds (cat : Catalog) : Rule → Value → Bool
  | test _ holds, v => holds v
  | attr name rule, v =>
    match cat.attr? v name with
    | some a => rule.holds cat a
    | none => false
  | equal w, v => v.equals w
  | instanceOf classes, v => cat.isInstanceOfAny v classes
  | subclassOf classes, v =>
    match v with
    | .type c => classes.any (cat.isSubclass c)
    | _ => false
  | both a b, v => a.holds cat v && b.holds cat v
  | either a b, v => a.holds cat v || b.holds cat v
  | negation a, v => !a.holds cat v

def Validator.holds (cat : Catalog) (validator : Validator) (v : Value) : Bool :=
  validator.rule.holds cat v

end HintCheck
