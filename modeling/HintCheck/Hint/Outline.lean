import HintCheck.Hint.Classified
import HintCheck.Outline

/-!
Outlines of signs, of special forms, of hints and of classified hints.
-/
namespace HintCheck

/-- A sign, what is checked for it, and the categories that it is in. -/
def Sign.outline (s : Sign) : Outline :=
  .list
    [s.name, s.strategy.emit.name, s.strategy.arity.name,
      .texts ((Category.all.filter s.isIn).map Category.name)]

def Form.outline (cat : Catalog) (f : Form) : Outline :=
  .record
    [("form", f.name), ("origin", .text? (f.origin?.map fun b => (cat.get b).text)),
      ("deprecated_alias", f.isDeprecatedAlias), ("qualifier", f.isQualifier),
      ("home", (SpecialForm.standard f).text), ("extension", (SpecialForm.extended f).text)]

/-- A value by the name of its type and its text. -/
def Value.outline (cat : Catalog) (v : Value) : Outline :=
  .texts [v.typeName cat, v.text cat]

namespace Hint

/-- The kind of a hint, as it is shown. -/
def kindName : Hint → String
  | cls _ => "Class"
  | form _ => "Form"
  | none _ => "None"
  | quoted _ _ => "Str"
  | subscription _ _ _ => "Alias"
  | union _ _ => "UnionType"
  | typeVar _ _ _ _ _ => "TypeVar"
  | paramSpec _ _ => "ParamSpec"
  | typeVarTuple _ _ => "TypeVarTuple"
  | forwardRef _ _ _ => "ForwardRef"
  | newType _ _ _ _ => "NewType"
  | value _ _ => "Value"
  | validator _ _ => "Validator"
  | params _ _ => "ParamList"
  | extension _ _ => "Extension"

def outline (cat : Catalog) (h : Hint) : Outline :=
  let shown := h.text cat
  let classText (c : Option ClassId) : Outline := .text? (c.map fun c => (cat.get c).text)
  let formName (f : Option Form) : Outline := .text? (f.map Form.name)
  .record
    [("kind", h.kindName), ("repr", shown), ("display", shown), ("debug", shown),
      ("class", classText h.class?), ("form", formName h.bareForm?),
      ("subscripted_form", formName h.subscriptedForm?),
      ("any_form", formName (h.bareForm?.or h.subscriptedForm?)),
      ("subscripted", h.isSubscripted),
      ("alias_args", if h.isSubscripted then .number h.args.length else .absent),
      ("args", .texts (h.args.map (text cat))), ("origin", classText h.origin?),
      ("type_var", h.isTypeVar), ("union", h.isUnion),
      ("type_vars", .texts (h.typeVars.map (text cat))),
      ("sign", .text? ((h.sign? cat).map Sign.name))]

end Hint

/-- The outline of a classified hint. -/
def Classified.outline (cat : Catalog) : Classified → Outline
  | ⟨sign, hint, children, origin, data⟩ =>
    let payload : Outline :=
      match data with
      | .none => .absent
      | .literals values => .record [("literals", .list (values.map (Value.outline cat)))]
      | .annotated validators inner =>
        .record
          [("validators", .texts (validators.map (Validator.text cat))),
            ("inner", outline cat inner)]
      | .generic c substitutions supers =>
        .record
          [("class", (cat.get c).text),
            ("substitutions", .rows (substitutions.map fun (v, h) => [v.text cat, h.text cat])),
            ("supers", .texts (supers.map (Hint.text cat)))]
      | .typedDict required => .record [("required", .texts required)]
    .record
      [("sign", sign.name), ("hint", hint.text cat),
        ("children", .texts (children.map (Hint.text cat))),
        ("origin", .text? (origin.map fun c => (cat.get c).text)),
        ("ignorable", sign == .ignorable), ("emit", sign.strategy.emit.name),
        ("arity", sign.strategy.arity.name), ("data", payload)]
termination_by structural c => c

end HintCheck
