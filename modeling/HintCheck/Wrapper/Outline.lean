import HintCheck.Check.Outline
import HintCheck.Wrapper

/-!
Outlines of functions and of wrappers.
-/
namespace HintCheck

def Parameter.outline (cat : Catalog) (p : Parameter) : Outline :=
  .list
    [p.name, p.kind.text, .text? (p.hint.map (Hint.text cat)),
      .text? (p.default.map (Value.text cat))]

def Declaration.outline (cat : Catalog) (d : Declaration) : Outline :=
  .record
    [("name", d.name), ("qualname", d.qualname), ("module", d.module),
      ("signature", d.signature.text), ("debug", d.text),
      ("returns", .text? (d.returns.map (Hint.text cat))), ("no_type_check", d.unchecked),
      ("local", d.locals.isSome),
      ("params", .list (d.signature.params.map (Parameter.outline cat)))]

/-- The fields of the outline of a wrapper around a function. -/
def Wrapper.outline (cat : Catalog) (d : Declaration) (w : Wrapper) : List (String × Outline) :=
  [("source", w.source), ("filename", d.filename.text), ("scope", w.scope.outline cat),
    ("scope_len", w.scope.entries.length),
    ("params", .list (w.params.map fun p => .list [p.index, p.name, p.check.outline cat])),
    ("return", Check.outline? cat w.result)]

end HintCheck
