import HintCheck.Class.Catalog
import HintCheck.Hint.Text
import HintCheck.Outline

/-!
Outlines of classes.
-/
namespace HintCheck

/-- The names of the marks that a class carries. -/
def ClassFlags.names (flags : ClassFlags) : List String :=
  ([("protocol", flags.protocol), ("runtime_checkable", flags.runtimeCheckable),
    ("typed_dict", flags.typedDict), ("total", flags.total), ("enumeration", flags.enumeration),
    ("abc", flags.abstractBase), ("no_type_check", flags.noTypeCheck)].filter Prod.snd).map Prod.fst

namespace Catalog

def classOutline (cat : Catalog) (c : ClassId) : Outline :=
  let k := cat.get c
  let classes (cs : List ClassId) : Outline := .texts (cs.map fun c => (cat.get c).text)
  let hints (hs : List Hint) : Outline := .texts (hs.map (Hint.text cat))
  let annotated (es : Entries Hint) : Outline := .rows (es.map fun (name, h) => [name, h.text cat])
  .record
    [("repr", k.shown), ("debug", k.shown), ("name", k.name), ("module", k.module),
      ("qualname", k.qualname), ("bases", classes k.bases), ("mro", classes k.ancestors),
      ("attrs", .rows (k.attrs.map fun (name, v) => [name, v.text cat])),
      ("annotations", annotated k.annotations),
      ("all_annotations", annotated (cat.allAnnotations c)), ("type_params", hints k.typeParams),
      ("orig_bases", hints k.declaredBases), ("flags", .texts k.flags.names),
      ("generic", k.isGeneric), ("root", k.root), ("builtin", k.isBuiltin),
      ("inlineable", isSpellable c), ("user_protocol", k.isUserProtocol),
      ("protocol_members", .texts (cat.protocolMembers c))]

/-- The name of a class and the numbers of its bases and ancestors. -/
def classSummary (cat : Catalog) (c : ClassId) : Outline :=
  let k := cat.get c
  .record [("repr", k.shown), ("bases", k.bases.length), ("mro", k.ancestors.length)]

end Catalog
end HintCheck
