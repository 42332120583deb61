import HintCheck.Check.Blame
import HintCheck.Check.Scope
import HintCheck.Outline

/-!
Outlines of references, of checks, of scopes and of failures.
-/
namespace HintCheck

def Resolution.outline (cat : Catalog) : Resolution → Outline
  | unresolved => "unresolved"
  | resolving => "resolving"
  | resolved c => .texts ["resolved", (cat.get c).text]
  | ignored => "ignored"

/-- A class operand: its name, with what the name stands for where that is not plain. -/
def ClassOperand.shown (cat : Catalog) : ClassOperand → String
  | inline c => (cat.get c).name
  | bound key c => key.text ++ "=" ++ (cat.get c).text

namespace Check

/-- The outline of a node of the given kind. -/
def nodeOutline (kind : String) (s : Subject) (fields : List (String × Outline)) : Outline :=
  .record (("kind", kind) :: ("pith", s.pith) :: ("hint", s.hint) :: fields)

def classesOutline (cat : Catalog) (classes : List ClassOperand) : Outline :=
  .texts (classes.map (ClassOperand.shown cat))

def referenceFields (ref : ReferenceOperand) : List (String × Outline) :=
  [("key", ref.key.text), ("name", ref.reference.name)]

mutual

def outline (cat : Catalog) : Check → Outline
  | pass s => nodeOutline "Pass" s []
  | fail s => nodeOutline "Fail" s []
  | isInstance s classes => nodeOutline "IsInstance" s [("classes", classesOutline cat classes)]
  | isSubclass s classes => nodeOutline "IsSubclass" s [("classes", classesOutline cat classes)]
  | forwardInstance s ref => nodeOutline "ForwardInstance" s (referenceFields ref)
  | forwardSubclass s ref => nodeOutline "ForwardSubclass" s (referenceFields ref)
  | any s members => nodeOutline "Any" s [("nodes", .list (outlines cat members))]
  | all s parts => nodeOutline "All" s [("nodes", .list (outlines cat parts))]
  | sequence s origin item exhaustive =>
    nodeOutline "Sequence" s
      [("origin", classesOutline cat origin), ("item", outline cat item),
        ("exhaustive", exhaustive)]
  | reiterable s origin item exhaustive =>
    nodeOutline "Reiterable" s
      [("origin", classesOutline cat origin), ("item", outline cat item),
        ("exhaustive", exhaustive)]
  | mapping s origin key value exhaustive =>
    nodeOutline "Mapping" s
      [("origin", classesOutline cat origin), ("key", outline? cat key),
        ("value", outline? cat value), ("exhaustive", exhaustive)]
  | tupleFixed s origin len items =>
    nodeOutline "TupleFixed" s
      [("origin", classesOutline cat origin), ("len", len),
        ("items", .list (itemOutlines cat items))]
  | literal s values =>
    nodeOutline "Literal" s
      [("values", .list (values.map fun l =>
        .list [l.value.text cat, .text? (l.key.map ScopeKey.text)]))]
  | validators s child vs =>
    nodeOutline "Validators" s
      [("child", outline cat child),
        ("validators", .rows (vs.map fun v => [v.key.text, v.validator.text cat]))]
  | attr s name child => nodeOutline "Attr" s [("name", name), ("child", outline cat child)]
  | typedDict s origin required =>
    nodeOutline "TypedDict" s
      [("origin", classesOutline cat origin), ("required", .texts required)]
termination_by structural c => c

def outlines (cat : Catalog) : List Check → List Outline
  | [] => []
  | c :: rest => outline cat c :: outlines cat rest
termination_by structural cs => cs

def outline? (cat : Catalog) : Option Check → Outline
  | none => .absent
  | some c => outline cat c
termination_by structural c => c

def itemOutlines (cat : Catalog) : List (Nat × Check) → List Outline
  | [] => []
  | (index, c) :: rest => .list [index, outline cat c] :: itemOutlines cat rest
termination_by structural items => items

end

end Check

/-- What a name is bound to: its kind and its text. -/
def ScopeEntry.shown (cat : Catalog) : ScopeEntry → List String
  | cls c => ["class", (cat.get c).text]
  | reference ref => ["forward", ref.name]
  | validator v => ["validator", v.text cat]
  | literal v => ["literal", v.text cat]
  | default v => ["default", v.text cat]

def Scope.outline (cat : Catalog) (scope : Scope) : Outline :=
  .rows (scope.entries.map fun (key, entry) => key.text :: entry.shown cat)

/-- The outline of a failure of the value that is called `root`. -/
def Failure.outline (f : Failure) (root : String) : Outline :=
  .record
    [("path", f.path), ("type_name", f.typeName), ("value_repr", f.shown), ("reason", f.reason),
      ("describe", f.describe root)]

end HintCheck
