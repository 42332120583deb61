/-!
Outlines: descriptions of objects as trees of named fields, for tools that inspect them.
-/
namespace HintCheck

/-- A description of an object. -/
inductive Outline where
  | absent
  | flag (b : Bool)
  | number (n : Nat)
  | text (s : String)
  | list (items : List Outline)
  | record (fields : List (String × Outline))

namespace Outline

instance : Coe Bool Outline := ⟨flag⟩

instance : Coe Nat Outline := ⟨number⟩

instance : Coe String Outline := ⟨text⟩

/-- A list of texts. -/
def texts (items : List String) : Outline :=
  list (items.map text)

/-- A list of rows of texts. -/
def rows (items : List (List String)) : Outline :=
  list (items.map texts)

/-- A text that may be missing. -/
def text? : Option String → Outline
  | some s => text s
  | none => absent

end Outline
end HintCheck
