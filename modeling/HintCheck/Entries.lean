/-!
Named entries in the order in which their names first arrived. Writing to a known name replaces
its entry in place.
-/
namespace HintCheck

/-- A finite map from names that remembers the order of arrival. -/
abbrev Entries (α : Type) := List (String × α)

namespace Entries

variable {α : Type}

/-- The entry of a name. -/
def get? (entries : Entries α) (name : String) : Option α :=
  (entries.find? fun entry => entry.1 == name).map Prod.snd

def contains (entries : Entries α) (name : String) : Bool :=
  entries.any fun entry => entry.1 == name

/-- Writes an entry: in place if the name is known, else at the end. -/
def insert (entries : Entries α) (name : String) (value : α) : Entries α :=
  if Entries.contains entries name then
    entries.map fun entry => if entry.1 == name then (name, value) else entry
  else entries ++ [(name, value)]

/-- Removes the entry of a name; the others keep their order. -/
def erase (entries : Entries α) (name : String) : Entries α :=
  entries.filter fun entry => entry.1 != name

/-- Writes all of `more`, one after the other. -/
def insertAll (entries more : Entries α) : Entries α :=
  more.foldl (fun acc entry => Entries.insert acc entry.1 entry.2) entries

def names (entries : Entries α) : List String :=
  entries.map Prod.fst

end Entries
end HintCheck
