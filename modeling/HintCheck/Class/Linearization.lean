/-!
Linear orders of ancestors. The order of a class merges the orders of its bases and the list of the
bases themselves: it repeatedly takes the first head that stands in no tail.
-/
namespace HintCheck.Linearization

variable {α : Type} [DecidableEq α]

/-- The first head that stands in no tail. -/
def nextHead? (lists : List (List α)) : Option α :=
  (lists.filterMap List.head?).find? fun c => !lists.any fun l => l.tail.contains c

/-- A list without `c`, if `c` is its head. -/
def dropHead (c : α) : List α → List α
  | [] => []
  | x :: xs => if x = c then xs else x :: xs

/-- All lists without `c` at their heads. -/
def dropHeads (c : α) (lists : List (List α)) : List (List α) :=
  lists.map (dropHead c)

/-- The number of entries of all lists. -/
def size : List (List α) → Nat
  | [] => 0
  | l :: lists => l.length + size lists

/-- Why lists have no merge. -/
inductive Obstacle where
  /-- Every head stands in a tail. -/
  | noHead
  /-- The merge would be longer than allowed. -/
  | tooLong
deriving DecidableEq, Repr

omit [DecidableEq α] in
theorem size_cons (l : List α) (lists : List (List α)) :
    size (l :: lists) = l.length + size lists :=
  rfl

theorem length_dropHead_le (c : α) (l : List α) : (dropHead c l).length ≤ l.length := by
  cases l with
  | nil => simp [dropHead]
  | cons x xs => by_cases same : x = c <;> simp [dropHead, same]

theorem size_dropHeads_le (c : α) (lists : List (List α)) :
    size (dropHeads c lists) ≤ size lists := by
  induction lists with
  | nil => simp [dropHeads, size]
  | cons l lists ih =>
    have head := length_dropHead_le c l
    simp only [dropHeads, List.map_cons, size_cons] at ih ⊢
    omega

/-- Dropping a head from all lists makes them smaller. -/
theorem size_dropHeads_lt {c : α} {lists : List (List α)} (head : c ∈ lists.filterMap List.head?) :
    size (dropHeads c lists) < size lists := by
  induction lists with
  | nil => simp at head
  | cons l lists ih =>
    have rest := size_dropHeads_le c lists
    have this := length_dropHead_le c l
    simp only [dropHeads, List.map_cons, size_cons] at ih rest ⊢
    by_cases first : l.head? = some c
    · cases l with
      | nil => simp at first
      | cons x xs =>
        have same : x = c := by simpa using first
        have shorter : (dropHead c (x :: xs)).length < (x :: xs).length := by simp [dropHead, same]
        omega
    · have later : c ∈ lists.filterMap List.head? := by
        cases l with
        | nil => simpa using head
        | cons x xs =>
          have split : c = x ∨ c ∈ lists.filterMap List.head? := by simpa using head
          cases split with
          | inl same => exact absurd (by simp [same]) first
          | inr later => exact later
      have smaller := ih later
      omega

theorem nextHead?_mem {c : α} {lists : List (List α)} (found : nextHead? lists = some c) :
    c ∈ lists.filterMap List.head? :=
  List.mem_of_find?_eq_some found

/-- Merges lists into one of at most `room` entries. -/
def merge (room : Nat) (lists : List (List α)) : Except Obstacle (List α) :=
  if lists.all List.isEmpty then .ok []
  else
    match found : nextHead? lists with
    | none => .error .noHead
    | some c =>
      have := size_dropHeads_lt (nextHead?_mem found)
      if room = 0 then .error .tooLong
      else
        match merge (room - 1) (dropHeads c lists) with
        | .ok rest => .ok (c :: rest)
        | .error obstacle => .error obstacle
termination_by size lists

end HintCheck.Linearization
