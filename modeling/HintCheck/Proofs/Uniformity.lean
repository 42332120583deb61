import HintCheck.Check.Verdict

/-!
Verdicts are uniform in what looks references up. Where two oracles answer in accord about the
references that a check holds, the check gives verdicts in accord, whatever the two oracles do
besides: one may remember what it found, or find nothing at all.
-/
namespace HintCheck

/-! ### The references of a check -/

namespace Check

mutual

/-- The references that a check tests against, in the order in which it is written. -/
def references : Check → List ReferenceOperand
  | pass _ | fail _ | isInstance _ _ | isSubclass _ _ | literal _ _ | typedDict _ _ _ => []
  | forwardInstance _ ref | forwardSubclass _ ref => [ref]
  | any _ nodes | all _ nodes => referencesAll nodes
  | sequence _ _ item _ | reiterable _ _ item _ => references item
  | mapping _ _ key value _ => referencesOption key ++ referencesOption value
  | tupleFixed _ _ _ items => referencesItems items
  | validators _ child _ | attr _ _ child => references child
termination_by structural c => c

def referencesAll : List Check → List ReferenceOperand
  | [] => []
  | c :: rest => references c ++ referencesAll rest
termination_by structural cs => cs

def referencesOption : Option Check → List ReferenceOperand
  | none => []
  | some c => references c
termination_by structural c => c

def referencesItems : List (Nat × Check) → List ReferenceOperand
  | [] => []
  | (_, c) :: rest => references c ++ referencesItems rest
termination_by structural items => items

end

end Check

/-! ### Accord -/

/-- A relation between computations that is kept when computations are put together. -/
structure Accord (m n : Type → Type) [Monad m] [Monad n] where
  rel : {α : Type} → m α → n α → Prop
  ofPure : ∀ {α : Type} (a : α), rel (pure a : m α) (pure a)
  ofBind : ∀ {α β : Type} {x : m α} {y : n α} {f : α → m β} {g : α → n β}, rel x y →
    (∀ a, rel (f a) (g a)) → rel (x >>= f) (y >>= g)

section Accord
variable {m n : Type → Type} [Monad m] [Monad n] (accord : Accord m n)

theorem Accord.ofIte {α : Type} {p : Prop} [Decidable p] {x x' : m α} {y y' : n α}
    (yes : accord.rel x y) (no : accord.rel x' y') :
    accord.rel (if p then x else x') (if p then y else y') := by
  split
  · exact yes
  · exact no

namespace Check

theorem accord_both {x : m Bool} {y : n Bool} {f : Unit → m Bool} {g : Unit → n Bool}
    (first : accord.rel x y) (next : accord.rel (f ()) (g ())) :
    accord.rel (both x f) (both y g) :=
  accord.ofBind first fun _ => accord.ofIte next (accord.ofPure false)

theorem accord_allOf {α : Type} {test : α → m Bool} {other : α → n Bool}
    (each : ∀ a, accord.rel (test a) (other a)) (items : List α) :
    accord.rel (allOf test items) (allOf other items) := by
  induction items with
  | nil => exact accord.ofPure true
  | cons a rest ih => exact accord_both accord (each a) ih

variable (o : Oracle m) (resolve : ReferenceOperand → n (Option ClassId))

mutual

/-- Oracles in accord about the references of a check give verdicts in accord. -/
theorem accord_accepts (c : Check) (v : Value)
    (agree : ∀ op ∈ c.references, accord.rel (o.resolve op) (resolve op)) :
    accord.rel (c.accepts o v) (c.accepts ⟨o.catalog, o.random, resolve⟩ v) := by
  cases c with
  | pass | fail | isInstance | isSubclass | literal | typedDict =>
    rw [accepts, accepts]
    exact accord.ofPure _
  | forwardInstance _ ref =>
    rw [accepts, accepts]
    exact accord.ofBind (agree ref (by simp [references])) fun _ => accord.ofPure _
  | forwardSubclass _ ref =>
    cases v with
    | type sub =>
      rw [accepts, accepts]
      exact accord.ofBind (agree ref (by simp [references])) fun _ => accord.ofPure _
    | _ => exact accord.ofPure false
  | any _ members =>
    rw [accepts, accepts]
    exact accord_acceptsAny members v fun op member => agree op (by rwa [references])
  | all _ parts =>
    rw [accepts, accepts]
    exact accord_acceptsAll parts v fun op member => agree op (by rwa [references])
  | sequence _ origin item exhaustive =>
    have inside (x : Value) := accord_accepts item x fun op member => agree op (by rwa [references])
    rw [accepts, accepts]
    refine accord.ofIte (accord.ofPure _) (accord.ofIte (accord_allOf accord inside _) ?_)
    show accord.rel (match v.sample? o.random with | some x => _ | none => _) _
    cases v.sample? o.random with
    | some x => exact inside x
    | none => exact accord.ofPure true
  | reiterable _ origin item exhaustive =>
    have inside (x : Value) := accord_accepts item x fun op member => agree op (by rwa [references])
    rw [accepts, accepts]
    refine accord.ofIte (accord.ofPure _) (accord.ofIte (accord_allOf accord inside _) ?_)
    cases v.first? with
    | some x => exact inside x
    | none => exact accord.ofPure true
  | mapping _ origin key value exhaustive =>
    rw [references] at agree
    rw [accepts, accepts]
    refine accord.ofIte (accord.ofPure _) (accord_allOf accord (fun pair => ?_) _)
    exact accord_both accord
      (accord_acceptsOption key pair.1 fun op member => agree op (List.mem_append_left _ member))
      (accord_acceptsOption value pair.2 fun op member => agree op (List.mem_append_right _ member))
  | tupleFixed _ origin len items =>
    rw [accepts, accepts]
    exact accord.ofIte (accord.ofPure _)
      (accord_acceptsItems items v fun op member => agree op (by rwa [references]))
  | validators _ child vs =>
    rw [accepts, accepts]
    exact accord.ofBind
      (accord_accepts child v fun op member => agree op (by rwa [references]))
      fun _ => accord.ofIte (accord.ofPure _) (accord.ofPure _)
  | attr _ name child =>
    rw [accepts, accepts]
    show accord.rel (match o.catalog.attr? v name with | some a => _ | none => _) _
    cases o.catalog.attr? v name with
    | some a => exact accord_accepts child a fun op member => agree op (by rwa [references])
    | none => exact accord.ofPure true
termination_by structural c

theorem accord_acceptsAny (members : List Check) (v : Value)
    (agree : ∀ op ∈ referencesAll members, accord.rel (o.resolve op) (resolve op)) :
    accord.rel (acceptsAny o members v) (acceptsAny ⟨o.catalog, o.random, resolve⟩ members v) := by
  cases members with
  | nil => exact accord.ofPure _
  | cons c rest =>
    rw [referencesAll] at agree
    rw [acceptsAny, acceptsAny]
    exact accord.ofBind
      (accord_accepts c v fun op member => agree op (List.mem_append_left _ member))
      fun _ => accord.ofIte (accord.ofPure _)
        (accord_acceptsAny rest v fun op member => agree op (List.mem_append_right _ member))
termination_by structural members

theorem accord_acceptsAll (parts : List Check) (v : Value)
    (agree : ∀ op ∈ referencesAll parts, accord.rel (o.resolve op) (resolve op)) :
    accord.rel (acceptsAll o parts v) (acceptsAll ⟨o.catalog, o.random, resolve⟩ parts v) := by
  cases parts with
  | nil => exact accord.ofPure _
  | cons c rest =>
    rw [referencesAll] at agree
    rw [acceptsAll, acceptsAll]
    exact accord.ofBind
      (accord_accepts c v fun op member => agree op (List.mem_append_left _ member))
      fun _ => accord.ofIte
        (accord_acceptsAll rest v fun op member => agree op (List.mem_append_right _ member))
        (accord.ofPure _)
termination_by structural parts

theorem accord_acceptsOption (c : Option Check) (v : Value)
    (agree : ∀ op ∈ referencesOption c, accord.rel (o.resolve op) (resolve op)) :
    accord.rel (acceptsOption o c v) (acceptsOption ⟨o.catalog, o.random, resolve⟩ c v) := by
  cases c with
  | none => exact accord.ofPure _
  | some c =>
    rw [acceptsOption, acceptsOption]
    exact accord_accepts c v fun op member => agree op (by rwa [referencesOption])
termination_by structural c

theorem accord_acceptsItems (items : List (Nat × Check)) (v : Value)
    (agree : ∀ op ∈ referencesItems items, accord.rel (o.resolve op) (resolve op)) :
    accord.rel (acceptsItems o items v)
      (acceptsItems ⟨o.catalog, o.random, resolve⟩ items v) := by
  match items with
  | [] => exact accord.ofPure _
  | (index, c) :: rest =>
    rw [referencesItems] at agree
    have others :=
      accord_acceptsItems rest v fun op member => agree op (List.mem_append_right _ member)
    rw [acceptsItems, acceptsItems]
    cases v.at? index with
    | none => exact others
    | some x =>
      exact accord.ofBind
        (accord_accepts c x fun op member => agree op (List.mem_append_left _ member))
        fun _ => accord.ofIte others (accord.ofPure _)
termination_by structural items

end

end Check
end Accord

/-! ### Verdicts without look-ups -/

section Silence
variable {m : Type → Type} [Monad m] [LawfulMonad m]

/-- What is answered without a look-up is answered at once. -/
def Accord.atOnce : Accord m (Except Unit) where
  rel x found := ∀ a, found = .ok a → x = pure a
  ofPure _ := by
    rintro _ ⟨⟩
    rfl
  ofBind := by
    intro α β x y f g first next b isValue
    cases y with
    | error e => cases isValue
    | ok a =>
      rw [first a rfl, pure_bind]
      exact next a b isValue

/-- The oracle that finds no reference. -/
def Oracle.silent (o : Oracle m) : Oracle (Except Unit) :=
  ⟨o.catalog, o.random, fun _ => .error ()⟩

/-- The verdict of a check that looks nothing up does not depend on the look-ups. -/
theorem Check.accepts_atOnce (o : Oracle m) (c : Check) (v : Value) {verdict : Bool}
    (answered : c.accepts o.silent v = .ok verdict) : c.accepts o v = pure verdict :=
  accord_accepts .atOnce o (fun _ => .error ()) c v (fun _ _ => nofun) verdict answered

/-- What is known beforehand. -/
def Accord.settled : Accord m Id where
  rel x a := x = pure a
  ofPure _ := rfl
  ofBind := by
    intro α β x a f g first next
    rw [first, pure_bind]
    exact next a

/-- The oracle that ignores all references. -/
def Oracle.blind (cat : Catalog) (random : UInt32) : Oracle Id :=
  ⟨cat, random, fun _ => (none : Option ClassId)⟩

/-- A check without references does not need an oracle that knows any. -/
theorem Check.accepts_closed (o : Oracle m) {c : Check} (closed : c.references = []) (v : Value) :
    c.accepts o v = pure (c.accepts (.blind o.catalog o.random) v : Bool) :=
  accord_accepts .settled o (fun _ => (none : Option ClassId)) c v
    fun _ member => by rw [closed] at member; cases member

theorem Check.accepts_settled (o : Oracle m) {c : Check} (closed : c.references = [])
    (v : Value) : ∃ verdict, c.accepts o v = pure verdict :=
  ⟨_, accepts_closed o closed v⟩

end Silence

/-- The computations are the same. -/
def Accord.equal (m : Type → Type) [Monad m] : Accord m m where
  rel := Eq
  ofPure _ := rfl
  ofBind := by
    rintro _ _ _ _ _ _ rfl each
    rw [funext each]

end HintCheck
