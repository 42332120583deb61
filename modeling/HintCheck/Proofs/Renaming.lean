import HintCheck.Check.Build
import HintCheck.Check.Verdict

/-!
A check under other names. The names that a check mentions are those of the variables that hold the
value and its parts, and those under which the scope binds what it tests against. They tell two
checks apart as texts, but where all references are answered alike they play no part in verdicts.
-/
namespace HintCheck

/-- Other names for what a check mentions: its variables, and what its scope binds. -/
structure Renaming where
  pith : String → String
  key : ScopeKey → ScopeKey
  reference : ReferenceOperand → ReferenceOperand

namespace Renaming

/-- Every name stays as it is. -/
def identity : Renaming :=
  ⟨id, id, id⟩

/-- No name is told from another. -/
def uniform : Renaming :=
  ⟨fun _ => "", fun _ => ⟨""⟩, fun _ => ⟨⟨""⟩, "", none, [], none⟩⟩

/-- References are answered alike under the names. -/
def IsUnseenBy {m : Type → Type} (ρ : Renaming) (o : Oracle m) : Prop :=
  ∀ op, o.resolve (ρ.reference op) = o.resolve op

end Renaming

section Operands
variable (ρ : Renaming)

def Subject.renamed (s : Subject) : Subject :=
  { s with pith := ρ.pith s.pith }

def ClassOperand.renamed : ClassOperand → ClassOperand
  | inline c => inline c
  | bound key c => bound (ρ.key key) c

def LiteralOperand.renamed (op : LiteralOperand) : LiteralOperand :=
  { op with key := op.key.map ρ.key }

def ValidatorOperand.renamed (op : ValidatorOperand) : ValidatorOperand :=
  { op with key := ρ.key op.key }

variable {ρ} in
theorem Subject.renamed_congr {pith other : String} (same : ρ.pith pith = ρ.pith other)
    (hint : String) : Subject.renamed ρ ⟨pith, hint⟩ = Subject.renamed ρ ⟨other, hint⟩ :=
  congrArg (Subject.mk · hint) same

@[simp] theorem Subject.renamed_identity (s : Subject) : s.renamed .identity = s := rfl

@[simp] theorem ClassOperand.renamed_identity (op : ClassOperand) : op.renamed .identity = op := by
  cases op <;> rfl

@[simp] theorem LiteralOperand.renamed_identity (op : LiteralOperand) :
    op.renamed .identity = op := by
  simp [renamed, Renaming.identity]

@[simp] theorem ValidatorOperand.renamed_identity (op : ValidatorOperand) :
    op.renamed .identity = op := rfl

theorem ClassOperand.target_renamed (op : ClassOperand) : (op.renamed ρ).target = op.target := by
  cases op <;> rfl

end Operands

namespace Check
variable (ρ : Renaming)

mutual

/-- The check under other names. -/
def renamed : Check → Check
  | pass s => pass (s.renamed ρ)
  | fail s => fail (s.renamed ρ)
  | isInstance s classes => isInstance (s.renamed ρ) (classes.map (·.renamed ρ))
  | isSubclass s classes => isSubclass (s.renamed ρ) (classes.map (·.renamed ρ))
  | forwardInstance s ref => forwardInstance (s.renamed ρ) (ρ.reference ref)
  | forwardSubclass s ref => forwardSubclass (s.renamed ρ) (ρ.reference ref)
  | any s members => any (s.renamed ρ) (renamedAll members)
  | all s parts => all (s.renamed ρ) (renamedAll parts)
  | sequence s origin item exhaustive =>
    sequence (s.renamed ρ) (origin.map (·.renamed ρ)) (renamed item) exhaustive
  | reiterable s origin item exhaustive =>
    reiterable (s.renamed ρ) (origin.map (·.renamed ρ)) (renamed item) exhaustive
  | mapping s origin key value exhaustive =>
    mapping (s.renamed ρ) (origin.map (·.renamed ρ)) (renamedOption key) (renamedOption value)
      exhaustive
  | tupleFixed s origin len items =>
    tupleFixed (s.renamed ρ) (origin.map (·.renamed ρ)) len (renamedItems items)
  | literal s values => literal (s.renamed ρ) (values.map (·.renamed ρ))
  | validators s child vs => validators (s.renamed ρ) (renamed child) (vs.map (·.renamed ρ))
  | attr s name child => attr (s.renamed ρ) name (renamed child)
  | typedDict s origin required => typedDict (s.renamed ρ) (origin.map (·.renamed ρ)) required
termination_by structural c => c

def renamedAll : List Check → List Check
  | [] => []
  | c :: rest => renamed c :: renamedAll rest
termination_by structural cs => cs

def renamedOption : Option Check → Option Check
  | none => none
  | some c => some (renamed c)
termination_by structural c => c

def renamedItems : List (Nat × Check) → List (Nat × Check)
  | [] => []
  | (index, c) :: rest => (index, renamed c) :: renamedItems rest
termination_by structural items => items

end

@[simp] theorem renamedAll_eq (cs : List Check) : renamedAll ρ cs = cs.map (renamed ρ) := by
  induction cs with
  | nil => rfl
  | cons c rest ih => rw [renamedAll, ih, List.map_cons]

@[simp] theorem renamedOption_eq (c : Option Check) : renamedOption ρ c = c.map (renamed ρ) := by
  cases c <;> rfl

theorem isPass_renamed (c : Check) : (c.renamed ρ).isPass = c.isPass := by
  cases c <;> rfl

theorem renamed_about (s : Subject) (c : Check) :
    (c.about s).renamed ρ = (c.renamed ρ).about (s.renamed ρ) := by
  cases c <;> rfl

variable {ρ} in
theorem renamed_isInstance {s t : Subject} (subjects : s.renamed ρ = t.renamed ρ)
    {ps qs : List ClassOperand} (classes : ps.map (·.renamed ρ) = qs.map (·.renamed ρ)) :
    (isInstance s ps).renamed ρ = (isInstance t qs).renamed ρ := by
  rw [renamed, renamed, subjects, classes]

variable {ρ} in
theorem renamed_all {s t : Subject} (subjects : s.renamed ρ = t.renamed ρ)
    {ps qs : List ClassOperand} (classes : ps.map (·.renamed ρ) = qs.map (·.renamed ρ))
    {cs ds : List Check} (same : cs.map (renamed ρ) = ds.map (renamed ρ)) :
    (all s (isInstance s ps :: cs)).renamed ρ = (all t (isInstance t qs :: ds)).renamed ρ := by
  simp only [renamed, renamedAll_eq, List.map_cons, subjects, classes, same]

theorem renamed_tests (cs : List Check) : (cs.filter fun c => !c.isPass).map (renamed ρ) =
    (cs.map (renamed ρ)).filter fun c => !c.isPass := by
  simp only [List.filter_map, Function.comp_def, isPass_renamed]

theorem renamed_found (cs : List (Option Check)) :
    (cs.filterMap id).map (renamed ρ) = (cs.map (Option.map (renamed ρ))).filterMap id := by
  simp [List.filterMap_map, List.map_filterMap]

theorem renamedItems_numbered (items : List (Option Check)) (index : Nat) :
    renamedItems ρ (Builder.numbered index items) =
      Builder.numbered index (items.map (Option.map (renamed ρ))) := by
  induction items generalizing index with
  | nil => rfl
  | cons item rest ih =>
    cases item with
    | none => exact ih (index + 1)
    | some c =>
      rw [Builder.numbered, renamedItems, ih]
      rfl

mutual

/-- A check under its own names. -/
theorem renamed_identity (c : Check) : c.renamed .identity = c := by
  cases c with
  | any _ nodes | all _ nodes => rw [renamed, renamedAll_identity nodes]; rfl
  | sequence _ _ item | reiterable _ _ item => simp [renamed, renamed_identity item]
  | mapping _ _ key value =>
    simp [renamed, renamedOption_identity key, renamedOption_identity value, -renamedOption_eq]
  | tupleFixed _ _ _ items => simp [renamed, renamedItems_identity items]
  | validators _ child | attr _ _ child => simp [renamed, renamed_identity child]
  | _ => simp [renamed] <;> rfl
termination_by structural c

theorem renamedAll_identity (cs : List Check) : renamedAll .identity cs = cs := by
  cases cs with
  | nil => rfl
  | cons c rest => rw [renamedAll, renamed_identity c, renamedAll_identity rest]
termination_by structural cs

theorem renamedOption_identity (c : Option Check) : renamedOption .identity c = c := by
  cases c with
  | none => rfl
  | some c => rw [renamedOption, renamed_identity c]
termination_by structural c

theorem renamedItems_identity (items : List (Nat × Check)) :
    renamedItems .identity items = items := by
  match items with
  | [] => rfl
  | (_, c) :: rest => rw [renamedItems, renamed_identity c, renamedItems_identity rest]
termination_by structural items

end

section Verdicts
variable {m : Type → Type} [Monad m] {o : Oracle m}

theorem isInstanceOf_renamed (cat : Catalog) (v : Value) (classes : List ClassOperand) :
    cat.isInstanceOf v (classes.map (·.renamed ρ)) = cat.isInstanceOf v classes := by
  simp only [Catalog.isInstanceOf, List.any_map, Function.comp_def, ClassOperand.target_renamed]

theorem isSubclassOf_renamed (cat : Catalog) (v : Value) (classes : List ClassOperand) :
    cat.isSubclassOf v (classes.map (·.renamed ρ)) = cat.isSubclassOf v classes := by
  cases v <;> simp only [Catalog.isSubclassOf, List.any_map, Function.comp_def,
    ClassOperand.target_renamed]

variable {ρ}

mutual

/-- Where references are answered alike, the names play no part in the verdict. -/
theorem accepts_renamed (blind : ρ.IsUnseenBy o) (c : Check) :
    (c.renamed ρ).accepts o = c.accepts o := by
  funext v
  cases c with
  | pass | fail => rfl
  | isInstance | typedDict => simp only [renamed, accepts, isInstanceOf_renamed]
  | isSubclass => simp only [renamed, accepts, isSubclassOf_renamed]
  | forwardInstance => simp only [renamed, accepts, blind _]
  | forwardSubclass => cases v <;> simp only [renamed, accepts, blind _]
  | any _ members => exact congrFun (acceptsAny_renamed blind members) v
  | all _ parts => exact congrFun (acceptsAll_renamed blind parts) v
  | sequence _ _ item | reiterable _ _ item =>
    simp only [renamed, accepts, isInstanceOf_renamed, accepts_renamed blind item]
  | mapping _ _ key value =>
    simp only [renamed, accepts, isInstanceOf_renamed, acceptsOption_renamed blind key,
      acceptsOption_renamed blind value]
  | tupleFixed _ _ _ items =>
    simp only [renamed, accepts, isInstanceOf_renamed, acceptsItems_renamed blind items]
  | literal =>
    simp only [renamed, accepts, List.any_map]
    rfl
  | validators _ child =>
    simp only [renamed, accepts, accepts_renamed blind child, List.all_map]
    rfl
  | attr _ _ child => simp only [renamed, accepts, accepts_renamed blind child]
termination_by structural c

theorem acceptsAny_renamed (blind : ρ.IsUnseenBy o) (cs : List Check) :
    acceptsAny o (renamedAll ρ cs) = acceptsAny o cs := by
  cases cs with
  | nil => rfl
  | cons c rest =>
    funext v
    rw [renamedAll, acceptsAny, acceptsAny, accepts_renamed blind c, acceptsAny_renamed blind rest]
termination_by structural cs

theorem acceptsAll_renamed (blind : ρ.IsUnseenBy o) (cs : List Check) :
    acceptsAll o (renamedAll ρ cs) = acceptsAll o cs := by
  cases cs with
  | nil => rfl
  | cons c rest =>
    funext v
    rw [renamedAll, acceptsAll, acceptsAll, accepts_renamed blind c, acceptsAll_renamed blind rest]
termination_by structural cs

theorem acceptsOption_renamed (blind : ρ.IsUnseenBy o) (c : Option Check) :
    acceptsOption o (renamedOption ρ c) = acceptsOption o c := by
  cases c with
  | none => rfl
  | some c => exact accepts_renamed blind c
termination_by structural c

theorem acceptsItems_renamed (blind : ρ.IsUnseenBy o) (items : List (Nat × Check)) :
    acceptsItems o (renamedItems ρ items) = acceptsItems o items := by
  match items with
  | [] => rfl
  | (index, c) :: rest =>
    funext v
    rw [renamedItems, acceptsItems, acceptsItems, accepts_renamed blind c,
      acceptsItems_renamed blind rest]
termination_by structural items

end
end Verdicts
end Check

end HintCheck
