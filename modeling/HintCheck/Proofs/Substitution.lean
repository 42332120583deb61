import Mathlib.Logic.Relation
import HintCheck.Context
import HintCheck.Proofs.Stability

/-!
Substitution for type variables. A hint with its variables replaced differs from the hint itself in
what stands in the place of the variables, and in its labels. The two are related part by part; the
relation leaves labels out, as hints that differ in nothing else are interchangeable.
-/
namespace HintCheck

namespace Hint

/-! ### Variables -/

/-- The variable stands in the hint; what variables and new types are declared with does not
count. -/
inductive Mentions : Hint → Hint → Prop
  | itself {v : Hint} (isVariable : v.isTypeVar = true) : Mentions v v
  | inside {h a v : Hint} (member : a ∈ h.args) (mentions : Mentions a v) : Mentions h v

theorem args_variable {v : Hint} (isVariable : v.isTypeVar = true) : v.args = [] := by
  cases v <;> first | rfl | cases isVariable

theorem mem_parts_of_mem_args {h a : Hint} (member : a ∈ h.args) : a ∈ h.parts := by
  cases h <;> first | exact member | cases member

theorem notVariable_of_isUnion {h : Hint} (isUnion : h.isUnion = true) : h.isTypeVar = false := by
  cases h <;> first | rfl | cases isUnion

theorem Mentions.exists_arg {h v : Hint} (mentions : h.Mentions v)
    (notVariable : h.isTypeVar = false) : ∃ a ∈ h.args, a.Mentions v := by
  cases mentions with
  | itself isVariable => simp [notVariable] at isVariable
  | inside member mentions => exact ⟨_, member, mentions⟩

theorem Mentions.isTypeVar {h v : Hint} (mentions : h.Mentions v) : v.isTypeVar = true := by
  induction mentions with
  | itself isVariable => exact isVariable
  | inside _ _ ih => exact ih

/-- The values that stand in the hint are among the known ones; what variables and new types are
declared with does not count. -/
inductive WithValues (known : Value → Prop) : Hint → Prop
  | intro {h : Hint} (own : ∀ label v, h = value label v → known v)
      (inside : ∀ a ∈ h.args, WithValues known a) : WithValues known h

theorem WithValues.arg {known : Value → Prop} {h a : Hint} (holds : h.WithValues known)
    (member : a ∈ h.args) : a.WithValues known := by
  cases holds with
  | intro _ inside => exact inside a member

theorem WithValues.ofValue {known : Value → Prop} {label : Option Nat} {v : Value}
    (holds : (value label v).WithValues known) : known v := by
  cases holds with
  | intro own => exact own label v rfl

end Hint

/-- The given values, and the dots that hints are made with. -/
def Value.OrDots (values : Value → Prop) (v : Value) : Prop :=
  v = .ellipsis ∨ values v

theorem Value.distinct_orDots {values : Value → Prop}
    (distinct : ∀ v w, values v → values w → v.structEq w = true → v = w) (v w : Value)
    (left : OrDots values v) (right : OrDots values w) (equal : v.structEq w = true) : v = w := by
  rcases left with rfl | left
  · cases w <;> first | rfl | cases equal
  · rcases right with rfl | right
    · cases v <;> first | rfl | cases equal
    · exact distinct v w left right equal

/-! ### Substitution -/

namespace Hint

mutual

/-- The hint with its variables replaced by what they are given, all at once. -/
def subst (given : Hint → Option Hint) : Hint → Hint
  | subscription _ origin args => subscription Option.none origin (substAll given args)
  | union _ members => union Option.none (substAll given members)
  | params _ hints => params Option.none (substAll given hints)
  | h => if h.isTypeVar then (given h).getD h else h
termination_by structural h => h

def substAll (given : Hint → Option Hint) : List Hint → List Hint
  | [] => []
  | h :: rest => subst given h :: substAll given rest
termination_by structural hints => hints

end

theorem substAll_eq_map (given : Hint → Option Hint) (hints : List Hint) :
    substAll given hints = hints.map (subst given) := by
  induction hints with
  | nil => rfl
  | cons h rest ih => rw [substAll, ih, List.map_cons]

/-- What a variable is given by pairs of variables and hints, of which the latest counts. -/
def givenBy : List (Hint × Hint) → Hint → Option Hint
  | [], _ => Option.none
  | pair :: rest, v => (givenBy rest v).or (if pair.1.isSame v then some pair.2 else Option.none)

/-- Hints that are spelled alike but for their labels and the hints inside. -/
inductive SameHead : Hint → Hint → Prop
  | cls (c : ClassId) : SameHead (cls c) (cls c)
  | form (f : SpecialForm) : SameHead (form f) (form f)
  | none (l m : Option Nat) : SameHead (none l) (none m)
  | quoted (l m : Option Nat) (name : String) : SameHead (quoted l name) (quoted m name)
  | subscription (l m : Option Nat) (origin : Subscriptable) (xs ys : List Hint) :
    SameHead (subscription l origin xs) (subscription m origin ys)
  | union (l m : Option Nat) (xs ys : List Hint) : SameHead (union l xs) (union m ys)
  | forwardRef (l m : Option Nat) (name : String) (module : Option String) :
    SameHead (forwardRef l name module) (forwardRef m name module)
  | newType (label : Nat) (name module : String) (supertype : Hint) :
    SameHead (newType label name module supertype) (newType label name module supertype)
  | value (l m : Option Nat) (v : Value) : SameHead (value l v) (value m v)
  | validator (l m : Option Nat) {v w : Validator} (labels : v.label = w.label) :
    SameHead (validator l v) (validator m w)
  | params (l m : Option Nat) (xs ys : List Hint) : SameHead (params l xs) (params m ys)
  | extension (label : Nat) (shown : String) :
    SameHead (extension label shown) (extension label shown)

/-- The second hint is the first with its variables replaced by what they are given. -/
inductive Renders (given : Hint → Option Hint) : Hint → Hint → Prop
  | given {v a x : Hint} (isVariable : v.isTypeVar = true) (isGiven : given v = some a)
    (renders : Renders given a x) : Renders given v x
  | free {v : Hint} (isVariable : v.isTypeVar = true) (free : given v = Option.none) :
    Renders given v v
  | alike {h x : Hint} (heads : SameHead h x) (length : h.args.length = x.args.length)
    (inside : ∀ pair ∈ h.args.zip x.args, Renders given pair.1 pair.2) : Renders given h x

section Renders
variable {given : Hint → Option Hint} {names : Naming} {h x : Hint}

theorem SameHead.refl (notVariable : h.isTypeVar = false) : SameHead h h := by
  cases h with
  | typeVar | paramSpec | typeVarTuple => cases notVariable
  | validator => exact .validator _ _ rfl
  | _ => constructor

theorem SameHead.trans {y : Hint} (first : SameHead h x) (next : SameHead x y) :
    SameHead h y := by
  cases first with
  | validator _ _ labels =>
    cases next with
    | validator _ _ further => exact .validator _ _ (labels.trans further)
  | _ => cases next; constructor

theorem SameHead.symm (heads : SameHead h x) : SameHead x h := by
  cases heads with
  | validator _ _ labels => exact .validator _ _ labels.symm
  | _ => constructor

theorem SameHead.notVariable (heads : SameHead h x) :
    h.isTypeVar = false ∧ x.isTypeVar = false := by
  cases heads <;> exact ⟨rfl, rfl⟩

theorem Renders.ofArgs (heads : SameHead h x)
    (each : h.args.Forall₂ (Renders given) x.args) : Renders given h x :=
  .alike heads each.length_eq fun _ member => (List.forall₂_iff_zip.mp each).2 member

/-- Induction over what is rendered, with the hints inside side by side. -/
@[elab_as_elim]
theorem Renders.induction_args {motive : ∀ h x, Renders given h x → Prop}
    (replaced : ∀ {v a x : Hint} (isVariable : v.isTypeVar = true) (isGiven : given v = some a)
      (renders : Renders given a x), motive a x renders →
      motive v x (.given isVariable isGiven renders))
    (kept : ∀ {v : Hint} (isVariable : v.isTypeVar = true) (free : given v = Option.none),
      motive v v (.free isVariable free))
    (alike : ∀ {h x : Hint} (renders : Renders given h x) (_ : SameHead h x)
      (_ : h.args.Forall₂ (fun a b => ∃ renders : Renders given a b, motive a b renders) x.args),
      motive h x renders)
    {h x : Hint} (renders : Renders given h x) : motive h x renders := by
  induction renders with
  | given isVariable isGiven renders ih => exact replaced isVariable isGiven renders ih
  | free isVariable isFree => exact kept isVariable isFree
  | alike heads length inside ih =>
    exact alike _ heads (List.forall₂_iff_zip.mpr ⟨length, fun member => ⟨inside _ member,
      ih _ member⟩⟩)

/-- Unless the hint is a variable that is given something, heads are the same and the hints inside
are rendered. -/
theorem Renders.sameHead (renders : Renders given h x) (notVariable : h.isTypeVar = false) :
    SameHead h x ∧ h.args.Forall₂ (Renders given) x.args := by
  cases renders with
  | given isVariable => simp [notVariable] at isVariable
  | free isVariable => simp [notVariable] at isVariable
  | alike heads length inside =>
    exact ⟨heads, List.forall₂_iff_zip.mpr ⟨length, fun member => inside _ member⟩⟩

/-- A hint that mentions no variable that is given anything renders itself. -/
theorem renders_self (free : ∀ v, h.Mentions v → given v = Option.none) : Renders given h h := by
  induction h using induction_parts with
  | step h ih =>
    cases isVariable : h.isTypeVar with
    | true => exact .free isVariable (free h (.itself isVariable))
    | false =>
      refine .ofArgs (.refl isVariable) (List.forall₂_same.mpr fun a member => ?_)
      exact ih a (mem_parts_of_mem_args member) fun v mentions => free v (.inside member mentions)

/-- A hint renders its substitution, if what its variables are given is left alone. -/
theorem renders_subst (closed : ∀ v a, h.Mentions v → given v = some a → Renders given a a) :
    Renders given h (h.subst given) := by
  induction h using induction_parts with
  | step h ih =>
    have each : h.args.Forall₂ (Renders given) (substAll given h.args) := by
      rw [substAll_eq_map, List.forall₂_map_right_iff, List.forall₂_same]
      exact fun a member => ih a (mem_parts_of_mem_args member) fun v b mentions =>
        closed v b (.inside member mentions)
    have replaced (isVariable : h.isTypeVar = true) : Renders given h ((given h).getD h) := by
      cases isGiven : given h with
      | none => exact .free isVariable isGiven
      | some a => exact .given isVariable isGiven (closed h a (.itself isVariable) isGiven)
    cases h with
    | typeVar | paramSpec | typeVarTuple => exact replaced rfl
    | subscription => exact .ofArgs (.subscription _ _ _ _ _) each
    | union => exact .ofArgs (.union _ _ _ _) each
    | params => exact .ofArgs (.params _ _ _ _) each
    | _ => exact .ofArgs (.refl rfl) .nil

/-- Only the variables that the hint mentions play a part, and those that are mentioned in what
these are given. -/
theorem Renders.regiven {other : Hint → Option Hint} (renders : Renders given h x)
    (seen : Hint → Prop) (agree : ∀ v, seen v → other v = given v)
    (onward : ∀ v a, seen v → given v = some a → ∀ w, a.Mentions w → seen w)
    (mentioned : ∀ v, h.Mentions v → seen v) : Renders other h x := by
  induction renders with
  | given isVariable isGiven _ ih =>
    have isSeen := mentioned _ (.itself isVariable)
    exact .given isVariable ((agree _ isSeen).trans isGiven) (ih (onward _ _ isSeen isGiven))
  | free isVariable free =>
    exact .free isVariable ((agree _ (mentioned _ (.itself isVariable))).trans free)
  | alike heads length _ ih =>
    refine .alike heads length fun pair member => ih pair member fun v mentions => ?_
    exact mentioned v (.inside (List.of_mem_zip member).1 mentions)

/-! ### Hints that differ in labels alone -/

/-- The hints are spelled alike, with the same variables. -/
def Matches : Hint → Hint → Prop :=
  Renders fun _ => Option.none

theorem Matches.cases {p : Hint} (same : Matches p h) :
    p = h ∧ h.isTypeVar = true ∨
      SameHead p h ∧ p.args.Forall₂ (Matches) h.args := by
  cases isVariable : p.isTypeVar with
  | false => exact .inr (Renders.sameHead same isVariable)
  | true =>
    cases same with
    | given _ isGiven => cases isGiven
    | free => exact .inl ⟨rfl, isVariable⟩
    | alike heads => simp [heads.notVariable.1] at isVariable

theorem Matches.symm (same : Matches h x) : Matches x h := by
  unfold Matches at same
  induction same using Renders.induction_args with
  | replaced _ isGiven => cases isGiven
  | kept isVariable => exact .free isVariable rfl
  | alike _ heads inside =>
    refine .ofArgs heads.symm (inside.flip.imp ?_)
    rintro a b ⟨_, same⟩
    exact same

theorem forall₂_compose {α : Type} {R S T : α → α → Prop} {xs ys zs : List α}
    (first : xs.Forall₂ R ys) (next : ys.Forall₂ S zs)
    (both : ∀ x y z, R x y → S y z → T x z) : xs.Forall₂ T zs := by
  induction first generalizing zs with
  | nil =>
    cases next
    exact .nil
  | cons head _ ih =>
    cases next with
    | cons turn rest => exact .cons (both _ _ _ head turn) (ih rest)

/-- What a hint is rendered as, its matches are rendered as. -/
theorem Renders.matches_left {p : Hint} (renders : Renders given h x)
    (same : Matches p h) : Renders given p x := by
  induction renders using Renders.induction_args generalizing p with
  | replaced isVariable isGiven renders =>
    rcases same.cases with ⟨rfl, _⟩ | ⟨heads, _⟩
    · exact .given isVariable isGiven renders
    · simp [heads.notVariable.2] at isVariable
  | kept isVariable free =>
    rcases same.cases with ⟨rfl, _⟩ | ⟨heads, _⟩
    · exact .free isVariable free
    · simp [heads.notVariable.2] at isVariable
  | alike _ heads inside =>
    rcases same.cases with ⟨rfl, isVariable⟩ | ⟨before, args⟩
    · simp [heads.notVariable.1] at isVariable
    · refine .ofArgs (before.trans heads) (forall₂_compose args inside ?_)
      rintro q a y same ⟨_, ih⟩
      exact ih same

/-- What renders a hint renders its matches. -/
theorem Renders.matches_right {y : Hint} (renders : Renders given h x)
    (same : Matches x y) : Renders given h y := by
  induction renders using Renders.induction_args generalizing y with
  | replaced isVariable isGiven _ ih => exact .given isVariable isGiven (ih same)
  | kept isVariable free =>
    rcases same.cases with ⟨rfl, _⟩ | ⟨heads, _⟩
    · exact .free isVariable free
    · simp [heads.notVariable.1] at isVariable
  | alike _ heads inside =>
    rcases same.cases with ⟨rfl, isVariable⟩ | ⟨after, args⟩
    · simp [heads.notVariable.2] at isVariable
    · refine .ofArgs (heads.trans after) (forall₂_compose inside args ?_)
      rintro a y z ⟨_, ih⟩ same
      exact ih same

theorem exists_left_of_mem {α β : Type} {R : α → β → Prop} {xs : List α} {ys : List β}
    (each : xs.Forall₂ R ys) {y : β} (member : y ∈ ys) : ∃ x ∈ xs, R x y := by
  induction each with
  | nil => cases member
  | cons head _ ih =>
    rcases List.mem_cons.mp member with rfl | inRest
    · exact ⟨_, by simp, head⟩
    · obtain ⟨x, inXs, related⟩ := ih inRest
      exact ⟨x, List.mem_cons_of_mem _ inXs, related⟩

/-! ### Structurally equal hints -/

/-- Structurally equal hints match, if structurally equal values in them are one. -/
theorem matches_of_structEq {known : Value → Prop}
    (distinct : ∀ v w, known v → known w → v.structEq w = true → v = w) {p : Hint}
    (equal : p.structEq h = true) (left : p.WellNamed names) (right : h.WellNamed names)
    (values : p.WithValues known) (valuesToo : h.WithValues known) : Matches p h := by
  induction p using induction_parts generalizing h with
  | step p ih =>
    have inside (equal : p.args.Forall₂ (fun a b => a.structEq b = true) h.args) :
        p.args.Forall₂ Matches h.args := by
      refine List.forall₂_iff_zip.mpr ⟨equal.length_eq, fun {a b} member => ?_⟩
      have isArg := (List.of_mem_zip member).1
      have isOther := (List.of_mem_zip member).2
      exact ih a (mem_parts_of_mem_args isArg) ((List.forall₂_iff_zip.mp equal).2 member)
        (left.part a (mem_parts_of_mem_args isArg)) (right.part b (mem_parts_of_mem_args isOther))
        (values.arg isArg) (valuesToo.arg isOther)
    cases left.spelledAlike right equal with
    | same => exact renders_self fun _ _ => rfl
    | none => exact .ofArgs (.none _ _) .nil
    | quoted => exact .ofArgs (.quoted _ _ _) .nil
    | subscription _ _ _ each => exact .ofArgs (.subscription _ _ _ _ _) (inside each)
    | union _ _ each => exact .ofArgs (.union _ _ _ _) (inside each)
    | params _ _ each => exact .ofArgs (.params _ _ _ _) (inside each)
    | forwardRef => exact .ofArgs (.forwardRef _ _ _ _) .nil
    | value _ _ equal =>
      cases distinct _ _ values.ofValue valuesToo.ofValue equal
      exact .ofArgs (.value _ _ _) .nil
    | validator _ _ labels => exact .ofArgs (.validator _ _ labels) .nil

end Renders
end Hint
end HintCheck
