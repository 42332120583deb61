import HintCheck.Proofs.Hereditary
import HintCheck.Proofs.Idempotence
import HintCheck.Proofs.Substitution

/-!
Hints and their renderings side by side. A hint is brought to canonical form where its variables are
bound, and its rendering where they have been replaced. The two take the same steps, but for a
variable that was replaced: the one side looks up what it is bound to, and the other is there
already. What it takes for this is that variables are bound alike on both sides wherever they are
looked up; when that is so is left open here.
-/
namespace HintCheck

open Hint

/-! ### Outcomes -/

/-- What the second computation finds, the first finds likewise, or it ends with an excused
error. -/
def Reproduces {α β : Type} (excused : HintError → Prop) (related : α → β → Prop)
    (x : Except HintError α) (y : Except HintError β) : Prop :=
  ∀ b, y = .ok b → Ends excused (fun a => related a b) x

namespace Reproduces

variable {α β γ δ : Type} {excused : HintError → Prop} {related : α → β → Prop}
  {x : Except HintError α} {y : Except HintError β}

theorem ofOk {a : α} {b : β} (holds : related a b) :
    Reproduces excused related (.ok a) (.ok b) := by
  rintro _ ⟨⟩
  exact holds

theorem ofError (e : HintError) : Reproduces excused related x (.error e) := by
  rintro _ ⟨⟩

theorem ofExcused {e : HintError} (isExcused : excused e) :
    Reproduces excused related (.error e) y :=
  fun _ _ => isExcused

theorem bind {next : γ → δ → Prop} {f : α → Except HintError γ} {g : β → Except HintError δ}
    (first : Reproduces excused related x y)
    (onward : ∀ a b, related a b → Reproduces excused next (f a) (g b)) :
    Reproduces excused next (x >>= f) (y >>= g) := by
  cases y with
  | error e => exact ofError e
  | ok b => exact fun d found => (first b rfl).bind fun a holds => onward a b holds d found

theorem mono {wider : α → β → Prop} (reproduces : Reproduces excused related x y)
    (improves : ∀ a b, related a b → wider a b) : Reproduces excused wider x y :=
  fun b found => (reproduces b found).mono (fun _ => id) fun a => improves a b

theorem mapM {T : γ → δ → Prop} {f : γ → Except HintError α} {g : δ → Except HintError β}
    {xs : List γ} {ys : List δ} (each : xs.Forall₂ T ys)
    (inside : ∀ x y, T x y → Reproduces excused related (f x) (g y)) :
    Reproduces excused (List.Forall₂ related) (xs.mapM f) (ys.mapM g) := by
  induction each with
  | nil => exact ofOk .nil
  | cons head _ ih =>
    rw [List.mapM_cons, List.mapM_cons]
    refine (inside _ _ head).bind fun a b first => ih.bind fun as bs rest => ?_
    exact ofOk (.cons first rest)

theorem mapM_eq {f : γ → Except HintError α} {g : δ → Except HintError α} {xs : List γ}
    {ys : List δ} (each : xs.Forall₂ (fun x y => Reproduces excused Eq (f x) (g y)) ys) :
    Reproduces excused Eq (xs.mapM f) (ys.mapM g) :=
  (mapM each fun _ _ same => same).mono fun _ _ equal => List.forall₂_eq_eq_eq ▸ equal

theorem map_left {next : γ → β → Prop} {f : α → γ} (first : Reproduces excused related x y)
    (onward : ∀ a b, related a b → next (f a) b) :
    Reproduces excused next (do return f (← x)) y :=
  fun b found => (first b found).bind fun a holds => onward a b holds

theorem map_right {next : α → δ → Prop} {f : β → δ} (first : Reproduces excused related x y)
    (onward : ∀ a b, related a b → next a (f b)) :
    Reproduces excused next x (do return f (← y)) := by
  cases y with
  | error e => exact ofError e
  | ok b =>
    rintro _ ⟨⟩
    exact (first b rfl).mono (fun _ => id) fun a => onward a b

end Reproduces

/-! ### Mirrors -/

/-- A hint that means as an argument what it means in the place of the variable: it has no special
role among the hints around it, and no union of one member. -/
structure Hint.Fills (a : Hint) : Prop where
  notDots : a.isDots = false
  notValidator : ∀ label v, a ≠ .validator label v
  notUnpacked : a.subscriptedForm? ≠ some .unpack
  several : a.isUnion = true → 2 ≤ (flattenAll a.args).length

/-- The hints that are read for an instance of a class whose parameters are bound. -/
def Catalog.body (cat : Catalog) (k : ClassId) (pairs : List (Hint × Hint)) : List Hint :=
  (Builder.boundFields cat k pairs).map Prod.snd ++ (cat.get k).genericBases

theorem Catalog.mem_declarations_of_mem_body {cat : Catalog} {k : ClassId}
    {pairs : List (Hint × Hint)} {d : Hint} (member : d ∈ cat.body k pairs) :
    d ∈ cat.declarations k := by
  rcases List.mem_append.mp member with isField | isBase
  · obtain ⟨entry, bound, rfl⟩ := List.mem_map.mp isField
    exact List.mem_append_left _ (List.mem_map_of_mem (List.mem_of_mem_filter bound))
  · exact List.mem_append_right _ isBase

/-- Contexts for the same place. -/
structure Context.Counterparts (names : Naming) (bound plain : Context) : Prop where
  module : bound.module = plain.module
  classes : bound.classes = plain.classes
  locals : bound.locals = plain.locals
  named : ∀ entry ∈ bound.bindings, entry.2.WellNamed names
  namedToo : ∀ entry ∈ plain.bindings, entry.2.WellNamed names

/-- Hints are read in one context and their renderings in another, where some variables are given
hints in their place. The contexts are paired and a hint is ready if all that the hint leads to can
be read so. -/
structure Mirror where
  catalog : Catalog
  substitutes : Substitutes
  names : Naming
  /-- The values that stand in hints. -/
  values : Value → Prop
  Paired (given : Hint → Option Hint) (bound plain : Context) : Prop
  Ready (given : Hint → Option Hint) (bound plain : Context) (h : Hint) : Prop
  distinct : ∀ v w, values v → values w → v.structEq w = true → v = w
  counterparts : ∀ {given bound plain}, Paired given bound plain → bound.Counterparts names plain
  named : ∀ {given bound plain h}, Ready given bound plain h → h.WellNamed names
  holds : ∀ {given bound plain h}, Ready given bound plain h → h.WithValues values
  arg : ∀ {given bound plain h a}, Ready given bound plain h → a ∈ h.args →
    Ready given bound plain a
  passes : ∀ {given bound plain}, Paired given bound plain →
    Passes bound (Ready given bound plain) (Ready given bound plain)
  /-- A variable that is replaced is bound to what replaces it. -/
  replaced : ∀ {given bound plain v a}, Ready given bound plain v → v.isTypeVar = true →
    given v = some a →
    bound.binding? v = some a ∧ a.Fills ∧ ∀ w, a.Mentions w → given w = Option.none
  /-- A variable that stays is bound to a hint and to its rendering, or on neither side. -/
  kept : ∀ {given bound plain v}, Ready given bound plain v → v.isTypeVar = true →
    given v = Option.none →
    Option.Rel (Renders given) (bound.binding? v) (plain.binding? v)
  /-- What a variable or a new type is declared with is left as it is. -/
  declared : ∀ {given bound plain h d}, Paired given bound plain → Ready given bound plain h →
    h.args = [] → d ∈ h.parts → Renders given d d
  /-- No member of a literal is replaced. -/
  literal : ∀ {given bound plain h a}, Ready given bound plain h →
    h.sign? catalog = some .literal → a ∈ h.args → a.isTypeVar = true → given a = Option.none
  substitute : ∀ {given bound plain label shown d}, Paired given bound plain →
    Ready given bound plain (.extension label shown) → substitutes.lookup label = some d →
    Ready given bound plain d ∧ Renders given d d
  /-- The body of a class that is given arguments on the one side and their renderings on the
  other. -/
  supplied : ∀ {given bound plain h k args}, Paired given bound plain → Ready given bound plain h →
    h.origin? = some k → (catalog.get k).typeParams.length = h.args.length →
    h.args.Forall₂ (Renders given) args → (∀ a ∈ args, a.WellNamed names) →
    ∃ inner, Paired inner (bound.bindAll ((catalog.get k).typeParams.zip h.args))
        (plain.bindAll ((catalog.get k).typeParams.zip args)) ∧
      ∀ d ∈ catalog.body k ((catalog.get k).typeParams.zip h.args),
        Ready inner (bound.bindAll ((catalog.get k).typeParams.zip h.args))
          (plain.bindAll ((catalog.get k).typeParams.zip args)) d ∧ Renders inner d d
  /-- The bases of a class that is given no arguments. -/
  bare : ∀ {given bound plain h k}, Paired given bound plain → Ready given bound plain h →
    h.class? = some k →
    ∃ inner, Paired inner (bound.bindAll []) (plain.bindAll []) ∧
      ∀ d ∈ (catalog.get k).genericBases,
        Ready inner (bound.bindAll []) (plain.bindAll []) d ∧ Renders inner d d

namespace Mirror

variable (S : Mirror) (given : Hint → Option Hint) (bound plain : Context)

/-- The second hint is a rendering of the first, which is read where the variables are bound. -/
structure Twins (h x : Hint) : Prop where
  ready : S.Ready given bound plain h
  renders : Renders given h x
  named : x.WellNamed S.names

/-- The steps set aside the same validators, and lead to a hint and its rendering, if anywhere. -/
structure StepsAlike (s t : Step) : Prop where
  validators : s.validators = t.validators
  next : Option.Rel (Renders given) s.next t.next

end Mirror

/-! ### Roles among the hints around -/

namespace Hint

/-- The hints count for the same among the arguments of another. -/
structure SameRole (h x : Hint) : Prop where
  dots : h.isDots = x.isDots
  unpacked : (h.subscriptedForm? == some .unpack) = (x.subscriptedForm? == some .unpack)
  validators : metadataValidators [h] = metadataValidators [x]

/-- Validators with one label are one. -/
theorem WellNamed.validator_eq {names : Naming} {l m : Option Nat} {v w : Validator}
    (left : (validator l v).WellNamed names) (right : (validator m w).WellNamed names)
    (labels : v.label = w.label) : v = w := by
  have rules : v.rule = w.rule := by rw [← left.ruled, ← right.ruled, labels]
  cases v
  cases w
  simp_all

theorem SameHead.sameRole {names : Naming} {h x : Hint} (heads : SameHead h x)
    (left : h.WellNamed names) (right : x.WellNamed names) : SameRole h x := by
  cases heads with
  | value _ _ v => cases v <;> exact ⟨rfl, rfl, rfl⟩
  | validator _ _ labels =>
    rw [left.validator_eq right labels]
    exact ⟨rfl, rfl, rfl⟩
  | subscription _ _ origin => cases origin <;> exact ⟨rfl, rfl, rfl⟩
  | _ => exact ⟨rfl, rfl, rfl⟩

/-- An argument counts for what a variable counts for. -/
theorem Fills.sameRole {v a : Hint} (isVariable : v.isTypeVar = true) (fills : a.Fills) :
    SameRole v a := by
  have none : metadataValidators [a] = [] := by
    cases a with
    | validator label w => exact (fills.notValidator label w rfl).elim
    | _ => rfl
  have unpacked : (a.subscriptedForm? == some .unpack) = false :=
    beq_false_of_ne fills.notUnpacked
  cases v <;> first | exact ⟨fills.notDots.symm, unpacked.symm, none.symm⟩ | cases isVariable

theorem SameRole.trans {h x y : Hint} (first : SameRole h x) (next : SameRole x y) :
    SameRole h y :=
  ⟨first.dots.trans next.dots, first.unpacked.trans next.unpacked,
    first.validators.trans next.validators⟩

theorem metadataValidators_congr {xs ys : List Hint} (each : xs.Forall₂ SameRole ys) :
    metadataValidators xs = metadataValidators ys := by
  have split (m : Hint) (rest : List Hint) :
      metadataValidators (m :: rest) = metadataValidators [m] ++ metadataValidators rest := by
    cases m <;> rfl
  induction each with
  | nil => rfl
  | cons head _ ih => rw [split, ih, head.validators, ← split]

end Hint

namespace Mirror

variable {S : Mirror} {given : Hint → Option Hint} {bound plain : Context} {h x : Hint}
  {excused : HintError → Prop} {reduce other : Hint → Except HintError Reduced}

theorem Ready.opened (paired : S.Paired given bound plain) (ready : S.Ready given bound plain h)
    {next : Hint} (opens : Opens bound.nested h next) : S.Ready given bound plain next :=
  (S.passes paired).opens ready opens.ofNested

namespace Twins

variable (twins : S.Twins given bound plain h x)
include twins

theorem namedToo : h.WellNamed S.names :=
  S.named twins.ready

/-- A variable that is replaced is bound to what replaces it. -/
theorem replaced (paired : S.Paired given bound plain) (isVariable : h.isTypeVar = true) {a : Hint}
    (isGiven : given h = some a) :
    bound.binding? h = some a ∧ a.Fills ∧ (a.isTypeVar = true → given a = Option.none) ∧
      S.Twins given bound plain a x := by
  obtain ⟨isBound, fills, free⟩ := S.replaced twins.ready isVariable isGiven
  refine ⟨isBound, fills, fun isVariable => free a (.itself isVariable),
    (S.passes paired).opens twins.ready (.binding isVariable isBound), ?_, twins.named⟩
  cases twins.renders with
  | given _ isOther renders =>
    cases isGiven.symm.trans isOther
    exact renders
  | free _ isFree =>
    rw [isGiven] at isFree
    cases isFree
  | alike heads => simp [heads.notVariable.1] at isVariable

/-- A hint that is not replaced is a variable that stays, or has the head of its rendering. -/
theorem heads (kept : h.isTypeVar = true → given h = Option.none) :
    h = x ∧ h.isTypeVar = true ∨
      SameHead h x ∧ h.args.Forall₂ (S.Twins given bound plain) x.args := by
  cases isVariable : h.isTypeVar with
  | true =>
    cases twins.renders with
    | given _ isGiven =>
      rw [kept isVariable] at isGiven
      cases isGiven
    | free => exact .inl ⟨rfl, rfl⟩
    | alike heads => simp [heads.notVariable.1] at isVariable
  | false =>
    obtain ⟨heads, each⟩ := twins.renders.sameHead isVariable
    refine .inr ⟨heads, List.forall₂_iff_zip.mpr ⟨each.length_eq, fun {a b} member => ?_⟩⟩
    have inside := List.of_mem_zip member
    exact ⟨S.arg twins.ready inside.1, (List.forall₂_iff_zip.mp each).2 member,
      twins.named.part b (mem_parts_of_mem_args inside.2)⟩

theorem sameRole (paired : S.Paired given bound plain) : SameRole h x := by
  have kept {h : Hint} (twins : S.Twins given bound plain h x)
      (kept : h.isTypeVar = true → given h = Option.none) : SameRole h x := by
    rcases twins.heads kept with ⟨rfl, _⟩ | ⟨heads, _⟩
    · exact ⟨rfl, rfl, rfl⟩
    · exact heads.sameRole twins.namedToo twins.named
  cases isVariable : h.isTypeVar with
  | false => exact kept twins fun isTrue => by simp [isVariable] at isTrue
  | true =>
    cases isGiven : given h with
    | none => exact kept twins fun _ => isGiven
    | some a =>
      obtain ⟨_, fills, free, twins⟩ := twins.replaced paired isVariable isGiven
      exact (fills.sameRole isVariable).trans (kept twins free)

/-- The values in a rendering come from the hint or from what its variables are given. -/
theorem holdsToo (paired : S.Paired given bound plain) : x.WithValues S.values := by
  obtain ⟨ready, renders, named⟩ := twins
  induction renders using Renders.induction_args with
  | replaced isVariable isGiven renders ih =>
    obtain ⟨_, _, _, inner⟩ := (Twins.mk ready (.given isVariable isGiven renders) named).replaced
      paired isVariable isGiven
    exact ih inner.ready named
  | kept isVariable => exact S.holds ready
  | @alike h x _ heads inside =>
    refine .intro (fun label v same => ?_) fun b member => ?_
    · subst same
      cases heads with
      | value => exact (S.holds ready).ofValue
    · obtain ⟨a, isArg, _, ih⟩ := exists_left_of_mem inside member
      exact ih (S.arg ready isArg) (named.part b (mem_parts_of_mem_args member))

end Twins

/-! ### Steps of hints that are no unions -/

theorem becomes_same {next : Hint} (renders : Renders given next next)
    (found : List Validator) :
    Reproduces excused (StepsAlike given) (.ok ⟨some next, found⟩) (.ok ⟨some next, found⟩) :=
  .ofOk ⟨rfl, .some renders⟩

theorem stays_same (found : List Validator) :
    Reproduces excused (StepsAlike given) (.ok ⟨Option.none, found⟩)
      (.ok ⟨Option.none, found⟩) :=
  .ofOk ⟨rfl, .none⟩

theorem alike_plain (x y : Except HintError (Option Hint)) :
    Reproduces excused (Option.Rel (Renders given)) x y →
    Reproduces excused (StepsAlike given)
      (match x with
        | .error e => .error e
        | .ok next => .ok ⟨next, []⟩)
      (match y with
        | .error e => .error e
        | .ok next => .ok ⟨next, []⟩) := by
  intro reproduces
  cases y with
  | error e => exact .ofError e
  | ok next =>
    have ends := reproduces next rfl
    cases x with
    | error e => exact .ofExcused ends
    | ok next => exact .ofOk ⟨rfl, ends⟩

theorem renders_class (c : ClassId) : Renders given (cls c) (cls c) :=
  .ofArgs (.cls c) .nil

/-- A step of a variable that stays leads to what it is bound to on either side, or to what it is
declared with. -/
theorem step_variable (paired : S.Paired given bound plain)
    (ready : S.Ready given bound plain h) (isVariable : h.isTypeVar = true)
    (kept : given h = Option.none) :
    Reproduces excused (StepsAlike given) (h.step S.catalog bound.nested reduce)
      (h.step S.catalog plain.nested other) := by
  have declared {d : Hint} (member : d ∈ h.parts) : Renders given d d :=
    S.declared paired ready (args_variable isVariable) member
  have related := S.kept ready isVariable kept
  revert related
  have nested (ctx : Context) : ctx.binding? h = ctx.nested.binding? h := rfl
  rw [nested bound, nested plain]
  generalize isBound : bound.nested.binding? h = first
  generalize isPlain : plain.nested.binding? h = second
  intro related
  cases h with
  | typeVar label name variance upper constraints =>
    simp only [step, typeVarMeaning, isBound, isPlain]
    cases related with
    | some related => exact .ofOk ⟨rfl, .some related⟩
    | none =>
      cases upper with
      | some upper => exact becomes_same (declared (by simp [parts])) []
      | none =>
        cases constraints with
        | nil => exact becomes_same (renders_class _) []
        | cons first rest =>
          refine becomes_same (.ofArgs (.subscription _ _ _ _ _) (List.forall₂_same.mpr ?_)) []
          exact fun d member => declared member
  | paramSpec | typeVarTuple =>
    simp only [step, isBound, isPlain]
    cases related with
    | some related => exact .ofOk ⟨rfl, .some related⟩
    | none => exact becomes_same (renders_class _) []
  | _ => cases isVariable

/-- A bare form leads to the same class on either side. -/
theorem step_form (paired : S.Paired given bound plain) (f : SpecialForm) :
    Reproduces excused (StepsAlike given) ((form f).step S.catalog bound.nested reduce)
      ((form f).step S.catalog plain.nested other) := by
  have same : stepForm S.catalog bound.nested f = stepForm S.catalog plain.nested f := by
    have classes : bound.nested.classes = plain.nested.classes := (S.counterparts paired).classes
    have position : bound.nested.position = plain.nested.position := rfl
    simp only [stepForm, classes, position]
  have opened : Opened plain.nested (form f) id (stepForm S.catalog plain.nested f) :=
    stepForm_opens f
  simp only [step, same]
  rcases stepped : stepForm S.catalog plain.nested f with e | _ | next
  · exact .ofError e
  · exact stays_same []
  · rw [stepped] at opened
    refine becomes_same ?_ []
    cases opened next rfl with
    | binding isVariable => cases isVariable
    | enclosing | builtin => exact renders_class _

/-- A subscribed form opens to its inside, or to what replaces it. -/
theorem step_subscribed (paired : S.Paired given bound plain) (l m : Option Nat)
    {f : SpecialForm} {xs ys : List Hint} (notUnion : f.form ≠ .union)
    (each : xs.Forall₂ (S.Twins given bound plain) ys) :
    Reproduces excused (StepsAlike given)
      ((subscription l (.form f) xs).stepSubscribed S.catalog reduce f xs)
      ((subscription m (.form f) ys).stepSubscribed S.catalog other f ys) := by
  have becomes {next rendered : Hint} (renders : Renders given next rendered)
      (found : List Validator) :
      Reproduces excused (StepsAlike given) (.ok ⟨some next, found⟩)
        (.ok ⟨some rendered, found⟩) := .ofOk ⟨rfl, .some renders⟩
  unfold stepSubscribed
  dsimp only
  split
  · rcases each with _ | ⟨first, _ | _⟩
    · exact .ofError _
    · exact becomes first.renders []
    · exact .ofError _
  split
  · rcases each with _ | ⟨first, _ | _⟩
    · exact .ofError _
    · refine becomes (.ofArgs (.subscription _ _ _ _ _) (.cons first.renders (.cons ?_ .nil))) []
      exact .ofArgs (.none _ _) .nil
    · exact .ofError _
  · exact absurd ‹_› notUnion
  · rcases each with _ | ⟨first, _ | ⟨second, rest⟩⟩
    · exact .ofError _
    · exact .ofError _
    · dsimp only
      rw [metadataValidators_congr (.cons (second.sameRole paired)
        (rest.imp fun _ _ twins => twins.sameRole paired))]
      exact becomes first.renders _
  · exact becomes_same (renders_class _) []
  · exact becomes_same (renders_class _) []
  · exact becomes_same (renders_class _) []
  · exact becomes_same (renders_class _) []
  iterate 6 exact .ofError _
  split
  · cases f.form.origin? with
    | none => exact stays_same []
    | some b =>
      exact becomes (.ofArgs (.subscription _ _ _ _ _)
        (each.imp fun _ _ twins => twins.renders)) []
  · exact stays_same []

/-- A subscribed tuple counts its unpacked items. -/
theorem step_tuple (paired : S.Paired given bound plain) (h x : Hint) {xs ys : List Hint}
    (each : xs.Forall₂ (S.Twins given bound plain) ys) :
    Reproduces excused (Option.Rel (Renders given)) (h.stepTuple S.catalog xs)
      (x.stepTuple S.catalog ys) := by
  have unpacked := length_filter_congr (each.imp fun _ _ twins => (twins.sameRole paired).unpacked)
  unfold stepTuple
  rw [unpacked]
  split
  · exact .ofOk .none
  · exact .ofOk (.some (renders_class _))
  · exact .ofError _

/-- The steps of a hint that is no union and of its rendering are alike, unless the hint is a
variable that was replaced. -/
theorem Twins.step (paired : S.Paired given bound plain) (twins : S.Twins given bound plain h x)
    (kept : h.isTypeVar = true → given h = Option.none) (notUnion : h.isUnion = false) :
    Reproduces excused (StepsAlike given) (h.step S.catalog bound.nested reduce)
      (x.step S.catalog plain.nested other) := by
  rcases twins.heads kept with ⟨rfl, isVariable⟩ | ⟨heads, each⟩
  · exact step_variable paired twins.ready isVariable (kept isVariable)
  cases heads with
  | cls c =>
    unfold Hint.step
    dsimp only
    split
    · exact becomes_same (renders_class _) []
    · exact stays_same []
  | form f => exact step_form paired f
  | none => exact becomes_same (renders_class _) []
  | subscription l m origin xs ys =>
    cases origin with
    | form f => exact step_subscribed paired l m (by simpa [isUnion] using notUnion) each
    | cls c =>
      unfold Hint.step
      dsimp only
      split
      · exact alike_plain _ _ (step_tuple paired _ _ each)
      · exact stays_same []
  | union => cases notUnion
  | newType label name module supertype =>
    exact becomes_same (S.declared paired twins.ready rfl (by simp [parts])) []
  | _ => exact stays_same []

end Mirror
end HintCheck
