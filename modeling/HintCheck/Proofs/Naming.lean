import Mathlib.Data.List.Forall2
import HintCheck.Hint

/-!
Names. A label tells a hint object from every other, so two hints with one label are one hint; the
same holds of validators. A naming says which object each label stands for, and a hint that keeps to
it can be compared by label: structural equality never takes two different declarations for one.
-/
namespace HintCheck

namespace Hint

/-- The hints that a hint is made of, declarations included. -/
def parts : Hint → List Hint
  | subscription _ _ args => args
  | union _ members => members
  | params _ hints => hints
  | typeVar _ _ _ bound constraints => bound.toList ++ constraints
  | newType _ _ _ supertype => [supertype]
  | _ => []

theorem depth_le_depthAll {h : Hint} {hints : List Hint} (member : h ∈ hints) :
    h.depth ≤ depthAll hints := by
  induction hints with
  | nil => cases member
  | cons x rest ih =>
    rw [depthAll]
    rcases List.mem_cons.mp member with rfl | inRest
    · exact Nat.le_max_left _ _
    · exact Nat.le_trans (ih inRest) (Nat.le_max_right _ _)

theorem depthAll_le {hints : List Hint} {n : Nat} (each : ∀ h ∈ hints, h.depth ≤ n) :
    depthAll hints ≤ n := by
  induction hints with
  | nil => exact Nat.zero_le n
  | cons x rest ih =>
    rw [depthAll]
    exact Nat.max_le.mpr ⟨each x (by simp), ih fun h member => each h (by simp [member])⟩

theorem depth_pos (h : Hint) : 0 < h.depth := by
  cases h <;> simp [depth]

theorem depth_lt_of_mem_parts {p h : Hint} (member : p ∈ h.parts) : p.depth < h.depth := by
  cases h with
  | subscription _ _ args | union _ args | params _ args =>
    exact Nat.lt_succ_of_le (depth_le_depthAll member)
  | typeVar _ _ _ bound constraints =>
    rw [depth, Nat.lt_succ_iff]
    rcases List.mem_append.mp member with isBound | inConstraints
    · rw [Option.mem_toList.mp isBound, depthOption]
      exact Nat.le_max_left _ _
    · exact Nat.le_trans (depth_le_depthAll inConstraints) (Nat.le_max_right _ _)
  | newType _ _ _ supertype =>
    rw [List.mem_singleton.mp member]
    exact Nat.lt_succ_self _
  | _ => cases member

/-- Induction over the parts of hints. -/
theorem induction_parts {motive : Hint → Prop}
    (step : ∀ h : Hint, (∀ p ∈ h.parts, motive p) → motive h) (h : Hint) : motive h := by
  induction size : h.depth using Nat.strongRecOn generalizing h with
  | ind n ih =>
    subst size
    exact step h fun p member => ih p.depth (depth_lt_of_mem_parts member) p rfl

end Hint

theorem Hint.eq_cls_of_id? {h : Hint} {c : ClassId} (isClass : h.id? = some (.cls c)) :
    h = .cls c := by
  cases h <;> simp_all [Hint.id?]

theorem Hint.eq_form_of_id? {h : Hint} {f : SpecialForm} (isForm : h.id? = some (.form f)) :
    h = .form f := by
  cases h <;> simp_all [Hint.id?]

/-- Which hint, and which rule of a validator, each label stands for. -/
structure Naming where
  declared : Nat → Hint
  rule : Nat → Rule

namespace Hint

/-- All labels in a hint stand for what the naming says. -/
inductive WellNamed (names : Naming) : Hint → Prop
  | intro {h : Hint} (own : ∀ n, h.id? = some (.label n) → names.declared n = h)
      (ruled : ∀ label v, h = validator label v → names.rule v.label = v.rule)
      (parts : ∀ p ∈ h.parts, WellNamed names p) : WellNamed names h

namespace WellNamed

variable {names : Naming} {h a b : Hint}

theorem own (named : h.WellNamed names) {n : Nat} (labelled : h.id? = some (.label n)) :
    names.declared n = h := by
  cases named with
  | intro own _ _ => exact own n labelled

theorem ruled {label : Option Nat} {v : Validator} (named : (validator label v).WellNamed names) :
    names.rule v.label = v.rule := by
  cases named with
  | intro _ ruled _ => exact ruled label v rfl

theorem part (named : h.WellNamed names) : ∀ p ∈ h.parts, p.WellNamed names := by
  cases named with
  | intro _ _ parts => exact parts

/-- A hint that is made in passing is well named if its parts are. -/
theorem ofParts (unlabelled : h.id? = Option.none) (notValidator : ∀ label v, h ≠ validator label v)
    (parts : ∀ p ∈ h.parts, p.WellNamed names) : h.WellNamed names :=
  .intro (fun n labelled => by simp [unlabelled] at labelled)
    (fun label v isValidator => (notValidator label v isValidator).elim) parts

theorem ofArgs {origin : Subscriptable} {args : List Hint} (each : ∀ a ∈ args, a.WellNamed names) :
    (subscription Option.none origin args).WellNamed names :=
  .ofParts rfl (fun _ _ same => by cases same) each

theorem ofNone : (Hint.none Option.none).WellNamed names :=
  .ofParts rfl (fun _ _ same => by cases same) (fun _ member => by cases member)

theorem ofValue (v : Value) : (value Option.none v).WellNamed names :=
  .ofParts rfl (fun _ _ same => by cases same) (fun _ member => by cases member)

theorem ofClass (c : ClassId) : (cls c).WellNamed names :=
  .intro (fun n labelled => by simp [id?] at labelled) (fun _ _ same => by cases same)
    (fun _ member => by cases member)

/-- One object is one hint. -/
theorem eq_of_isSame (left : a.WellNamed names) (right : b.WellNamed names)
    (same : a.isSame b = true) : a = b := by
  unfold isSame at same
  split at same
  case h_2 => simp at same
  case h_1 i j leftId rightId =>
    obtain rfl := beq_iff_eq.mp same
    cases i with
    | label n => rw [← left.own leftId, ← right.own rightId]
    | cls c => rw [eq_cls_of_id? leftId, eq_cls_of_id? rightId]
    | form f => rw [eq_form_of_id? leftId, eq_form_of_id? rightId]

end WellNamed

/-! ### Structural equality -/

/-- Two hints that are one hint, or spelled alike; `alike` compares the hints inside. -/
inductive SpelledAlike (alike : List Hint → List Hint → Prop) : Hint → Hint → Prop
  | same (h : Hint) : SpelledAlike alike h h
  | none (l m : Option Nat) : SpelledAlike alike (none l) (none m)
  | quoted (l m : Option Nat) (name : String) : SpelledAlike alike (quoted l name) (quoted m name)
  | subscription (l m : Option Nat) (origin : Subscriptable) {xs ys : List Hint}
      (inside : alike xs ys) :
      SpelledAlike alike (subscription l origin xs) (subscription m origin ys)
  | union (l m : Option Nat) {xs ys : List Hint} (inside : alike xs ys) :
      SpelledAlike alike (union l xs) (union m ys)
  | params (l m : Option Nat) {xs ys : List Hint} (inside : alike xs ys) :
      SpelledAlike alike (params l xs) (params m ys)
  | forwardRef (l m : Option Nat) (name : String) (module : Option String) :
      SpelledAlike alike (forwardRef l name module) (forwardRef m name module)
  | value (l m : Option Nat) {v w : Value} (equal : v.structEq w = true) :
      SpelledAlike alike (value l v) (value m w)
  | validator (l m : Option Nat) {v w : Validator} (labels : v.label = w.label) :
      SpelledAlike alike (validator l v) (validator m w)

theorem forall₂_of_structEqList {xs ys : List Hint} (equal : structEqList xs ys = true) :
    List.Forall₂ (fun x y => x.structEq y = true) xs ys := by
  induction xs generalizing ys with
  | nil =>
    cases ys with
    | nil => exact .nil
    | cons y ys => simp [structEqList] at equal
  | cons x xs ih =>
    cases ys with
    | nil => simp [structEqList] at equal
    | cons y ys =>
      rw [structEqList, Bool.and_eq_true] at equal
      exact .cons equal.1 (ih equal.2)

/-- Well-named hints that are structurally equal are one hint or spelled alike. -/
theorem WellNamed.spelledAlike {names : Naming} {a b : Hint} (left : a.WellNamed names)
    (right : b.WellNamed names) (equal : a.structEq b = true) :
    SpelledAlike (List.Forall₂ fun x y => x.structEq y = true) a b := by
  rw [structEq.eq_def] at equal
  split at equal
  case h_1 | h_2 =>
    rw [beq_iff_eq.mp equal]
    exact .same _
  case h_3 => exact .none _ _
  case h_4 =>
    rw [beq_iff_eq.mp equal]
    exact .quoted _ _ _
  case h_5 =>
    rw [Bool.and_eq_true] at equal
    rw [beq_iff_eq.mp equal.1]
    exact .subscription _ _ _ (forall₂_of_structEqList equal.2)
  case h_6 => exact .union _ _ (forall₂_of_structEqList equal)
  case h_7 => exact .params _ _ (forall₂_of_structEqList equal)
  case h_8 =>
    rw [Bool.and_eq_true] at equal
    rw [beq_iff_eq.mp equal.1, beq_iff_eq.mp equal.2]
    exact .forwardRef _ _ _ _
  case h_9 => exact .value _ _ equal
  case h_10 => exact .validator _ _ (beq_iff_eq.mp equal)
  case h_11 =>
    rw [left.eq_of_isSame right equal]
    exact .same _

end Hint
end HintCheck
