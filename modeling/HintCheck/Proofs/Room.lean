import HintCheck.Proofs.Independence
import HintCheck.Proofs.Steps

/-!
Room that was enough stays enough. Extensions are replaced a limited number of times. What a hint is
classified as within a limit it is classified as within every larger one, so it does not matter how
much room was left for a hint when it was reached.
-/
namespace HintCheck

namespace Hint

variable {cat : Catalog} {subs : Substitutes} {ctx : Context} {h : Hint} {c d : Classified}

variable (cat subs ctx) in
/-- One more extension makes no difference to a classification that has ended. -/
def SteadyAt (room : Nat) : Prop :=
  ∀ {h : Hint} {c : Classified}, h.classifyWithin cat subs room ctx.nested = .ok c →
    h.classifyWithin cat subs (room + 1) ctx.nested = .ok c

theorem classifyReduced_more {room : Nat}
    (fewer : ∀ less, room = less + 1 → SteadyAt cat subs ctx less)
    (classified : classifyReduced cat subs room ctx.nested h = .ok c) :
    classifyReduced cat subs (room + 1) ctx.nested h = .ok c := by
  cases h with
  | extension =>
    cases room with
    | zero => cases classified
    | succ less => exact fewer less rfl classified
  | _ => exact classified

theorem steadyAt_of_fewer {room : Nat}
    (fewer : ∀ less, room = less + 1 → SteadyAt cat subs ctx less) :
    SteadyAt cat subs ctx room := by
  intro h c classified
  cases proper : h.isProper with
  | true =>
    rw [classifyWithin_proper proper] at classified ⊢
    obtain ⟨reduced, isReduced, annotated⟩ := ok_of_bind classified
    obtain ⟨inner, isInner, isAnnotated⟩ := ok_of_bind annotated
    rw [isReduced]
    dsimp only [bind, Except.bind]
    rw [classifyReduced_more fewer isInner]
    exact isAnnotated
  | false =>
    cases h with
    | value | validator | params => cases room <;> cases classified
    | extension label shown =>
      cases room with
      | zero => cases classified
      | succ less =>
        rw [classifyWithin_extension] at classified ⊢
        cases stands : subs.lookup label with
        | none => rw [stands] at classified; cases classified
        | some h =>
          rw [stands] at classified
          exact fewer less rfl classified
    | _ => cases proper

theorem steadyAt (room : Nat) : SteadyAt cat subs ctx room := by
  induction room with
  | zero => exact steadyAt_of_fewer fun less same => by cases same
  | succ room ih => exact steadyAt_of_fewer fun less same => by cases same; exact ih

theorem classifyReduced_mono {few more : Nat} (notMore : few ≤ more)
    (classified : classifyReduced cat subs few ctx.nested h = .ok c) :
    classifyReduced cat subs more ctx.nested h = .ok c := by
  induction notMore with
  | refl => exact classified
  | step _ ih => exact classifyReduced_more (fun less _ => steadyAt less) ih

/-- However much room was left for extensions, a canonical form is classified in one way. -/
theorem classifyReduced_unique {few more : Nat}
    (first : classifyReduced cat subs few ctx.nested h = .ok c)
    (second : classifyReduced cat subs more ctx.nested h = .ok d) : c = d := by
  have wide := classifyReduced_mono (Nat.le_max_left few more) first
  rw [classifyReduced_mono (Nat.le_max_right few more) second] at wide
  exact (Except.ok.inj wide).symm

end Hint

end HintCheck
