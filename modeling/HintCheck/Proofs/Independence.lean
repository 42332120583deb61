import HintCheck.Hint.Classified

/-!
What classification depends on. Of a context it looks at the position, the enclosing classes and
the bindings, and at nothing else; and but for extensions it is decided by the canonical form.
-/
namespace HintCheck

/-- The contexts agree on all that classification looks at. -/
structure Context.ReadsAlike (ctx other : Context) : Prop where
  /-- Positions other than those of parameters make no difference. -/
  position : ∀ kind, ctx.position = .param kind ↔ other.position = .param kind
  classes : ctx.classes = other.classes
  bindings : ctx.bindings = other.bindings

theorem Context.ReadsAlike.nested {ctx other : Context} (alike : ctx.ReadsAlike other) :
    ctx.nested.ReadsAlike other.nested :=
  ⟨fun _ => .rfl, alike.classes, alike.bindings⟩

/-- A hint that is no parameter's is read as one inside another hint. -/
theorem Context.readsAlike_nested {ctx : Context} (notParam : ∀ kind, ctx.position ≠ .param kind) :
    ctx.ReadsAlike ctx.nested :=
  ⟨fun kind => ⟨fun same => (notParam kind same).elim, nofun⟩, rfl, rfl⟩

/-- What treats all positions alike that are no parameter's comes out the same. -/
theorem Context.ReadsAlike.byPosition {α : Type} {ctx other : Context}
    (alike : ctx.ReadsAlike other) (f : Position → α)
    (uniform : ∀ p, (∀ kind, p ≠ .param kind) → f p = f .nested) :
    f ctx.position = f other.position := by
  by_cases isParam : ∃ kind, ctx.position = .param kind
  · obtain ⟨kind, isKind⟩ := isParam
    rw [isKind, (alike.position kind).mp isKind]
  · have notParam (kind : ParamKind) : ctx.position ≠ .param kind :=
      fun same => isParam ⟨kind, same⟩
    have notParamToo (kind : ParamKind) : other.position ≠ .param kind :=
      fun same => notParam kind ((alike.position kind).mpr same)
    rw [uniform _ notParam, uniform _ notParamToo]

namespace Hint

variable {cat : Catalog} {ctx other : Context}

theorem placed_alike (alike : ctx.ReadsAlike other) (h : Hint) :
    h.placed cat ctx = h.placed cat other :=
  alike.byPosition (fun p => h.placed cat (ctx.placedAt p)) fun p notParam => by
    cases p with
    | param kind => exact (notParam kind rfl).elim
    | _ => rfl

theorem step_alike (alike : ctx.ReadsAlike other) (reduce : Hint → Except HintError Reduced)
    (h : Hint) : h.step cat ctx reduce = h.step cat other reduce := by
  have bindings : ctx.binding? = other.binding? := by
    funext t
    rw [Context.binding?, Context.binding?, alike.bindings]
  have forms (f : SpecialForm) : stepForm cat ctx f = stepForm cat other f := by
    have same := alike.byPosition (fun p => stepForm cat (ctx.placedAt p) f) fun p notParam => by
      cases p with
      | param kind => exact (notParam kind rfl).elim
      | _ => rfl
    refine same.trans ?_
    unfold stepForm
    rw [show (ctx.placedAt other.position).classes = other.classes from alike.classes]
    rfl
  unfold step typeVarMeaning
  simp only [bindings, forms]

theorem iterate_alike (alike : ctx.ReadsAlike other) (reduce : Hint → Except HintError Reduced)
    (steps : Nat) (h : Hint) (validators : List Validator) :
    iterate cat ctx reduce steps h validators = iterate cat other reduce steps h validators := by
  induction steps generalizing h validators with
  | zero => rfl
  | succ steps ih =>
    rw [iterate, iterate, step_alike alike]
    rcases h.step cat other reduce with e | ⟨_ | next, found⟩
    · rfl
    · rfl
    · exact ih next _

theorem canonicalWithin_alike (alike : ctx.ReadsAlike other) (bound : Nat) (h : Hint) :
    canonicalWithin cat bound ctx h = canonicalWithin cat bound other h := by
  induction bound generalizing ctx other h with
  | zero => rfl
  | succ bound ih =>
    have inside : canonicalWithin cat bound ctx.nested = canonicalWithin cat bound other.nested :=
      funext fun m => ih alike.nested m
    rw [canonicalWithin, canonicalWithin, placed_alike alike, inside]
    simp only [iterate_alike alike]

theorem canonical_alike (alike : ctx.ReadsAlike other) (h : Hint) :
    h.canonical cat ctx = h.canonical cat other := by
  rw [canonical, canonical, nestingBound, nestingBound, alike.bindings, canonicalWithin_alike alike]

/-! ### Classification by way of the canonical form -/

/-- A hint that is neither an object of another kind nor replaced before it is looked at. -/
def isProper : Hint → Bool
  | value _ _ | validator _ _ | params _ _ | extension _ _ => false
  | _ => true

/-- Classifies what a canonical form leaves: an extension is replaced if there is room for it. -/
def classifyReduced (cat : Catalog) (subs : Substitutes) (room : Nat) (ctx : Context) (h : Hint) :
    Except HintError Classified :=
  match h, room with
  | extension _ shown, 0 => .error (.recursion shown maxSubstitutions)
  | extension label shown, room + 1 =>
    classifyWithin cat subs room ctx.nested (extension label shown)
  | h, _ => h.classifyCanonical cat

theorem classifyReduced_map (subs : Substitutes) (room : Nat) (ctx : Context) (h : Hint)
    (f : Classified → Classified) :
    (match h, room with
      | extension _ shown, 0 => .error (.recursion shown maxSubstitutions)
      | extension label shown, room + 1 =>
        (classifyWithin cat subs room ctx.nested (extension label shown)).map f
      | h, _ => (h.classifyCanonical cat).map f) =
    (do return f (← classifyReduced cat subs room ctx h)) := by
  have mapped (x : Except HintError Classified) : x.map f = (do return f (← x)) := by
    cases x <;> rfl
  unfold classifyReduced
  split
  · rfl
  · exact mapped _
  · exact mapped _

theorem classifyWithin_opened {h : Hint} (proper : h.isProper = true) (subs : Substitutes)
    (room : Nat) (ctx : Context) :
    classifyWithin cat subs room ctx h =
      match h.canonical cat ctx with
      | .error e => .error e
      | .ok reduced =>
        match reduced.hint, room with
        | extension _ shown, 0 => .error (.recursion shown maxSubstitutions)
        | extension label shown, room + 1 =>
          (classifyWithin cat subs room ctx.nested (extension label shown)).map (h.annotate reduced)
        | canonical, _ => (canonical.classifyCanonical cat).map (h.annotate reduced) := by
  rw [classifyWithin.eq_def]
  cases h <;> first | rfl | cases proper

theorem classifyWithin_proper {h : Hint} (proper : h.isProper = true) (subs : Substitutes)
    (room : Nat) (ctx : Context) :
    classifyWithin cat subs room ctx h = (do
      let reduced ← h.canonical cat ctx
      return h.annotate reduced (← classifyReduced cat subs room ctx reduced.hint)) := by
  rw [classifyWithin_opened proper]
  cases h.canonical cat ctx with
  | error e => rfl
  | ok reduced => exact classifyReduced_map subs room ctx reduced.hint _

/-- The classification of an extension is that of what it stands for. -/
theorem classifyWithin_extension (subs : Substitutes) (room : Nat) (ctx : Context) (label : Nat)
    (shown : String) :
    classifyWithin cat subs (room + 1) ctx (extension label shown) =
      match subs.lookup label with
      | some h => classifyWithin cat subs room ctx h
      | Option.none => .error (.unsupported shown) :=
  classifyWithin.eq_def cat subs (room + 1) ctx (extension label shown)

/-- What a canonical form leaves is classified as it is, or as an extension again. -/
theorem classifyReduced_cases (cat : Catalog) (subs : Substitutes) (room : Nat) (ctx : Context)
    (left : Hint) :
    (∀ label shown, left ≠ extension label shown) ∧
        classifyReduced cat subs room ctx left = left.classifyCanonical cat ∨
      ∃ label shown, left = extension label shown ∧
        (classifyReduced cat subs room ctx left = .error (.recursion shown maxSubstitutions) ∨
          ∃ fewer, room = fewer + 1 ∧ classifyReduced cat subs room ctx left =
            classifyWithin cat subs fewer ctx.nested left) := by
  cases left with
  | extension label shown =>
    cases room with
    | zero => exact .inr ⟨label, shown, rfl, .inl rfl⟩
    | succ room => exact .inr ⟨label, shown, rfl, .inr ⟨room, rfl, rfl⟩⟩
  | _ => exact .inl ⟨fun _ _ same => (by cases same), rfl⟩

/-- Induction over the ways in which hints are classified: an extension as what it stands for, and a
proper hint by way of its canonical form. -/
theorem classifyWithin_induction (cat : Catalog) (subs : Substitutes)
    {motive : Context → Hint → Except HintError Classified → Prop}
    (notAHint : ∀ ctx h shown, motive ctx h (.error (.notAHint shown)))
    (unknown : ∀ ctx label shown, motive ctx (extension label shown) (.error (.unsupported shown)))
    (tooMany : ∀ ctx label shown,
      motive ctx (extension label shown) (.error (.recursion shown maxSubstitutions)))
    (substitute : ∀ ctx label shown h x, subs.lookup label = some h → motive ctx h x →
      motive ctx (extension label shown) x)
    (proper : ∀ ctx h (classifies : Hint → Except HintError Classified), h.isProper = true →
      (∀ left, (∀ label shown, left ≠ extension label shown) ∧
          classifies left = left.classifyCanonical cat ∨
        ∃ label shown, left = extension label shown ∧ motive ctx.nested left (classifies left)) →
      motive ctx h (do
        let reduced ← h.canonical cat ctx
        return h.annotate reduced (← classifies reduced.hint)))
    (room : Nat) (ctx : Context) (h : Hint) :
    motive ctx h (classifyWithin cat subs room ctx h) := by
  have ofProper (room : Nat) (ctx : Context) (h : Hint)
      (extensions : ∀ fewer left, room = fewer + 1 →
        motive ctx.nested left (classifyWithin cat subs fewer ctx.nested left))
      (isProper : h.isProper = true) : motive ctx h (classifyWithin cat subs room ctx h) := by
    rw [classifyWithin_proper isProper]
    refine proper ctx h _ isProper fun left => ?_
    rcases classifyReduced_cases cat subs room ctx left with
      same | ⟨label, shown, rfl, full | ⟨fewer, isSucc, same⟩⟩
    · exact .inl same
    · exact .inr ⟨label, shown, rfl, full ▸ tooMany _ _ _⟩
    · exact .inr ⟨label, shown, rfl, same ▸ extensions fewer _ isSucc⟩
  induction room generalizing ctx h with
  | zero =>
    cases isProper : h.isProper with
    | true => exact ofProper 0 ctx h nofun isProper
    | false =>
      cases h with
      | extension label shown => exact tooMany ctx label shown
      | _ => first | exact notAHint ctx _ _ | cases isProper
  | succ room ih =>
    cases isProper : h.isProper with
    | true =>
      refine ofProper (room + 1) ctx h (fun fewer left same => ?_) isProper
      cases same
      exact ih ctx.nested left
    | false =>
      cases h with
      | extension label shown =>
        rw [classifyWithin_extension]
        cases found : subs.lookup label with
        | some h => exact substitute ctx label shown h _ found (ih ctx h)
        | none => exact unknown ctx label shown
      | _ => first | exact notAHint ctx _ _ | cases isProper

theorem classifyWithin_proper_alike (alike : ctx.ReadsAlike other) {subs : Substitutes} {room : Nat}
    {h : Hint} (proper : h.isProper = true)
    (reduced : ∀ left, classifyReduced cat subs room ctx left =
      classifyReduced cat subs room other left) :
    classifyWithin cat subs room ctx h = classifyWithin cat subs room other h := by
  rw [classifyWithin_proper proper, classifyWithin_proper proper, canonical_alike alike,
    funext reduced]

theorem classifyWithin_alike (alike : ctx.ReadsAlike other) (subs : Substitutes) (room : Nat)
    (h : Hint) : classifyWithin cat subs room ctx h = classifyWithin cat subs room other h := by
  induction room generalizing ctx other h with
  | zero =>
    cases proper : h.isProper with
    | true => exact classifyWithin_proper_alike alike proper fun left => by cases left <;> rfl
    | false => cases h <;> first | rfl | cases proper
  | succ room ih =>
    cases proper : h.isProper with
    | true =>
      refine classifyWithin_proper_alike alike proper fun left => ?_
      cases left with
      | extension => exact ih alike.nested _
      | _ => rfl
    | false =>
      cases h with
      | extension label shown =>
        rw [classifyWithin_extension, classifyWithin_extension]
        cases subs.lookup label with
        | some h => exact ih alike h
        | none => rfl
      | _ => first | rfl | cases proper

theorem classify_alike (alike : ctx.ReadsAlike other) (subs : Substitutes) (h : Hint) :
    h.classify cat subs ctx = h.classify cat subs other :=
  classifyWithin_alike alike subs maxSubstitutions h

end Hint
end HintCheck
