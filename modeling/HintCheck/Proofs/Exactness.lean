import HintCheck.Proofs.Decision
import HintCheck.Proofs.Registration
import HintCheck.Proofs.Sessions

/-!
Exactness of checks: with all items tested, the check of a simple hint accepts exactly the values
that satisfy the hint, and only very deep hints have none. What was defined and registered after the
check was built counts for both.
-/
namespace HintCheck

/-- A hint with room for its steps has room for what is nested in it. -/
theorem maxSteps_le_maxNesting : maxSteps ≤ maxNesting := by decide

namespace Reading

variable {m : Type → Type} [Monad m] {r : Reading m} {names : Naming} {limited : Prop}

theorem reads_classified {h : Hint} {c : Classified} (classifies : r.Classifies names h c)
    {room : Nat} {ctx : Context} (full : room = 0 → limited)
    (inside : ∀ k, room = k + 1 → r.ReadsBelow limited names h.depth (r.meaningWithin k) ctx) :
    Reads limited (h.admits r.world r.conf.tower) (r.meaningWithin room ctx c) := by
  cases room with
  | zero => exact ⟨rfl, full rfl⟩
  | succ room => exact classifies.2 limited _ ctx (inside room rfl)

variable [LawfulMonad m] (root : r.catalog.KeepsRoot r.world)
include root

/-- With all items tested, a simple hint is satisfied by the values that pass its test. -/
theorem reads_meaningWithin (exhaustive : r.exhaustive = true) (room : Nat) {h : Hint}
    (simple : h.Simple r.catalog) (named : h.WellNamed names) {ctx : Context}
    (notVariadic : ctx.position.isVariadic = false) :
    Reads (maxSteps < 2 * h.depth ∨ room < h.depth) (h.admits r.world r.conf.tower) (do
      r.meaningWithin room ctx (← h.classify r.catalog r.substitutes ctx)) := by
  induction room using Nat.strongRecOn generalizing h ctx with
  | ind room ih =>
    have settles : Hint.Settles _ r.catalog r.world r.conf.tower names h _ :=
      simple.settles_canonical root named notVariadic
    rw [Hint.classify, Hint.classifyWithin_proper simple.isProper]
    simp only [bind_assoc]
    refine (settles.mono Or.inl).bind fun reduced holds => ?_
    obtain ⟨simplified, settled⟩ := holds
    obtain ⟨c, classifies⟩ :=
      classifies_settled exhaustive root simplified.simple simplified.named settled
    rw [Hint.classifyReduced_settled settled, classifies.1]
    show Reads _ _ (r.meaningWithin room ctx (h.annotate reduced c))
    have notDeeper := simplified.depth
    have positive := reduced.hint.depth_pos
    unfold Hint.annotate
    split
    case isTrue noValidators =>
      have same : ∀ v, h.admits r.world r.conf.tower v =
          reduced.hint.admits r.world r.conf.tower v := fun v => by
        rw [simplified.admits, List.isEmpty_iff.mp noValidators, List.all_nil, Bool.and_true]
      refine (reads_classified classifies (fun full => .inr (by omega)) ?_).congr same
      exact fun k left item simple named below =>
        (ih k (by omega) simple named rfl).mono (by omega)
    case isFalse validators =>
      -- the hint as written is a level of its own
      have lower := simplified.below (by simpa using validators)
      cases room with
      | zero => exact ⟨rfl, .inr (by omega)⟩
      | succ room =>
        show Within _ _ (r.meaningWithin room ctx c >>= _)
        refine Within.bind (reads_classified classifies (fun full => .inr (by omega)) ?_)
          fun t decides v => ?_
        · exact fun k left item simple named below =>
            (ih k (by omega) simple named rfl).mono (by omega)
        · rw [Option.getD_some, decides, Check.both_pure_pure, simplified.admits]

theorem reads_meaning (exhaustive : r.exhaustive = true) {h : Hint} (simple : h.Simple r.catalog)
    (named : h.WellNamed names) {ctx : Context} (notVariadic : ctx.position.isVariadic = false) :
    Reads (maxSteps < 2 * h.depth) (h.admits r.world r.conf.tower) (do
      r.meaning ctx (← h.classify r.catalog r.substitutes ctx)) := by
  have limits := maxSteps_le_maxNesting
  exact (reads_meaningWithin root exhaustive (maxNesting + 1) simple named notVariadic).mono
    (by omega)

end Reading

/-! ### Variadic parameters -/

namespace Hint

variable {cat world : Catalog} {tower : Bool} {names : Naming} {h : Hint} {ctx : Context}

theorem admitsAt_of_notVariadic {position : Position} (notVariadic : position.isVariadic = false)
    (v : Value) : h.admitsAt cat tower position v = h.admits cat tower v := by
  unfold admitsAt
  split
  · cases notVariadic
  · cases notVariadic
  · rfl

/-- A variadic parameter is read as the container that it is bound to. -/
structure Spread (cat world : Catalog) (tower : Bool) (names : Naming) (ctx : Context)
    (h start : Hint) : Prop where
  placed : h.placed cat ctx = .ok start
  simple : start.Simple cat
  named : start.WellNamed names
  settled : start.isSettled = true
  notUnion : start.isUnion = false
  depth : start.depth = h.depth + 1
  admits : ∀ v, h.admitsAt world tower ctx.position v = start.admits world tower v

theorem exists_spread (simple : h.Simple cat) (named : h.WellNamed names)
    (isVariadic : ctx.position.isVariadic = true) :
    ∃ start, Spread cat world tower names ctx h start := by
  have deep := h.depth_pos
  cases position : ctx.position with
  | param kind =>
    rw [position] at isVariadic
    cases kind with
    | varPositional =>
      exact ⟨tupleOf Option.none Option.none h,
        { placed := by rw [Hint.placed, position]; exact spread_varPositional simple.notUnpack
          simple := .tupleOf _ _ simple
          named := .ofArgs (by simpa using ⟨named, .ofValue _⟩)
          settled := rfl
          notUnion := rfl
          depth := by simp [tupleOf, generic, depth, depthAll]; omega
          admits := fun v => by rw [position, admits_tupleOf]; rfl }⟩
    | varKeyword =>
      exact ⟨generic Option.none Builtin.dict [Builtin.str, h],
        { placed := by rw [Hint.placed, position]; exact spread_varKeyword simple.notUnpack
          simple := .pairs _ (by decide) (.plain rfl) simple
          named := .ofArgs (by simpa using ⟨.ofClass _, named⟩)
          settled := rfl
          notUnion := rfl
          depth := by simp [generic, depth, depthAll]; omega
          admits := fun v => by
            rw [position, admits_pairs (by decide)]
            simp [admitsAt, Hint.admits, ClassId.kinds] }⟩
    | _ => cases isVariadic
  | _ => rw [position] at isVariadic; cases isVariadic

theorem Spread.canonical {start : Hint} (spread : Spread cat world tower names ctx h start) :
    h.canonical cat ctx = .ok ⟨start, []⟩ := by
  obtain ⟨bound, isBound⟩ :=
    Nat.exists_eq_succ_of_ne_zero (Nat.ne_zero_of_lt (depth_lt_nestingBound ctx h))
  obtain ⟨s, stepped, moves⟩ : ∃ s, _ ∧ Moves cat world tower names start s :=
    spread.simple.moves spread.named spread.notUnion
  obtain ⟨steps, limit⟩ := exists_maxSteps
  rw [Hint.canonical, isBound, canonicalWithin_succ, spread.placed]
  show (iterate cat ctx _ maxSteps start [] >>= _) = _
  rw [limit, iterate_succ, stepped]
  cases moves with
  | stays => rfl
  | becomes unsettled => rw [spread.settled] at unsettled; cases unsettled

end Hint

namespace Reading

variable {m : Type → Type} [Monad m] [LawfulMonad m] {r : Reading m} {names : Naming}

/-- The test of a simple hint at any position. -/
theorem reads_at (root : r.catalog.KeepsRoot r.world) (exhaustive : r.exhaustive = true) {h : Hint}
    (simple : h.Simple r.catalog) (named : h.WellNamed names) (ctx : Context) :
    Reads (maxSteps < 2 * h.depth) (h.admitsAt r.world r.conf.tower ctx.position) (do
      r.meaning ctx (← h.classify r.catalog r.substitutes ctx)) := by
  cases isVariadic : ctx.position.isVariadic with
  | false =>
    exact (reads_meaning root exhaustive simple named isVariadic).congr
      (Hint.admitsAt_of_notVariadic isVariadic)
  | true =>
    obtain ⟨start, spread⟩ : ∃ start,
        Hint.Spread r.catalog r.world r.conf.tower names ctx h start :=
      Hint.exists_spread simple named isVariadic
    obtain ⟨c, classifies⟩ :=
      classifies_settled exhaustive root spread.simple spread.named spread.settled
    have classified : h.classify r.catalog r.substitutes ctx = .ok c := by
      rw [Hint.classify, Hint.classifyWithin_proper simple.isProper, spread.canonical]
      show (do return Hint.annotate _ _ (← Hint.classifyReduced _ _ _ ctx start)) = _
      rw [Hint.classifyReduced_settled spread.settled, classifies.1]
      rfl
    rw [classified]
    show Reads _ _ (r.meaningWithin (maxNesting + 1) ctx c)
    refine (reads_classified classifies (fun full => by cases full) ?_).congr spread.admits
    intro k left item simple named below
    have limits := maxSteps_le_maxNesting
    have depth := spread.depth
    exact (reads_meaningWithin root exhaustive k simple named rfl).mono (by omega)

end Reading

/-! ### Checks in a session -/

namespace Session

/-- With all items tested, the check of a simple hint accepts exactly the values that satisfy the
hint, in whatever catalog has grown out of the one that it was built in. There is a check unless the
hint is too deep. -/
theorem buildCheck_exact {s : Session} {ctx : Context} {h : Hint} {scope : Scope} {names : Naming}
    (exhaustive : ctx.conf.thoroughness = .exhaustive) (simple : h.Simple s.catalog)
    (named : h.WellNamed names) (grown : s.cache.Grown names s.catalog s.substitutes)
    (wellKept : scope.WellKept) (pith : String) :
    (∀ check after, ((buildCheck ctx pith h scope).run.run s).1 = .ok (check, after) →
      ∀ (m : Type → Type) [Monad m] [LawfulMonad m] (o : Oracle m), s.catalog.Extends o.catalog →
        ∀ v, check.accepts o v =
          pure (h.admitsAt o.catalog ctx.conf.tower ctx.position v)) ∧
      ∀ e, ((buildCheck ctx pith h scope).run.run s).1 = .error e →
        e.isLimit = true ∧ maxSteps < 2 * h.depth := by
  -- no reference is met on the way, so a reader who finds none sees all there is
  let r (world : Catalog) (random : UInt32) : Reading (Except Unit) :=
    ⟨⟨s.catalog, s.substitutes, ctx.conf⟩, world, random, fun _ => .error ()⟩
  have reads {world : Catalog} (extension : s.catalog.Extends world) (random : UInt32) :
      Reading.Reads _ _ (do
        (r world random).meaning ctx (← h.classify s.catalog s.substitutes ctx)) :=
    Reading.reads_at (r := r world random) (fun _ => extension.root) (beq_iff_eq.mpr exhaustive)
      simple named ctx
  have performs (world : Catalog) (random : UInt32) :=
    buildCheck_performs (r := r world random) (o := ⟨world, random, fun _ => .error ()⟩) rfl
      ⟨rfl, rfl, fun _ _ _ => rfl⟩ wellKept named grown pith
  constructor
  · intro check after built m _ _ o extension v
    obtain ⟨t, read, performed⟩ := (built ▸ performs o.catalog o.random).ok_left
    have decided := reads extension o.random
    rw [read] at decided
    refine Check.accepts_atOnce o check v ?_
    exact (performed.accepts v).trans (decided v)
  · intro e failed
    have read := (failed ▸ performs s.catalog 0).error_left
    have limited := reads (.refl s.catalog) 0
    rw [read] at limited
    exact limited

/-- The check of an optional dictionary of tuples of numbers tells what is inside the tuples, also
after the numbers have been registered with the sequences. -/
theorem buildCheck_exact_tuples :
    let ctx := Context.bare ⟨.exhaustive, false, none⟩
    let numbers := Hint.tupleOf none none Builtin.int
    let h := Hint.typing none .optional [.typing none .dict [Builtin.str, numbers]]
    let o : Oracle Id := ⟨Catalog.builtin.register Builtin.sequence Builtin.int, 0, fun _ => none⟩
    ∃ check after, ((buildCheck ctx "obj" h .empty).run.run start).1 = .ok (check, after) ∧
      check.accepts o (.dict [(.str "a", .tuple [.int 1, .int 2])]) = true ∧
      check.accepts o (.dict [(.str "a", .tuple [.int 1, .str "b"])]) = false ∧
      check.accepts o .none = true := by
  intro ctx numbers h o
  have simple : h.Simple start.catalog :=
    .optional none rfl (.deprecated none rfl (by decide)
      (.pairs none (by decide) (.plain rfl) (.tupleOf none none (.plain rfl))))
  let names : Naming := ⟨fun _ => Builtin.object, fun _ => .instanceOf []⟩
  have namedNumbers : numbers.WellNamed names := .ofArgs (by simpa using ⟨.ofClass _, .ofValue _⟩)
  have named : h.WellNamed names :=
    .ofArgs (by simpa using .ofArgs (by simpa using ⟨.ofClass _, namedNumbers⟩))
  obtain ⟨exact, limited⟩ :=
    buildCheck_exact (show ctx.conf.thoroughness = .exhaustive from rfl) simple named .empty
      Scope.wellKept_empty "obj"
  cases built : ((buildCheck ctx "obj" h .empty).run.run start).1 with
  | error e => exact absurd (limited e built).2 (by decide)
  | ok result =>
    have extension : start.catalog.Extends o.catalog := Catalog.extends_register _ _ _
    have accepts (v : Value) := exact result.1 result.2 built Id o extension v
    exact ⟨result.1, result.2, rfl, accepts _, accepts _, accepts _⟩

end Session
end HintCheck
