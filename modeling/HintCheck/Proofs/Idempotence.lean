import HintCheck.Proofs.Canonicity

/-!
A canonical form is its own canonical form. The room for nested unions is taken from the depth of a
hint and of what its variables are bound to. That is enough for every hint that has a canonical form
with any room at all: with less room than a hint needs, something that a variable is bound to cannot
be finished, and each of the bindings can be blamed for that once.
-/
namespace HintCheck
namespace Hint

variable {cat : Catalog} {ctx : Context} {names : Naming} {h : Hint}
  {reduce : Hint → Except HintError Reduced}

/-! ### Enough room -/

/-- The depth of the bindings from which the steps come to an end. -/
noncomputable def depthFinished (cat : Catalog) (ctx : Context) (room : Nat) : Nat :=
  depthWhere (Finishes cat ctx.nested (canonicalWithin cat room ctx.nested))
    (ctx.bindings.map Prod.snd)

theorem Finishes.mono {room larger : Nat} (le : room ≤ larger)
    (finishes : Finishes cat ctx.nested (canonicalWithin cat room ctx.nested) h) :
    Finishes cat ctx.nested (canonicalWithin cat larger ctx.nested) h :=
  finishes.wider (canonicalWithin_widens cat ctx.nested le)

theorem finishes_of_canonicalWithin {room : Nat} {r : Reduced}
    (reduced : canonicalWithin cat (room + 1) ctx.nested h = .ok r) :
    Finishes cat ctx.nested (canonicalWithin cat room ctx.nested) h :=
  finishes_of_iterate (canonicalWithin_nested.mp reduced)

/-- With less room, what is found is the same, if the steps come to an end. -/
theorem Finishes.canonicalWithin_eq {room larger : Nat} (le : room ≤ larger)
    (finishes : Finishes cat ctx.nested (canonicalWithin cat room ctx.nested) h) {r : Reduced}
    (reduced : canonicalWithin cat (larger + 1) ctx.nested h = .ok r) :
    canonicalWithin cat (room + 1) ctx.nested h = .ok r := by
  rw [canonicalWithin_nested] at reduced ⊢
  exact finishes.iterate_eq (canonicalWithin_widens cat ctx.nested le) reduced

theorem depth_lt_of_mem_flattenAll (isUnion : h.isUnion = true) :
    ∀ m ∈ flattenAll h.args, m.depth < h.depth := by
  refine forall_flattenAll fun p member => ?_
  have below : p.depth < h.depth := depth_lt_of_mem_parts (parts_union isUnion ▸ member)
  refine forall_flatten (fun u isUnion shallow a member => ?_) below
  exact Nat.lt_trans (depth_lt_of_mem_parts (parts_union isUnion ▸ member)) shallow

/-- The steps from what a union becomes come to an end where its members are reduced. -/
theorem Canonizes.finishes_next {room : Nat}
    (canonizes : Canonizes cat names (canonicalWithin cat room ctx.nested))
    (named : h.WellNamed names) (isUnion : h.isUnion = true) {next : Hint}
    (stepped : h.stepUnion cat (canonicalWithin cat room ctx.nested) = .ok (some next)) :
    Finishes cat ctx.nested (canonicalWithin cat room ctx.nested) next := by
  rcases stepUnion_cases stepped with rfl | ⟨members, forms, rfl⟩
  · exact .rests rfl
  have each : ∀ x ∈ members, Stable cat (canonicalWithin cat room ctx.nested) x := by
    intro x member
    obtain ⟨m, inFlat, contributes⟩ := contributes_of_mem forms member
    exact canonizes.stable (wellNamed_flattenAll named isUnion m inFlat) (mem_flattenAll inFlat)
      contributes
  match members with
  | [] =>
    have occupied : flattenAll h.args ≠ [] := fun empty => by
      rw [stepUnion, empty] at stepped
      cases stepped
    obtain ⟨atLeast, _⟩ := contributesOnly_of_length forms fun m inFlat r mine reduced mines =>
      (canonizes.forms (wellNamed_flattenAll named isUnion m inFlat) (mem_flattenAll inFlat) reduced
        mines).1
    exact absurd (List.length_eq_zero_iff.mp (Nat.le_zero.mp atLeast)) occupied
  | [only] =>
    obtain ⟨x, ⟨r, reduced, _⟩, _⟩ := (each only (by simp)).stays
    cases room with
    | zero => cases reduced
    | succ room => exact (finishes_of_canonicalWithin reduced).mono (Nat.le_succ room)
  | first :: second :: rest =>
    have several : (first :: second :: rest).length ≠ 1 := by simp
    have rests : (h.joined (first :: second :: rest)).step cat ctx.nested
        (canonicalWithin cat room ctx.nested) = .ok ⟨Option.none, []⟩ := by
      rw [joined_of_length several, step_union _ (isUnion_respelled h _).1,
        stepUnion_stable (by simp) several each h]
      rfl
    exact .rests rests

/-- Where the steps end with some room, they end with one level less, if the hint and the bindings
that are finished then fit into that room. -/
theorem Finishes.pred {room : Nat}
    (finishes : Finishes cat ctx.nested (canonicalWithin cat (room + 1) ctx.nested) h)
    (bound : ∀ entry ∈ ctx.bindings, entry.2.WellNamed names)
    (sooner : ∀ m : Hint, m.WellNamed names →
      Finishes cat ctx.nested (canonicalWithin cat room ctx.nested) m →
      Finishes cat ctx.nested
        (canonicalWithin cat (m.depth + depthFinished cat ctx room) ctx.nested) m)
    (named : h.WellNamed names) (enough : depthFinished cat ctx (room + 1) ≤ room)
    (fits : h.depth + depthFinished cat ctx room ≤ room) :
    Finishes cat ctx.nested (canonicalWithin cat room ctx.nested) h := by
  have passes : Passes ctx.nested (WellNamed names) (WellNamed names) := passes_wellNamed bound
  -- A member of a union is less deep, so what is found of it is found with less room.
  have inside {u : Hint} (namedUnion : u.WellNamed names)
      (fits : u.depth + depthFinished cat ctx room ≤ room) (isUnion : u.isUnion = true) :
      ∀ m ∈ flattenAll u.args, ∀ r, canonicalWithin cat (room + 1) ctx.nested m = .ok r →
        canonicalWithin cat room ctx.nested m = .ok r := by
    intro m member r reduced
    have shallow := depth_lt_of_mem_flattenAll isUnion m member
    have finishes := sooner m (wellNamed_flattenAll namedUnion isUnion m member)
      (finishes_of_canonicalWithin reduced)
    obtain ⟨less, rfl⟩ : ∃ less, room = less + 1 := ⟨room - 1, by omega⟩
    have finishesLess : Finishes cat ctx.nested (canonicalWithin cat less ctx.nested) m :=
      finishes.mono (by omega)
    exact finishesLess.canonicalWithin_eq (by omega) reduced
  have stays {u : Hint} {s : Step} (named : u.WellNamed names)
      (fits : u.depth + depthFinished cat ctx room ≤ room)
      (stepped : u.step cat ctx.nested (canonicalWithin cat (room + 1) ctx.nested) = .ok s) :
      u.step cat ctx.nested (canonicalWithin cat room ctx.nested) = .ok s := by
    cases isUnion : u.isUnion with
    | true => exact step_wider (inside named fits isUnion) stepped
    | false => rwa [step_other isUnion] at stepped
  induction finishes with
  | rests stepped => exact .rests (stays named fits stepped)
  | @moves u next found stepped further ih =>
    have steppedLess := stays named fits stepped
    refine .moves steppedLess ?_
    cases isUnion : u.isUnion with
    | true =>
      rw [step_union _ isUnion] at steppedLess
      cases became : u.stepUnion cat (canonicalWithin cat room ctx.nested) with
      | error e => rw [became] at steppedLess; cases steppedLess
      | ok x =>
        rw [became] at steppedLess
        cases steppedLess
        exact (canonizes_canonicalWithin cat bound room).finishes_next named isUnion became
    | false =>
      have opened := step_opens cat ctx.nested (canonicalWithin cat (room + 1) ctx.nested) isUnion
      rw [stepped] at opened
      have opens : Opens ctx.nested u next := opened next rfl
      have namedNext := passes.opens named opens
      rcases growsBy_opens ctx.nested u next opens with isTarget | shallow
      · by_cases finished : Finishes cat ctx.nested (canonicalWithin cat room ctx.nested) next
        · exact finished
        · -- The binding is finished only now, so it has not been counted before.
          have counted : depthFinished cat ctx room + (next.depth + 1) ≤
              depthFinished cat ctx (room + 1) :=
            depthWhere_add_le (fun t finishes => finishes.mono (Nat.le_succ room)) isTarget further
              finished
          exact ih namedNext (by omega)
      · exact ih namedNext (by omega)

/-- The steps from a hint end with as much room as the hint and the bindings are deep. -/
theorem Finishes.sooner (bound : ∀ entry ∈ ctx.bindings, entry.2.WellNamed names) {room : Nat}
    (named : h.WellNamed names)
    (finishes : Finishes cat ctx.nested (canonicalWithin cat room ctx.nested) h) :
    Finishes cat ctx.nested
      (canonicalWithin cat (h.depth + depthFinished cat ctx room) ctx.nested) h := by
  induction room generalizing h with
  | zero => exact finishes.mono (Nat.zero_le _)
  | succ room ih =>
    have grows : depthFinished cat ctx room ≤ depthFinished cat ctx (room + 1) :=
      depthWhere_mono (fun t finishes => finishes.mono (Nat.le_succ room)) _
    by_cases large : room + 1 ≤ h.depth + depthFinished cat ctx (room + 1)
    · exact finishes.mono large
    · have less := finishes.pred bound (fun m named => ih named) named (by omega) (by omega)
      exact (ih named less).mono (by omega)

/-- More room than a hint and all bindings together are deep finds all that can be found. -/
theorem canonicalWithin_of_room (bound : ∀ entry ∈ ctx.bindings, entry.2.WellNamed names)
    (named : h.WellNamed names) {room enough : Nat} {r : Reduced}
    (reduced : canonicalWithin cat room ctx.nested h = .ok r)
    (large : h.depth + totalDepth (ctx.bindings.map Prod.snd) < enough) :
    canonicalWithin cat enough ctx.nested h = .ok r := by
  cases room with
  | zero => cases reduced
  | succ room =>
    have counted : depthFinished cat ctx room ≤ totalDepth (ctx.bindings.map Prod.snd) :=
      depthWhere_le _ _
    by_cases le : room + 1 ≤ enough
    · exact canonicalWithin_widens cat ctx.nested le h r reduced
    · obtain ⟨less, rfl⟩ : ∃ less, enough = less + 1 := ⟨enough - 1, by omega⟩
      have finishes : Finishes cat ctx.nested (canonicalWithin cat less ctx.nested) h :=
        ((finishes_of_canonicalWithin reduced).sooner bound named).mono (by omega)
      exact finishes.canonicalWithin_eq (by omega) reduced

theorem nestingBound_eq (ctx : Context) (h : Hint) :
    h.nestingBound ctx = h.depth + 2 + totalDepth (ctx.bindings.map Prod.snd) := by
  rw [nestingBound, foldl_depth]

/-- Where a hint starts as one that is no union and takes no step, that is its canonical form. -/
theorem canonical_of_rests {start : Hint} (placed : h.placed cat ctx = .ok start)
    (notUnion : start.isUnion = false) {found : List Validator}
    (rests : start.step cat ctx reduce = .ok ⟨Option.none, found⟩) :
    h.canonical cat ctx = .ok ⟨start, []⟩ := by
  rw [canonical, nestingBound_eq, Nat.add_right_comm]
  exact canonicalWithin_of_iterate placed (iterate_of_rests notUnion rests 63 [])

/-- A hint inside another has the canonical form that any room finds. -/
theorem canonical_of_canonicalWithin (bound : ∀ entry ∈ ctx.bindings, entry.2.WellNamed names)
    (named : h.WellNamed names) {room : Nat} {r : Reduced}
    (reduced : canonicalWithin cat room ctx.nested h = .ok r) :
    h.canonical cat ctx.nested = .ok r := by
  refine canonicalWithin_of_room bound named reduced ?_
  rw [nestingBound_eq]
  show _ < _ + totalDepth (ctx.bindings.map Prod.snd)
  omega

/-! ### Hints spelled alike -/

theorem stepSubscribed_rests {x m : Hint} {f : SpecialForm} {xs ys : List Hint}
    {found : List Validator} (notUnion : f.form ≠ .union)
    (rests : x.stepSubscribed cat reduce f xs = .ok ⟨Option.none, found⟩) :
    m.stepSubscribed cat reduce f ys = .ok ⟨Option.none, found⟩ := by
  unfold stepSubscribed at rests ⊢
  dsimp only at rests ⊢
  split at rests
  · split at rests <;> cases rests
  next notQualifier =>
  rw [if_neg notQualifier]
  split at rests
  case h_2 isUnion => exact absurd isUnion notUnion
  case h_14 =>
    split at rests
    · next deprecated =>
      rw [if_pos deprecated]
      cases origin : f.form.origin? with
      | some b => rw [origin] at rests; cases rests
      | none => rwa [origin] at rests
    · next current => rwa [if_neg current]
  all_goals first | cases rests | (split at rests <;> cases rests)

theorem subscriptedForm?_congr {x m : Hint} (left : x.WellNamed names) (right : m.WellNamed names)
    (equal : x.structEq m = true) : x.subscriptedForm? = m.subscriptedForm? := by
  cases left.spelledAlike right equal with
  | subscription _ _ origin => cases origin <;> rfl
  | _ => rfl

theorem length_filter_congr {α : Type} {p : α → Bool} {xs ys : List α}
    (same : xs.Forall₂ (fun x y => p x = p y) ys) :
    (xs.filter p).length = (ys.filter p).length := by
  induction same with
  | nil => rfl
  | cons head _ ih =>
    rw [List.filter_cons, List.filter_cons, head]
    split
    · rw [List.length_cons, List.length_cons, ih]
    · exact ih

/-- A hint that is spelled like one that takes no step takes none. -/
theorem rests_of_structEq {x m : Hint} (left : x.WellNamed names) (right : m.WellNamed names)
    (equal : x.structEq m = true) (notUnion : x.isUnion = false) {found : List Validator}
    (rests : x.step cat ctx reduce = .ok ⟨Option.none, found⟩) :
    m.step cat ctx reduce = .ok ⟨Option.none, found⟩ := by
  cases left.spelledAlike right equal with
  | same => exact rests
  | none => cases rests
  | quoted | params | forwardRef | value | validator => exact rests
  | union => cases notUnion
  | @subscription _ _ origin xs ys inside =>
    cases origin with
    | form f => exact stepSubscribed_rests (by simpa [isUnion] using notUnion) rests
    | cls c =>
      have unpacked : (xs.filter fun a => a.subscriptedForm? == some .unpack).length =
          (ys.filter fun a => a.subscriptedForm? == some .unpack).length := by
        refine length_filter_congr (List.forall₂_iff_get.mpr ⟨inside.length_eq, fun i _ _ => ?_⟩)
        have alike := (List.forall₂_iff_get.mp inside).2 i ‹_› ‹_›
        rw [subscriptedForm?_congr (left.part _ (List.get_mem xs _))
          (right.part _ (List.get_mem ys _)) alike]
      unfold step stepTuple at rests ⊢
      dsimp only at rests ⊢
      rw [unpacked] at rests
      split at rests
      · next isTuple =>
        rw [if_pos isTuple]
        revert rests
        generalize (ys.filter fun a => a.subscriptedForm? == some .unpack).length = count
        rcases count with _ | _ | _
        · exact id
        · rintro ⟨⟩
        · rintro ⟨⟩
      · next notTuple => rwa [if_neg notTuple]

/-! ### Members of canonical unions -/

/-- A class has no validators. -/
theorem validators_class {c : ClassId} {room : Nat} {r : Reduced}
    (reduced : canonicalWithin cat room ctx.nested (cls c) = .ok r) : r.validators = [] := by
  cases room with
  | zero => cases reduced
  | succ room =>
    obtain ⟨steps, limit⟩ := exists_maxSteps
    rw [canonicalWithin_nested, limit, iterate_succ] at reduced
    unfold step at reduced
    dsimp only at reduced
    split at reduced
    · have onward : iterate cat ctx.nested (canonicalWithin cat room ctx.nested) (steps + 2) object
          [] = .ok (some r) := reduced
      rw [iterate_succ] at onward
      cases onward
      rfl
    · cases reduced
      rfl

/-- A member of a union that stays as it is accepts not everything, and is its own canonical form or
has validators. -/
theorem Stable.canonical {room : Nat} {m : Hint}
    (stable : Stable cat (canonicalWithin cat room ctx.nested) m)
    (bound : ∀ entry ∈ ctx.bindings, entry.2.WellNamed names) (named : m.WellNamed names) :
    m.isIgnorable cat = false ∧
      (m.canonical cat ctx.nested = .ok ⟨m, []⟩ ∨
        ∃ q, m.canonical cat ctx.nested = .ok q ∧ q.validators ≠ []) := by
  obtain ⟨x, ⟨q, reduced, contributed⟩, equal⟩ := stable.stays
  have found := canonical_of_canonicalWithin bound named reduced
  unfold memberForms at contributed
  split at contributed
  · next hasValidators =>
    have validators : q.validators ≠ [] := by simpa using hasValidators
    refine ⟨?_, .inr ⟨q, found, validators⟩⟩
    cases m with
    | cls c => exact absurd (validators_class reduced) validators
    | _ => rfl
  next noValidators =>
  split at contributed
  · cases contributed
  next notIgnorable =>
  split at contributed
  · next isUnion =>
    have several := (canonizes_canonicalWithin cat bound room).several named reduced isUnion
    rw [Option.some.inj contributed] at several
    simp at several
  · next notUnion =>
    cases contributed
    cases room with
    | zero => cases reduced
    | succ room =>
      have isOther : q.hint.isUnion = false := by simpa using notUnion
      obtain ⟨_, rests⟩ := rests_iterate (canonicalWithin_nested.mp reduced)
      have namedForm := (canonizes_canonicalWithin cat bound (room + 1)).named named reduced
      have restsItself := rests_of_structEq namedForm named equal isOther rests
      have itself : canonicalWithin cat (room + 1) ctx.nested m = .ok ⟨m, []⟩ :=
        canonicalWithin_nested.mpr (iterate_of_rests stable.notUnion restsItself _ _)
      rw [reduced] at itself
      cases itself
      exact ⟨by simpa using notIgnorable, .inl found⟩

/-! ### Canonical forms of canonical forms -/

/-- At a position that is not variadic, a canonical form is its own canonical form, without
validators. It is of none of the kinds that stand for something else. If it is a union then it has
several members; none of them is a union or accepts everything, and each is its own canonical form
or has validators. -/
theorem canonical_idempotent (notVariadic : ctx.position.isVariadic = false)
    (named : h.WellNamed names) (bound : ∀ entry ∈ ctx.bindings, entry.2.WellNamed names)
    {r : Reduced} (reduced : h.canonical cat ctx = .ok r) :
    r.hint.canonical cat ctx = .ok ⟨r.hint, []⟩ ∧ r.hint.isStandIn = false ∧
      (r.hint.isUnion = true → 2 ≤ r.hint.args.length ∧
        ∀ m ∈ r.hint.args, m.isUnion = false ∧ m.isIgnorable cat = false ∧
          (m.canonical cat ctx.nested = .ok ⟨m, []⟩ ∨
            ∃ q, m.canonical cat ctx.nested = .ok q ∧ q.validators ≠ [])) := by
  have passes : Passes ctx (WellNamed names) (WellNamed names) := passes_wellNamed bound
  have namedForm : r.hint.WellNamed names := by
    have ends : Ends (fun _ => True) (fun r => r.hint.WellNamed names) (h.canonical cat ctx) :=
      passes.ofCanonicalWithin (fun start placed => placed_eq_ok notVariadic placed ▸ named) _
    rwa [reduced] at ends
  obtain ⟨room, isBound⟩ : ∃ room, h.nestingBound ctx = room + 1 :=
    ⟨h.depth + 1 + totalDepth (ctx.bindings.map Prod.snd), by rw [nestingBound_eq]; omega⟩
  rw [canonical, isBound] at reduced
  obtain ⟨start, _, done⟩ := canonicalWithin_eq_ok reduced
  obtain ⟨found, rests⟩ := rests_iterate done
  have notStandIn := notStandIn_of_rests rests
  have placed : r.hint.placed cat ctx = .ok r.hint := placed_of_notStandIn notVariadic notStandIn
  have canonizes := canonizes_canonicalWithin cat bound room
  have members (isUnion : r.hint.isUnion = true) := canonizes.of_rests namedForm isUnion rests
  have namedMember (isUnion : r.hint.isUnion = true) :
      ∀ m ∈ r.hint.args, m.WellNamed names :=
    fun m member => namedForm.part m (parts_union isUnion ▸ member)
  refine ⟨?_, notStandIn, fun isUnion => ⟨(members isUnion).1, fun m member => ?_⟩⟩
  · rw [canonical, nestingBound_eq, Nat.add_right_comm]
    refine canonicalWithin_of_iterate placed ?_
    obtain ⟨steps, limit⟩ := exists_maxSteps
    rw [limit, iterate_succ]
    have restsAgain : r.hint.step cat ctx (canonicalWithin cat
        (r.hint.depth + totalDepth (ctx.bindings.map Prod.snd) + 1) ctx.nested) =
          .ok ⟨Option.none, found⟩ := by
      cases isUnion : r.hint.isUnion with
      | false => rwa [step_other isUnion ctx] at rests
      | true =>
        refine step_wider (fun m member q found => ?_) rests
        have shallow := depth_lt_of_mem_flattenAll isUnion m member
        exact canonicalWithin_of_room bound (wellNamed_flattenAll namedForm isUnion m member) found
          (by omega)
    rw [restsAgain]
    rfl
  · have stable := (members isUnion).2 m member
    exact ⟨stable.notUnion, stable.canonical bound (namedMember isUnion m member)⟩

/-- A variable bound to an option is opened, and the text with a validator keeps its spelling: the
union has four members and stays as it is. -/
theorem canonical_idempotent_union :
    let t := Hint.typeVar 0 "T" .invariant Option.none []
    let ctx := (Context.bare .standard).bind t (.typing Option.none .optional [Builtin.int])
    let v : Validator := ⟨0, .equal (.str "a")⟩
    let text := Hint.typing Option.none .annotated [Builtin.str, .validator Option.none v]
    let h := Hint.union (some 1) [t, text, .generic Option.none Builtin.list [t]]
    ∃ r, h.canonical Catalog.builtin ctx = .ok r ∧ r.hint.isUnion = true ∧
      r.hint.args.length = 4 ∧ r.hint.canonical Catalog.builtin ctx = .ok ⟨r.hint, []⟩ ∧
      ∀ m ∈ r.hint.args, m.isUnion = false ∧ m.isIgnorable Catalog.builtin = false ∧
        (m.canonical Catalog.builtin ctx.nested = .ok ⟨m, []⟩ ∨
          ∃ q, m.canonical Catalog.builtin ctx.nested = .ok q ∧ q.validators ≠ []) := by
  intro t ctx v text h
  let names : Naming := ⟨fun n => if n = 0 then t else h, fun _ => v.rule⟩
  have namedVariable : t.WellNamed names :=
    .intro (fun n labelled => by cases labelled; rfl) (fun _ _ same => by simp [t] at same)
      fun _ member => by cases member
  have namedValidator : (Hint.validator Option.none v).WellNamed names :=
    .intro (fun n labelled => by cases labelled) (fun label w same => by cases same; rfl)
      fun _ member => by cases member
  have namedText : text.WellNamed names :=
    .ofArgs (by simpa using ⟨.ofClass _, namedValidator⟩)
  have namedList : (Hint.generic Option.none Builtin.list [t]).WellNamed names :=
    .ofArgs (by simpa using namedVariable)
  have named : h.WellNamed names :=
    .intro (fun n labelled => by cases labelled; rfl) (fun _ _ same => by simp [h] at same)
      (by simpa [h, parts] using ⟨namedVariable, namedText, namedList⟩)
  have bound : ∀ entry ∈ ctx.bindings, entry.2.WellNamed names := by
    intro entry member
    cases List.mem_singleton.mp member
    exact .ofArgs (by simpa using .ofClass _)
  have shape : ((h.canonical Catalog.builtin ctx).toOption.any fun r =>
      r.hint.isUnion && r.hint.args.length == 4) = true := by decide +kernel
  obtain ⟨r, reduced, shape⟩ := ok_of_any shape
  rw [Bool.and_eq_true, beq_iff_eq] at shape
  obtain ⟨again, _, members⟩ := canonical_idempotent rfl named bound reduced
  exact ⟨r, reduced, shape.1, shape.2, again, (members shape.1).2⟩

end Hint
end HintCheck
