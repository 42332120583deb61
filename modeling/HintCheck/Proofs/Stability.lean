import HintCheck.Proofs.Simplification

/-!
Stability of canonical forms. A simple hint has the same canonical form wherever unions are reached,
the members of a union in canonical form are in canonical form themselves, and a union of such
members takes no further step. So the number of steps is bounded by the depth, and a simple hint
that is not too deep has a canonical form.
-/
namespace HintCheck

/-! ### Structural equality -/

namespace Value

mutual

theorem structEq_refl : (v : Value) → v.structEq v = true
  | ellipsis | none | bool _ | int _ | float _ | complex _ _ | str _ | module _ | bytes _ => by
    simp [structEq]
  | type _ | inst _ _ _ _ | function _ | method _ => by simp [structEq, isSame]
  | list items | tuple items | set items | frozenset items | deque items | iterator items => by
    rw [structEq]
    exact structEqList_refl items
  | dict pairs => by
    rw [structEq]
    exact structEqPairs_refl pairs

theorem structEqList_refl : (vs : List Value) → structEqList vs vs = true
  | [] => rfl
  | v :: rest => by rw [structEqList, structEq_refl v, structEqList_refl rest]; rfl

theorem structEqPairs_refl : (pairs : List (Value × Value)) → structEqPairs pairs pairs = true
  | [] => rfl
  | (k, v) :: rest => by
    rw [structEqPairs, structEq_refl k, structEq_refl v, structEqPairs_refl rest]
    rfl

end

end Value

namespace Hint

theorem structEqList_of_forall₂ {xs ys : List Hint}
    (equal : List.Forall₂ (fun x y => x.structEq y = true) xs ys) : structEqList xs ys = true := by
  induction equal with
  | nil => rfl
  | cons head _ ih => rw [structEqList, head, ih]; rfl

theorem structEq_refl (h : Hint) : h.structEq h = true := by
  induction h using induction_parts with
  | step h ih =>
    have inside : h.parts.Forall₂ (fun x y => x.structEq y = true) h.parts :=
      List.forall₂_same.mpr ih
    cases h with
    | subscription _ _ _ | union _ _ | params _ _ =>
      simpa [structEq, parts] using structEqList_of_forall₂ inside
    | value _ v => simpa [structEq] using v.structEq_refl
    | _ => simp [structEq, isSame, id?]

variable {cat : Catalog} {tower : Bool} {names : Naming} {h : Hint} {ctx : Context}
  {reduce other : Hint → Except HintError Reduced}

/-! ### Independence of the surroundings -/

/-- Two ways of reducing that agree on simple hints below a depth. -/
def AgreeBelow (cat : Catalog) (names : Naming) (depth : Nat)
    (reduce other : Hint → Except HintError Reduced) : Prop :=
  ∀ m, m.Simple cat → m.WellNamed names → m.depth < depth → reduce m = other m

theorem unionForms_congr {flat : List Hint} (agree : ∀ m ∈ flat, reduce m = other m) :
    unionForms cat reduce flat = unionForms cat other flat := by
  induction flat with
  | nil => rfl
  | cons m rest ih =>
    rw [unionForms_cons, unionForms_cons, agree m (by simp),
      ih fun m member => agree m (by simp [member])]

theorem Simple.step_congr (simple : h.Simple cat) (named : h.WellNamed names)
    (agree : AgreeBelow cat names h.depth reduce other) (ctx around : Context) :
    h.step cat ctx reduce = h.step cat around other := by
  cases isUnion : h.isUnion with
  | true =>
    have flat : MembersOf cat cat false names _ _ _ := simple.flat named isUnion
    have smaller : h.depth - 1 < h.depth := Nat.pred_lt (Nat.ne_of_gt h.depth_pos)
    rw [step_union ctx isUnion, step_union around isUnion, stepUnion_eq flat.nonempty,
      stepUnion_eq flat.nonempty, unionForms_congr fun m member => agree m (flat.simple m member)
        (flat.named m member) (Nat.lt_of_le_of_lt (flat.depth m member) smaller)]
  | false =>
    obtain ⟨s, stepped, _⟩ : ∃ s, _ ∧ Moves cat cat false names h s := simple.moves named isUnion
    rw [stepped, stepped]

theorem Simple.iterate_congr (simple : h.Simple cat) (named : h.WellNamed names)
    (inside : SettlesInside True cat cat false names h.depth reduce)
    (agree : AgreeBelow cat names h.depth reduce other) (ctx around : Context) (steps : Nat)
    (validators : List Validator) :
    iterate cat ctx reduce steps h validators = iterate cat around other steps h validators := by
  induction steps generalizing h validators with
  | zero => rfl
  | succ steps ih =>
    have stepped := simple.steps (.refl cat) named inside ctx
    rw [iterate_succ, iterate_succ, ← simple.step_congr named agree ctx around]
    rcases taken : h.step cat ctx reduce with e | ⟨_ | next, found⟩
    · rfl
    · rfl
    · rw [taken] at stepped
      have simplified : Simplified cat cat false names h ⟨next, found⟩ := stepped
      have below : ∀ m : Hint, m.depth < next.depth → m.depth < h.depth :=
        fun m less => Nat.lt_of_lt_of_le less simplified.depth
      exact ih simplified.simple simplified.named
        (fun m simple named less => inside m simple named (below m less))
        (fun m simple named less => agree m simple named (below m less)) _

theorem Simple.canonicalWithin_eq (simple : h.Simple cat)
    (notVariadic : ctx.position.isVariadic = false) (bound : Nat) :
    canonicalWithin cat (bound + 1) ctx h = (do
      match ← iterate cat ctx (canonicalWithin cat bound ctx.nested) maxSteps h [] with
      | Option.none => throw (.recursion (h.text cat) maxSteps)
      | some reduced => return reduced) := by
  rw [canonicalWithin_succ, simple.placed notVariadic]
  rfl

/-- A simple hint has one canonical form, whatever the bound and the context. -/
theorem Simple.canonicalWithin_congr (simple : h.Simple cat) (named : h.WellNamed names)
    {around : Context} (notVariadic : ctx.position.isVariadic = false)
    (otherwise : around.position.isVariadic = false) {bound larger : Nat}
    (enough : h.depth < bound) (alsoEnough : h.depth < larger) :
    canonicalWithin cat bound ctx h = canonicalWithin cat larger around h := by
  induction bound generalizing larger ctx around h with
  | zero => exact absurd enough (Nat.not_lt_zero _)
  | succ bound ih =>
    obtain ⟨larger, rfl⟩ := Nat.exists_eq_succ_of_ne_zero (Nat.ne_zero_of_lt alsoEnough)
    have inside : SettlesInside True cat cat false names h.depth
        (canonicalWithin cat bound ctx.nested) :=
      fun m simple named below => simple.settles (.refl cat) named rfl (by omega)
    have agree : AgreeBelow cat names h.depth (canonicalWithin cat bound ctx.nested)
        (canonicalWithin cat larger around.nested) :=
      fun m simple named below => ih simple named rfl rfl (by omega) (by omega)
    rw [simple.canonicalWithin_eq notVariadic, simple.canonicalWithin_eq otherwise,
      simple.iterate_congr named inside agree ctx around]

/-- The canonical form of a simple hint, by the canonical forms of the members of its unions. -/
theorem Simple.canonical_eq (simple : h.Simple cat) (named : h.WellNamed names)
    (notVariadic : ctx.position.isVariadic = false) :
    h.canonical cat ctx = (do
      match ← iterate cat ctx (canonical cat ctx) maxSteps h [] with
      | Option.none => throw (.recursion (h.text cat) maxSteps)
      | some reduced => return reduced) := by
  have enough := depth_lt_nestingBound ctx h
  obtain ⟨bound, isBound⟩ := Nat.exists_eq_succ_of_ne_zero (Nat.ne_zero_of_lt enough)
  rw [isBound] at enough
  have inside : SettlesInside True cat cat false names h.depth
      (canonicalWithin cat bound ctx.nested) :=
    fun m simple named below => simple.settles (.refl cat) named rfl (by omega)
  have agree : AgreeBelow cat names h.depth (canonicalWithin cat bound ctx.nested)
      (canonical cat ctx) :=
    fun m simple named below => simple.canonicalWithin_congr named rfl notVariadic (by omega)
      (depth_lt_nestingBound ctx m)
  rw [canonical, isBound, simple.canonicalWithin_eq notVariadic,
    simple.iterate_congr named inside agree ctx ctx]

/-! ### Contributions to unions -/

/-- A member and all that it contributes. -/
def ContributesOnly (cat : Catalog) (reduce : Hint → Except HintError Reduced) (m x : Hint) :
    Prop :=
  ∃ r, reduce m = .ok r ∧ memberForms cat m r = some [x]

/-- As many canonical members as members: each contributes one, as none contributes nothing. -/
theorem contributesOnly_of_length {flat members : List Hint}
    (found : unionForms cat reduce flat = .ok (some members))
    (nonempty : ∀ m ∈ flat, ∀ r forms, reduce m = .ok r → memberForms cat m r = some forms →
      forms ≠ []) :
    flat.length ≤ members.length ∧
      (members.length = flat.length → flat.Forall₂ (ContributesOnly cat reduce) members) := by
  induction flat generalizing members with
  | nil => cases found; exact ⟨Nat.le_refl _, fun _ => .nil⟩
  | cons m rest ih =>
    obtain ⟨r, mine, more, reduced, contributed, others, rfl⟩ := unionForms_cons_some found
    obtain ⟨enough, each⟩ := ih others fun m member => nonempty m (List.mem_cons_of_mem _ member)
    match mine with
    | [] => exact (nonempty m (by simp) r [] reduced contributed rfl).elim
    | first :: extra =>
      simp only [List.length_cons, List.length_append]
      refine ⟨by omega, fun same => ?_⟩
      obtain rfl : extra = [] := List.length_eq_zero_iff.mp (by omega)
      exact .cons ⟨r, reduced, contributed⟩ (each (by simp only [List.length_nil] at same; omega))

theorem unionForms_of_contributesOnly {flat members : List Hint}
    (each : flat.Forall₂ (ContributesOnly cat reduce) members) :
    unionForms cat reduce flat = .ok (some members) := by
  induction each with
  | nil => rfl
  | cons head _ ih =>
    obtain ⟨r, reduced, contributed⟩ := head
    rw [unionForms_cons, reduced, ih]
    simp only [bind, Except.bind, contributed]
    rfl

/-! ### Stable members -/

theorem isUnion_congr {a b : Hint} (left : a.WellNamed names) (right : b.WellNamed names)
    (equal : a.structEq b = true) : a.isUnion = b.isUnion := by
  cases left.spelledAlike right equal with
  | subscription _ _ origin => cases origin <;> rfl
  | _ => rfl

theorem forall₂_args {a b : Hint} (left : a.WellNamed names) (right : b.WellNamed names)
    (equal : a.structEq b = true) (isUnion : a.isUnion = true) :
    a.args.Forall₂ (fun x y => x.structEq y = true) b.args := by
  cases left.spelledAlike right equal with
  | same h => exact List.forall₂_same.mpr fun x _ => x.structEq_refl
  | subscription _ _ _ inside | union _ _ inside => exact inside
  | _ => cases isUnion

/-- A member of unions that stays as it is. -/
structure Stable (cat : Catalog) (reduce : Hint → Except HintError Reduced) (m : Hint) : Prop where
  notUnion : m.isUnion = false
  stays : ∃ x, ContributesOnly cat reduce m x ∧ x.structEq m = true

theorem joined_of_length {members : List Hint} (several : members.length ≠ 1) :
    h.joined members = h.respelled members := by
  match members with
  | [] | _ :: _ :: _ => rfl
  | [_] => exact (several rfl).elim

theorem structEq_respelled {xs ys : List Hint}
    (equal : xs.Forall₂ (fun x y => x.structEq y = true) ys) (h : Hint) :
    (h.respelled xs).structEq (h.respelled ys) = true := by
  have inside := structEqList_of_forall₂ equal
  unfold respelled
  split <;> simp [typing, structEq, inside]

theorem respelled_respelled (h : Hint) (xs ys : List Hint) :
    (h.respelled xs).respelled ys = h.respelled ys := by
  cases h <;> rfl

theorem forms_of_stable {members : List Hint} (each : ∀ m ∈ members, Stable cat reduce m) :
    ∃ forms, members.Forall₂ (ContributesOnly cat reduce) forms ∧
      forms.Forall₂ (fun x y => x.structEq y = true) members := by
  induction members with
  | nil => exact ⟨[], .nil, .nil⟩
  | cons m rest ih =>
    obtain ⟨forms, contributed, equal⟩ := ih fun m member => each m (by simp [member])
    obtain ⟨x, only, alike⟩ := (each m (by simp)).stays
    exact ⟨x :: forms, .cons only contributed, .cons alike equal⟩

/-- A union of several stable members takes no step. -/
theorem stepUnion_stable {members : List Hint} (nonempty : members ≠ [])
    (several : members.length ≠ 1) (each : ∀ m ∈ members, Stable cat reduce m) (h : Hint) :
    (h.respelled members).stepUnion cat reduce = .ok Option.none := by
  obtain ⟨_, args⟩ := isUnion_respelled h members
  have flat : flattenAll (h.respelled members).args = members := by
    rw [args, flattenAll_of_notUnion fun m member => (each m member).notUnion]
  obtain ⟨forms, contributed, equal⟩ := forms_of_stable each
  rw [stepUnion_eq (by rwa [flat]), flat, unionForms_of_contributesOnly contributed]
  show Except.ok (if _ then _ else _) = _
  rw [joined_of_length (by rwa [equal.length_eq]), respelled_respelled,
    if_pos (structEq_respelled equal h)]

/-! ### Members of canonical unions -/

theorem Simple.rests (simple : h.Simple cat) (named : h.WellNamed names)
    (notVariadic : ctx.position.isVariadic = false) {r : Reduced}
    (reduced : h.canonical cat ctx = .ok r) :
    ∃ found, r.hint.step cat ctx (canonical cat ctx) = .ok ⟨Option.none, found⟩ := by
  rw [simple.canonical_eq named notVariadic] at reduced
  rcases taken : iterate cat ctx (canonical cat ctx) maxSteps h [] with e | _ | last <;>
    rw [taken] at reduced <;> cases reduced
  exact rests_iterate taken

theorem Simple.simplified (simple : h.Simple cat) (named : h.WellNamed names)
    (notVariadic : ctx.position.isVariadic = false) {r : Reduced}
    (reduced : h.canonical cat ctx = .ok r) :
    Simplified cat cat tower names h r ∧ r.hint.isSettled = true := by
  have settles : Settles True cat cat tower names h (h.canonical cat ctx) :=
    simple.settles (.refl cat) named notVariadic (depth_lt_nestingBound ctx h)
  rw [reduced] at settles
  exact settles

theorem Simple.canonical_settled (simple : h.Simple cat) (named : h.WellNamed names)
    (notVariadic : ctx.position.isVariadic = false) (notUnion : h.isUnion = false)
    (settled : h.isSettled = true) : h.canonical cat ctx = .ok ⟨h, []⟩ := by
  obtain ⟨s, stepped, moves⟩ : ∃ s, _ ∧ Moves cat cat false names h s := simple.moves named notUnion
  obtain ⟨steps, limit⟩ := exists_maxSteps
  rw [simple.canonical_eq named notVariadic, limit, iterate_succ, stepped]
  cases moves with
  | stays => rfl
  | becomes unsettled => rw [settled] at unsettled; cases unsettled

theorem exists_partner {xs ys : List Hint} {R S : Hint → Hint → Prop} (forth : xs.Forall₂ R ys)
    (back : ys.Forall₂ S xs) {x : Hint} (member : x ∈ xs) : ∃ y ∈ ys, R x y ∧ S y x := by
  induction forth with
  | nil => cases member
  | @cons first y rest others head tail ih =>
    cases back with
    | cons turned back =>
      rcases List.mem_cons.mp member with rfl | inRest
      · exact ⟨y, by simp, head, turned⟩
      · obtain ⟨y, inOthers, both⟩ := ih back inRest
        exact ⟨y, List.mem_cons_of_mem _ inOthers, both⟩

/-- A union that takes no step has several members, and they are stable, if what the members
contribute is. -/
theorem stable_of_rests (named : h.WellNamed names) (isUnion : h.isUnion = true)
    {found : List Validator} (rests : h.step cat ctx reduce = .ok ⟨Option.none, found⟩)
    (inside : ∀ m ∈ flattenAll h.args, ∀ r forms, reduce m = .ok r →
      memberForms cat m r = some forms →
        forms ≠ [] ∧ ∀ x ∈ forms, x.WellNamed names ∧ Stable cat reduce x) :
    2 ≤ h.args.length ∧ ∀ a ∈ h.args, Stable cat reduce a := by
  have occupied : flattenAll h.args ≠ [] := fun empty => by
    rw [step_union ctx isUnion, stepUnion, empty] at rests
    cases rests
  rw [step_union ctx isUnion, stepUnion_eq occupied] at rests
  rcases forms : unionForms cat reduce (flattenAll h.args) with e | _ | members <;>
    rw [forms] at rests
  · cases rests
  · cases rests
  have equal : (h.joined members).structEq h = true := by
    by_contra different
    simp [bind, Except.bind, pure, Except.pure, different] at rests
  have each : ∀ x ∈ members, x.WellNamed names ∧ Stable cat reduce x := fun x member => by
    obtain ⟨m, inFlat, r, mine, reduced, contributed, isMine⟩ := contributes_of_mem forms member
    exact (inside m inFlat r mine reduced contributed).2 x isMine
  have several : members.length ≠ 1 := fun one => by
    obtain ⟨only, rfl⟩ := List.length_eq_one_iff.mp one
    have isUnion' := isUnion_congr (each only (by simp)).1 named equal
    rw [(each only (by simp)).2.notUnion, isUnion] at isUnion'
    cases isUnion'
  rw [joined_of_length several] at equal
  obtain ⟨respelled, args⟩ := isUnion_respelled h members
  have alike := forall₂_args (wellNamed_respelled (fun x member => (each x member).1) h) named equal
    respelled
  rw [args] at alike
  have notUnion : ∀ a ∈ h.args, a.isUnion = false := fun a member => by
    obtain ⟨x, isMember, _, equal⟩ := exists_partner alike.flip alike member
    have inParts : a ∈ h.parts := parts_union isUnion ▸ member
    rw [← isUnion_congr (each x isMember).1 (named.part a inParts) equal]
    exact (each x isMember).2.notUnion
  rw [flattenAll_of_notUnion notUnion] at forms inside occupied
  obtain ⟨_, contributed⟩ := contributesOnly_of_length forms fun m member r mine reduced mines =>
    (inside m member r mine reduced mines).1
  refine ⟨?_, fun a member => ?_⟩
  · have positive := List.length_pos_iff.mpr occupied
    have sameLength := alike.length_eq
    omega
  · obtain ⟨x, _, only, equal⟩ := exists_partner (contributed alike.length_eq) alike member
    exact ⟨notUnion a member, x, only, equal⟩

theorem Simple.stable_of_rests (simple : h.Simple cat) (named : h.WellNamed names)
    (isUnion : h.isUnion = true) (notVariadic : ctx.position.isVariadic = false)
    {found : List Validator}
    (rests : h.step cat ctx (canonical cat ctx) = .ok ⟨Option.none, found⟩)
    (inside : ∀ m x : Hint, m.Simple cat → m.WellNamed names → m.isUnion = false →
      m.depth < h.depth → Contributes cat (canonical cat ctx) m x →
        Stable cat (canonical cat ctx) x) :
    ∀ a ∈ h.args, Stable cat (canonical cat ctx) a := by
  have flat : MembersOf cat cat false names _ _ _ := simple.flat named isUnion
  have smaller : h.depth - 1 < h.depth := Nat.pred_lt (Nat.ne_of_gt h.depth_pos)
  refine (Hint.stable_of_rests named isUnion rests fun m member r forms reduced contributed => ?_).2
  have simplified : Simplified cat cat false names m r ∧ _ :=
    (flat.simple m member).simplified (flat.named m member) notVariadic reduced
  have covers := covers_memberForms (.refl cat) (flat.simple m member) (flat.named m member)
    simplified.1
  rw [contributed] at covers
  have cover : MembersOf cat cat false names _ _ forms := covers
  refine ⟨cover.nonempty, fun x isForm => ⟨cover.named x isForm, ?_⟩⟩
  exact inside m x (flat.simple m member) (flat.named m member) (mem_flattenAll member)
    (Nat.lt_of_le_of_lt (flat.depth m member) smaller) ⟨r, forms, reduced, contributed, isForm⟩

/-- What a simple hint contributes to a union is stable. -/
theorem Simple.stable (simple : h.Simple cat) (named : h.WellNamed names)
    (notUnion : h.isUnion = false) (notVariadic : ctx.position.isVariadic = false) {x : Hint}
    (contributes : Contributes cat (canonical cat ctx) h x) : Stable cat (canonical cat ctx) x := by
  induction size : h.depth using Nat.strongRecOn generalizing h x with
  | ind n ih =>
    subst size
    obtain ⟨r, forms, reduced, contributed, member⟩ := contributes
    obtain ⟨simplified, settled⟩ : Simplified cat cat false names h r ∧ _ :=
      simple.simplified named notVariadic reduced
    have whole := contributed
    unfold memberForms at contributed
    split at contributed
    case isTrue =>
      cases contributed
      obtain rfl := List.mem_singleton.mp member
      exact ⟨notUnion, x, ⟨r, reduced, whole⟩, x.structEq_refl⟩
    case isFalse =>
      split at contributed
      case isTrue => cases contributed
      case isFalse notIgnorable =>
        split at contributed
        case isTrue isUnion =>
          cases contributed
          obtain ⟨found, rests⟩ := simple.rests named notVariadic reduced
          refine simplified.simple.stable_of_rests simplified.named isUnion notVariadic rests
            (fun m x simple named notUnion below contributes => ?_) x member
          exact ih m.depth (Nat.lt_of_lt_of_le below simplified.depth) simple named notUnion
            contributes rfl
        case isFalse isOther =>
          cases contributed
          obtain rfl := List.mem_singleton.mp member
          have isOther : r.hint.isUnion = false := by simpa using isOther
          have canonical : r.hint.canonical cat ctx = .ok ⟨r.hint, []⟩ :=
            simplified.simple.canonical_settled simplified.named notVariadic isOther settled
          refine ⟨isOther, r.hint, ⟨⟨r.hint, []⟩, canonical, ?_⟩, r.hint.structEq_refl⟩
          simp [memberForms, notIgnorable, isOther]

/-! ### The number of steps -/

/-- Two steps for each level are enough, the last of them to see that nothing is left to do. -/
theorem Simple.iterate_ends (simple : h.Simple cat) (named : h.WellNamed names)
    (notVariadic : ctx.position.isVariadic = false) {steps : Nat}
    (enough : 2 * h.depth ≤ steps + if h.isSettled then 1 else 0) (validators : List Validator) :
    iterate cat ctx (canonical cat ctx) steps h validators ≠ .ok Option.none := by
  induction steps generalizing h validators with
  | zero =>
    have := h.depth_pos
    split at enough <;> omega
  | succ steps ih =>
    rw [iterate_succ]
    cases isUnion : h.isUnion with
    | false =>
      obtain ⟨s, stepped, moves⟩ : ∃ s, _ ∧ Moves cat cat false names h s :=
        simple.moves named isUnion
      rw [stepped]
      cases moves with
      | stays => exact fun ended => by cases ended
      | becomes unsettled simplified progress =>
        refine ih simplified.simple simplified.named ?_ _
        have := simplified.depth
        rw [unsettled] at enough
        split <;> simp_all <;> omega
    | true =>
      have flat : MembersOf cat cat false names _ _ _ := simple.flat named isUnion
      have covers : Within True (Covers cat cat false names (h.depth - 1) (h.admits cat false))
          (unionForms cat (canonical cat ctx) (flattenAll h.args)) :=
        covers_unionForms (.refl cat) flat fun m member => (flat.simple m member).settles
          (.refl cat) (flat.named m member) notVariadic (depth_lt_nestingBound ctx m)
      obtain ⟨m, rest, isFlat⟩ := List.exists_cons_of_ne_nil flat.nonempty
      have deep : 2 ≤ h.depth := by
        have := flat.depth m (by simp [isFlat])
        have := m.depth_pos
        omega
      have enough : 2 * h.depth ≤ steps + 2 := by split at enough <;> omega
      rw [step_union ctx isUnion, stepUnion_eq flat.nonempty]
      rcases forms : unionForms cat (canonical cat ctx) (flattenAll h.args) with e | _ | members <;>
        rw [forms] at covers
      · exact fun ended => by cases ended
      · refine ih simple_object (.ofClass _) ?_ _
        simp only [object, depth]
        omega
      · have cover : MembersOf cat cat false names _ _ members := covers
        by_cases equal : (h.joined members).structEq h = true
        · simp only [bind, Except.bind, pure, Except.pure, if_pos equal]
          exact fun ended => by cases ended
        simp only [bind, Except.bind, pure, Except.pure, if_neg equal]
        by_cases several : members.length = 1
        · obtain ⟨only, rfl⟩ := List.length_eq_one_iff.mp several
          have := cover.depth only (by simp)
          refine ih (cover.simple only (by simp)) (cover.named only (by simp)) ?_ _
          split <;> omega
        · -- what is left rests: its members are stable
          rw [joined_of_length several]
          have each : ∀ x ∈ members, Stable cat (canonical cat ctx) x := fun x member => by
            obtain ⟨m, inFlat, contributes⟩ := contributes_of_mem forms member
            exact (flat.simple m inFlat).stable (flat.named m inFlat) (mem_flattenAll inFlat)
              notVariadic contributes
          obtain ⟨more, rfl⟩ : ∃ more, steps = more + 1 := ⟨steps - 1, by omega⟩
          rw [iterate_succ, step_union ctx (isUnion_respelled h members).1,
            stepUnion_stable cover.nonempty several each]
          exact fun ended => by cases ended

/-- A simple hint has a canonical form that means the same, unless it is very deep. -/
theorem Simple.settles_canonical {world : Catalog} (root : cat.KeepsRoot world)
    (simple : h.Simple cat) (named : h.WellNamed names)
    (notVariadic : ctx.position.isVariadic = false) :
    Settles (maxSteps < 2 * h.depth) cat world tower names h (h.canonical cat ctx) := by
  induction size : h.depth using Nat.strongRecOn generalizing h with
  | ind n ih =>
    subst size
    have inside : SettlesInside (maxSteps < 2 * h.depth) cat world tower names h.depth
        (canonical cat ctx) :=
      fun m simple named below => (ih m.depth below simple named rfl).mono (by omega)
    have settles := settles_iterate root ctx inside maxSteps (.refl simple named)
    rw [simple.canonical_eq named notVariadic]
    rcases taken : iterate cat ctx (canonical cat ctx) maxSteps h [] with e | _ | r <;>
      rw [taken] at settles
    · exact settles
    · refine ⟨rfl, Nat.lt_of_not_le fun small => ?_⟩
      exact simple.iterate_ends named notVariadic (Nat.le_add_right_of_le small) [] taken
    · exact settles r rfl

end Hint
end HintCheck
