import HintCheck.Proofs.Comparison
import HintCheck.Proofs.Remembering

/-!
A weaker configuration never creates a violation. Where fewer items are tested and classes are taken
more widely, a check does not reject what the check that tests every item accepts: the two tests are
compared node by node, and what a sample tests is among what was tested before. A reference may
still fail to be found, since a union asks its members in turn and a test that is passed by a sample
goes on to the tests after it; without references the value is accepted again.
-/
namespace HintCheck

/-! ### Verdicts -/

section Verdicts
variable {ε : Type}

/-- What the first verdict accepts the second does not reject. -/
def Lenient (strict loose : Except ε Bool) : Prop :=
  strict = .ok true → loose ≠ .ok false

theorem Lenient.refl (x : Except ε Bool) : Lenient x x := by
  rintro rfl
  nofun

theorem lenient_pure {a b : Bool} (implies : a = true → b = true) :
    Lenient (pure a : Except ε Bool) (pure b) := by
  intro accepted rejected
  cases accepted
  rw [implies rfl] at rejected
  cases rejected

namespace Check

theorem both_eq_true {a : Except ε Bool} {b : Unit → Except ε Bool} :
    both a b = .ok true ↔ a = .ok true ∧ b () = .ok true := by
  rcases a with e | _ | _ <;> simp [both, bind, Except.bind, pure, Except.pure]

theorem both_eq_false {a : Except ε Bool} {b : Unit → Except ε Bool} :
    both a b = .ok false ↔ a = .ok false ∨ a = .ok true ∧ b () = .ok false := by
  rcases a with e | _ | _ <;> simp [both, bind, Except.bind, pure, Except.pure]

theorem allOf_eq_true {α : Type} {test : α → Except ε Bool} {items : List α} :
    allOf test items = .ok true ↔ ∀ a ∈ items, test a = .ok true := by
  induction items with
  | nil => simp [allOf, pure, Except.pure]
  | cons a rest ih => rw [allOf, both_eq_true, ih, List.forall_mem_cons]

theorem allOf_eq_false {α : Type} {test : α → Except ε Bool} {items : List α}
    (rejected : allOf test items = .ok false) : ∃ a ∈ items, test a = .ok false := by
  induction items with
  | nil => cases rejected
  | cons a rest ih =>
    rcases both_eq_false.mp rejected with here | ⟨_, later⟩
    · exact ⟨a, by simp, here⟩
    · obtain ⟨b, member, rejected⟩ := ih later
      exact ⟨b, List.mem_cons_of_mem _ member, rejected⟩

theorem lenient_both {a a' : Except ε Bool} {b b' : Unit → Except ε Bool} (first : Lenient a a')
    (second : Lenient (b ()) (b' ())) : Lenient (both a b) (both a' b') := by
  intro accepted rejected
  obtain ⟨acceptedFirst, acceptedSecond⟩ := both_eq_true.mp accepted
  rcases both_eq_false.mp rejected with here | ⟨_, later⟩
  · exact first acceptedFirst here
  · exact second acceptedSecond later

/-- Fewer items are tested, each more leniently. -/
theorem lenient_allOf {α : Type} {test other : α → Except ε Bool} {items fewer : List α}
    (each : ∀ a ∈ fewer, Lenient (test a) (other a)) (among : ∀ a ∈ fewer, a ∈ items) :
    Lenient (allOf test items) (allOf other fewer) := by
  intro accepted rejected
  obtain ⟨a, member, rejected⟩ := allOf_eq_false rejected
  exact each a member (allOf_eq_true.mp accepted a (among a member)) rejected

end Check

theorem compatible_lenient : Compatible (Lenient (ε := ε)) where
  refl := .refl
  both := Check.lenient_both
  either := by
    intro a a' b b' first second accepted rejected
    rcases a with e | _ | _
    · cases accepted
    · rcases a' with e | _ | _
      · cases rejected
      · exact second accepted rejected
      · cases rejected
    · rcases a' with e | _ | _
      · cases rejected
      · exact first rfl rfl
      · cases rejected

/-- Fewer items are tested behind a more lenient verdict. -/
theorem selects_fewer {α : Type} {a b : Bool} {items fewer : List α}
    (implies : a = true → b = true) (among : ∀ x ∈ fewer, x ∈ items) :
    Selects (Lenient (ε := ε)) a b items fewer :=
  fun _ _ each => Check.lenient_both (lenient_pure implies) (Check.lenient_allOf each among)

end Verdicts

/-! ### Readers -/

theorem Builder.widened_mono {strict loose : Config}
    (tower : strict.tower = true → loose.tower = true) (c : ClassId) :
    ∀ k ∈ widened strict c, k ∈ widened loose c := by
  cases wide : strict.tower with
  | true => simp [widened, wide, tower wide]
  | false =>
    intro k member
    simp only [widened, wide, Bool.false_and, Bool.false_eq_true, if_false,
      List.mem_singleton] at member
    subst member
    unfold widened
    split
    · next isFloat => simp_all
    split
    · next isComplex => simp_all
    · simp

namespace Reading

variable {ε : Type} {strict loose : Reading (Except ε)}

/-- The readers know the same; the first tests every item, the second perhaps fewer, and the second
takes classes at least as widely. -/
structure Relaxes (strict loose : Reading (Except ε)) : Prop extends Agrees strict loose where
  exhaustive : strict.exhaustive = true
  tower : strict.conf.tower = true → loose.conf.tower = true

theorem Relaxes.isInstance (relaxes : Relaxes strict loose) {k : ClassId} {v : Value}
    (isInstance : strict.world.isInstanceOfAny v (Builder.widened strict.conf k) = true) :
    loose.world.isInstanceOfAny v (Builder.widened loose.conf k) = true := by
  rw [← relaxes.world]
  obtain ⟨c, member, holds⟩ := List.any_eq_true.mp isInstance
  exact List.any_eq_true.mpr ⟨c, Builder.widened_mono relaxes.tower k c member, holds⟩

/-- The test of a hint under a weaker configuration is not failed where the strict one is passed. -/
theorem Relaxes.compares (relaxes : Relaxes strict loose) :
    Compares Lenient (fun _ => True) (fun _ _ => True) strict loose where
  toAgrees := relaxes.toAgrees
  compatible := compatible_lenient
  item _ _ := trivial
  pair _ _ := ⟨trivial, trivial⟩
  attr _ _ := trivial
  inner _ _ := trivial
  part _ _ _ := trivial
  origin _ _ _ := lenient_pure relaxes.isInstance
  sampled _ _ _ _ _ := by
    refine selects_fewer relaxes.isInstance fun x member => ?_
    rw [sampledItems, if_pos relaxes.exhaustive]
    exact loose.mem_items_of_sampled member
  first _ _ _ := by
    refine selects_fewer relaxes.isInstance fun x member => ?_
    rw [firstItems, if_pos relaxes.exhaustive]
    exact loose.mem_items_of_first member
  pairs _ _ _ := by
    refine selects_fewer relaxes.isInstance fun pair member => ?_
    simp only [firstPairs, if_pos relaxes.exhaustive]
    exact loose.mem_pairs_of_first member

end Reading

/-! ### Checks -/

theorem Hint.Made.notReference {h : Hint} (made : h.Made) : h.isReference = false := by
  cases made <;> rfl

namespace Session

variable {s : Session} {ctx : Context} {h : Hint} {scope : Scope} {names : Naming}

/-- The check of a hint that leads to no reference has none, at whatever position it is built. -/
theorem references_buildCheck {place : Context}
    (closed : ∀ y, h.Reaches s.catalog s.substitutes ctx y → y.isReference = false)
    (wellKept : scope.WellKept) (named : h.WellNamed names)
    (grown : s.cache.Grown names s.catalog s.substitutes) {pith : String} {check : Check}
    {after : Scope} (built : ((buildCheck place pith h scope).run.run s).1 = .ok (check, after))
    (bindings : place.bindings = ctx.bindings) (classes : place.classes = ctx.classes) :
    check.references = [] := by
  have hereditary : Hereditary s.catalog s.substitutes
      fun h => ∀ y, h.Reaches s.catalog s.substitutes ctx y → y.isReference = false :=
    hereditary_reaches fun _ made _ => made.notReference
  have keeps : place.Keeps
      fun h => ∀ y, h.Reaches s.catalog s.substitutes ctx y → y.isReference = false := by
    refine ⟨fun holds isVariable bound => ?_, fun holds isSelf innermost => ?_⟩
    · rw [Context.binding?, bindings] at bound
      exact keeps_reaches.binding holds isVariable bound
    · rw [classes] at innermost
      exact keeps_reaches.enclosing holds isSelf innermost
  have bound := buildCheck_closed hereditary keeps closed wellKept named grown built
  refine List.eq_nil_iff_forall_not_mem.mpr fun op member => ?_
  obtain ⟨_, y, leadsNowhere, isReference⟩ := bound op member
  rw [leadsNowhere y .refl] at isReference
  cases isReference

/-- The verdicts of the two checks of a hint, with every reference looked up anew. -/
theorem buildCheck_lenient {later : Session} {conf : Config}
    (exhaustive : ctx.conf.thoroughness = .exhaustive)
    (tower : ctx.conf.tower = true → conf.tower = true)
    (catalog : later.catalog = s.catalog) (substitutes : later.substitutes = s.substitutes)
    (wellKept : scope.WellKept) (named : h.WellNamed names)
    (grown : s.cache.Grown names s.catalog s.substitutes)
    (grownLater : later.cache.Grown names later.catalog later.substitutes) (pith other : String)
    (around : Surroundings) (random random' : UInt32) :
    Building.Alike (fun built loose => ∀ v, Lenient (built.1.accepts (.direct around random) v)
        (loose.1.accepts (.direct around random') v))
      ((buildCheck ctx pith h scope).run.run s).1
      ((buildCheck (ctx.configured conf) other h scope).run.run later).1 := by
  let strict : Reading (Except ReferenceError) :=
    .direct ⟨s.catalog, s.substitutes, ctx.conf⟩ scope around random
  let loose : Reading (Except ReferenceError) :=
    .direct ⟨later.catalog, later.substitutes, conf⟩ scope around random'
  have relaxes : Reading.Relaxes strict loose :=
    ⟨⟨catalog.symm, rfl, substitutes.symm, rfl⟩, beq_iff_eq.mpr exhaustive, tower⟩
  refine (buildCheck_compares relaxes.compares rfl rfl (Oracle.suits_direct _ _ _ _)
    (Oracle.suits_direct _ _ _ _) wellKept named grown grownLater (fun _ _ => trivial) pith
    other).mono ?_
  exact fun _ _ lenient v => lenient v trivial

/-- A check is given under every configuration or under none. Under a weaker one it does not reject
what the check of every item accepts, and it accepts that if the hint leads to no reference. The
classes may be others by the time of the test than when the checks were built. -/
theorem buildCheck_weakened {later : Session} (conf : Config)
    (exhaustive : ctx.conf.thoroughness = .exhaustive)
    (tower : ctx.conf.tower = true → conf.tower = true)
    (catalog : later.catalog = s.catalog) (substitutes : later.substitutes = s.substitutes)
    (wellKept : scope.WellKept) (named : h.WellNamed names)
    (grown : s.cache.Grown names s.catalog s.substitutes)
    (grownLater : later.cache.Grown names later.catalog later.substitutes)
    {pith other : String} {check : Check} {after : Scope}
    (built : ((buildCheck ctx pith h scope).run.run s).1 = .ok (check, after)) :
    ∃ loose left,
      ((buildCheck (ctx.configured conf) other h scope).run.run later).1 = .ok (loose, left) ∧
      ∀ (around : Surroundings) (owner owner' : Nat) (calls calls' : CallState)
        (random random' : UInt32) (v : Value),
        calls.Recalls around owner after → calls'.Recalls around owner' left →
        ((check.accepts (Running.oracle around owner random) v).run.run calls).1 = .ok true →
        ((loose.accepts (Running.oracle around owner' random') v).run.run calls').1 ≠ .ok false ∧
        ((∀ y, h.Reaches s.catalog s.substitutes ctx y → y.isReference = false) →
          ((loose.accepts (Running.oracle around owner' random') v).run.run calls').1 =
            .ok true) := by
  have lenient := buildCheck_lenient exhaustive tower catalog substitutes wellKept named grown
    grownLater pith other
  obtain ⟨⟨loose, left⟩, builtLater, _⟩ := (built ▸ lenient s.around 0 0).ok_left
  refine ⟨loose, left, builtLater, ?_⟩
  intro around owner owner' calls calls' random random' v recalls recallsLater accepted
  have closed := buildCheck_closed (hereditary_true _ _) ctx.keeps_true trivial wellKept named grown
    built
  have closedLater := buildCheck_closed (hereditary_true _ _) (Context.keeps_true _) trivial
    wellKept named grownLater builtLater
  rw [Check.accepts_remembering closed recalls] at accepted
  have notRejected : loose.accepts (.direct around random') v ≠ .ok false := by
    have verdicts := lenient around random random'
    rw [built, builtLater] at verdicts
    exact verdicts v accepted
  rw [Check.accepts_remembering closedLater recallsLater]
  refine ⟨notRejected, fun leadsNowhere => ?_⟩
  rw [← catalog, ← substitutes] at leadsNowhere
  have none := references_buildCheck leadsNowhere wellKept named grownLater builtLater rfl rfl
  obtain ⟨verdict, decided⟩ := Check.accepts_settled (.direct around random') none v
  rw [decided] at notRejected ⊢
  cases verdict with
  | true => rfl
  | false => exact (notRejected rfl).elim

/-- A list of pairs is accepted for the sake of its class alone, since its first pair fits badly. A
sample may take another pair and look for the missing class in vain, but it never rejects. -/
theorem buildCheck_weakened_union :
    let ctx := Context.bare ⟨.exhaustive, false, none⟩
    let pair := Hint.generic none Builtin.tuple [Builtin.int, .forwardRef none "Missing" none]
    let h := Hint.union none [.generic none Builtin.list [pair], Builtin.list]
    let v := Value.list [.tuple [.str "a", .int 0], .tuple [.int 1, .int 0]]
    ∃ loose left,
      ((buildCheck (ctx.configured ⟨.sampled, true, none⟩) "obj" h .empty).run.run start).1 =
        .ok (loose, left) ∧
      ∀ random, ((loose.accepts (Running.oracle start.around 1 random) v).run.run start.calls).1 ≠
        .ok false := by
  intro ctx pair h v
  let names : Naming := ⟨fun _ => Builtin.object, fun _ => .instanceOf []⟩
  have namedRef : (Hint.forwardRef none "Missing" none).WellNamed names :=
    .ofParts rfl (fun _ _ same => by cases same) fun _ member => by cases member
  have namedPair : pair.WellNamed names := .ofArgs (by simpa using ⟨.ofClass _, namedRef⟩)
  have named : h.WellNamed names :=
    .ofParts rfl (fun _ _ same => by simp [h] at same) (by
      simpa [h, Hint.parts] using ⟨.ofArgs (by simpa using namedPair), .ofClass _⟩)
  have new (owner : Nat) (scope : Scope) : start.calls.Recalls start.around owner scope :=
    CallState.recalls_of_new fun _ member => by cases member
  have accepted : (((buildCheck ctx "obj" h .empty).run.run start).1.toOption.any fun made =>
      ((made.1.accepts (Running.oracle start.around 0 0) v).run.run start.calls).1.toOption.any
        id) = true := by decide +kernel
  obtain ⟨⟨check, after⟩, built, accepted⟩ := ok_of_any accepted
  obtain ⟨verdict, isVerdict, accepts⟩ := ok_of_any accepted
  have passed : ((check.accepts (Running.oracle start.around 0 0) v).run.run start.calls).1 =
      .ok true := isVerdict.trans (congrArg Except.ok accepts)
  obtain ⟨loose, left, builtLoose, weakened⟩ := buildCheck_weakened ⟨.sampled, true, none⟩
    (show ctx.conf.thoroughness = .exhaustive from rfl) (by rintro ⟨⟩) rfl rfl
    Scope.wellKept_empty named .empty .empty built
  refine ⟨loose, left, builtLoose, fun random => ?_⟩
  exact (weakened start.around 0 1 start.calls start.calls 0 random v (new _ _) (new _ _) passed).1

end Session
end HintCheck
