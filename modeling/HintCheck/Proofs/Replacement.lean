import HintCheck.Proofs.Correspondence
import HintCheck.Proofs.Meaning

/-!
The meaning of rendered hints. Where hints are classified alike they mean the same test, and so do
hints that render each other; what is left out of a union because it equals the member before it
makes no difference to whether some member accepts. Inside a generic class the parameters are bound
on both sides, to arguments of which the ones render the others.
-/
namespace HintCheck

open Hint

/-! ### Repeated tests -/

/-- A test that is made again decides nothing new. -/
theorem Test.anyOf_repeated {ε : Type} (t : Test (Except ε)) (rest : List (Test (Except ε))) :
    Test.anyOf (t :: t :: rest) = Test.anyOf (t :: rest) := by
  funext v
  simp only [Test.anyOf]
  rcases t v with e | _ | _ <;> rfl

theorem Test.anyOf_cons_congr {m : Type → Type} [Monad m] (t : Test m) {xs ys : List (Test m)}
    (same : Test.anyOf xs = Test.anyOf ys) : Test.anyOf (t :: xs) = Test.anyOf (t :: ys) := by
  funext v
  simp only [Test.anyOf, same]

/-- The builder knows the classes and the extensions of the setting. -/
structure Reading.Fits {m : Type → Type} (r : Reading m) (S : Mirror) : Prop where
  catalog : r.catalog = S.catalog
  substitutes : r.substitutes = S.substitutes

/-- Which attributes mention a type parameter does not depend on what it is bound to. -/
theorem Builder.boundFields_congr {cat : Catalog} {k : ClassId} {pairs others : List (Hint × Hint)}
    (firsts : pairs.map Prod.fst = others.map Prod.fst) :
    boundFields cat k pairs = boundFields cat k others := by
  have same (v : Hint) : (pairs.any fun pair => pair.1.isSame v) =
      others.any fun pair => pair.1.isSame v := by
    have ofFirsts (l : List (Hint × Hint)) : (l.any fun pair => pair.1.isSame v) =
        (l.map Prod.fst).any fun p => p.isSame v := by
      rw [List.any_map]
      rfl
    rw [ofFirsts, ofFirsts, firsts]
  simp only [boundFields, same]

namespace Reading

variable {m : Type → Type} [Monad m] {excused : HintError → Prop} {r : Reading m}
  {c d : Classified} {sense other : Sense m} {bound plain : Context}

/-! ### Containers -/

omit [Monad m] in
theorem same_originClasses (origins : c.origin = d.origin) :
    Reproduces excused Eq (r.originClasses c) (r.originClasses d) := by
  unfold originClasses
  rw [origins]
  split
  · exact .ofOk rfl
  · exact .ofError _

section Containers
variable (origins : c.origin = d.origin)
  (each : c.children.Forall₂ (fun a b => Reproduces excused Eq (r.inside sense bound a)
    (r.inside other plain b)) d.children)
include origins each

theorem same_tuple : Reproduces excused Eq (r.tuple sense bound c) (r.tuple other plain d) := by
  refine (same_originClasses origins).bind fun classes _ same => ?_
  subst same
  refine (Reproduces.mapM_eq each).bind fun items _ same => ?_
  subst same
  rw [each.length_eq]
  exact .ofOk rfl

theorem same_container (select : Value → List Value) :
    Reproduces excused Eq (r.container sense bound c select)
      (r.container other plain d select) := by
  refine (same_originClasses origins).bind fun classes _ same => ?_
  subst same
  revert each
  generalize c.children = hs
  generalize d.children = xs
  intro each
  cases each with
  | nil => exact .ofOk rfl
  | cons head _ =>
    refine head.bind fun item _ same => ?_
    subst same
    exact .ofOk rfl

theorem same_mapping :
    Reproduces excused Eq (r.mapping sense bound c) (r.mapping other plain d) := by
  refine (same_originClasses origins).bind fun classes _ same => ?_
  subst same
  revert each
  generalize c.children = hs
  generalize d.children = xs
  intro each
  rcases each with _ | ⟨first, _ | ⟨second, _ | _⟩⟩
  · exact .ofOk rfl
  · exact .ofOk rfl
  · refine first.bind fun key _ same => ?_
    subst same
    refine second.bind fun value _ same => ?_
    subst same
    exact .ofOk rfl
  · exact .ofOk rfl

end Containers

/-- A class whose body means the same on both sides. -/
theorem same_genericClass {k : ClassId} {pairs others : List (Hint × Hint)}
    (firsts : pairs.map Prod.fst = others.map Prod.fst)
    (body : ∀ a ∈ r.catalog.body k pairs, Reproduces excused Eq
      (r.inside sense (bound.bindAll pairs) a) (r.inside other (plain.bindAll others) a)) :
    Reproduces excused Eq
      (r.genericClass sense bound k pairs (r.catalog.get k).genericBases)
      (r.genericClass other plain k others (r.catalog.get k).genericBases) := by
  have bases : (r.catalog.get k).genericBases.Forall₂ (fun a b => Reproduces excused Eq
      (r.inside sense (bound.bindAll pairs) a) (r.inside other (plain.bindAll others) b))
      (r.catalog.get k).genericBases :=
    List.forall₂_same.mpr fun a member => body a (List.mem_append_right _ member)
  have fields : (Builder.boundFields r.catalog k pairs).Forall₂ (fun e f => Reproduces excused Eq
      (r.field sense (bound.bindAll pairs) e) (r.field other (plain.bindAll others) f))
      (Builder.boundFields r.catalog k pairs) := by
    refine List.forall₂_same.mpr fun e member => ?_
    refine (body e.2 (List.mem_append_left _ (List.mem_map_of_mem member))).bind
      fun test _ same => ?_
    subst same
    exact .ofOk rfl
  unfold genericClass
  rw [← Builder.boundFields_congr firsts]
  refine (Reproduces.mapM_eq bases).bind fun tests _ same => ?_
  subst same
  refine (Reproduces.mapM_eq fields).bind fun tests _ same => ?_
  subst same
  exact .ofOk rfl

end Reading

namespace Mirror

variable {S : Mirror} {given : Hint → Option Hint} {bound plain : Context} {h x : Hint}
  {excused : HintError → Prop} {ε : Type} {r : Reading (Except ε)} {c d : Classified}
  {sense other : Sense (Except ε)}

variable (S excused) in
/-- Hints that are classified alike have the same meaning. -/
def SensesAlike (sense other : Sense (Except ε)) : Prop :=
  ∀ ⦃given : Hint → Option Hint⦄ ⦃bound plain : Context⦄ ⦃c d : Classified⦄,
    S.Paired given bound plain → S.ClassifiedAlike given bound plain c d →
    Reproduces excused Eq (sense bound.nested c) (other plain.nested d)

/-! ### Hints inside -/

theorem same_reference (paired : S.Paired given bound plain) (heads : SameHead h x) :
    Reproduces excused Eq (r.reference bound.nested h) (r.reference plain.nested x) := by
  have names (name : String) : Reference.ofName name bound.nested =
      Reference.ofName name plain.nested := by
    have counterparts := S.counterparts paired
    have module : bound.nested.module = plain.nested.module := counterparts.module
    have classes : bound.nested.classes = plain.nested.classes := counterparts.classes
    have locals : bound.nested.locals = plain.nested.locals := counterparts.locals
    simp only [Reference.ofName, module, classes, locals]
  have same : Reference.ofHint? bound.nested h = Reference.ofHint? plain.nested x := by
    cases heads with
    | quoted | forwardRef => simp only [Reference.ofHint?, names]
    | _ => rfl
  unfold Reading.reference
  rw [same]
  split
  · exact .ofError _
  · exact .ofOk rfl

section Inside
variable (fits : r.Fits S) (excuses : Excuses excused)
include fits excuses

theorem alike_classify (paired : S.Paired given bound plain)
    (twins : S.Twins given bound plain h x) :
    Reproduces excused (S.ClassifiedAlike given bound plain)
      (h.classify r.catalog r.substitutes bound.nested)
      (x.classify r.catalog r.substitutes plain.nested) := by
  rw [fits.catalog, fits.substitutes]
  exact alike_classifyWithin paired excuses maxSubstitutions maxSubstitutions twins

variable (senses : S.SensesAlike excused sense other) (paired : S.Paired given bound plain)
include senses paired

theorem same_inside (twins : S.Twins given bound plain h x) :
    Reproduces excused Eq (r.inside sense bound h) (r.inside other plain x) :=
  (alike_classify fits excuses paired twins).bind fun _ _ alike => senses paired alike

theorem same_each {hs xs : List Hint} (each : hs.Forall₂ (S.Twins given bound plain) xs) :
    hs.Forall₂ (fun a b => Reproduces excused Eq (r.inside sense bound a) (r.inside other plain b))
      xs :=
  each.imp fun _ _ twins => same_inside fits excuses senses paired twins

/-- The members of a union mean the same. On either side a member may be left out because it equals
the one before; the test before is repeated then on the other side, if it is made there. -/
theorem same_members {hs xs : List Hint} (each : hs.Forall₂ (S.Twins given bound plain) xs)
    {p q : Hint} {t : Test (Except ε)} (twins : S.Twins given bound plain p q)
    (means : r.inside sense bound p = .ok (some t))
    (meansToo : r.inside other plain q = .ok (some t)) :
    Reproduces excused (Option.Rel fun l k => Test.anyOf (t :: l) = Test.anyOf (t :: k))
      (Reading.members (r.inside sense bound) (some p) hs)
      (Reading.members (r.inside other plain) (some q) xs) := by
  induction each generalizing p q t with
  | nil => exact .ofOk (.some rfl)
  | @cons h x hs xs head rest ih =>
    rw [Reading.members, Reading.members, Option.any_some, Option.any_some]
    cases equal : p.structEq h with
    | true =>
      cases equalToo : q.structEq x with
      | true => exact ih twins means meansToo
      | false =>
        have same := matches_of_structEq S.distinct equal twins.namedToo head.namedToo
          (S.holds twins.ready) (S.holds head.ready)
        have again : S.Twins given bound plain p x :=
          ⟨twins.ready, head.renders.matches_left same, head.named⟩
        have first := same_inside fits excuses senses paired again
        rcases meansHead : r.inside other plain x with e | b
        · exact .ofError e
        obtain rfl : some t = b := by
          have ends := first b meansHead
          rw [means] at ends
          exact ends
        refine (ih again means meansHead).map_right fun l k related => ?_
        cases related with
        | none => exact .none
        | some related => exact .some (related.trans (Test.anyOf_repeated t _).symm)
    | false =>
      cases equalToo : q.structEq x with
      | true =>
        have same := matches_of_structEq S.distinct equalToo twins.named head.named
          (twins.holdsToo paired) (head.holdsToo paired)
        have again : S.Twins given bound plain h q :=
          ⟨head.ready, head.renders.matches_right same.symm, twins.named⟩
        have first := same_inside fits excuses senses paired again _ meansToo
        rcases meansHead : r.inside sense bound h with e | a <;> rw [meansHead] at first
        · exact .ofExcused first
        obtain rfl : a = some t := first
        refine (ih again meansHead meansToo).map_left fun l k related => ?_
        cases related with
        | none => exact .none
        | some related => exact .some ((Test.anyOf_repeated t _).trans related)
      | false =>
        rcases meansHead : r.inside other plain x with e | b
        · exact .ofError e
        have first := same_inside fits excuses senses paired head b meansHead
        rcases meansOther : r.inside sense bound h with e | a <;> rw [meansOther] at first
        · exact .ofExcused first
        obtain rfl : a = b := first
        cases a with
        | none => exact .ofOk .none
        | some u =>
          refine (ih head meansOther meansHead).bind fun l k related => ?_
          cases related with
          | none => exact .ofOk .none
          | some related => exact .ofOk (.some (Test.anyOf_cons_congr t related))

theorem same_union {hs xs : List Hint} (each : hs.Forall₂ (S.Twins given bound plain) xs) :
    Reproduces excused Eq
      (do return (← Reading.members (r.inside sense bound) none hs).map Test.anyOf)
      (do return (← Reading.members (r.inside other plain) none xs).map Test.anyOf) := by
  have whole : Reproduces excused (Option.Rel fun l k => Test.anyOf l = Test.anyOf k)
      (Reading.members (r.inside sense bound) none hs)
      (Reading.members (r.inside other plain) none xs) := by
    cases each with
    | nil => exact .ofOk (.some rfl)
    | @cons h x hs xs head rest =>
      rw [Reading.members, Reading.members]
      rcases meansHead : r.inside other plain x with e | b
      · exact .ofError e
      have first := same_inside fits excuses senses paired head b meansHead
      rcases meansOther : r.inside sense bound h with e | a <;> rw [meansOther] at first
      · exact .ofExcused first
      obtain rfl : a = b := first
      cases a with
      | none => exact .ofOk .none
      | some t =>
        refine (same_members fits excuses senses paired rest head meansOther meansHead).bind
          fun l k related => ?_
        cases related with
        | none => exact .ofOk .none
        | some related => exact .ofOk (.some related)
  refine whole.bind fun l k related => ?_
  cases related with
  | none => exact .ofOk rfl
  | some related => exact .ofOk (congrArg some related)

/-! ### Classes as values -/

omit senses

theorem same_subclassTests (twins : S.Twins given bound plain h x) (room few : Nat) :
    Reproduces excused Eq (r.subclassTests bound.nested room h)
      (r.subclassTests plain.nested few x) := by
  induction room generalizing few h x with
  | zero => exact .ofExcused (excuses.endless _)
  | succ room ih =>
    cases few with
    | zero => exact .ofError _
    | succ few =>
      refine (alike_classify fits excuses paired twins).bind fun c d alike => ?_
      unfold Reading.subclassTestsOf
      rw [alike.sign, alike.origin]
      cases alike with
      | annotated inner =>
        dsimp only
        split <;> exact .ofOk rfl
      | plain _ _ twins heads inside =>
        split
        · exact .ofOk rfl
        · refine (Reproduces.mapM inside fun _ _ twins => ih twins few).bind fun tests _ same => ?_
          rw [List.forall₂_eq_eq_eq] at same
          subst same
          exact .ofOk rfl
        · refine (same_reference paired heads).bind fun ref _ same => ?_
          subst same
          exact .ofOk rfl
        · split <;> exact .ofOk rfl

theorem same_classValue (each : c.children.Forall₂ (S.Twins given bound plain) d.children) :
    Reproduces excused Eq (r.classValue bound.nested c) (r.classValue plain.nested d) := by
  unfold Reading.classValue
  revert each
  generalize c.children = hs
  generalize d.children = xs
  intro each
  cases each with
  | nil => exact .ofOk rfl
  | cons head _ =>
    refine (same_subclassTests fits excuses paired head _ _).bind fun tests _ same => ?_
    subst same
    cases tests <;> exact .ofOk rfl

/-! ### Generic classes -/

variable {pairs others : List (Hint × Hint)} {k : ClassId}
include senses

/-- A class that is given arguments, and their renderings. -/
theorem same_generic_given (twins : S.Twins given bound plain h x) (heads : SameHead h x)
    (origin : h.origin? = some k)
    (length : (S.catalog.get k).typeParams.length = h.args.length) :
    Reproduces excused Eq
      (r.genericClass sense bound k ((S.catalog.get k).typeParams.zip h.args)
        (S.catalog.get k).genericBases)
      (r.genericClass other plain k ((S.catalog.get k).typeParams.zip x.args)
        (S.catalog.get k).genericBases) := by
  have each := (twins.renders.sameHead heads.notVariable.1).2
  have named : ∀ a ∈ x.args, a.WellNamed S.names :=
    fun a member => twins.named.part a (mem_parts_of_mem_args member)
  obtain ⟨inner, pairedInside, body⟩ := S.supplied paired twins.ready origin length each named
  rw [← fits.catalog] at pairedInside body length ⊢
  refine Reading.same_genericClass ?_ fun a member => ?_
  · rw [List.map_fst_zip (Nat.le_of_eq length),
      List.map_fst_zip (Nat.le_of_eq (length.trans each.length_eq))]
  · obtain ⟨ready, renders⟩ := body a member
    exact same_inside fits excuses senses pairedInside ⟨ready, renders, S.named ready⟩

/-- A class that is given no arguments. -/
theorem same_generic_bare (twins : S.Twins given bound plain h x) (isClass : h.class? = some k) :
    Reproduces excused Eq (r.genericClass sense bound k [] (S.catalog.get k).genericBases)
      (r.genericClass other plain k [] (S.catalog.get k).genericBases) := by
  obtain ⟨inner, pairedInside, bases⟩ := S.bare paired twins.ready isClass
  rw [← fits.catalog] at bases ⊢
  refine Reading.same_genericClass rfl fun a member => ?_
  have noFields : Builder.boundFields r.catalog k [] = [] := by simp [Builder.boundFields]
  have isBase : a ∈ (r.catalog.get k).genericBases := by
    simpa [Catalog.body, noFields] using member
  obtain ⟨ready, renders⟩ := bases a isBase
  exact same_inside fits excuses senses pairedInside ⟨ready, renders, S.named ready⟩

/-! ### All hints -/

/-- Hints that are classified alike mean the same, if the hints inside do. -/
theorem same_shape (alike : S.ClassifiedAlike given bound plain c d) :
    Reproduces excused Eq (r.shape sense bound.nested c) (r.shape other plain.nested d) := by
  cases alike with
  | annotated inner =>
    refine (senses paired inner).bind fun child _ same => ?_
    subst same
    exact .ofOk rfl
  | plain sign origins twins heads inside data =>
    have ofOrigin : Reproduces excused Eq (do return some (r.instanceOf (← r.originClasses c)))
        (do return some (r.instanceOf (← r.originClasses d))) := by
      refine (Reading.same_originClasses origins).bind fun classes _ same => ?_
      subst same
      exact .ofOk rfl
    have each := same_each fits excuses senses paired inside
    have tuple := Reading.same_tuple origins each
    have container := Reading.same_container origins each
    have mapping := Reading.same_mapping origins each
    have classValue := same_classValue fits excuses paired inside
    have bare {k : ClassId} := same_generic_bare (k := k) fits excuses senses paired twins
    have supplied {k : ClassId} :=
      same_generic_given (k := k) fits excuses senses paired twins heads
    unfold Reading.shape
    rw [sign]
    revert data
    generalize c.data = first
    generalize d.data = second
    intro data
    cases d.sign.strategy.emit with
    | pass | fail => exact .ofOk rfl
    | isInstance | originOnly => exact ofOrigin
    | union => exact same_union fits excuses senses paired inside
    | literal =>
      cases data with
      | literals => exact .ofOk rfl
      | _ => exact .ofError _
    | validators => cases data <;> exact .ofError _
    | tupleFixed => exact tuple
    | sequence | reiterable => exact container _
    | mapping => exact mapping
    | isSubclass => exact classValue
    | generic =>
      cases data with
      | bare named => exact bare named
      | given origin length => exact supplied origin length
      | _ => exact .ofError _
    | forwardRef =>
      refine (same_reference paired heads).bind fun ref _ same => ?_
      subst same
      exact .ofOk rfl
    | typedDict =>
      cases data with
      | typedDict => exact .ofOk rfl
      | _ => exact .ofError _
    | reduced => exact .ofError _

omit senses paired in
/-- Hints that are classified alike mean the same, with whatever room. -/
theorem same_meaningWithin (room more : Nat) :
    S.SensesAlike excused (r.meaningWithin room) (r.meaningWithin more) := by
  induction room generalizing more with
  | zero => exact fun _ _ _ _ _ _ _ => .ofExcused (excuses.nesting _ _)
  | succ room ih =>
    intro given bound plain c d paired alike
    cases more with
    | zero => exact .ofError _
    | succ more => exact same_shape fits excuses (ih more) paired alike

end Inside
end Mirror
end HintCheck
