import HintCheck.Proofs.Building
import HintCheck.Proofs.Meaning

/-!
A check performs the test that its hint means. The builder and the reader of meanings go through a
hint side by side: they fail with the same errors, and where they succeed the check accepts a value
exactly when the test is passed, with the same look-ups of references on the way.
-/
namespace HintCheck

/-- The scope of the declaration is the same: the classes around it, and the local names. -/
structure Context.SharesScope (ctx base : Context) : Prop where
  classes : ctx.classes = base.classes
  locals : ctx.locals = base.locals

namespace Context

theorem SharesScope.nested {ctx base : Context} (shares : ctx.SharesScope base) :
    ctx.nested.SharesScope base :=
  ⟨shares.classes, shares.locals⟩

theorem SharesScope.bind {ctx base : Context} (shares : ctx.SharesScope base) (typeVar h : Hint) :
    (ctx.bind typeVar h).SharesScope base := by
  unfold Context.bind
  split
  · exact ⟨shares.classes, shares.locals⟩
  · exact shares

theorem SharesScope.bindAll {ctx base : Context} (shares : ctx.SharesScope base)
    (pairs : List (Hint × Hint)) : (ctx.bindAll pairs).SharesScope base := by
  unfold Context.bindAll
  have started := shares.nested
  revert started
  generalize ctx.nested = acc
  induction pairs generalizing acc with
  | nil => exact id
  | cons pair rest ih => exact fun started => ih _ (started.bind pair.1 pair.2)

end Context

variable {m : Type → Type} [Monad m]

/-! ### Tests that are made one after the other -/

theorem Check.acceptsAll_eq (o : Oracle m) (parts : List Check) (v : Value) :
    Check.acceptsAll o parts v = Check.allOf (fun c => c.accepts o v) parts := by
  induction parts with
  | nil => rfl
  | cons c rest ih => simp only [Check.acceptsAll, Check.allOf, Check.both, ih]

section Tests
variable [LawfulMonad m]

theorem Check.both_pure (b : Bool) (f : Unit → m Bool) :
    Check.both (pure b) f = if b then f () else pure false := by
  simp only [Check.both, pure_bind]

theorem Check.both_true (a : m Bool) : Check.both a (fun _ => pure true) = a := by
  simp only [Check.both]
  conv_rhs => rw [← bind_pure a]
  congr 1
  funext b
  cases b <;> rfl

theorem Check.allOf_true {α : Type} (items : List α) :
    Check.allOf (fun _ => (pure true : m Bool)) items = pure true := by
  induction items with
  | nil => rfl
  | cons a rest ih => simp [Check.allOf, Check.both_pure, ih]

theorem Check.allOf_singleton {α : Type} (test : α → m Bool) (a : α) :
    Check.allOf test [a] = test a :=
  Check.both_true (test a)

theorem Test.anyOf_singleton (t : Test m) (v : Value) : Test.anyOf [t] v = t v := by
  simp only [Test.anyOf]
  conv_rhs => rw [← bind_pure (t v)]
  congr 1
  funext b
  cases b <;> rfl

end Tests

theorem Reference.classes_ofHint? {ctx : Context} {h : Hint} {ref : Reference}
    (written : Reference.ofHint? ctx h = some ref) : ref.classes = ctx.classes := by
  cases h <;> simp_all [Reference.ofHint?, Reference.ofName] <;> simp [← written]

theorem Reference.locals_ofHint? {ctx : Context} {h : Hint} {ref : Reference}
    (written : Reference.ofHint? ctx h = some ref) : ref.locals = ctx.locals := by
  cases h <;> simp_all [Reference.ofHint?, Reference.ofName] <;> simp [← written]

/-! ### Checks and tests -/

/-- The oracle answers as the reader knows, for references as the scope knows them. -/
structure Oracle.Suits (o : Oracle m) (r : Reading m) (start : Scope) : Prop where
  catalog : o.catalog = r.world
  random : o.random = r.random
  resolve : ∀ (op : ReferenceOperand) (ref : Reference), op.reference = start.known ref →
    o.resolve op = r.resolve ref

/-- The check performs the test. -/
structure Check.Performs (o : Oracle m) (check : Check) (t : Option (Test m)) : Prop where
  isPass : check.isPass = t.isNone
  accepts : ∀ v, check.accepts o v = t.getD .pass v

/-- The check, unless it is left out, performs the test. -/
structure Check.PerformsOption (o : Oracle m) (check : Option Check) (t : Option (Test m)) :
    Prop where
  isNone : check.isNone = t.isNone
  accepts : ∀ v, Check.acceptsOption o check v = t.getD .pass v

theorem Check.Performs.ofTest {o : Oracle m} {check : Check} {t : Test m}
    (isPass : check.isPass = false) (accepts : ∀ v, check.accepts o v = t v) :
    check.Performs o (some t) :=
  ⟨isPass, accepts⟩

namespace Builder
open Building

variable {r : Reading m} {o : Oracle m} {start : Scope} {base : Context}

/-! ### Operands -/

theorem follows_operand (c : ClassId) :
    Follows (Scope.Kept start base) (operand c) (.ok c) fun op c => op.target = c := by
  unfold operand
  split
  · exact follows_pure rfl
  · exact follows_onScope (fun _ kept => Scope.kept_bindClass kept c) fun _ => follows_pure rfl

theorem follows_literalOperand (v : Value) :
    Follows (Scope.Kept start base) (literalOperand v) (.ok v) fun op v => op.value = v := by
  unfold literalOperand
  split
  · exact follows_onScope (fun _ kept => Scope.kept_bindLiteral kept _) fun _ => follows_pure rfl
  · exact follows_pure rfl

theorem follows_validatorOperand (v : Validator) :
    Follows (Scope.Kept start base) (validatorOperand v) (.ok v) fun op v => op.validator = v :=
  follows_onScope (fun _ kept => Scope.kept_bindValidator kept v) fun _ => follows_pure rfl

omit [Monad m] in
theorem follows_originOperands (c : Classified) :
    Follows (Scope.Kept start base) (r.toBuilder.originOperands c) (r.originClasses c)
      fun ops classes => ops.map ClassOperand.target = classes := by
  unfold originOperands Reading.originClasses
  cases c.origin with
  | none => exact follows_throw _ _
  | some origin => exact follows_mapM_shown follows_operand _

omit [Monad m] in
theorem follows_referenceOperand (suits : o.Suits r start) {ctx : Context}
    (shares : ctx.SharesScope base) (h : Hint) :
    Follows (Scope.Kept start base) (r.toBuilder.referenceOperand ctx h) (r.reference ctx h)
      fun op ref => o.resolve op = r.resolve ref := by
  unfold referenceOperand Reading.reference
  cases written : Reference.ofHint? ctx h with
  | none => exact follows_throw _ _
  | some ref =>
    have sameClasses : ref.classes = base.classes := by
      rw [← shares.classes, Reference.classes_ofHint? written]
    have sameLocals : ref.locals = base.locals := by
      rw [← shares.locals, Reference.locals_ofHint? written]
    intro scope kept
    refine ⟨Scope.kept_bindReference kept sameClasses sameLocals, ?_⟩
    refine suits.resolve _ ref ?_
    exact (Scope.bindReference_known scope ref).trans (kept.known ref sameClasses sameLocals)

/-! ### Unions -/

theorem accepts_about (s : Subject) (c : Check) (v : Value) :
    (c.about s).accepts o v = c.accepts o v := by
  cases c <;> rfl

theorem isPass_about (s : Subject) (c : Check) : (c.about s).isPass = c.isPass := by
  cases c <;> rfl

section Unions
variable [LawfulMonad m]

theorem isInstanceOf_mergeOperands (cat : Catalog) (v : Value) (classes more : List ClassOperand) :
    cat.isInstanceOf v (mergeOperands classes more) =
      (cat.isInstanceOf v classes || cat.isInstanceOf v more) := by
  induction more generalizing classes with
  | nil => simp [mergeOperands, Catalog.isInstanceOf]
  | cons c rest ih =>
    have unfolded : mergeOperands classes (c :: rest) = mergeOperands
        (if classes.any fun known => known.target == c.target then classes else classes ++ [c])
        rest := rfl
    rw [unfolded, ih]
    split
    case isTrue present =>
      obtain ⟨known, member, same⟩ := List.any_eq_true.mp present
      have implied : cat.isInstance v c.target = true → cat.isInstanceOf v classes = true :=
        fun holds => List.any_eq_true.mpr ⟨known, member, by rw [beq_iff_eq.mp same, holds]⟩
      simp only [Catalog.isInstanceOf, List.any_cons] at implied ⊢
      grind
    case isFalse => simp [Catalog.isInstanceOf, Bool.or_assoc]

theorem acceptsAny_append (members more : List Check) (v : Value) :
    Check.acceptsAny o (members ++ more) v = (do
      if ← Check.acceptsAny o members v then pure true else Check.acceptsAny o more v) := by
  induction members with
  | nil => simp [Check.acceptsAny]
  | cons c rest ih =>
    simp only [List.cons_append, Check.acceptsAny, ih, bind_assoc]
    congr 1
    funext accepted
    cases accepted <;> simp

theorem anyOf_append (tests more : List (Test m)) (v : Value) :
    Test.anyOf (tests ++ more) v = (do
      if ← Test.anyOf tests v then pure true else Test.anyOf more v) := by
  induction tests with
  | nil => simp [Test.anyOf]
  | cons t rest ih =>
    simp only [List.cons_append, Test.anyOf, ih, bind_assoc]
    congr 1
    funext accepted
    cases accepted <;> simp

theorem acceptsAny_singleton (c : Check) (v : Value) :
    Check.acceptsAny o [c] v = c.accepts o v := by
  simp only [Check.acceptsAny]
  conv_rhs => rw [← bind_pure (c.accepts o v)]
  congr 1
  funext accepted
  cases accepted <;> rfl

/-- Joining neighbouring tests of classes changes no verdict. -/
theorem acceptsAny_addMember (member : Check) (found : List Check) (v : Value) :
    Check.acceptsAny o (addMember member found).reverse v =
      Check.acceptsAny o (found.reverse ++ [member]) v := by
  unfold addMember
  split
  case h_2 => simp
  case h_1 s classes earlier =>
    split
    case h_2 => simp
    case h_1 t more =>
      simp only [List.reverse_cons, List.append_assoc, acceptsAny_append, acceptsAny_singleton,
        Check.accepts, isInstanceOf_mergeOperands]
      congr 1
      funext accepted
      cases accepted
      · cases o.catalog.isInstanceOf v classes <;> simp
      · simp

theorem isPass_addMember {member : Check} {found : List Check} (notPass : member.isPass = false)
    (noPass : ∀ c ∈ found, c.isPass = false) : ∀ c ∈ addMember member found, c.isPass = false := by
  have both : ∀ c ∈ member :: found, c.isPass = false := List.forall_mem_cons.mpr ⟨notPass, noPass⟩
  unfold addMember
  split
  case h_2 => exact both
  case h_1 s classes earlier =>
    split
    case h_2 => exact both
    case h_1 t more => exact List.forall_mem_cons.mpr ⟨rfl, (List.forall_mem_cons.mp noPass).2⟩

/-- The check of the members found so far performs any of their tests. -/
theorem performs_found {s : Subject} {found : List Check} {tests : List (Test m)}
    (accepts : ∀ v, Check.acceptsAny o found.reverse v = Test.anyOf tests v)
    (noPass : ∀ c ∈ found, c.isPass = false) (member : Hint → Building Check)
    (previous : Option Hint) {keeps : Scope → Prop} :
    Follows keeps (unionFrom s member previous found []) (.ok (some (Test.anyOf tests)))
      (Check.Performs o) := by
  match found with
  | [only] =>
    refine follows_pure (.ofTest ?_ fun v => ?_)
    · rw [isPass_about]
      exact noPass only (by simp)
    · rw [accepts_about, ← accepts, List.reverse_singleton, acceptsAny_singleton]
  | [] => exact follows_pure (.ofTest rfl accepts)
  | _ :: _ :: _ => exact follows_pure (.ofTest rfl accepts)

theorem follows_unionFrom {keeps : Scope → Prop} {s : Subject} {build : Hint → Building Check}
    {member : Hint → Except HintError (Option (Test m))}
    (each : ∀ h, Follows keeps (build h) (member h) (Check.Performs o)) (hints : List Hint)
    (previous : Option Hint) {found : List Check} {tests : List (Test m)}
    (accepts : ∀ v, Check.acceptsAny o found.reverse v = Test.anyOf tests v)
    (noPass : ∀ c ∈ found, c.isPass = false) :
    Follows keeps (unionFrom s build previous found hints)
      ((Reading.members member previous hints) >>= fun more =>
        .ok (more.map fun more => Test.anyOf (tests ++ more)))
      (Check.Performs o) := by
  induction hints generalizing previous found tests with
  | nil =>
    show Follows keeps _ (.ok (some (Test.anyOf (tests ++ [])))) _
    rw [List.append_nil]
    exact performs_found accepts noPass build previous
  | cons h rest ih =>
    rw [unionFrom, Reading.members]
    split
    case isTrue => exact ih previous accepts noPass
    case isFalse =>
      rw [bind_assoc]
      refine follows_bind (each h) fun check t performs => ?_
      have isPass := performs.isPass
      cases t with
      | none =>
        rw [if_pos (by simpa using isPass)]
        exact follows_pure performs
      | some t =>
        have notPass : check.isPass = false := by simpa using isPass
        simp only [notPass, Bool.false_eq_true, if_false]
        have acceptsNext : ∀ v, Check.acceptsAny o (addMember check found).reverse v =
            Test.anyOf (tests ++ [t]) v := by
          intro v
          rw [acceptsAny_addMember, acceptsAny_append, acceptsAny_singleton, anyOf_append,
            Test.anyOf_singleton, accepts, performs.accepts, Option.getD_some]
        have next := ih (some h) acceptsNext (isPass_addMember notPass noPass)
        have reordered : (Reading.members member (some h) rest >>= fun more =>
            (Except.ok (more.map fun more => Test.anyOf ((tests ++ [t]) ++ more)) :
              Except HintError _)) =
            (Reading.members member (some h) rest >>= fun more => pure (more.map (t :: ·))) >>=
              fun more => .ok (more.map fun more => Test.anyOf (tests ++ more)) := by
          rw [bind_assoc]
          congr 1
          funext more
          cases more with
          | none => rfl
          | some more => simp [pure, Except.pure, bind, Except.bind]
        rw [reordered] at next
        exact next

end Unions

/-! ### Hints inside -/

/-- The builder of the checks inside and the reader of the hints inside go side by side. -/
def Agrees (o : Oracle m) (start : Scope) (base : Context) (make : Maker) (sense : Sense m) :
    Prop :=
  ∀ ctx pith c, ctx.SharesScope base →
    Follows (Scope.Kept start base) (make ctx pith c) (sense ctx c) (Check.Performs o)

variable {make : Maker} {sense : Sense m} {ctx : Context}

theorem follows_inside (agrees : Agrees o start base make sense) (shares : ctx.SharesScope base)
    (h : Hint) :
    Follows (Scope.Kept start base) (r.toBuilder.inside make ctx h) (r.inside sense ctx h)
      (Check.Performs o) := by
  refine follows_bind (follows_ofExcept _) ?_
  rintro c _ rfl
  exact follows_onScope (fun _ kept => Scope.kept_freshPith kept) fun pith =>
    agrees ctx.nested pith c shares.nested

theorem follows_onSame (agrees : Agrees o start base make sense) (shares : ctx.SharesScope base)
    (pith : String) (h : Hint) :
    Follows (Scope.Kept start base) (r.toBuilder.onSame make ctx pith h) (r.inside sense ctx h)
      (Check.Performs o) := by
  refine follows_bind (follows_ofExcept _) ?_
  rintro c _ rfl
  exact agrees ctx.nested pith c shares.nested

theorem follows_inside? (agrees : Agrees o start base make sense) (shares : ctx.SharesScope base)
    (h : Hint) :
    Follows (Scope.Kept start base) (r.toBuilder.inside? make ctx h) (r.inside sense ctx h)
      (Check.PerformsOption o) := by
  rw [← bind_pure (r.inside sense ctx h)]
  refine follows_bind (follows_inside agrees shares h) fun check t performs => ?_
  refine follows_pure ⟨?_, fun v => ?_⟩
  · rw [← performs.isPass]
    cases check.isPass <;> rfl
  · rw [← performs.accepts v]
    split
    case isTrue isPass =>
      cases check <;> simp_all [Check.isPass, Check.acceptsOption, Check.accepts]
    case isFalse => rfl

/-! ### Containers -/

theorem isInstanceOf_eq {cat : Catalog} {ops : List ClassOperand} {classes : List ClassId}
    (targets : ops.map ClassOperand.target = classes) (v : Value) :
    cat.isInstanceOf v ops = cat.isInstanceOfAny v classes := by
  rw [← targets, Catalog.isInstanceOf, Catalog.isInstanceOfAny, List.any_map]
  rfl

theorem performs_isInstance (suits : o.Suits r start) {s : Subject} {ops : List ClassOperand}
    {classes : List ClassId} (targets : ops.map ClassOperand.target = classes) :
    (Check.isInstance s ops).Performs o (some (r.instanceOf classes)) :=
  .ofTest rfl fun v => by
    rw [Check.accepts, suits.catalog, isInstanceOf_eq targets, Reading.instanceOf]

section Containers
variable [LawfulMonad m]

theorem acceptsItems_numbered {checks : List (Option Check)} {tests : List (Option (Test m))}
    (performs : List.Forall₂ (Check.PerformsOption o) checks tests) (index : Nat) (v : Value) :
    Check.acceptsItems o (numbered index checks) v = Test.positions v index tests := by
  induction performs generalizing index with
  | nil => rfl
  | @cons check t checks tests head _ ih =>
    have accepts := head.accepts
    cases check with
    | none =>
      have passed : ∀ x, t.getD .pass x = pure true := fun x => (accepts x).symm
      simp only [numbered, Test.positions, passed, ih]
      cases v.at? index <;> simp [Check.both_pure]
    | some check =>
      simp only [numbered, Test.positions, Check.acceptsItems, ih]
      cases v.at? index with
      | none => simp [Check.both_pure]
      | some x => simp only [← accepts, Check.acceptsOption, Check.both]

theorem follows_tuple (suits : o.Suits r start) (agrees : Agrees o start base make sense)
    (shares : ctx.SharesScope base) (s : Subject) (c : Classified) :
    Follows (Scope.Kept start base) (r.toBuilder.tuple make ctx s c) (r.tuple sense ctx c)
      (Check.Performs o) := by
  refine follows_bind (follows_originOperands c) fun ops classes targets => ?_
  refine follows_bind (follows_mapM _ fun h _ => follows_inside? agrees shares h)
    fun checks tests performs => ?_
  refine follows_pure (.ofTest rfl fun v => ?_)
  rw [Check.accepts, suits.catalog, isInstanceOf_eq targets, acceptsItems_numbered performs,
    Check.both_pure, bne]
  cases r.world.isInstanceOfAny v classes <;> cases v.len? == some c.children.length <;> rfl

/-- The item of a container is tested in the way that `shape` tests it. -/
theorem follows_container (suits : o.Suits r start) (agrees : Agrees o start base make sense)
    (shares : ctx.SharesScope base) (s : Subject) (c : Classified)
    {shape : List ClassOperand → Check → Check} {select : Value → List Value}
    (notPass : ∀ ops item, (shape ops item).isPass = false)
    (accepts : ∀ ops item v, (shape ops item).accepts o v =
      if o.catalog.isInstanceOf v ops then Check.allOf (item.accepts o) (select v)
      else pure false) :
    Follows (Scope.Kept start base) (r.toBuilder.container make ctx s c shape)
      (r.container sense ctx c select) (Check.Performs o) := by
  refine follows_bind (follows_originOperands c) fun ops classes targets => ?_
  cases c.children with
  | nil => exact follows_pure (performs_isInstance suits targets)
  | cons h rest =>
    refine follows_bind (follows_inside? agrees shares h) fun item t performs => ?_
    cases item with
    | none =>
      refine follows_pure (.ofTest rfl fun v => ?_)
      have passed : t.getD .pass = fun _ => pure true := funext fun x => (performs.accepts x).symm
      rw [(performs_isInstance suits targets).accepts, passed, Test.andEach, Check.allOf_true,
        Check.both_true]
      rfl
    | some item =>
      refine follows_pure (.ofTest (notPass ops item) fun v => ?_)
      have same : item.accepts o = t.getD .pass := funext performs.accepts
      rw [accepts, same, Test.andEach, Reading.instanceOf, Check.both_pure, suits.catalog,
        isInstanceOf_eq targets]

theorem follows_sequence (suits : o.Suits r start) (agrees : Agrees o start base make sense)
    (shares : ctx.SharesScope base) (s : Subject) (c : Classified) :
    Follows (Scope.Kept start base)
      (r.toBuilder.container make ctx s c fun ops item => .sequence s ops item r.exhaustive)
      (r.container sense ctx c r.sampledItems) (Check.Performs o) := by
  refine follows_container suits agrees shares s c (fun _ _ => rfl) fun ops item v => ?_
  rw [Check.accepts, Reading.sampledItems, suits.random]
  cases o.catalog.isInstanceOf v ops <;> cases r.exhaustive <;> cases v.sample? r.random <;>
    simp [Check.allOf_singleton, Check.allOf]

theorem follows_reiterable (suits : o.Suits r start) (agrees : Agrees o start base make sense)
    (shares : ctx.SharesScope base) (s : Subject) (c : Classified) :
    Follows (Scope.Kept start base)
      (r.toBuilder.container make ctx s c fun ops item => .reiterable s ops item r.exhaustive)
      (r.container sense ctx c r.firstItems) (Check.Performs o) := by
  refine follows_container suits agrees shares s c (fun _ _ => rfl) fun ops item v => ?_
  rw [Check.accepts, Reading.firstItems]
  cases o.catalog.isInstanceOf v ops <;> cases r.exhaustive <;> cases v.first? <;>
    simp [Check.allOf_singleton, Check.allOf]

theorem follows_mapping (suits : o.Suits r start) (agrees : Agrees o start base make sense)
    (shares : ctx.SharesScope base) (s : Subject) (c : Classified) :
    Follows (Scope.Kept start base) (r.toBuilder.mapping make ctx s c r.exhaustive)
      (r.mapping sense ctx c) (Check.Performs o) := by
  refine follows_bind (follows_originOperands c) fun ops classes targets => ?_
  match c.children with
  | [] | [_] | _ :: _ :: _ :: _ => exact follows_pure (performs_isInstance suits targets)
  | [keyHint, valueHint] =>
    refine follows_bind (follows_inside? agrees shares keyHint) fun key t keyPerforms => ?_
    refine follows_bind (follows_inside? agrees shares valueHint) fun value u valuePerforms => ?_
    have pairTest : (fun pair : Value × Value => Check.both (t.getD .pass pair.1) fun _ =>
        u.getD .pass pair.2) = fun pair => Check.both (Check.acceptsOption o key pair.1) fun _ =>
        Check.acceptsOption o value pair.2 := by
      funext pair
      rw [keyPerforms.accepts, valuePerforms.accepts]
    rw [pairTest]
    split
    case h_1 =>
      refine follows_pure (.ofTest rfl fun v => ?_)
      have passed : (fun pair : Value × Value => Check.both (Check.acceptsOption o none pair.1)
          fun _ => Check.acceptsOption o none pair.2) = fun _ => pure true :=
        funext fun pair => Check.both_true (pure true)
      rw [(performs_isInstance suits targets).accepts, passed, Test.andEach, Check.allOf_true,
        Check.both_true]
      rfl
    case h_2 =>
      refine follows_pure (.ofTest rfl fun v => ?_)
      rw [Check.accepts, suits.catalog, isInstanceOf_eq targets, Test.andEach, Reading.instanceOf,
        Check.both_pure, Reading.firstPairs]
      cases r.world.isInstanceOfAny v classes <;> rfl

end Containers

/-! ### Classes as values -/

/-- Checks that accept what the tests pass, one by one. -/
abbrev Accord (o : Oracle m) : List Check → List (Test m) → Prop :=
  List.Forall₂ fun check t => ∀ v, check.accepts o v = t v

theorem acceptsAny_accord {checks : List Check} {tests : List (Test m)}
    (accord : Accord o checks tests) (v : Value) :
    Check.acceptsAny o checks v = Test.anyOf tests v := by
  induction accord with
  | nil => rfl
  | cons head _ ih => simp only [Check.acceptsAny, Test.anyOf, head, ih]

theorem acceptsAll_accord {checks : List Check} {tests : List (Test m)}
    (accord : Accord o checks tests) (v : Value) :
    Check.acceptsAll o checks v = Test.allOf tests v := by
  induction accord with
  | nil => rfl
  | cons head _ ih =>
    simp only [Check.acceptsAll, head, ih]
    rfl

theorem follows_subclassTargets (suits : o.Suits r start) (shares : ctx.SharesScope base)
    (pith : String) (bound : Nat) (h : Hint) :
    Follows (Scope.Kept start base) (r.toBuilder.subclassTargets ctx pith bound h)
      (r.subclassTests ctx bound h) (Accord o) := by
  induction bound generalizing h with
  | zero => exact follows_throw _ _
  | succ bound ih =>
    refine follows_bind (follows_ofExcept _) ?_
    rintro c _ rfl
    split
    next sign =>
      rw [Reading.subclassTestsOf, sign]
      exact follows_pure .nil
    next sign =>
      rw [Reading.subclassTestsOf, sign]
      refine follows_bind (follows_mapM _ fun member _ => ih member) fun checks tests accord => ?_
      exact follows_pure (List.rel_flatten accord)
    next sign =>
      rw [Reading.subclassTestsOf, sign]
      refine follows_bind (follows_referenceOperand suits shares.nested c.hint)
        fun op ref resolves => ?_
      refine follows_pure (.cons (fun v => ?_) .nil)
      cases v <;> simp only [Check.accepts, Reading.referenceSubclass, suits.catalog, resolves]
    next notIgnorable notUnion notReference =>
      rw [Reading.subclassTestsOf_other r ctx _ notIgnorable notUnion notReference]
      cases c.origin with
      | none => exact follows_pure .nil
      | some origin =>
        refine follows_known (follows_operand origin) fun op target => ?_
        refine follows_pure (.cons (fun v => ?_) .nil)
        cases v <;> simp only [Check.accepts, Reading.subclassOf, suits.catalog,
          Catalog.isSubclassOf, List.any_cons, List.any_nil, Bool.or_false, target]

theorem follows_classValue [LawfulMonad m] (suits : o.Suits r start) (shares : ctx.SharesScope base)
    (s : Subject) (c : Classified) :
    Follows (Scope.Kept start base) (r.toBuilder.classValue ctx s c) (r.classValue ctx c)
      (Check.Performs o) := by
  refine follows_known (follows_operand Builtin.type) fun type isType => ?_
  have targets : [type].map ClassOperand.target = [ClassId.builtin .type] := by
    rw [List.map_singleton, isType]
  have isClass := performs_isInstance (s := s) suits targets
  rw [Reading.classValue]
  cases c.children with
  | nil => exact follows_pure isClass
  | cons h rest =>
    refine follows_bind (follows_subclassTargets suits shares s.pith _ h)
      fun checks tests accord => ?_
    cases accord with
    | nil => exact follows_pure isClass
    | cons head tail =>
      refine follows_pure (.ofTest rfl fun v => ?_)
      rw [Check.accepts, Check.acceptsAll_eq, Check.allOf, Check.allOf_singleton, isClass.accepts,
        Check.accepts, acceptsAny_accord (.cons head tail)]
      rfl

/-! ### Generic classes -/

theorem follows_field? (agrees : Agrees o start base make sense) (catalog : o.catalog = r.world)
    (shares : ctx.SharesScope base) (s : Subject) (entry : String × Hint) :
    Follows (Scope.Kept start base) (r.toBuilder.field? make ctx s entry) (r.field sense ctx entry)
      (Check.PerformsOption o) := by
  refine follows_bind (follows_inside? agrees shares entry.2) fun check t performs => ?_
  refine follows_pure ⟨by simpa using performs.isNone, fun v => ?_⟩
  have isNone := performs.isNone
  have accepts := performs.accepts
  match check, t with
  | none, none => rfl
  | none, some _ | some _, none => simp at isNone
  | some check, some t =>
    simp only [Option.map_some, Check.acceptsOption, Check.accepts, Reading.ofAttribute, catalog,
      Option.getD_some]
    cases r.world.attr? v entry.1 with
    | none => rfl
    | some a => exact accepts a

/-- The bases that are tested accord with the tests that there are. -/
theorem accord_bases {checks : List Check} {tests : List (Option (Test m))}
    (performs : List.Forall₂ (Check.Performs o) checks tests) :
    Accord o (checks.filter fun check => !check.isPass) (tests.filterMap id) := by
  induction performs with
  | nil => exact .nil
  | @cons check t _ _ head _ ih =>
    have isPass := head.isPass
    have accepts := head.accepts
    cases t with
    | none => simpa [isPass] using ih
    | some t => simpa [isPass] using ⟨accepts, ih⟩

theorem accord_fields {checks : List (Option Check)} {tests : List (Option (Test m))}
    (performs : List.Forall₂ (Check.PerformsOption o) checks tests) :
    Accord o (checks.filterMap id) (tests.filterMap id) := by
  induction performs with
  | nil => exact .nil
  | @cons check t _ _ head _ ih =>
    have isNone := head.isNone
    have accepts := head.accepts
    match check, t with
    | none, none => exact ih
    | none, some _ | some _, none => simp at isNone
    | some check, some t => simpa using ⟨accepts, ih⟩

theorem follows_genericClass [LawfulMonad m] (suits : o.Suits r start)
    (agrees : Agrees o start base make sense) (shares : ctx.SharesScope base) (s : Subject)
    (c : ClassId) (substitutions : List (Hint × Hint)) (supers : List Hint) :
    Follows (Scope.Kept start base)
      (r.toBuilder.genericClass make ctx s c substitutions supers)
      (r.genericClass sense ctx c substitutions supers) (Check.Performs o) := by
  have bound := shares.bindAll substitutions
  refine follows_known (follows_operand c) fun cls isClass => ?_
  refine follows_bind (follows_mapM supers fun h _ => follows_onSame agrees bound s.pith h)
    fun bases baseTests basesPerform => ?_
  refine follows_bind (follows_mapM _ fun entry _ =>
    follows_field? agrees suits.catalog bound s entry) fun fields fieldTests fieldsPerform => ?_
  have accord : Accord o (_ ++ _) (_ ++ _) :=
    List.rel_append (accord_bases basesPerform) (accord_fields fieldsPerform)
  have targets : [cls].map ClassOperand.target = [c] := by rw [List.map_singleton, isClass]
  have instanceOf := performs_isInstance (s := s) suits targets
  revert accord
  generalize bases.filter (fun base => !base.isPass) ++ fields.filterMap id = parts
  generalize baseTests.filterMap id ++ fieldTests.filterMap id = tests
  intro accord
  cases accord with
  | nil =>
    refine follows_pure (.ofTest rfl fun v => ?_)
    rw [instanceOf.accepts]
    exact (Check.both_true (r.instanceOf [c] v)).symm
  | cons head tail =>
    refine follows_pure (.ofTest rfl fun v => ?_)
    rw [Check.accepts, Check.acceptsAll, instanceOf.accepts, acceptsAll_accord (.cons head tail)]
    rfl

/-! ### All hints -/

theorem follows_literal (suits : o.Suits r start) (s : Subject) (values : List Value) :
    Follows (Scope.Kept start base)
      (do return .literal s (← values.mapM literalOperand))
      (.ok (some fun v =>
        pure (values.any fun l => LiteralOperand.matchedBy r.world ⟨l, none⟩ v)))
      (Check.Performs o) := by
  refine follows_known (follows_mapM_shown follows_literalOperand values) fun ops shown => ?_
  refine follows_pure (.ofTest rfl fun v => ?_)
  subst shown
  rw [Check.accepts, suits.catalog, List.any_map]
  rfl

theorem follows_validators (suits : o.Suits r start) (agrees : Agrees o start base make sense)
    (shares : ctx.SharesScope base) (s : Subject) (validators : List Validator)
    (inner : Classified) :
    Follows (Scope.Kept start base)
      (do
        let child ← make ctx s.pith inner
        let operands ← validators.mapM validatorOperand
        return .validators s child operands)
      (do
        let child ← sense ctx inner
        return some fun v => Check.both (child.getD .pass v) fun _ =>
          pure (validators.all fun x => x.holds r.world v)) (Check.Performs o) := by
  refine follows_bind (agrees ctx s.pith inner shares) fun child t performs => ?_
  refine follows_known (follows_mapM_shown follows_validatorOperand validators) fun ops shown => ?_
  refine follows_pure (.ofTest rfl fun v => ?_)
  subst shown
  rw [Check.accepts, suits.catalog, performs.accepts, List.all_map]
  rfl

section Shape
variable [LawfulMonad m]

theorem follows_union (agrees : Agrees o start base make sense) (shares : ctx.SharesScope base)
    (s : Subject) (pith : String) (hints : List Hint) :
    Follows (Scope.Kept start base)
      (unionFrom s (r.toBuilder.onSame make ctx pith) none [] hints)
      (do let tests ← Reading.members (r.inside sense ctx) none hints
          return tests.map Test.anyOf) (Check.Performs o) := by
  have noneFound : ∀ v, Check.acceptsAny o [].reverse v = Test.anyOf [] v := fun _ => rfl
  exact follows_unionFrom (follows_onSame agrees shares pith) hints none noneFound (by simp)

theorem follows_shape (suits : o.Suits r start) (agrees : Agrees o start base make sense)
    (shares : ctx.SharesScope base) (pith : String) (c : Classified) :
    Follows (Scope.Kept start base) (r.toBuilder.shape make ctx pith c) (r.shape sense ctx c)
      (Check.Performs o) := by
  unfold Builder.shape Reading.shape
  cases c.sign.strategy.emit with
  | pass => exact follows_pure ⟨rfl, fun _ => rfl⟩
  | fail => exact follows_pure (.ofTest rfl fun _ => rfl)
  | isInstance | originOnly =>
    exact follows_bind (follows_originOperands c) fun ops classes targets =>
      follows_pure (performs_isInstance suits targets)
  | union => exact follows_union agrees shares _ pith c.children
  | literal =>
    cases c.data with
    | literals values => exact follows_literal suits _ values
    | _ => exact follows_throw _ _
  | validators =>
    cases c.data with
    | annotated validators inner => exact follows_validators suits agrees shares _ validators inner
    | _ => exact follows_throw _ _
  | tupleFixed => exact follows_tuple suits agrees shares _ c
  | sequence => exact follows_sequence suits agrees shares _ c
  | reiterable => exact follows_reiterable suits agrees shares _ c
  | mapping => exact follows_mapping suits agrees shares _ c
  | isSubclass => exact follows_classValue suits shares _ c
  | generic =>
    cases c.data with
    | generic cls substitutions supers =>
      exact follows_genericClass suits agrees shares _ cls substitutions supers
    | _ => exact follows_throw _ _
  | forwardRef =>
    refine follows_bind (follows_referenceOperand suits shares c.hint) fun op ref resolves => ?_
    refine follows_pure (.ofTest rfl fun v => ?_)
    simp only [Check.accepts, Reading.referenceInstance, suits.catalog, resolves]
  | typedDict =>
    cases c.data with
    | typedDict required =>
      refine follows_known (follows_operand Builtin.dict) fun op target => ?_
      refine follows_pure (.ofTest rfl fun v => ?_)
      rw [Check.accepts, suits.catalog, isInstanceOf_eq (by rw [List.map_singleton, target])]
    | _ => exact follows_throw _ _
  | reduced => exact follows_throw _ _

theorem agrees_buildWithin (suits : o.Suits r start) (room : Nat) :
    Agrees o start base (r.toBuilder.buildWithin room) (r.meaningWithin room) := by
  induction room with
  | zero => exact fun ctx pith c _ => follows_throw _ _
  | succ room ih => exact fun ctx pith c shares => follows_shape suits ih shares pith c

/-- Building ends as the meaning says: with its error, or with a check that performs its test. -/
theorem agrees_build (suits : o.Suits r start) :
    Agrees o start base r.toBuilder.build r.meaning :=
  agrees_buildWithin suits (maxNesting + 1)

/-- Building from a scope that was filled name by name ends as the meaning says. -/
theorem build_performs (suits : o.Suits r start) (wellKept : start.WellKept) (ctx : Context)
    (pith : String) (c : Classified) :
    Alike (Check.Performs o) (outcome (r.toBuilder.build ctx pith c) start).1 (r.meaning ctx c) :=
  (agrees_build suits ctx pith c ⟨rfl, rfl⟩ start (Scope.kept_refl wellKept ctx)).2

end Shape

end Builder
end HintCheck
