import HintCheck.Proofs.Entering
import HintCheck.Proofs.Replacement
import HintCheck.Proofs.Verdicts

/-!
Instances of generic classes. A class that is given arguments is checked attribute by attribute and
base by base, with its parameters bound to the arguments. Where variables keep to their scopes, that
is the check of the hint in which the parameters have been replaced by the arguments. Where they do
not, a binding may lead back to itself: a parameter that stands in its own argument is looked up
again and again.
-/
namespace HintCheck

open Hint

/-- The hint was replaced too often, or lies too deep. -/
def HintError.exceedsLimit : HintError → Bool
  | recursion _ _ | endless _ | nesting _ _ => true
  | _ => false

theorem Hint.WellNamed.subst {names : Naming} {given : Hint → Option Hint} {h : Hint}
    (named : h.WellNamed names) (arguments : ∀ v a, given v = some a → a.WellNamed names) :
    (h.subst given).WellNamed names := by
  induction h using induction_parts with
  | step h ih =>
    have each {args : List Hint} (isArgs : ∀ a ∈ args, a ∈ h.parts) :
        ∀ a ∈ substAll given args, a.WellNamed names := by
      rw [substAll_eq_map]
      intro b member
      obtain ⟨a, isArg, rfl⟩ := List.mem_map.mp member
      exact ih a (isArgs a isArg) (named.part a (isArgs a isArg))
    have variable_ : ((given h).getD h).WellNamed names := by
      cases isGiven : given h with
      | none => exact named
      | some a => exact arguments h a isGiven
    cases h with
    | typeVar | paramSpec | typeVarTuple => exact variable_
    | subscription => exact .ofArgs (each fun _ => id)
    | union | params =>
      exact .ofParts rfl (fun _ _ same => by cases same) (each fun _ => id)
    | _ => exact named

namespace Setting

variable {S : Setting}

/-- Where variables keep to their scopes, hints can be read with variables bound and with variables
replaced. -/
def mirror (S : Setting)
    (distinct : ∀ v w, S.values v → S.values w → v.structEq w = true → v = w) : Mirror where
  catalog := S.catalog
  substitutes := S.substitutes
  names := S.names
  values := Value.OrDots S.values
  Paired := S.Paired
  Ready := S.Ready
  distinct := Value.distinct_orDots distinct
  counterparts paired := paired.toCounterparts
  named ready := ready.tidy.orderly.named
  holds ready := ready.tidy.holds
  arg ready := ready.arg
  passes paired := paired.passes
  replaced ready isVariable := (ready.mirrors _ (.here (.itself isVariable))).replaced _
  kept ready isVariable := (ready.mirrors _ (.here (.itself isVariable))).kept
  declared paired ready none member :=
    paired.renders_of_idle (ready.tidy.orderly.aside _ (.declared none member))
  literal ready isLiteral member isVariable := by
    simp [ready.tidy.orderly.literal isLiteral _ member] at isVariable
  substitute paired ready found := by
    have tidy := hereditary_tidy.substitute ready.tidy found
    have idle := ready.tidy.orderly.aside _ (.substitute found)
    exact ⟨paired.ready_of_idle tidy idle, paired.renders_of_idle idle⟩
  supplied {_ _ _ _ k _} paired ready origin length each named := by
    have inner := paired.inside ready origin length each named
    refine ⟨_, inner, fun d member => ?_⟩
    have tidy : S.Tidy d := hereditary_tidy.declaration ready.tidy (.inr origin)
      (Catalog.mem_declarations_of_mem_body member)
    refine ⟨ready.inside paired origin length each named member tidy,
      renders_self fun v mentions => ?_⟩
    rcases ready.tidy.orderly.own k origin d member v mentions with ⟨p, isParam, same⟩ | idle
    · exact if_pos (List.any_eq_true.mpr ⟨p, isParam, same⟩)
    · exact (inner.mirrors_of_idle idle).1
  bare {given bound plain _ _} paired ready isClass := by
    have inner : S.Paired given (bound.bindAll []) (plain.bindAll []) :=
      { paired with keeps := paired.keeps.nested }
    refine ⟨given, inner, fun d isBase => ?_⟩
    have tidy : S.Tidy d := hereditary_tidy.declaration ready.tidy (.inl isClass)
      (List.mem_append_right _ isBase)
    have idle := ready.tidy.orderly.aside d (.base isClass isBase)
    exact ⟨inner.ready_of_idle tidy idle, inner.renders_of_idle idle⟩

section Start
variable {k : ClassId}
  (distinct : ∀ v w, S.values v → S.values w → v.structEq w = true → v = w)
  (each : ∀ y, S.root.Reaches S.catalog S.substitutes S.context y → S.Scoped y)
  (origin : S.root.origin? = some k)
  (bindings : ∀ entry ∈ S.context.bindings, entry.2.WellNamed S.names)
  (length : (S.catalog.get k).typeParams.length = S.root.args.length)
  (fills : ∀ a ∈ S.root.args, a.Fills)
include distinct each origin bindings length fills

/-- What stands in the body of a class, and the same with the parameters replaced. -/
theorem twins_start {d : Hint}
    (member : d ∈ S.catalog.body k ((S.catalog.get k).typeParams.zip S.root.args)) :
    (S.mirror distinct).Twins (givenBy ((S.catalog.get k).typeParams.zip S.root.args))
      (S.context.bindAll ((S.catalog.get k).typeParams.zip S.root.args)) S.context.nested d
      (d.subst (givenBy ((S.catalog.get k).typeParams.zip S.root.args))) := by
  have tidy := tidy_root each
  have ready := Ready.start each origin bindings length fills member
  refine ⟨ready, renders_subst fun v a mentions isGiven => ?_, ?_⟩
  · have mirrors := ready.mirrors v (.here mentions)
    exact renders_self (mirrors.replaced a isGiven).2.2
  · refine ready.tidy.orderly.named.subst fun v a isGiven => ?_
    obtain ⟨pair, inZip, _, rfl⟩ := givenBy_eq_some isGiven
    exact (tidy.arg (List.of_mem_zip inZip).2).orderly.named

/-- The body of a class means what it means with the parameters replaced. -/
theorem same_body {ε : Type} {r : Reading (Except ε)} (catalog : r.catalog = S.catalog)
    (substitutes : r.substitutes = S.substitutes) {d : Hint}
    (member : d ∈ S.catalog.body k ((S.catalog.get k).typeParams.zip S.root.args))
    (room more : Nat) :
    Reproduces (fun e => e.exceedsLimit = true) Eq
      (r.inside (r.meaningWithin room)
        (S.context.bindAll ((S.catalog.get k).typeParams.zip S.root.args)) d)
      (r.testWithin more S.context.nested
        (d.subst (givenBy ((S.catalog.get k).typeParams.zip S.root.args)))) := by
  have fits : r.Fits (S.mirror distinct) := ⟨catalog, substitutes⟩
  have excuses : Mirror.Excuses fun e => e.exceedsLimit = true :=
    ⟨fun _ _ => rfl, fun _ => rfl, fun _ _ => rfl⟩
  show Reproduces _ Eq _ (r.inside (r.meaningWithin more) S.context.nested _)
  exact Mirror.same_inside fits excuses (Mirror.same_meaningWithin fits excuses room more)
    (Paired.start each origin bindings)
    (twins_start distinct each origin bindings length fills member)

end Start
end Setting

/-! ### Tests of generic classes -/

theorem Check.allOf_append {ε α : Type} (test : α → Except ε Bool) (xs ys : List α) :
    Check.allOf test (xs ++ ys) =
      Check.both (Check.allOf test xs) fun _ => Check.allOf test ys := by
  induction xs with
  | nil => rfl
  | cons x xs ih =>
    rw [List.cons_append, Check.allOf, Check.allOf, ih]
    unfold Check.both
    rcases test x with e | _ | _ <;> rfl

/-- The verdicts of the tests, of which one that is left out is passed. -/
def Test.Decide {ε : Type} (verdict : Value → Except ε Bool) (t : Option (Test (Except ε))) :
    Prop :=
  ∀ v, t.getD .pass v = verdict v

theorem Check.allOf_decided {ε α : Type} {verdict : α → Value → Except ε Bool} {xs : List α}
    {tests : List (Option (Test (Except ε)))}
    (each : xs.Forall₂ (fun x => Test.Decide (verdict x)) tests) (v : Value) :
    Check.allOf (fun t : Test (Except ε) => t v) (tests.filterMap id) =
      Check.allOf (fun x => verdict x v) xs := by
  induction each with
  | nil => rfl
  | @cons x t xs tests decides _ ih =>
    rw [Check.allOf, ← decides v, List.filterMap_cons]
    cases t with
    | none => exact ih
    | some t =>
      rw [id, Check.allOf, ih]
      rfl

theorem Ends.mapM_forall₂ {α ι : Type} {excused : HintError → Prop} {f : ι → Except HintError α}
    {good : ι → α → Prop} {xs : List ι} (each : ∀ i ∈ xs, Ends excused (good i) (f i)) :
    Ends excused (List.Forall₂ good xs) (xs.mapM f) := by
  induction xs with
  | nil => exact .nil
  | cons i rest ih =>
    rw [List.mapM_cons]
    refine (each i (by simp)).bind fun a first => ?_
    refine (ih fun j member => each j (by simp [member])).bind fun others further => ?_
    exact .cons first further

/-- The verdict on an instance of a generic class, by the verdicts of what stands in its body: the
instance passes the bases itself, and the attributes that it has pass their hints. Instances and
attributes are a matter of the classes that there are by then. -/
def Catalog.bodyVerdict {ε : Type} (cat world : Catalog) (k : ClassId) (pairs : List (Hint × Hint))
    (verdict : Hint → Value → Except ε Bool) (v : Value) : Except ε Bool :=
  Check.both (.ok (world.isInstance v k)) fun _ =>
    Check.both (Check.allOf (fun d => verdict d v) (cat.get k).genericBases) fun _ =>
      Check.allOf (fun e => ((world.attr? v e.1).map (verdict e.2)).getD (.ok true))
        (Builder.boundFields cat k pairs)

namespace Reading

variable {ε : Type} {r : Reading (Except ε)}

/-- The test of an instance of a generic class, by the tests of what stands in its body. -/
theorem genericClass_ends {excused : HintError → Prop} {sense : Sense (Except ε)} {ctx : Context}
    {k : ClassId} {pairs : List (Hint × Hint)} {verdict : Hint → Value → Except ε Bool}
    (body : ∀ d ∈ r.catalog.body k pairs,
      Ends excused (Test.Decide (verdict d)) (r.inside sense (ctx.bindAll pairs) d)) :
    Ends excused (Test.Decide (r.catalog.bodyVerdict r.world k pairs verdict))
      (r.genericClass sense ctx k pairs (r.catalog.get k).genericBases) := by
  have bases : Ends excused
      (List.Forall₂ (fun d => Test.Decide (verdict d)) (r.catalog.get k).genericBases)
      ((r.catalog.get k).genericBases.mapM (r.inside sense (ctx.bindAll pairs))) :=
    .mapM_forall₂ fun d member => body d (List.mem_append_right _ member)
  have fields : Ends excused
      (List.Forall₂ (fun e => Test.Decide fun v =>
        ((r.world.attr? v e.1).map (verdict e.2)).getD (.ok true))
        (Builder.boundFields r.catalog k pairs))
      ((Builder.boundFields r.catalog k pairs).mapM (r.field sense (ctx.bindAll pairs))) := by
    refine .mapM_forall₂ fun e member => ?_
    refine (body e.2 (List.mem_append_left _ (List.mem_map_of_mem member))).bind
      fun t decides v => ?_
    -- An attribute that is missing passes, and so does one that no test is made of.
    have found (a : Value) : t.getD .pass a = verdict e.2 a := decides a
    dsimp only
    cases t with
    | none =>
      cases r.world.attr? v e.1 with
      | none => rfl
      | some a => exact found a
    | some t =>
      rw [Option.map_some, Option.getD_some, ofAttribute]
      cases r.world.attr? v e.1 with
      | none => rfl
      | some a => exact found a
  unfold genericClass
  refine bases.bind fun tests decided => fields.bind fun others decidedToo v => ?_
  have instances : r.instanceOf [k] v = .ok (r.world.isInstance v k) := by
    simp [instanceOf, Catalog.isInstanceOfAny, pure, Except.pure]
  rw [Option.getD_some, Catalog.bodyVerdict, instances, Test.allOf, Check.allOf_append,
    Check.allOf_decided decided, Check.allOf_decided decidedToo]

end Reading

/-- A class with an argument for each of its parameters is classified as it stands. -/
theorem Hint.classify_generic {cat : Catalog} {ctx : Context} {h : Hint} {k : ClassId}
    (origin : h.origin? = some k) (unspelled : h.sign? cat = Option.none)
    (isGeneric : (cat.get k).typeParams ≠ [])
    (length : (cat.get k).typeParams.length = h.args.length)
    (notVariadic : ctx.position.isVariadic = false) (subs : Substitutes) :
    h.classify cat subs ctx = .ok (h.genericOf cat k ((cat.get k).typeParams.zip h.args)) := by
  have isUser (b : Builtin) : k ≠ .builtin b := fun same => isGeneric (by rw [same]; rfl)
  obtain ⟨label, args, rfl⟩ : ∃ label args, h = subscription label (.cls k) args := by
    cases h with
    | subscription label of args =>
      cases of with
      | cls c =>
        cases origin
        exact ⟨label, args, rfl⟩
      | form f =>
        obtain ⟨b, _, isBuiltin⟩ := Option.map_eq_some_iff.mp origin
        exact (isUser b isBuiltin.symm).elim
    | _ => cases origin
  have rests (reduce : Hint → Except HintError Reduced) :
      (subscription label (.cls k) args).step cat ctx reduce = .ok ⟨Option.none, []⟩ := by
    simp [step, isUser]
  have itself : (subscription label (.cls k) args).canonical cat ctx =
      .ok ⟨subscription label (.cls k) args, []⟩ :=
    canonical_of_rests (placed_of_notStandIn notVariadic rfl) rfl (rests fun _ => .ok ⟨object, []⟩)
  have user : (subscription label (.cls k) args).classifyCanonical cat =
      .ok ((subscription label (.cls k) args).genericOf cat k
        ((cat.get k).typeParams.zip (subscription label (.cls k) args).args)) := by
    rw [classifyCanonical, unspelled]
    simp [classifyUserGeneric, origin?, isGeneric, length]
  have direct : classifyReduced cat subs maxSubstitutions ctx (subscription label (.cls k) args) =
      (subscription label (.cls k) args).classifyCanonical cat := rfl
  rw [Hint.classify, classifyWithin_proper rfl, itself]
  dsimp only [bind, Except.bind]
  rw [direct, user]
  rfl

namespace Session

variable {s : Session} {ctx : Context} {h : Hint} {scope : Scope} {names : Naming}
  {values : Value → Prop}

/-- What the check of a hint is built from in a session. -/
abbrev setting (s : Session) (names : Naming) (values : Value → Prop) (ctx : Context) (h : Hint) :
    Setting :=
  ⟨s.catalog, s.substitutes, names, values, ctx, h⟩

/-- The test of a class with arguments for its parameters. -/
theorem testWithin_generic {k : ClassId} (origin : h.origin? = some k)
    (unspelled : h.sign? s.catalog = Option.none) (isGeneric : (s.catalog.get k).typeParams ≠ [])
    (length : (s.catalog.get k).typeParams.length = h.args.length)
    (notVariadic : ctx.position.isVariadic = false) (scope : Scope) (f : Frame) (room : Nat) :
    (s.reading ctx.conf scope f).testWithin (room + 1) ctx h =
      (s.reading ctx.conf scope f).genericClass ((s.reading ctx.conf scope f).meaningWithin room)
        ctx k ((s.catalog.get k).typeParams.zip h.args) (s.catalog.get k).genericBases := by
  have classified : h.classify (s.reading ctx.conf scope f).catalog
      (s.reading ctx.conf scope f).substitutes ctx = _ :=
    classify_generic origin unspelled isGeneric length notVariadic s.substitutes
  unfold Reading.testWithin
  rw [classified]
  rfl

/-- Where the checks of the body of a class are given with the parameters replaced by the arguments,
the check of the class with these arguments is given, unless it exceeds a limit. It accepts the
instances of the class that those checks accept: the checks of the bases the instance itself, and
the checks of the attributes the attributes that it has. -/
theorem buildCheck_instantiated {values : Value → Prop} {k : ClassId}
    (distinct : ∀ v w, values v → values w → v.structEq w = true → v = w)
    (each : ∀ y, h.Reaches s.catalog s.substitutes ctx y → (s.setting names values ctx h).Scoped y)
    (bindings : ∀ entry ∈ ctx.bindings, entry.2.WellNamed names)
    (grown : s.cache.Grown names s.catalog s.substitutes) (wellKept : scope.WellKept)
    (notVariadic : ctx.position.isVariadic = false) (origin : h.origin? = some k)
    (unspelled : h.sign? s.catalog = Option.none) (isGeneric : (s.catalog.get k).typeParams ≠ [])
    (length : (s.catalog.get k).typeParams.length = h.args.length) (fills : ∀ a ∈ h.args, a.Fills)
    {position : Position} (notParam : ∀ kind, position ≠ .param kind) {part : Hint → Check × Scope}
    (generates : ∀ d ∈ s.catalog.body k ((s.catalog.get k).typeParams.zip h.args), ∃ pith,
      ((buildCheck (ctx.placedAt position) pith
        (d.subst (givenBy ((s.catalog.get k).typeParams.zip h.args))) scope).run.run s).1 =
          .ok (part d)) (pith : String) :
    (∀ e, ((buildCheck ctx pith h scope).run.run s).1 = .error e → e.exceedsLimit = true) ∧
      ∀ made, ((buildCheck ctx pith h scope).run.run s).1 = .ok made →
        ∀ (f : Frame) (v : Value), f.verdict made v =
          s.catalog.bodyVerdict f.around.catalog k ((s.catalog.get k).typeParams.zip h.args)
            (fun d => f.verdict (part d)) v := by
  have named : h.WellNamed names := (each h .refl).named
  have parts (f : Frame) (d : Hint)
      (member : d ∈ s.catalog.body k ((s.catalog.get k).typeParams.zip h.args)) :
      Ends (fun e => e.exceedsLimit = true) (Test.Decide (f.verdict (part d)))
        ((s.reading ctx.conf scope f).inside ((s.reading ctx.conf scope f).meaningWithin maxNesting)
          (ctx.bindAll ((s.catalog.get k).typeParams.zip h.args)) d) := by
    have twins := Setting.twins_start (S := s.setting names values ctx h) distinct each origin
      bindings length fills member
    obtain ⟨pith, built⟩ := generates d member
    have alike := buildCheck_verdict wellKept twins.named grown (ctx.placedAt position) pith f
    rw [built] at alike
    obtain ⟨t, means, decides⟩ := alike.ok_left
    rw [Reading.testWithin_nested _ notParam] at means
    have body := Setting.same_body (S := s.setting names values ctx h)
      (r := s.reading ctx.conf scope f) distinct each origin bindings length fills rfl rfl member
      maxNesting (maxNesting + 1)
    refine (body t means).mono (fun _ => id) ?_
    rintro _ rfl
    exact fun v => (decides v).symm
  have test (f : Frame) : Ends (fun e => e.exceedsLimit = true)
        (Test.Decide (s.catalog.bodyVerdict f.around.catalog k
          ((s.catalog.get k).typeParams.zip h.args) fun d => f.verdict (part d)))
        ((s.reading ctx.conf scope f).testWithin (maxNesting + 1) ctx h) := by
    rw [testWithin_generic origin unspelled isGeneric length notVariadic]
    have generic := Reading.genericClass_ends (r := s.reading ctx.conf scope f) (parts f)
    exact generic
  constructor
  · intro e failed
    let f : Frame := .new s.around 0 { s.calls with resolutions := [] } rfl
    have alike := buildCheck_verdict wellKept named grown ctx pith f
    rw [failed] at alike
    have ends := test f
    rw [alike.error_left] at ends
    exact ends
  · intro made built f v
    have alike := buildCheck_verdict wellKept named grown ctx pith f
    rw [built] at alike
    obtain ⟨t, means, decides⟩ := alike.ok_left
    have ends := test f
    rw [means] at ends
    rw [decides v]
    exact ends v

/-- A type variable of which nothing is asked. -/
abbrev unrestricted (label : Nat) (name : String) : Hint :=
  .typeVar label name .invariant none []

/-- A generic class with one parameter and one attribute. -/
def generically (name : String) (param : Hint) (attr : String) (h : Hint) : ClassDraft :=
  ClassDraft.withAnnotation
    ((ClassDraft.named name).withDeclaredBase (.typing none .generic [param])) attr h

/-- A session with two generic classes: a box holds what its parameter stands for, and a crate a box
of what its own stands for. -/
def withBoxes (t u : Hint) : Session :=
  let boxes := ((defineClass (generically "Box" t "item" t)).run.run start).2
  ((defineClass (generically "Crate" u "box" (.generic none (.user 0) [u]))).run.run boxes).2

abbrev crate : Hint :=
  .generic none (.user 1) [Builtin.int]

abbrev crateNames : Naming :=
  ⟨fun n => if n = 0 then unrestricted 0 "T" else unrestricted 1 "U", fun _ => .instanceOf []⟩

/-- The two classes have variables of their own. -/
structure KeepsApart (s : Session) : Prop where
  boxParams : (s.catalog.get (.user 0)).typeParams = [unrestricted 0 "T"]
  crateParams : (s.catalog.get (.user 1)).typeParams = [unrestricted 1 "U"]
  boxDeclares : s.catalog.declarations (.user 0) = [unrestricted 0 "T"]
  crateDeclares : s.catalog.declarations (.user 1) = [.generic none (.user 0) [unrestricted 1 "U"]]
  boxUnspelled : (Hint.generic none (.user 0) [unrestricted 1 "U"]).sign? s.catalog = Option.none
  nothingCached : s.cache = .empty

theorem withBoxes_classes (t u : Hint) :
    ((withBoxes t u).catalog.get (.user 0)).typeParams = [t] ∧
      ((withBoxes t u).catalog.get (.user 1)).typeParams = [u] ∧
      (withBoxes t u).catalog.declarations (.user 0) = [t] ∧
      (withBoxes t u).catalog.declarations (.user 1) = [.generic none (.user 0) [u]] ∧
      (withBoxes t u).cache = .empty := by
  have linearized : Catalog.builtin.linearize [Builtin.generic] =
      .ok [Builtin.generic, Builtin.object] := by
    decide +kernel
  have box : ((defineClass (generically "Box" t "item" t)).run.run start).2 = _ :=
    defineClass_of_linearize linearized
  have both : withBoxes t u = _ := (congrArg (fun s => ((defineClass _).run.run s).2) box).trans
    (defineClass_of_linearize linearized)
  rw [both]
  exact ⟨rfl, rfl, rfl, rfl, rfl⟩

theorem withBoxes_keepsApart :
    KeepsApart (withBoxes (unrestricted 0 "T") (unrestricted 1 "U")) := by
  obtain ⟨boxParams, crateParams, boxDeclares, crateDeclares, nothingCached⟩ :=
    withBoxes_classes (unrestricted 0 "T") (unrestricted 1 "U")
  exact ⟨boxParams, crateParams, boxDeclares, crateDeclares, by decide +kernel, nothingCached⟩

namespace KeepsApart

variable {s : Session} {y : Hint} (apart : KeepsApart s)
  (reaches : crate.Reaches s.catalog s.substitutes (.bare .standard) y)
include apart reaches

theorem reached : y = crate ∨ y = .cls Builtin.int ∨
    y = .generic none (.user 0) [unrestricted 1 "U"] ∨ y = unrestricted 1 "U" ∨
      y = unrestricted 0 "T" := by
  induction reaches with
  | refl => exact .inl rfl
  | @tail y z _ leads ih =>
    rcases ih with rfl | rfl | rfl | rfl | rfl
    · rcases leads with member | isVariable | _ | _ | ⟨named, declared⟩
      · exact .inr (.inl (List.mem_singleton.mp member))
      · cases isVariable
      · rcases named with named | named <;> cases named
        rw [apart.crateDeclares] at declared
        exact .inr (.inr (.inl (List.mem_singleton.mp declared)))
    · cases leads.of_made (.builtin _)
    · rcases leads with member | isVariable | _ | _ | ⟨named, declared⟩
      · exact .inr (.inr (.inr (.inl (List.mem_singleton.mp member))))
      · cases isVariable
      · rcases named with named | named <;> cases named
        rw [apart.boxDeclares] at declared
        exact .inr (.inr (.inr (.inr (List.mem_singleton.mp declared))))
    all_goals
      rcases leads with member | ⟨_, isBound⟩ | _ | _ | ⟨named, _⟩
      · cases member
      · cases isBound
      · rcases named with named | named <;> cases named

omit reaches in
/-- The parameter of the crate is given no variable. -/
theorem given {z : Hint}
    (given : (s.setting crateNames (fun _ => False) (.bare .standard) crate).Given
      (unrestricted 1 "U") z) : z = .cls Builtin.int := by
  cases given with
  | binding bound => cases bound
  | argument reaches origin given same =>
    rcases apart.reached reaches with rfl | rfl | rfl | rfl | rfl <;> cases origin
    · rw [apart.crateParams] at given
      rw [List.mem_singleton.mp given]
    · rw [apart.boxParams] at given
      rw [List.mem_singleton.mp given] at same
      cases same

theorem scopedAt :
    (s.setting crateNames (fun _ => False) (.bare .standard) crate).Scoped y := by
  have unmentioned {v : Hint} : ¬ (Hint.cls Builtin.int).Mentions v := fun mentions => by
    obtain ⟨a, member, _⟩ := mentions.exists_arg rfl
    cases member
  have itself {v : Hint} {label : Nat} {name : String}
      (mentions : (unrestricted label name).Mentions v) : v = unrestricted label name := by
    cases mentions with
    | itself => rfl
    | inside member => cases member
  refine ⟨?named, ?apart, ?own, ?aside, ?literal, ?value⟩
  case named =>
    have ofVar (label : Nat) (name : String)
        (declared : crateNames.declared label = unrestricted label name) :
        (unrestricted label name).WellNamed crateNames :=
      .intro (fun n same => by cases same; exact declared) (fun _ _ same => by cases same)
        fun _ member => by cases member
    rcases apart.reached reaches with rfl | rfl | rfl | rfl | rfl
    · exact .ofArgs fun a isArg => List.mem_singleton.mp isArg ▸ .ofClass _
    · exact .ofClass _
    · exact .ofArgs fun a isArg => List.mem_singleton.mp isArg ▸ ofVar 1 "U" rfl
    · exact ofVar 1 "U" rfl
    · exact ofVar 0 "T" rfl
  case apart =>
    intro k origin a isArg v w mentions flows p isParam
    rcases apart.reached reaches with rfl | rfl | rfl | rfl | rfl <;> cases origin
    · obtain rfl := List.mem_singleton.mp isArg
      exact (unmentioned mentions).elim
    · obtain rfl := List.mem_singleton.mp isArg
      obtain rfl := itself mentions
      rw [apart.boxParams] at isParam
      obtain rfl := List.mem_singleton.mp isParam
      rcases flows.cases_head with rfl | ⟨x, ⟨z, isGiven, mentions⟩, _⟩
      · rfl
      · rw [apart.given isGiven] at mentions
        exact (unmentioned mentions).elim
  case own =>
    intro k origin d isBody v mentions
    have declared := Catalog.mem_declarations_of_mem_body isBody
    rcases apart.reached reaches with rfl | rfl | rfl | rfl | rfl <;> cases origin
    · rw [apart.crateDeclares] at declared
      obtain rfl := List.mem_singleton.mp declared
      obtain ⟨a, isArg, mentions⟩ := mentions.exists_arg rfl
      obtain rfl := List.mem_singleton.mp isArg
      obtain rfl := itself mentions
      exact .inl ⟨_, by rw [apart.crateParams]; exact List.mem_singleton_self _, rfl⟩
    · rw [apart.boxDeclares] at declared
      obtain rfl := List.mem_singleton.mp declared
      obtain rfl := itself mentions
      exact .inl ⟨_, by rw [apart.boxParams]; exact List.mem_singleton_self _, rfl⟩
  case aside =>
    intro d aside
    rcases apart.reached reaches with rfl | rfl | rfl | rfl | rfl
    · rcases aside with ⟨none, _⟩ | _ | ⟨named, _⟩
      · cases none
      · cases named
    · rcases aside with ⟨_, isPart⟩ | _ | ⟨named, isBase⟩
      · cases isPart
      · cases named
        cases isBase
    · rcases aside with ⟨none, _⟩ | _ | ⟨named, _⟩
      · cases none
      · cases named
    all_goals
      rcases aside with ⟨_, isPart⟩ | _ | ⟨named, _⟩
      · cases isPart
      · cases named
  case literal =>
    intro isLiteral a isArg
    rcases apart.reached reaches with rfl | rfl | rfl | rfl | rfl
    · obtain rfl := List.mem_singleton.mp isArg
      rfl
    · cases isArg
    · rw [show Hint.sign? _ _ = _ from apart.boxUnspelled] at isLiteral
      cases isLiteral
    all_goals cases isArg
  case value =>
    rintro label v rfl
    rcases apart.reached reaches with isSame | isSame | isSame | isSame | isSame <;> cases isSame

end KeepsApart

theorem buildCheck_instantiated_crate :
    ∃ made part,
      ((buildCheck (.bare .standard) "obj" crate .empty).run.run
        (withBoxes (unrestricted 0 "T") (unrestricted 1 "U"))).1 = .ok made ∧
      ((buildCheck (.bare .standard) "obj" (.generic none (.user 0) [Builtin.int]) .empty).run.run
        (withBoxes (unrestricted 0 "T") (unrestricted 1 "U"))).1 = .ok part ∧
      ∀ (f : Frame) (v : Value), f.verdict made v =
        (withBoxes (unrestricted 0 "T") (unrestricted 1 "U")).catalog.bodyVerdict f.around.catalog
          (.user 1) [(unrestricted 1 "U", Builtin.int)] (fun _ => f.verdict part) v := by
  have run : (((buildCheck (.bare .standard) "obj" crate .empty).run.run
      (withBoxes (unrestricted 0 "T") (unrestricted 1 "U"))).1.toOption.any fun _ =>
        ((buildCheck (.bare .standard) "obj" (.generic none (.user 0) [Builtin.int]) .empty).run.run
          (withBoxes (unrestricted 0 "T") (unrestricted 1 "U"))).1.toOption.any fun _ => true) =
        true := by decide +kernel
  have unspelled : crate.sign? (withBoxes (unrestricted 0 "T") (unrestricted 1 "U")).catalog =
    Option.none := by decide +kernel
  have apart := withBoxes_keepsApart
  generalize withBoxes (unrestricted 0 "T") (unrestricted 1 "U") = s at *
  obtain ⟨made, built, run⟩ := ok_of_any run
  obtain ⟨part, builtToo, _⟩ := ok_of_any run
  refine ⟨made, part, built, builtToo, fun f v => ?_⟩
  have grown : s.cache.Grown crateNames s.catalog s.substitutes := by
    rw [apart.nothingCached]
    exact .empty
  have fills : (Hint.cls Builtin.int).Fills :=
    ⟨rfl, fun _ _ same => (by cases same), fun same => (by cases same), fun same => (by cases same)⟩
  have pairs : (s.catalog.get (.user 1)).typeParams.zip crate.args =
      [(unrestricted 1 "U", .cls Builtin.int)] := by
    rw [apart.crateParams]
    rfl
  have generates (d : Hint) (isBody : d ∈ s.catalog.body (.user 1)
      ((s.catalog.get (.user 1)).typeParams.zip crate.args)) :
      ∃ pith, ((buildCheck ((Context.bare .standard).placedAt .standalone) pith
        (d.subst (givenBy ((s.catalog.get (.user 1)).typeParams.zip crate.args)))
          .empty).run.run s).1 = .ok part := by
    have declared := Catalog.mem_declarations_of_mem_body isBody
    rw [apart.crateDeclares] at declared
    rw [List.mem_singleton.mp declared, pairs]
    exact ⟨"obj", builtToo⟩
  have bindings : ∀ entry ∈ (Context.bare .standard).bindings, entry.2.WellNamed crateNames :=
    fun _ member => by cases member
  have notVariadic : (Context.bare .standard).position.isVariadic = false := rfl
  have origin : crate.origin? = some (.user 1) := rfl
  have isGeneric : (s.catalog.get (.user 1)).typeParams ≠ [] := by simp [apart.crateParams]
  have length : (s.catalog.get (.user 1)).typeParams.length = crate.args.length := by
    rw [apart.crateParams]
    rfl
  have instantiated := buildCheck_instantiated (fun _ _ known => known.elim)
    (fun _ => apart.scopedAt) bindings grown Scope.wellKept_empty notVariadic origin unspelled
    isGeneric length
    (fun a isArg => List.mem_singleton.mp isArg ▸ fills) (fun _ same => by cases same) generates
    "obj"
  rw [pairs] at instantiated
  exact instantiated.2 made built f v

/-- Where the crate has the variable of the box for its own parameter, a crate has no check,
although the boxes that it should hold have one. -/
theorem crate_uninstantiated :
    let t := unrestricted 0 "T"
    let s := withBoxes t t
    let box := Hint.generic none (.user 0) [t]
    s.catalog.declarations (.user 1) = [box] ∧
    (∃ part, ((buildCheck (.bare .standard) "obj" (box.subst (givenBy [(t, Builtin.int)]))
      .empty).run.run s).1 = .ok part) ∧
    ((buildCheck (.bare .standard) "obj" (.generic none (.user 1) [Builtin.int])
      .empty).run.run s).1 = .error (.recursion "~T" maxSteps) := by
  intro t s box
  obtain ⟨_, _, _, declares, _⟩ := withBoxes_classes t t
  have run : (((buildCheck (.bare .standard) "obj" (box.subst (givenBy [(t, Builtin.int)]))
      .empty).run.run s).1.toOption.any fun _ => true) = true := by decide +kernel
  have fails : ((buildCheck (.bare .standard) "obj" (.generic none (.user 1) [Builtin.int])
      .empty).run.run s).1.map (fun _ => ()) = .error (.recursion "~T" maxSteps) := by
    decide +kernel
  obtain ⟨part, built, _⟩ := ok_of_any run
  exact ⟨declares, ⟨part, built⟩, error_of_map fails⟩

end Session
end HintCheck
