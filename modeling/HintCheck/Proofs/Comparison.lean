import HintCheck.Proofs.Faults
import HintCheck.Proofs.Sessions

/-!
Comparing two readers of hints. Readers that know the same classes and references put the tests of a
hint together in the same way, whatever their configurations. So a relation between verdicts that is
kept where verdicts are combined holds of the two tests of a hint, if it holds where the readers
differ: of the classes that a check starts from, and of the items that it selects.
-/
namespace HintCheck

/-! ### Verdicts and tests -/

section Verdicts
variable {ε : Type} {L : Except ε Bool → Except ε Bool → Prop} {P : Value → Prop}

/-- The relation is kept where verdicts are combined. -/
structure Compatible (L : Except ε Bool → Except ε Bool → Prop) : Prop where
  refl : ∀ x, L x x
  both : ∀ {a a' : Except ε Bool} {b b' : Unit → Except ε Bool}, L a a' → L (b ()) (b' ()) →
    L (Check.both a b) (Check.both a' b')
  either : ∀ {a a' b b' : Except ε Bool}, L a a' → L b b' →
    L (do if ← a then pure true else b) (do if ← a' then pure true else b')

/-- A test of some items behind one verdict compares with a test of other items behind another, if
the tests of the latter items do. -/
def Selects {α : Type} (L : Except ε Bool → Except ε Bool → Prop) (a b : Bool)
    (items others : List α) : Prop :=
  ∀ test other : α → Except ε Bool, (∀ x ∈ others, L (test x) (other x)) →
    L (Check.both (pure a) fun _ => Check.allOf test items)
      (Check.both (pure b) fun _ => Check.allOf other others)

namespace Test

/-- The verdicts of the tests are related on the given values. -/
def Compare (L : Except ε Bool → Except ε Bool → Prop) (P : Value → Prop)
    (t u : Test (Except ε)) : Prop :=
  ∀ v, P v → L (t v) (u v)

theorem compare_getD (compatible : Compatible L) {t u : Option (Test (Except ε))}
    (compare : Option.Rel (Compare L P) t u) : Compare L P (t.getD pass) (u.getD pass) := by
  intro v holds
  cases compare with
  | none => exact compatible.refl _
  | some compare => exact compare v holds

theorem compare_anyOf (compatible : Compatible L) {ts us : List (Test (Except ε))}
    (each : ts.Forall₂ (Compare L P) us) : Compare L P (anyOf ts) (anyOf us) := by
  intro v holds
  induction each with
  | nil => exact compatible.refl _
  | cons head _ ih => exact compatible.either (head v holds) ih

theorem compare_allOf (compatible : Compatible L) {ts us : List (Test (Except ε))}
    (each : ts.Forall₂ (Compare L P) us) : Compare L P (allOf ts) (allOf us) := by
  intro v holds
  unfold allOf
  induction each with
  | nil => exact compatible.refl _
  | cons head _ ih => exact compatible.both (head v holds) ih

theorem compare_filterMap {ts us : List (Option (Test (Except ε)))}
    (each : ts.Forall₂ (Option.Rel (Compare L P)) us) :
    (ts.filterMap id).Forall₂ (Compare L P) (us.filterMap id) := by
  induction each with
  | nil => exact .nil
  | cons head _ ih =>
    cases head with
    | none => exact ih
    | some compare => exact .cons compare ih

theorem compare_positions (compatible : Compatible L) {ts us : List (Option (Test (Except ε)))}
    (each : ts.Forall₂ (Option.Rel (Compare L P)) us) {v : Value}
    (items : ∀ index x, v.at? index = some x → P x) (index : Nat) :
    L (positions v index ts) (positions v index us) := by
  induction each generalizing index with
  | nil => exact compatible.refl _
  | cons head _ ih =>
    refine compatible.both ?_ (ih (index + 1))
    cases found : v.at? index with
    | some x => exact compare_getD compatible head x (items index x found)
    | none => exact compatible.refl _

end Test
end Verdicts

/-! ### Items -/

namespace Value

/-- What is found at a position is the item that iteration yields there. -/
theorem items_of_at? {v x : Value} {index : Nat} (found : v.at? index = some x) :
    v.len? = some v.items.length ∧ v.items[index]? = some x := by
  unfold at? at found
  unfold len? items
  split at found
  case h_4 s isText =>
    rw [isText]
    exact ⟨by simp [String.length_toList], by rw [List.getElem?_map]; exact found⟩
  case h_5 bs isBytes =>
    rw [isBytes]
    exact ⟨by simp, by rw [List.getElem?_map]; exact found⟩
  case h_6 => cases found
  all_goals
    next isSequence =>
      rw [isSequence]
      exact ⟨rfl, found⟩

theorem mem_items_of_at? {v x : Value} {index : Nat} (found : v.at? index = some x) :
    x ∈ v.items :=
  List.mem_of_getElem? (items_of_at? found).2

theorem at?_of_sample? {v x : Value} {random : UInt32} (found : v.sample? random = some x) :
    ∃ len, v.len? = some len ∧ v.at? (sampleIndex random len) = some x := by
  unfold sample? at found
  obtain ⟨len, isLength, found⟩ := Option.bind_eq_some_iff.mp found
  split at found
  · exact ⟨len, isLength, found⟩
  · cases found

theorem mem_items_of_sample? {v x : Value} {random : UInt32} (found : v.sample? random = some x) :
    x ∈ v.items := by
  obtain ⟨_, _, there⟩ := at?_of_sample? found
  exact mem_items_of_at? there

/-- The first item is the one that iteration yields first. -/
theorem head?_of_first? {v x : Value} (found : v.first? = some x) : v.items.head? = some x := by
  unfold first? at found
  split at found
  · next pairs isDict =>
    simp only [items, isDict]
    rw [List.head?_map]
    exact found
  · next isSet =>
    simp only [items, isSet]
    exact found
  · next isSet =>
    simp only [items, isSet]
    exact found
  · rw [List.head?_eq_getElem?]
    exact (items_of_at? found).2

theorem mem_items_of_first? {v x : Value} (found : v.first? = some x) : x ∈ v.items :=
  List.mem_of_mem_head? (head?_of_first? found)

end Value

namespace Reading

variable {m : Type → Type} (r : Reading m) {v x : Value}

theorem mem_items_of_sampled (member : x ∈ r.sampledItems v) : x ∈ v.items := by
  unfold sampledItems at member
  split at member
  · exact member
  · exact Value.mem_items_of_sample? (Option.mem_toList.mp member)

theorem mem_items_of_first (member : x ∈ r.firstItems v) : x ∈ v.items := by
  unfold firstItems at member
  split at member
  · exact member
  · exact Value.mem_items_of_first? (Option.mem_toList.mp member)

theorem mem_pairs_of_first {pair : Value × Value} (member : pair ∈ r.firstPairs v) :
    pair ∈ v.pairs?.getD [] := by
  unfold firstPairs at member
  dsimp only at member
  split at member
  · exact member
  · exact List.mem_of_mem_take member

end Reading

/-! ### Contexts and configurations -/

namespace Context

/-- The same place under another configuration. -/
def configured (ctx : Context) (conf : Config) : Context :=
  { ctx with conf }

theorem readsAlike_configured (ctx : Context) (conf : Config) :
    ctx.ReadsAlike (ctx.configured conf) :=
  ⟨fun _ => .rfl, rfl, rfl⟩

theorem nested_configured (ctx : Context) (conf : Config) :
    (ctx.configured conf).nested = ctx.nested.configured conf := rfl

theorem bind_configured (ctx : Context) (conf : Config) (typeVar h : Hint) :
    (ctx.configured conf).bind typeVar h = (ctx.bind typeVar h).configured conf := by
  unfold bind
  cases typeVar.id? <;> rfl

theorem bindAll_configured (ctx : Context) (conf : Config) (pairs : List (Hint × Hint)) :
    (ctx.configured conf).bindAll pairs = (ctx.bindAll pairs).configured conf := by
  unfold bindAll
  rw [nested_configured]
  generalize ctx.nested = acc
  induction pairs generalizing acc with
  | nil => rfl
  | cons pair rest ih => rw [List.foldl_cons, List.foldl_cons, bind_configured, ih]

end Context

theorem Reference.ofHint?_configured (ctx : Context) (conf : Config) (h : Hint) :
    Reference.ofHint? (ctx.configured conf) h = Reference.ofHint? ctx h := by
  cases h <;> rfl

/-! ### Readers -/

namespace Reading

open Building (Alike)
open Test (Compare)

variable {ε : Type} {L : Except ε Bool → Except ε Bool → Prop} {P : Value → Prop}
  {Good : Context → Classified → Prop} {one two : Reading (Except ε)}

/-- The readers know the same classes and references. -/
structure Agrees (one two : Reading (Except ε)) : Prop where
  catalog : one.catalog = two.catalog
  world : one.world = two.world
  substitutes : one.substitutes = two.substitutes
  resolve : one.resolve = two.resolve

/-- The verdicts of the readers compare where they can differ: on the values `P`, which include the
values inside, and for the classified hints `Good`, which include the hints inside. -/
structure Compares (L : Except ε Bool → Except ε Bool → Prop) (P : Value → Prop)
    (Good : Context → Classified → Prop) (one two : Reading (Except ε)) : Prop
    extends Agrees one two where
  compatible : Compatible L
  item : ∀ {v x : Value}, P v → x ∈ v.items → P x
  pair : ∀ {v : Value} {pair : Value × Value}, P v → pair ∈ v.pairs?.getD [] → P pair.1 ∧ P pair.2
  attr : ∀ {v a : Value} {name : String}, P v → two.world.attr? v name = some a → P a
  inner : ∀ {ctx : Context} {c inner : Classified} {validators : List Validator}, Good ctx c →
    c.data = .annotated validators inner → Good ctx inner
  part : ∀ {ctx near : Context} {c d : Classified} {h : Hint}, Good ctx c →
    c.Part one.toBuilder ctx near h → h.classify one.catalog one.substitutes near = .ok d →
      Good near d
  origin : ∀ (k : ClassId) {v : Value}, P v →
    L (one.instanceOf (Builder.widened one.conf k) v)
      (two.instanceOf (Builder.widened two.conf k) v)
  sampled : ∀ {ctx : Context} {c : Classified} {k : ClassId} {v : Value}, Good ctx c →
    c.sign.isIn .sequence = true → c.children ≠ [] → c.origin = some k → P v →
      Selects L (one.world.isInstanceOfAny v (Builder.widened one.conf k))
        (two.world.isInstanceOfAny v (Builder.widened two.conf k)) (one.sampledItems v)
        (two.sampledItems v)
  first : ∀ (k : ClassId) {v : Value}, P v →
    Selects L (one.world.isInstanceOfAny v (Builder.widened one.conf k))
      (two.world.isInstanceOfAny v (Builder.widened two.conf k)) (one.firstItems v)
      (two.firstItems v)
  pairs : ∀ (k : ClassId) {v : Value}, P v →
    Selects L (one.world.isInstanceOfAny v (Builder.widened one.conf k))
      (two.world.isInstanceOfAny v (Builder.widened two.conf k)) (one.firstPairs v)
      (two.firstPairs v)

/-- Whatever the verdicts are, the readers have tests for the same hints. -/
theorem Agrees.compares (agrees : Agrees one two) :
    Compares (fun _ _ => True) (fun _ => True) (fun _ _ => True) one two where
  toAgrees := agrees
  compatible := ⟨fun _ => trivial, fun _ _ => trivial, fun _ _ => trivial⟩
  item _ _ := trivial
  pair _ _ := ⟨trivial, trivial⟩
  attr _ _ := trivial
  inner _ _ := trivial
  part _ _ _ := trivial
  origin _ _ _ := trivial
  sampled _ _ _ _ _ := fun _ _ _ => trivial
  first _ _ _ := fun _ _ _ => trivial
  pairs _ _ _ := fun _ _ _ => trivial

variable {sense other : Sense (Except ε)} {ctx near : Context} {conf : Config} {c : Classified}

theorem Agrees.instanceOf (agrees : Agrees one two) (classes : List ClassId) :
    one.instanceOf classes = two.instanceOf classes := by
  unfold Reading.instanceOf
  rw [agrees.world]

theorem Agrees.reference (agrees : Agrees one two) (conf : Config) (h : Hint) :
    one.reference ctx h = two.reference (ctx.configured conf) h := by
  unfold Reading.reference
  rw [Reference.ofHint?_configured, agrees.catalog]

theorem Agrees.classify (agrees : Agrees one two) (conf : Config) (ctx : Context) (h : Hint) :
    h.classify one.catalog one.substitutes ctx =
      h.classify two.catalog two.substitutes (ctx.configured conf) := by
  rw [agrees.catalog, agrees.substitutes, Hint.classify_alike (ctx.readsAlike_configured conf)]

theorem Agrees.subclassTests (agrees : Agrees one two) (conf : Config) (bound : Nat) (h : Hint) :
    one.subclassTests ctx bound h = two.subclassTests (ctx.configured conf) bound h := by
  induction bound generalizing h with
  | zero => rw [Reading.subclassTests, Reading.subclassTests, agrees.catalog]
  | succ bound ih =>
    have subclass (k : ClassId) : one.subclassOf k = two.subclassOf k := by
      unfold Reading.subclassOf
      rw [agrees.world]
    have reference (ref : Reference) : one.referenceSubclass ref = two.referenceSubclass ref := by
      unfold Reading.referenceSubclass
      rw [agrees.world, agrees.resolve]
    rw [Reading.subclassTests, Reading.subclassTests, agrees.classify conf,
      Context.nested_configured]
    refine congrArg _ (funext fun c => ?_)
    unfold Reading.subclassTestsOf
    rw [funext ih, Context.nested_configured, ← agrees.reference conf]
    simp only [subclass, reference]

/-- Both readers look at the same tests of classes as values. -/
theorem Agrees.classValue (agrees : Agrees one two) (conf : Config) (c : Classified) :
    one.classValue ctx c = two.classValue (ctx.configured conf) c := by
  have bound (h : Hint) : one.unionBound ctx h = two.unionBound (ctx.configured conf) h := by
    unfold Builder.unionBound
    rw [agrees.substitutes]
    rfl
  unfold Reading.classValue
  simp only [bound, agrees.subclassTests conf, agrees.instanceOf]

theorem alike_members {member others : Hint → Except HintError (Option (Test (Except ε)))}
    {hints : List Hint}
    (each : ∀ h ∈ hints, Alike (Option.Rel (Compare L P)) (member h) (others h))
    (previous : Option Hint) :
    Alike (Option.Rel (List.Forall₂ (Compare L P))) (members member previous hints)
      (members others previous hints) := by
  induction hints generalizing previous with
  | nil => exact Option.Rel.some .nil
  | cons h rest ih =>
    rw [List.forall_mem_cons] at each
    unfold members
    split
    · exact ih each.2 previous
    · refine each.1.bind fun t u compare => ?_
      cases compare with
      | none => exact Option.Rel.none
      | some compare =>
        refine (ih each.2 (some h)).bind fun ts us rest => ?_
        cases rest with
        | none => exact Option.Rel.none
        | some rest => exact Option.Rel.some (.cons compare rest)

/-- Hints inside are read by tests that compare. -/
def SensesCompare (L : Except ε Bool → Except ε Bool → Prop) (P : Value → Prop)
    (Good : Context → Classified → Prop) (conf : Config) (sense other : Sense (Except ε)) : Prop :=
  ∀ ctx c, Good ctx c →
    Alike (Option.Rel (Compare L P)) (sense ctx c) (other (ctx.configured conf) c)

namespace Compares

variable (compares : Compares L P Good one two) (senses : SensesCompare L P Good conf sense other)
  (good : Good ctx c)
include compares

theorem originClasses (c : Classified) :
    Alike (fun classes more => ∃ k, c.origin = some k ∧ classes = Builder.widened one.conf k ∧
      more = Builder.widened two.conf k) (one.originClasses c) (two.originClasses c) := by
  unfold Reading.originClasses
  rw [compares.catalog]
  cases c.origin with
  | none => exact rfl
  | some k => exact ⟨k, rfl, rfl, rfl⟩

include senses good

theorem inside {h : Hint} (part : c.Part one.toBuilder ctx near.nested h) :
    Alike (Option.Rel (Compare L P)) (one.inside sense near h)
      (two.inside other (near.configured conf) h) := by
  unfold Reading.inside
  rw [Context.nested_configured, ← compares.classify conf near.nested h]
  cases classified : h.classify one.catalog one.substitutes near.nested with
  | error e => exact rfl
  | ok d => exact senses near.nested d (compares.part good part classified)

theorem tuple :
    Alike (Option.Rel (Compare L P)) (one.tuple sense ctx c)
      (two.tuple other (ctx.configured conf) c) := by
  refine (compares.originClasses c).bind ?_
  rintro _ _ ⟨k, _, rfl, rfl⟩
  have children : ∀ h ∈ c.children, Alike (Option.Rel (Compare L P)) (one.inside sense ctx h)
      (two.inside other (ctx.configured conf) h) :=
    fun h isChild => compares.inside senses good (.child isChild)
  refine (Alike.mapM _ children).bind fun items others each => Option.Rel.some fun v holds => ?_
  have shape (a n : Bool) :
      (pure (a && n) : Except ε Bool) = Check.both (pure a) fun _ => pure n := by
    cases a <;> rfl
  rw [shape, shape]
  refine compares.compatible.both (compares.compatible.both (compares.origin k holds) ?_) ?_
  · exact compares.compatible.refl _
  · exact Test.compare_positions compares.compatible each
      (fun index x found => compares.item holds (Value.mem_items_of_at? found)) 0

theorem container {select fewer : Value → List Value}
    (among : ∀ v x, x ∈ fewer v → x ∈ v.items)
    (selects : ∀ k v, c.children ≠ [] → c.origin = some k → P v →
      Selects L (one.world.isInstanceOfAny v (Builder.widened one.conf k))
        (two.world.isInstanceOfAny v (Builder.widened two.conf k)) (select v) (fewer v)) :
    Alike (Option.Rel (Compare L P)) (one.container sense ctx c select)
      (two.container other (ctx.configured conf) c fewer) := by
  refine (compares.originClasses c).bind ?_
  rintro _ _ ⟨k, isOrigin, rfl, rfl⟩
  cases children : c.children with
  | nil => exact Option.Rel.some fun v holds => compares.origin k holds
  | cons h _ =>
    refine (compares.inside senses good (.child (by simp [children]))).bind
      fun item others compare => Option.Rel.some fun v holds => ?_
    refine selects k v (by simp [children]) isOrigin holds _ _ fun x member => ?_
    exact Test.compare_getD compares.compatible compare x (compares.item holds (among v x member))

theorem mapping :
    Alike (Option.Rel (Compare L P)) (one.mapping sense ctx c)
      (two.mapping other (ctx.configured conf) c) := by
  refine (compares.originClasses c).bind ?_
  rintro _ _ ⟨k, _, rfl, rfl⟩
  have children : ∀ h ∈ c.children, Alike (Option.Rel (Compare L P)) (one.inside sense ctx h)
      (two.inside other (ctx.configured conf) h) :=
    fun h isChild => compares.inside senses good (.child isChild)
  have plain : Alike (Option.Rel (Compare L P))
      (.ok (some (one.instanceOf (Builder.widened one.conf k))))
      (.ok (some (two.instanceOf (Builder.widened two.conf k)))) :=
    Option.Rel.some fun v holds => compares.origin k holds
  match hints : c.children with
  | [keyHint, valueHint] =>
    refine (children keyHint (by simp [hints])).bind fun key otherKey ofKey => ?_
    refine (children valueHint (by simp [hints])).bind fun value otherValue ofValue => ?_
    refine Option.Rel.some fun v holds => compares.pairs k holds _ _ fun pair member => ?_
    obtain ⟨holdsKey, holdsValue⟩ := compares.pair holds (two.mem_pairs_of_first member)
    exact compares.compatible.both
      (Test.compare_getD compares.compatible ofKey pair.1 holdsKey)
      (Test.compare_getD compares.compatible ofValue pair.2 holdsValue)
  | [] | [_] | _ :: _ :: _ :: _ => exact plain

theorem field {name : String} {h : Hint} (part : c.Part one.toBuilder ctx near.nested h) :
    Alike (Option.Rel (Compare L P)) (one.field sense near (name, h))
      (two.field other (near.configured conf) (name, h)) := by
  refine (compares.inside senses good part).bind fun t u compare => ?_
  cases compare with
  | none => exact Option.Rel.none
  | some compare =>
    refine Option.Rel.some fun v holds => ?_
    unfold Reading.ofAttribute
    rw [compares.world]
    cases found : two.world.attr? v name with
    | none => exact compares.compatible.refl _
    | some a => exact compare a (compares.attr holds found)

theorem genericClass {k : ClassId} {substitutions : List (Hint × Hint)} {supers : List Hint}
    (data : c.data = .generic k substitutions supers) :
    Alike (Option.Rel (Compare L P)) (one.genericClass sense ctx k substitutions supers)
      (two.genericClass other (ctx.configured conf) k substitutions supers) := by
  have bases : ∀ h ∈ supers, Alike (Option.Rel (Compare L P))
      (one.inside sense (ctx.bindAll substitutions) h)
      (two.inside other ((ctx.bindAll substitutions).configured conf) h) :=
    fun h isBase => compares.inside senses good (.base data isBase)
  have fields : ∀ entry ∈ Builder.boundFields two.catalog k substitutions,
      Alike (Option.Rel (Compare L P)) (one.field sense (ctx.bindAll substitutions) entry)
        (two.field other ((ctx.bindAll substitutions).configured conf) entry) :=
    fun entry isField =>
      compares.field senses good (.field data (compares.catalog.symm ▸ isField))
  unfold Reading.genericClass
  rw [Context.bindAll_configured, compares.catalog]
  refine (Alike.mapM _ bases).bind fun _ _ ofBases => ?_
  refine (Alike.mapM _ fields).bind fun _ _ ofFields => Option.Rel.some fun v holds => ?_
  refine compares.compatible.both ?_ ?_
  · rw [compares.instanceOf]
    exact compares.compatible.refl _
  · exact Test.compare_allOf compares.compatible
      (List.rel_append (Test.compare_filterMap ofBases) (Test.compare_filterMap ofFields)) v holds

theorem shape :
    Alike (Option.Rel (Compare L P)) (one.shape sense ctx c)
      (two.shape other (ctx.configured conf) c) := by
  have same (t : Test (Except ε)) :
      Alike (Option.Rel (Compare L P)) (.ok (some t)) (.ok (some t)) :=
    Option.Rel.some fun _ _ => compares.compatible.refl _
  unfold Reading.shape
  rw [compares.catalog, compares.world]
  cases emitted : c.sign.strategy.emit with
  | pass => exact Option.Rel.none
  | fail => exact same _
  | isInstance | originOnly =>
    refine (compares.originClasses c).bind ?_
    rintro _ _ ⟨k, _, rfl, rfl⟩
    exact Option.Rel.some fun v holds => compares.origin k holds
  | union =>
    have children : ∀ h ∈ c.children, Alike (Option.Rel (Compare L P)) (one.inside sense ctx h)
        (two.inside other (ctx.configured conf) h) :=
      fun h isChild => compares.inside senses good (.child isChild)
    refine (alike_members children none).bind fun tests others each => ?_
    cases each with
    | none => exact Option.Rel.none
    | some each => exact Option.Rel.some (Test.compare_anyOf compares.compatible each)
  | literal => cases c.data <;> first | exact same _ | exact rfl
  | validators =>
    cases data : c.data with
    | annotated validators inner =>
      refine (senses ctx inner (compares.inner good data)).bind
        fun child others compare => Option.Rel.some fun v holds => ?_
      exact compares.compatible.both (Test.compare_getD compares.compatible compare v holds)
        (compares.compatible.refl _)
    | _ => exact rfl
  | tupleFixed => exact compares.tuple senses good
  | sequence =>
    have isSequence : c.sign.isIn .sequence = true := by rw [Sign.isIn, emitted]; rfl
    exact compares.container senses good (fun v x => two.mem_items_of_sampled)
      fun k v occupied isOrigin holds => compares.sampled good isSequence occupied isOrigin holds
  | reiterable =>
    exact compares.container senses good (fun v x => two.mem_items_of_first)
      fun k v _ _ holds => compares.first k holds
  | mapping => exact compares.mapping senses good
  | isSubclass =>
    dsimp only
    rw [compares.classValue conf]
    cases two.classValue (ctx.configured conf) c with
    | error e => exact rfl
    | ok t =>
      cases t with
      | none => exact Option.Rel.none
      | some t => exact same t
  | generic =>
    cases data : c.data with
    | generic k substitutions supers => exact compares.genericClass senses good data
    | _ => exact rfl
  | forwardRef =>
    dsimp only
    rw [compares.reference conf]
    have sameTest (ref : Reference) : one.referenceInstance ref = two.referenceInstance ref := by
      unfold Reading.referenceInstance
      rw [compares.world, compares.resolve]
    cases two.reference (ctx.configured conf) c.hint with
    | error e => exact rfl
    | ok ref => exact Option.Rel.some fun v _ => sameTest ref ▸ compares.compatible.refl _
  | typedDict => cases c.data <;> first | exact same _ | exact rfl
  | reduced => exact rfl

omit senses good in
/-- The tests that the two readers give a hint compare. -/
theorem meaningWithin (conf : Config) (room : Nat) :
    SensesCompare L P Good conf (one.meaningWithin room) (two.meaningWithin room) := by
  induction room with
  | zero =>
    intro ctx c _
    rw [Reading.meaningWithin, Reading.meaningWithin, compares.catalog]
    exact rfl
  | succ room ih => exact fun ctx c good => compares.shape ih good

end Compares
end Reading

/-! ### Checks -/

/-- The checks that two sessions build for a hint compare as their readers do. -/
theorem Session.buildCheck_compares {ε : Type} {L : Except ε Bool → Except ε Bool → Prop}
    {P : Value → Prop} {Good : Context → Classified → Prop} {one two : Reading (Except ε)}
    {o o' : Oracle (Except ε)} (compares : Reading.Compares L P Good one two) {s later : Session}
    {ctx : Context} {conf : Config} {h : Hint} {scope : Scope} {names : Naming}
    (reader : one.toBuilder = ⟨s.catalog, s.substitutes, ctx.conf⟩)
    (readerLater : two.toBuilder = ⟨later.catalog, later.substitutes, conf⟩)
    (suits : o.Suits one scope) (suitsLater : o'.Suits two scope) (wellKept : scope.WellKept)
    (named : h.WellNamed names) (grown : s.cache.Grown names s.catalog s.substitutes)
    (grownLater : later.cache.Grown names later.catalog later.substitutes)
    (good : ∀ c, h.classify s.catalog s.substitutes ctx = .ok c → Good ctx c)
    (pith other : String) :
    Building.Alike
      (fun built compared => ∀ v, P v → L (built.1.accepts o v) (compared.1.accepts o' v))
      ((buildCheck ctx pith h scope).run.run s).1
      ((buildCheck (ctx.configured conf) other h scope).run.run later).1 := by
  have meanings : Building.Alike (Option.Rel (Test.Compare L P))
      (do one.meaning ctx (← h.classify s.catalog s.substitutes ctx))
      (do
        let c ← h.classify later.catalog later.substitutes (ctx.configured conf)
        two.meaning (ctx.configured conf) c) := by
    have classified : h.classify s.catalog s.substitutes ctx =
        h.classify later.catalog later.substitutes (ctx.configured conf) := by
      have agrees := compares.classify conf ctx h
      rwa [reader, readerLater] at agrees
    rw [← classified]
    cases isFound : h.classify s.catalog s.substitutes ctx with
    | error e => exact rfl
    | ok c => exact compares.meaningWithin conf (maxNesting + 1) ctx c (good c isFound)
  have built := buildCheck_performs reader suits wellKept named grown pith
  have reads : two.toBuilder = ⟨later.catalog, later.substitutes, (ctx.configured conf).conf⟩ :=
    readerLater
  have builtLater := buildCheck_performs reads suitsLater wellKept named grownLater other
  refine ((built.trans meanings).trans builtLater.swap).mono ?_
  rintro _ _ ⟨u, ⟨t, performs, compare⟩, performsLater⟩ v holds
  rw [performs.accepts, performsLater.accepts]
  exact Test.compare_getD compares.compatible compare v holds

/-- The check of a hint is built under every configuration or under none. -/
theorem Session.buildCheck_configured {s later : Session} {ctx : Context} {conf : Config} {h : Hint}
    {scope : Scope} {names : Naming} (catalog : later.catalog = s.catalog)
    (substitutes : later.substitutes = s.substitutes) (wellKept : scope.WellKept)
    (named : h.WellNamed names) (grown : s.cache.Grown names s.catalog s.substitutes)
    (grownLater : later.cache.Grown names later.catalog later.substitutes) (pith other : String) :
    Building.Alike (fun _ _ => True) ((buildCheck ctx pith h scope).run.run s).1
      ((buildCheck (ctx.configured conf) other h scope).run.run later).1 := by
  let o : Oracle (Except Unit) := ⟨s.catalog, 0, fun _ => .error ()⟩
  let one : Reading (Except Unit) :=
    ⟨⟨s.catalog, s.substitutes, ctx.conf⟩, s.catalog, 0, fun _ => .error ()⟩
  let two : Reading (Except Unit) :=
    ⟨⟨later.catalog, later.substitutes, conf⟩, s.catalog, 0, fun _ => .error ()⟩
  have agrees : Reading.Agrees one two := ⟨catalog.symm, rfl, substitutes.symm, rfl⟩
  have suits : o.Suits one scope := ⟨rfl, rfl, fun _ _ _ => rfl⟩
  have suitsLater : o.Suits two scope := ⟨rfl, rfl, fun _ _ _ => rfl⟩
  exact (buildCheck_compares agrees.compares rfl rfl suits suitsLater wellKept named grown
    grownLater (fun _ _ => trivial) pith other).mono fun _ _ _ => trivial

end HintCheck
