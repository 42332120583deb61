import HintCheck.Proofs.Classification
import HintCheck.Proofs.Faults
import HintCheck.Proofs.Nesting
import HintCheck.Proofs.Sessions

/-!
Replacing hints ends. Three limits bound how often a hint is replaced, an extension is opened and a
check is nested; no limit bounds how deep unions lead into each other, be it on the way to a
canonical form or in the argument of `type`. That depth is bounded by what the hints are made of, as
long as no hint lies inside itself by way of what variables are bound to and, in the argument of
`type`, of what extensions stand for. Where a hint does, replacing it goes on without end.
-/
namespace HintCheck

namespace Hint

open Relation (ReflTransGen TransGen)

variable {cat : Catalog} {subs : Substitutes} {ctx : Context} {R S : Hint → Hint → Prop} {h : Hint}

/-! ### Hints that lead to no union -/

/-- The hint stands for one class, with or without arguments. -/
def isPlain : Hint → Bool
  | cls _ | none _ | value _ _ => true
  | h => h.origin?.isSome

theorem notUnion_of_isPlain (isPlain : h.isPlain = true) : h.isUnion = false := by
  cases h with
  | subscription label origin args =>
    cases origin with
    | cls => rfl
    | form f =>
      simp only [isUnion, beq_eq_false_iff_ne, ne_eq]
      intro isUnion
      simp [Hint.isPlain, origin?, isUnion, Form.origin?] at isPlain
  | union => cases isPlain
  | _ => rfl

theorem notPlain_of_isTypeVar (isVariable : h.isTypeVar = true) : h.isPlain = false := by
  cases h <;> first | rfl | cases isVariable

theorem Opens.isPlain {x : Hint} (opens : Opens ctx h x) (isPlain : h.isPlain = true) :
    x.isPlain = true := by
  cases opens with
  | binding isVariable => simp [notPlain_of_isTypeVar isVariable] at isPlain
  | @qualified _ f _ isForm =>
    rcases f with ⟨_, form⟩
    cases form <;> simp_all [Hint.isPlain, origin?, Form.origin?, Form.isQualifier]
  | optional isForm | annotated isForm =>
    simp [Hint.isPlain, origin?, isForm, Form.origin?] at isPlain
  | upper | constraints | newType | enclosing => cases isPlain
  | superseded | builtin => rfl

/-- Nothing lies inside a hint that stands for one class. -/
theorem notEncloses_of_isPlain (stays : ∀ h x, R h x → h.isPlain = true → x.isPlain = true)
    (isPlain : h.isPlain = true) (m : Hint) : ¬ h.Encloses R Member m := by
  have moved {u : Hint} (moves : ReflTransGen R h u) : u.isPlain = true := by
    induction moves with
    | refl => exact isPlain
    | tail _ last ih => exact stays _ _ last ih
  rintro ⟨u, moves, isUnion, _⟩
  rw [notUnion_of_isPlain (moved moves)] at isUnion
  cases isUnion

theorem notCircular_of_isPlain (stays : ∀ h x, R h x → h.isPlain = true → x.isPlain = true)
    (isPlain : h.isPlain = true) : ¬ h.Circular R Member := by
  intro circular
  obtain ⟨m, encloses, _⟩ := TransGen.head'_iff.mp circular
  exact notEncloses_of_isPlain stays isPlain m encloses

theorem comes_of_isPlain (stays : ∀ h x, R h x → h.isPlain = true → x.isPlain = true)
    (isPlain : h.isPlain = true) {x : Hint} (comes : h.Comes R Member x) : x.isPlain = true := by
  induction comes with
  | refl => exact isPlain
  | tail _ last ih =>
    rcases last with moves | ⟨isUnion, _⟩
    · exact stays _ _ moves ih
    · rw [notUnion_of_isPlain ih] at isUnion
      cases isUnion

/-- The hint to start from is the hint itself, or stands for one class. -/
theorem placed_cases {start : Hint} (placed : h.placed cat ctx = .ok start) :
    start = h ∨ start.isPlain = true := by
  have ofTuple {inner : Hint} (origin : inner.origin? = some (.builtin .tuple)) :
      inner.isPlain = true := by
    cases inner <;> simp_all [isPlain, origin?]
  cases starts_of_placed placed with
  | itself => exact .inl rfl
  | anything | tuple | dict => exact .inr rfl
  | unpacked closed =>
    rcases closed with isTuple | ⟨c, rfl⟩
    · exact .inr (ofTuple isTuple)
    · exact .inr rfl

/-- A union lies inside itself only if one of its members does. -/
theorem Tracks.notCircular_union (tracks : Tracks ctx R S) {u : Hint} (isUnion : u.isUnion = true)
    (each : ∀ m ∈ u.args, ¬ m.Circular R S) : ¬ u.Circular R S := by
  intro circular
  obtain ⟨m, encloses, back⟩ := TransGen.head'_iff.mp circular
  refine each m ?_ (TransGen.tail' back encloses)
  obtain ⟨v, moves, member⟩ := encloses
  rcases moves.cases_head with rfl | ⟨x, first, _⟩
  · exact tracks.args member
  · exact (tracks.union isUnion first).elim

/-! ### Canonical forms and classification -/

/-- No hint that the hint comes to, by the replacements `R` and the members `S`, lies inside itself
by what a step can make of it. -/
def Clear (R S : Hint → Hint → Prop) (ctx : Context) (h : Hint) : Prop :=
  ∀ x, h.Comes R S x → ¬ x.Circular (Opens ctx) Member

theorem passes_clear (tracks : Tracks ctx R S) : Passes ctx (Clear R S ctx) (Clear R S ctx) where
  opens clear opens x comes := clear x (ReflTransGen.head (.inl (tracks.opens opens)) comes)
  member clear isUnion member x comes :=
    clear x (ReflTransGen.head (.inr (tracks.member ⟨isUnion, member⟩)) comes)
  weaken := id
  respelled := by
    intro u members each x comes
    obtain ⟨isUnion, args⟩ := isUnion_respelled u members
    rcases ReflTransGen.cases_head comes with rfl | ⟨m, first | member, further⟩
    · refine (tracks_opens ctx).notCircular_union isUnion fun m member => ?_
      exact each m (args ▸ member) m .refl
    · exact (tracks.union isUnion first).elim
    · exact each m (args ▸ tracks.args member) x further
  object := by
    intro x comes
    obtain ⟨c, rfl⟩ := tracks.comes_builtin comes
    exact notCircular_of_isPlain (fun _ _ => Opens.isPlain) rfl

theorem Clear.placed (stays : ∀ h x, R h x → h.isPlain = true → x.isPlain = true)
    (clear : h.Clear R Member ctx) {start : Hint} (placed : h.placed cat ctx = .ok start) :
    start.Clear R Member ctx := by
  rcases placed_cases placed with rfl | isPlain
  · exact clear
  · exact fun x comes => notCircular_of_isPlain (fun _ _ => Opens.isPlain)
      (comes_of_isPlain stays isPlain comes)

theorem Clear.canonical (tracks : Tracks ctx R S)
    (placed : ∀ start, h.placed cat ctx = .ok start → start.Clear R S ctx) :
    Ends (fun e => e.isEndless = false) (fun r => r.hint.Clear R S ctx) (h.canonical cat ctx) :=
  canonical_ends (passes_clear tracks) placed fun x clear => clear x .refl

theorem Clear.canonical_nested (tracks : Tracks ctx R S) (clear : h.Clear R S ctx) :
    Ends (fun e => e.isEndless = false) (fun r => r.hint.Clear R S ctx)
      (h.canonical cat ctx.nested) := by
  refine canonical_ends (passes_clear tracks).nested ?_ fun x clear circular => ?_
  · rintro start ⟨⟩
    exact clear
  · exact clear x .refl (circular.mono (fun _ _ => Opens.ofNested) fun _ _ => id)

theorem Yields.isPlain (stays : ∀ h x, R h x → h.isPlain = true → x.isPlain = true) (h x : Hint)
    (yields : Yields subs R h x) (isPlain : h.isPlain = true) : x.isPlain = true := by
  cases yields with
  | move becomes => exact stays h x becomes isPlain
  | substitute => cases isPlain

theorem Clear.classify (clear : h.Clear (Yields subs (Opens ctx)) Member ctx) :
    Ends (fun e => e.isEndless = false)
      (Classified.Holds cat (Clear (Yields subs (Opens ctx)) Member ctx))
      (h.classify cat subs ctx) := by
  have tracks : Tracks ctx (Yields subs (Opens ctx)) Member :=
    { tracks_yields cat subs ctx with
      member := id
      args := And.right }
  refine holds_classifyWithin (fun _ => id) ?_
    (fun clear found x comes => clear x (.head (.inl (.substitute found)) comes)) _ clear
  rintro place (rfl | rfl) h clear
  · exact Clear.canonical tracks fun _ placed =>
      clear.placed (Yields.isPlain fun _ _ => Opens.isPlain) placed
  · exact clear.canonical_nested tracks

/-! ### Arguments of `type` -/

/-- Classification leaves the members of unions as deep as they were. -/
theorem NestsWithin.classify {n : Nat}
    (nests : h.NestsWithin (Yields subs (Opens ctx)) (SpelledMember cat) n) :
    Ends (fun e => e.isEndless = false)
      (Classified.Holds cat (NestsWithin (Yields subs (Opens ctx)) (SpelledMember cat) n))
      (h.classify cat subs ctx.nested) := by
  have tracks := tracks_yields cat subs ctx
  refine holds_classifyWithin (fun _ => id) ?_ (fun nests found => nests.move (.substitute found))
    _ nests
  intro place isPlace h nests
  obtain rfl : place = ctx.nested := by rcases isPlace with rfl | rfl <;> rfl
  have positive : 0 < n := by
    cases n with
    | zero => cases nests
    | succ n => exact Nat.succ_pos n
  have clear : h.Clear (Yields subs (Opens ctx)) (SpelledMember cat) ctx :=
    fun x comes circular => (nests.comes comes).notCircular
      (circular.mono (fun _ _ => .move) fun _ _ => tracks.member)
  have kept : Ends (fun e => n ≤ h.nestingBound ctx.nested → e.isEndless = false)
      (fun r => r.hint.NestsWithin (Yields subs (Opens ctx)) (SpelledMember cat) n)
      (h.canonical cat ctx.nested) :=
    canonicalWithin_nests tracks.nested positive (by rintro start ⟨⟩; exact nests) _
  exact ((clear.canonical_nested tracks).and kept).mono (fun _ excused => excused.1)
    fun _ holds => holds.2

end Hint

/-- What is classified as a union is spelled as one, and what is classified as a type of classes is
spelled as that. -/
theorem Classified.Of.spelled {cat : Catalog} {h : Hint} {c : Classified} (of : c.Of cat h)
    (sign : c.sign = .union ∨ c.sign = .type) : h.sign? cat = some c.sign := by
  rcases of.sign with spelled | other | other | other
  · exact spelled
  all_goals rcases sign with isUnion | isType <;> simp_all

open Hint in
/-- Where unions are nested within the bound, all tests that the argument of `type` asks for are
found. -/
theorem Reading.subclassTests_ends {m : Type → Type} [Monad m] (r : Reading m) (ctx : Context)
    {n bound : Nat} {h : Hint}
    (nests : h.NestsWithin (Yields r.substitutes (Opens ctx)) (SpelledMember r.catalog) n)
    (enough : n ≤ bound) :
    Settles (fun e => e.isEndless = false) (r.subclassTests ctx bound h) := by
  induction bound generalizing n h with
  | zero =>
    obtain rfl := Nat.le_zero.mp enough
    cases nests
  | succ bound ih =>
    rw [subclassTests]
    refine nests.classify.bind fun c holds => ?_
    have children (isUnion : c.sign = .union) : ∀ x ∈ c.children,
        Settles (fun e => e.isEndless = false) (r.subclassTests ctx bound x) := by
      cases holds with
      | annotated => cases isUnion
      | plain of nests =>
        intro x isChild
        obtain ⟨k, rfl⟩ : ∃ k, n = k + 1 := by
          cases n with
          | zero => cases nests
          | succ k => exact ⟨k, rfl⟩
        have spelled := of.spelled (.inl isUnion)
        rw [isUnion] at spelled
        exact ih (nests.member ⟨.inr spelled, of.children x isChild⟩) (by omega)
    exact r.settles_subclassTestsOf (fun _ _ _ => ⟨rfl, rfl⟩) children

/-! ### Generic classes -/

namespace Hint

open Relation (ReflTransGen TransGen)

/-- What a hint may be replaced by where the check of `root` is built: a type parameter stands for
any argument that the class is given on the way. -/
inductive Becomes (cat : Catalog) (subs : Substitutes) (ctx : Context) (root : Hint) :
    Hint → Hint → Prop
  | opens {h x : Hint} (opens : Opens ctx h x) : Becomes cat subs ctx root h x
  | argument {y h : Hint} {k : ClassId} {pair : Hint × Hint}
    (reached : root.Reaches cat subs ctx y) (origin : y.origin? = some k)
    (given : pair ∈ (cat.get k).typeParams.zip y.args) (isVariable : h.isTypeVar = true)
    (same : pair.1.isSame h = true) : Becomes cat subs ctx root h pair.2

/-- No hint lies inside itself where the check of `root` is built: not by what variables are bound
to, and in the argument of `type` not by what extensions stand for either. -/
structure Grounded (cat : Catalog) (subs : Substitutes) (ctx : Context) (root : Hint) : Prop where
  bindings : ∀ y, root.Reaches cat subs ctx y → ¬ y.Circular (Becomes cat subs ctx root) Member
  types : ∀ y, root.Reaches cat subs ctx y → y.sign? cat = some .type → ∀ a ∈ y.args, ∀ x,
    a.Comes (Yields subs (Becomes cat subs ctx root)) (SpelledMember cat) x →
      ¬ x.Circular (Yields subs (Becomes cat subs ctx root)) (SpelledMember cat)

variable {cat : Catalog} {subs : Substitutes} {ctx : Context} {root : Hint}

/-- What the construction of the check of `root` needs to know of each hint on the way. -/
structure Sound (cat : Catalog) (subs : Substitutes) (ctx : Context) (h root : Hint) : Prop where
  clear : ¬ h.Circular (Becomes cat subs ctx root) Member
  types : h.sign? cat = some .type → ∀ a ∈ h.args, ∀ x,
    a.Comes (Yields subs (Becomes cat subs ctx root)) (SpelledMember cat) x →
      ¬ x.Circular (Yields subs (Becomes cat subs ctx root)) (SpelledMember cat)
  arguments : ∀ k, h.origin? = some k → ∀ pair ∈ (cat.get k).typeParams.zip h.args, ∀ v,
    v.isTypeVar = true → pair.1.isSame v = true → Becomes cat subs ctx root v pair.2

theorem Grounded.sound (grounded : root.Grounded cat subs ctx) {h : Hint}
    (reached : root.Reaches cat subs ctx h) : h.Sound cat subs ctx root where
  clear := grounded.bindings h reached
  types := grounded.types h reached
  arguments _ origin _ given _ isVariable same := .argument reached origin given isVariable same

theorem Becomes.isPlain (h x : Hint) (becomes : Becomes cat subs ctx root h x)
    (isPlain : h.isPlain = true) : x.isPlain = true := by
  cases becomes with
  | opens opens => exact opens.isPlain isPlain
  | argument _ _ _ isVariable => simp [notPlain_of_isTypeVar isVariable] at isPlain

theorem notUnion_of_isTypeVar {h : Hint} (isVariable : h.isTypeVar = true) :
    h.isUnion = false := by
  cases h <;> first | rfl | cases isVariable

theorem tracks_becomes : Tracks ctx (Becomes cat subs ctx root) Member where
  opens := .opens
  member := id
  args := And.right
  union := by
    rintro u x isUnion (opens | ⟨_, _, _, isVariable⟩)
    · exact (tracks_opens ctx).union isUnion ‹_›
    · simp [notUnion_of_isTypeVar isVariable] at isUnion
  builtin := by
    rintro b x (opens | ⟨_, _, _, isVariable⟩)
    · exact (tracks_opens ctx).builtin ‹_›
    · cases isVariable

/-- What is made in passing needs nothing more than its parts do. -/
theorem Made.sound {h : Hint} (made : h.Made) (parts : ∀ p ∈ h.parts, p.Sound cat subs ctx root) :
    h.Sound cat subs ctx root where
  clear := by
    cases isUnion : h.isUnion with
    | true =>
      rw [parts_union isUnion] at parts
      exact tracks_becomes.notCircular_union isUnion fun m member => (parts m member).clear
    | false =>
      refine notCircular_of_isPlain Becomes.isPlain ?_
      cases made with
      | union | typing => cases isUnion
      | _ => rfl
  types := by
    intro isType
    have generics {b : Builtin} {args : List Hint}
        (other : b.hasSign (fun sign => sign != .type) = true) :
        (generic Option.none b args).sign? cat ≠ some .type := by
      obtain ⟨sign, spelled, different⟩ := sign?_generic cat other Option.none args
      rw [spelled]
      rintro ⟨⟩
      cases different
    cases made with
    | union => cases isType
    | typing =>
      rw [Hint.typing, sign?_subscription Option.none (.form _) _ (SpecialForm.noBracket _)
        (sign_of_union rfl (by decide))] at isType
      cases isType
    | tuple => exact (generics (by decide +kernel) isType).elim
    | dict => exact (generics (by decide +kernel) isType).elim
    | _ => exact fun a member => by cases member
  arguments := by
    intro k origin pair given
    obtain ⟨b, rfl⟩ := made.isBuiltin (.inr origin)
    cases given

/-- All that the hint leads to is known to be sound. -/
abbrev Secure (cat : Catalog) (subs : Substitutes) (ctx : Context) (root h : Hint) : Prop :=
  ∀ y, h.Reaches cat subs ctx y → y.Sound cat subs ctx root

theorem hereditary_secure : Hereditary cat subs (Secure cat subs ctx root) :=
  hereditary_reaches fun _ made parts => made.sound parts

end Hint

open Hint

/-- The context is one that the check of `root` is built in. -/
structure Context.Serves (cat : Catalog) (subs : Substitutes) (ctx : Context) (root : Hint)
    (place : Context) : Prop where
  keeps : place.Keeps (Secure cat subs ctx root)
  opens : ∀ h x, Opens place h x → Becomes cat subs ctx root h x

namespace Context.Serves

variable {cat : Catalog} {subs : Substitutes} {ctx place : Context} {root h : Hint}

theorem start (cat : Catalog) (subs : Substitutes) (ctx : Context) (root : Hint) :
    Serves cat subs ctx root ctx :=
  ⟨keeps_reaches, fun _ _ => .opens⟩

theorem nested (serves : Serves cat subs ctx root place) :
    Serves cat subs ctx root place.nested :=
  ⟨serves.keeps.nested, fun h x opens => serves.opens h x opens.ofNested⟩

/-- Binding the type parameters of a class on the way leads to nothing new. -/
theorem bindAll (serves : Serves cat subs ctx root place) {c : Classified}
    (holds : c.Holds cat (Secure cat subs ctx root))
    {k : ClassId} {pairs : List (Hint × Hint)} {supers : List Hint}
    (data : c.data = .generic k pairs supers) :
    Serves cat subs ctx root (place.bindAll pairs) where
  keeps := serves.keeps.bindAll (hereditary_secure.ofArguments holds data)
  opens := by
    intro h x opens
    cases opens with
    | binding isVariable bound =>
      rcases binding?_bindAll bound with ⟨pair, member, rfl, same⟩ | before
      · cases holds with
        | annotated => cases data
        | plain of holds =>
          obtain ⟨_, _, rfl | ⟨origin, rfl⟩⟩ := of.generic _ _ _ data
          · cases member
          · exact (holds _ .refl).arguments k origin pair member h isVariable same
      · exact serves.opens _ _ (.binding isVariable before)
    | upper free => exact serves.opens _ _ (.upper (free_bindAll free))
    | constraints free => exact serves.opens _ _ (.constraints (free_bindAll free))
    | enclosing isSelf innermost =>
      rw [classes_bindAll] at innermost
      exact serves.opens _ _ (.enclosing isSelf innermost)
    | newType => exact serves.opens _ _ .newType
    | qualified isQualifier => exact serves.opens _ _ (.qualified isQualifier)
    | optional isOptional => exact serves.opens _ _ (.optional isOptional)
    | annotated isAnnotated => exact serves.opens _ _ (.annotated isAnnotated)
    | superseded origin => exact serves.opens _ _ (.superseded origin)
    | builtin notUnion b => exact serves.opens _ _ (.builtin notUnion b)

/-- Every hint on the way is classified, or breaks a rule. -/
theorem classify (serves : Serves cat subs ctx root place)
    (secure : Secure cat subs ctx root h) :
    Ends (fun e => e.isEndless = false) (Classified.Holds cat (Secure cat subs ctx root))
      (h.classify cat subs place) := by
  have canonical {place : Context} (serves : Serves cat subs ctx root place) {h : Hint}
      (secure : Secure cat subs ctx root h) :
      Ends (fun e => e.isEndless = false) (fun r => Secure cat subs ctx root r.hint)
        (h.canonical cat place) :=
    canonical_ends (hereditary_secure.passes serves.keeps)
      (fun _ placed => hereditary_secure.ofPlaced secure placed)
      fun x secure circular => (secure x .refl).clear (circular.mono serves.opens fun _ _ => id)
  refine holds_classifyWithin (fun _ => id) ?_ hereditary_secure.substitute _ secure
  rintro _ (rfl | rfl) h secure
  · exact canonical serves secure
  · exact canonical serves.nested secure

/-- The argument of `type` is nested as deep as its bound says. -/
theorem nestsWithin {b : Builder} (serves : Serves b.catalog b.substitutes ctx root place)
    {c : Classified} (holds : c.Holds b.catalog (Secure b.catalog b.substitutes ctx root))
    (isType : c.sign = .type) {a : Hint} (isChild : a ∈ c.children) :
    a.NestsWithin (Yields b.substitutes (Opens place)) (SpelledMember b.catalog)
      (b.unionBound place a) := by
  have yields : ∀ h x, Yields b.substitutes (Opens place) h x →
      Yields b.substitutes (Becomes b.catalog b.substitutes ctx root) h x := by
    rintro h x (opens | found)
    · exact .move (serves.opens h x ‹_›)
    · exact .substitute found
  cases holds with
  | annotated => cases isType
  | plain of secure =>
    have spelled := of.spelled (.inr isType)
    rw [isType] at spelled
    have types := (secure _ .refl).types spelled a (of.children a isChild)
    refine nestsWithin_of_clear (growsBy_yields (growsBy_opens place) b.substitutes)
      (tracks_yields b.catalog b.substitutes place).shrinks (fun x comes circular => ?_) ?_
    · exact types x (Relation.ReflTransGen.mono (fun h x => Or.imp_left (yields h x)) _ _ comes)
        (circular.mono yields fun _ _ => id)
    · simp only [Builder.unionBound, foldl_depth, nestingBound, totalDepth_append]
      omega

end Context.Serves

/-! ### Checks -/

namespace Reading

variable {m : Type → Type} (r : Reading m) {ctx place : Context} {root h : Hint} {sense : Sense m}
  {c : Classified}

/-- The hints on the way to the check of `root` are read to the end. -/
def ReadsToEnd (ctx : Context) (root : Hint) (sense : Sense m) : Prop :=
  ∀ place c, Context.Serves r.catalog r.substitutes ctx root place →
    c.Holds r.catalog (Secure r.catalog r.substitutes ctx root) →
      Settles (fun e => e.isEndless = false) (sense place c)

theorem ReadsToEnd.inside {r : Reading m} (reads : r.ReadsToEnd ctx root sense)
    (serves : Context.Serves r.catalog r.substitutes ctx root place)
    (secure : Secure r.catalog r.substitutes ctx root h) :
    Settles (fun e => e.isEndless = false) (r.inside sense place h) :=
  (serves.nested.classify secure).bind fun c holds => reads place.nested c serves.nested holds

theorem ReadsToEnd.shape [Monad m] {r : Reading m} (reads : r.ReadsToEnd ctx root sense) :
    r.ReadsToEnd ctx root (r.shape sense) := by
  intro place c serves holds
  refine r.settles_shape (fun _ _ _ => ⟨rfl, rfl⟩) (fun h isChild => ?children)
    (fun _ inner data => ?inner) (fun isType h isChild => ?tests)
    (fun _ _ _ data base isBase => ?bases) (fun _ _ _ data entry isField => ?fields)
  case children => exact reads.inside serves (hereditary_secure.ofChildren holds h isChild)
  case inner => exact reads place inner serves (Hereditary.ofInner holds data)
  case tests =>
    exact r.subclassTests_ends place (serves.nestsWithin holds isType isChild) (Nat.le_refl _)
  case bases =>
    exact reads.inside (serves.bindAll holds data)
      (hereditary_secure.ofSupers holds data base isBase)
  case fields =>
    exact reads.inside (serves.bindAll holds data)
      (hereditary_secure.ofBoundFields holds data entry isField)

variable [Monad m]

/-- The meaning of a hint on the way is read to the end. -/
theorem readsToEnd_meaningWithin (ctx : Context) (root : Hint) (room : Nat) :
    r.ReadsToEnd ctx root (r.meaningWithin room) := by
  induction room with
  | zero => exact fun _ _ _ _ => rfl
  | succ room ih => exact ih.shape

theorem readsToEnd_meaning (ctx : Context) (root : Hint) : r.ReadsToEnd ctx root r.meaning :=
  r.readsToEnd_meaningWithin ctx root (maxNesting + 1)

end Reading

/-! ### Hints that lie inside themselves -/

/-- A variable that is bound to an option of itself has no canonical form within any bound. -/
theorem Hint.canonicalWithin_option {cat : Catalog} {ctx : Context} {label : Nat} {name : String}
    {variance : Variance} {upper : Option Hint} {constraints : List Hint}
    (bound : ctx.binding? (typeVar label name variance upper constraints) =
      some (typing Option.none .optional [typeVar label name variance upper constraints]))
    (position : ∀ kind, ctx.position ≠ .param kind) (n : Nat) :
    (typeVar label name variance upper constraints).canonicalWithin cat n ctx =
      .error (.endless (text cat (typeVar label name variance upper constraints))) := by
  induction n generalizing ctx with
  | zero => rfl
  | succ n ih =>
    have inside := @ih ctx.nested bound nofun
    generalize isVariable : typeVar label name variance upper constraints = t at *
    have notVariadic : ctx.position.isVariadic = false := by
      cases isPosition : ctx.position with
      | param kind => exact (position kind isPosition).elim
      | _ => rfl
    have placed : t.placed cat ctx = .ok t :=
      placed_of_notUnpack notVariadic (by subst isVariable; rintro ⟨⟩)
    have first : t.step cat ctx (canonicalWithin cat n ctx.nested) =
        .ok ⟨some (typing Option.none .optional [t]), []⟩ := by
      subst isVariable
      simp only [step, typeVarMeaning, bound]
    have second : (typing Option.none .optional [t]).step cat ctx
        (canonicalWithin cat n ctx.nested) =
        .ok ⟨some (typing Option.none .union [t, none Option.none]), []⟩ := rfl
    have third : (typing Option.none .union [t, none Option.none]).step cat ctx
        (canonicalWithin cat n ctx.nested) = .error (.endless (t.text cat)) := by
      have flat : flattenAll (typing Option.none .union [t, none Option.none]).args =
          [t, none Option.none] := by
        subst isVariable
        rfl
      rw [step_union ctx rfl, stepUnion, flat]
      simp only [unionForms, inside]
      rfl
    rw [canonicalWithin_succ, placed]
    dsimp only [bind, Except.bind]
    obtain ⟨steps, limit⟩ := exists_maxSteps
    rw [limit, iterate_succ, first]
    dsimp only [bind, Except.bind]
    rw [iterate_succ, second]
    dsimp only [bind, Except.bind]
    rw [iterate_succ, third]
    rfl

/-- A union whose first member is the extension. -/
def Classified.isUnionWith (label : Nat) (shown : String) (c : Classified) : Bool :=
  match c.sign, c.children with
  | .union, extension first text :: _ => first == label && text == shown
  | _, _ => false

theorem Classified.isUnionWith_cases {c : Classified} {label : Nat} {shown : String}
    (isUnion : c.isUnionWith label shown = true) :
    c.sign = .union ∧ ∃ rest, c.children = extension label shown :: rest := by
  unfold isUnionWith at isUnion
  split at isUnion
  · next _ rest isSign isChildren =>
    obtain ⟨rfl, rfl⟩ : _ ∧ _ := by simpa using isUnion
    exact ⟨isSign, rest, isChildren⟩
  · cases isUnion

/-- The tests of `type` are found within no bound for an extension that stands for a union of which
it is the first member itself. -/
theorem Builder.subclassTargets_union {b : Builder} {ctx : Context} {label : Nat} {shown : String}
    {c : Classified}
    (classified : (extension label shown).classify b.catalog b.substitutes ctx.nested = .ok c)
    (isUnion : c.isUnionWith label shown = true)
    (pith : String) (bound : Nat) (scope : Scope) :
    (Building.outcome (b.subclassTargets ctx pith bound (extension label shown)) scope).1 =
      .error (.endless shown) := by
  obtain ⟨isSign, rest, isMember⟩ := Classified.isUnionWith_cases isUnion
  induction bound generalizing scope with
  | zero => rfl
  | succ bound ih =>
    have first := ih scope
    rw [subclassTargets, classify, classified, Building.outcome_bind]
    dsimp only [ofExcept, Building.outcome_pure]
    rw [isSign, isMember]
    dsimp only
    rw [List.mapM_cons, Building.outcome_bind, Building.outcome_bind]
    rcases run : Building.outcome (b.subclassTargets ctx pith bound (extension label shown)) scope
      with ⟨failed | _, after⟩ <;> rw [run] at first <;> cases first
    rfl

/-! ### Sessions -/

namespace Session

variable {h : Hint} {scope : Scope} {names : Naming}

/-- Replacing hints ends with a result or with a hint that breaks a rule or a limit, unless a hint
lies inside itself: canonical forms are found unless one does by what variables are bound to, hints
are classified unless what extensions stand for leads to one that does, and checks are built unless
one does by what type parameters stand for on the way or, in the argument of `type`, by what
extensions stand for. -/
theorem replacement_ends (s : Session) (ctx : Context) (wellKept : scope.WellKept)
    (named : h.WellNamed names) (grown : s.cache.Grown names s.catalog s.substitutes)
    (pith : String) :
    (h.Clear (Opens ctx) Member ctx →
      ∀ shown, h.canonical s.catalog ctx ≠ .error (.endless shown)) ∧
    (h.Clear (Yields s.substitutes (Opens ctx)) Member ctx →
      ∀ shown, ((classify ctx h).run.run s).1 ≠ .error (.endless shown)) ∧
    (h.Grounded s.catalog s.substitutes ctx →
      ∀ shown, ((buildCheck ctx pith h scope).run.run s).1 ≠ .error (.endless shown)) := by
  refine ⟨fun clear shown failed => ?_, fun clear shown failed => ?_,
    fun grounded shown failed => ?_⟩
  · have ends : Ends (fun e => e.isEndless = false) _ (h.canonical s.catalog ctx) :=
      Clear.canonical (tracks_opens ctx) fun _ placed =>
        clear.placed (fun _ _ => Opens.isPlain) placed
    rw [failed] at ends
    cases ends
  · have ends : Ends (fun e => e.isEndless = false) _ (h.classify s.catalog s.substitutes ctx) :=
      clear.classify
    have outcome := grown.faithful.outcome named s.nextLabel ctx
    rw [classify_run] at failed
    rcases kept : s.cache.classify s.catalog s.substitutes s.nextLabel ctx h with e | result <;>
      rw [kept] at failed outcome <;> cases failed
    rw [outcome.error_left] at ends
    cases ends
  · let r : Reading Id := ⟨⟨s.catalog, s.substitutes, ctx.conf⟩, s.catalog, 0, fun _ => none⟩
    let o : Oracle Id := ⟨s.catalog, 0, fun _ => none⟩
    have suits : o.Suits r scope := ⟨rfl, rfl, fun _ _ _ => rfl⟩
    have reader : r.toBuilder = ⟨s.catalog, s.substitutes, ctx.conf⟩ := rfl
    have performs := buildCheck_performs reader suits wellKept named grown pith
    have secure : Secure s.catalog s.substitutes ctx h h := fun _ reached => grounded.sound reached
    have serves := Context.Serves.start s.catalog s.substitutes ctx h
    have ends := (serves.classify secure).bind fun c holds =>
      r.readsToEnd_meaning ctx h ctx c serves holds
    rw [failed] at performs
    rw [performs.error_left] at ends
    cases ends

/-- An extension that stands for a union with itself does no harm outside the argument of `type`:
how deep its check is nested is limited. -/
theorem replacement_ends_union :
    let union := Hint.typing none .union
      [.extension 0 "E", .generic none Builtin.type [Builtin.int]]
    let s := { start with substitutes := [(0, union)] }
    let ctx := Context.bare .standard
    Grounded s.catalog s.substitutes ctx (.extension 0 "E") ∧ ∀ shown,
      ((buildCheck ctx "obj" (.extension 0 "E") .empty).run.run s).1 ≠ .error (.endless shown) := by
  intro union s ctx
  have clear (x : Hint) : ¬ x.Circular (Opens ctx) Member := by
    refine notCircular_of_depth (P := fun _ => True) (fun y z _ opens => ?_)
      (fun u m _ member => ?_) trivial
    · rcases growsBy_opens ctx y z opens with isTarget | le
      · cases isTarget
      · exact ⟨trivial, le⟩
    · exact ⟨trivial, (tracks_opens ctx).shrinks u m member⟩
  have opens (root y z : Hint) (becomes : Becomes s.catalog s.substitutes ctx root y z) :
      Opens ctx y z := by
    have noParams (k : ClassId) : (s.catalog.get k).typeParams = [] := by cases k <;> rfl
    cases becomes with
    | opens opens => exact opens
    | argument _ _ given =>
      rw [noParams] at given
      cases given
  have reached {y : Hint} (reaches : Reaches s.catalog s.substitutes ctx (.extension 0 "E") y) :
      y ∈ [.extension 0 "E", union, .generic none Builtin.type [Builtin.int], Builtin.int] := by
    induction reaches with
    | refl => simp
    | @tail y z _ leads ih =>
      simp only [List.mem_cons, List.not_mem_nil, or_false] at ih ⊢
      rcases ih with rfl | rfl | rfl | rfl
      · cases leads with
        | substitute found => cases found; exact .inr (.inl rfl)
        | _ => simp_all [parts, isTypeVar, class?, origin?]
      · have member := leads.of_made (.typing _)
        simp only [Hint.typing, parts, List.mem_cons, List.not_mem_nil, or_false] at member
        rcases member with rfl | rfl
        · exact .inl rfl
        · exact .inr (.inr (.inl rfl))
      · rcases leads with member | isVariable | _ | _ | ⟨named, declared⟩
        · exact .inr (.inr (.inr (List.mem_singleton.mp member)))
        · cases isVariable
        · rcases named with named | named <;> cases named
          rw [s.catalog.declarations_builtin] at declared
          cases declared
      · cases leads.of_made (.builtin _)
  have grounded : Grounded s.catalog s.substitutes ctx (.extension 0 "E") := by
    have tracks := tracks_yields s.catalog s.substitutes ctx
    have yields (y z : Hint)
        (yields :
          Yields s.substitutes (Becomes s.catalog s.substitutes ctx (.extension 0 "E")) y z) :
        Yields s.substitutes (Opens ctx) y z := by
      cases yields with
      | move becomes => exact .move (opens _ y z becomes)
      | substitute found => exact .substitute found
    refine ⟨fun y _ circular => ?_, fun y reaches isType a isArg x comes circular => ?_⟩
    · exact clear y (circular.mono (opens _) fun _ _ => id)
    · have member := reached reaches
      simp only [List.mem_cons, List.not_mem_nil, or_false] at member
      rcases member with rfl | rfl | rfl | rfl
      · cases isArg
      · exact absurd isType (by decide +kernel)
      · obtain rfl := List.mem_singleton.mp isArg
        obtain ⟨c, rfl⟩ := tracks.comes_builtin
          (Relation.ReflTransGen.mono (fun y z => Or.imp_left (yields y z)) _ _ comes)
        exact (tracks.nests_builtin c 0).notCircular (circular.mono yields fun _ _ => id)
      · cases isArg
  refine ⟨grounded, ?_⟩
  have named : WellNamed ⟨fun _ => .extension 0 "E", fun _ => .instanceOf []⟩
      (.extension 0 "E") :=
    .intro (fun _ _ => rfl) (fun _ _ same => by cases same) fun _ member => by cases member
  exact (replacement_ends s ctx Scope.wellKept_empty named .empty "obj").2.2 grounded

/-- A variable that is bound to an option of itself has no canonical form, however deep unions may
be nested; nor are there tests of `type` for an extension that stands for a union with itself. -/
theorem replacement_endless :
    (let t := Hint.typeVar 0 "T" .invariant none []
      let ctx := (Context.bare .standard).bind t (.typing none .optional [t])
      ∀ bound, t.canonicalWithin start.catalog bound ctx = .error (.endless "~T")) ∧
    (let e := Hint.extension 0 "E"
      let b : Builder := ⟨start.catalog, [(0, .typing none .union [e, Builtin.int])], .standard⟩
      ∀ bound scope, (Building.outcome
        (b.subclassTargets (.bare .standard) "obj" bound e) scope).1 = .error (.endless "E")) := by
  refine ⟨canonicalWithin_option rfl (by rintro _ ⟨⟩), ?_⟩
  intro e b bound scope
  have classified :
      ((e.classify b.catalog b.substitutes (Context.bare .standard).nested).toOption.any
        (Classified.isUnionWith 0 "E")) = true := by decide +kernel
  obtain ⟨c, isClassified, isUnion⟩ := ok_of_any classified
  exact Builder.subclassTargets_union isClassified isUnion "obj" bound scope

end Session
end HintCheck
