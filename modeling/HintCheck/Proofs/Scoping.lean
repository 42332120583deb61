import Mathlib.Logic.Relation
import HintCheck.Proofs.Classification
import HintCheck.Proofs.Rendering

/-!
Scopes of type variables. Variables are read where their binding is used, not where it was made, so
a hint means what its substitution means only if variables keep apart: what the arguments of a class
lead to must be none of its own parameters, and a class must not mention variables of others.
-/
namespace HintCheck

open Relation (ReflTransGen)

/-- What the check of a hint is built from. -/
structure Setting where
  catalog : Catalog
  substitutes : Substitutes
  names : Naming
  /-- The values that stand in hints. -/
  values : Value → Prop
  context : Context
  root : Hint

namespace Setting

variable (S : Setting)

/-- The variable may stand for the hint where the check is built: it is bound so from the start, or
a class on the way is given the hint for it. -/
inductive Given : Hint → Hint → Prop
  | binding {v z : Hint} (bound : S.context.binding? v = some z) : Given v z
  | argument {y v : Hint} {k : ClassId} {pair : Hint × Hint}
    (reached : S.root.Reaches S.catalog S.substitutes S.context y) (origin : y.origin? = some k)
    (given : pair ∈ (S.catalog.get k).typeParams.zip y.args) (same : pair.1.isSame v = true) :
    Given v pair.2

/-- The second variable stands in what the first may stand for, perhaps by way of others. -/
def Flows : Hint → Hint → Prop :=
  ReflTransGen fun v w => ∃ z, S.Given v z ∧ z.Mentions w

/-- The hints read in the place of a hint that are none of its arguments: what variables and new
types are declared with, what extensions stand for, and the bases of a class that is given no
arguments. -/
inductive Aside : Hint → Hint → Prop
  | declared {h d : Hint} (none : h.args = []) (member : d ∈ h.parts) : Aside h d
  | substitute {label : Nat} {shown : String} {d : Hint}
    (found : S.substitutes.lookup label = some d) : Aside (.extension label shown) d
  | base {h d : Hint} {k : ClassId} (named : h.class? = some k)
    (member : d ∈ (S.catalog.get k).genericBases) : Aside h d

/-- Nothing is given for any variable in the hint. -/
def Idle (h : Hint) : Prop :=
  ∀ v, h.Mentions v → ∀ z, ¬ S.Given v z

/-- Variables keep to their scopes at the hint. -/
structure Scoped (y : Hint) : Prop where
  named : y.WellNamed S.names
  /-- What the arguments lead to is none of the parameters. -/
  apart : ∀ k, y.origin? = some k → ∀ a ∈ y.args, ∀ v w, a.Mentions v → S.Flows v w →
    ∀ p ∈ (S.catalog.get k).typeParams, p.isSame w = false
  /-- A class mentions its own parameters, and no variable that is given anything elsewhere. -/
  own : ∀ k, y.origin? = some k →
    ∀ d ∈ S.catalog.body k ((S.catalog.get k).typeParams.zip y.args), ∀ v, d.Mentions v →
      (∃ p ∈ (S.catalog.get k).typeParams, p.isSame v = true) ∨ ∀ z, ¬ S.Given v z
  aside : ∀ d, S.Aside y d → S.Idle d
  /-- The members of literals are no variables. -/
  literal : y.sign? S.catalog = some .literal → ∀ a ∈ y.args, a.isTypeVar = false
  value : ∀ label v, y = .value label v → v.OrDots S.values

/-- Variables keep to their scopes at the hint, and its arguments are known. -/
structure Orderly (y : Hint) : Prop extends S.Scoped y where
  arguments : ∀ k, y.origin? = some k → ∀ pair ∈ (S.catalog.get k).typeParams.zip y.args, ∀ v,
    pair.1.isSame v = true → S.Given v pair.2

/-- Variables keep to their scopes wherever the hint leads. -/
abbrev Tidy (h : Hint) : Prop :=
  ∀ y, h.Reaches S.catalog S.substitutes S.context y → S.Orderly y

end Setting

open Hint

namespace Setting

variable {S : Setting} {h : Hint}

theorem tidy_root (each : ∀ y, S.root.Reaches S.catalog S.substitutes S.context y → S.Scoped y) :
    S.Tidy S.root :=
  fun y reached => { each y reached with
    arguments := fun _ origin _ given _ same => .argument reached origin given same }

/-- What is made in passing needs nothing more than its parts do. -/
theorem orderly_of_made (made : h.Made) (parts : ∀ p ∈ h.parts, S.Orderly p) : S.Orderly h := by
  have generics {b : Builtin} {args : List Hint}
      (other : b.hasSign (fun sign => sign != .literal) = true) :
      (generic Option.none b args).sign? S.catalog ≠ some .literal := by
    obtain ⟨sign, spelled, different⟩ := sign?_generic S.catalog other Option.none args
    rw [spelled]
    rintro ⟨⟩
    cases different
  refine ⟨⟨?named, ?apart, ?own, ?aside, ?literal, ?value⟩, ?arguments⟩
  case named =>
    exact made.wellNamed fun p member => (parts p member).named
  case apart =>
    intro k origin a _ v w _ _ p isParam
    obtain ⟨b, rfl⟩ := made.isBuiltin (.inr origin)
    cases isParam
  case own =>
    intro k origin d declared
    obtain ⟨b, rfl⟩ := made.isBuiltin (.inr origin)
    rw [Catalog.body, Builder.boundFields, S.catalog.allAnnotations_builtin] at declared
    cases declared
  case aside =>
    rintro d (⟨none, member⟩ | _ | ⟨named, member⟩)
    · have isArg : d ∈ h.args := by
        cases made <;> exact member
      rw [none] at isArg
      cases isArg
    · cases made
    · obtain ⟨b, rfl⟩ := made.isBuiltin (.inl named)
      cases member
  case literal =>
    intro isLiteral
    cases made with
    | union => cases isLiteral
    | typing =>
      rw [Hint.typing, sign?_subscription Option.none (.form _) _ (SpecialForm.noBracket _)
        (sign_of_union rfl (by decide))] at isLiteral
      cases isLiteral
    | tuple => exact (generics (by decide +kernel) isLiteral).elim
    | dict => exact (generics (by decide +kernel) isLiteral).elim
    | _ => exact fun a member => by cases member
  case value =>
    rintro label v rfl
    cases made
    exact .inl rfl
  case arguments =>
    intro k origin pair given
    obtain ⟨b, rfl⟩ := made.isBuiltin (.inr origin)
    cases given

theorem hereditary_tidy : Hereditary S.catalog S.substitutes S.Tidy :=
  hereditary_reaches fun _ made parts => orderly_of_made made parts

theorem Tidy.orderly (tidy : S.Tidy h) : S.Orderly h :=
  tidy h .refl

theorem Tidy.arg (tidy : S.Tidy h) {a : Hint} (member : a ∈ h.args) : S.Tidy a :=
  hereditary_tidy.ofArgs tidy a member

theorem Tidy.variable (tidy : S.Tidy h) {v : Hint} (mentions : h.Mentions v) : S.Tidy v := by
  induction mentions with
  | itself => exact tidy
  | inside member _ ih => exact ih (tidy.arg member)

theorem Tidy.holds (tidy : S.Tidy h) : h.WithValues (Value.OrDots S.values) := by
  induction h using induction_parts with
  | step h ih =>
    exact .intro tidy.orderly.value fun a member =>
      ih a (mem_parts_of_mem_args member) (tidy.arg member)

end Setting

/-! ### Bindings -/

namespace Context

theorem binding?_bind_eq (ctx : Context) (t h v : Hint) :
    (ctx.bind t h).binding? v = if t.isSame v then some h else ctx.binding? v := by
  unfold bind isSame
  cases named : t.id? with
  | none => rfl
  | some id =>
    cases other : v.id? with
    | none => simp [binding?, other]
    | some key =>
      simp only [binding?, other, Option.bind_some, List.lookup_cons]
      cases same : key == id with
      | true => simp [beq_iff_eq.mp same]
      | false =>
        rw [BEq.comm] at same
        simp [same]

/-- The parameters are found as they were bound last, other variables as before. -/
theorem binding?_bindAll_eq (ctx : Context) (pairs : List (Hint × Hint)) (v : Hint) :
    (ctx.bindAll pairs).binding? v = (givenBy pairs v).or (ctx.binding? v) := by
  have started : ctx.binding? v = ctx.nested.binding? v := rfl
  rw [started]
  unfold bindAll
  generalize ctx.nested = acc
  induction pairs generalizing acc with
  | nil => rfl
  | cons pair rest ih =>
    rw [List.foldl_cons, ih, binding?_bind_eq, givenBy]
    cases givenBy rest v with
    | some a => rfl
    | none => cases pair.1.isSame v <;> rfl

theorem bindAll_eq (ctx : Context) (pairs : List (Hint × Hint)) :
    ∃ entries, (∀ entry ∈ entries, ∃ pair ∈ pairs, entry.2 = pair.2) ∧
      ctx.bindAll pairs = { ctx.nested with bindings := entries ++ ctx.bindings } := by
  have started : ctx.bindings = ctx.nested.bindings := rfl
  rw [started]
  unfold bindAll
  generalize ctx.nested = acc
  induction pairs generalizing acc with
  | nil => exact ⟨[], by simp, rfl⟩
  | cons pair rest ih =>
    obtain ⟨entries, each, same⟩ := ih (acc.bind pair.1 pair.2)
    rw [List.foldl_cons, same]
    have onward : ∀ entry ∈ entries, ∃ other ∈ pair :: rest, entry.2 = other.2 := by
      intro entry member
      obtain ⟨other, inRest, isOther⟩ := each entry member
      exact ⟨other, List.mem_cons_of_mem _ inRest, isOther⟩
    unfold bind
    cases pair.1.id? with
    | none => exact ⟨entries, onward, rfl⟩
    | some id =>
      refine ⟨entries ++ [(id, pair.2)], fun entry member => ?_, by simp⟩
      rcases List.mem_append.mp member with inEntries | isNew
      · exact onward entry inEntries
      · exact ⟨pair, by simp, by rw [List.mem_singleton.mp isNew]⟩

theorem named_bindAll {names : Naming} {ctx : Context}
    (named : ∀ entry ∈ ctx.bindings, entry.2.WellNamed names) {pairs : List (Hint × Hint)}
    (arguments : ∀ pair ∈ pairs, pair.2.WellNamed names) :
    ∀ entry ∈ (ctx.bindAll pairs).bindings, entry.2.WellNamed names := by
  obtain ⟨entries, each, same⟩ := ctx.bindAll_eq pairs
  rw [same]
  intro entry member
  rcases List.mem_append.mp member with isNew | isOld
  · obtain ⟨pair, inPairs, isPair⟩ := each entry isNew
    rw [isPair]
    exact arguments pair inPairs
  · exact named entry isOld

/-- Binding variables leads from contexts for the same place to contexts for the same place. -/
theorem Counterparts.bindAll {names : Naming} {bound plain : Context}
    (counterparts : bound.Counterparts names plain) {pairs others : List (Hint × Hint)}
    (arguments : ∀ pair ∈ pairs, pair.2.WellNamed names)
    (argumentsToo : ∀ pair ∈ others, pair.2.WellNamed names) :
    (bound.bindAll pairs).Counterparts names (plain.bindAll others) := by
  have named := named_bindAll counterparts.named arguments
  have namedToo := named_bindAll counterparts.namedToo argumentsToo
  obtain ⟨_, _, same⟩ := bound.bindAll_eq pairs
  obtain ⟨_, _, sameToo⟩ := plain.bindAll_eq others
  rw [same] at named ⊢
  rw [sameToo] at namedToo ⊢
  exact ⟨counterparts.module, counterparts.classes, counterparts.locals, named, namedToo⟩

/-- The variables that are looked up when the hint is read here. -/
inductive Reads (ctx : Context) : Hint → Hint → Prop
  | here {h v : Hint} (mentions : h.Mentions v) : Reads ctx h v
  | onward {h w z v : Hint} (mentions : h.Mentions w) (bound : ctx.binding? w = some z)
    (reads : Reads ctx z v) : Reads ctx h v

theorem Reads.mono {ctx : Context} {h x v : Hint} (reads : ctx.Reads x v)
    (mentions : ∀ w, x.Mentions w → h.Mentions w) : ctx.Reads h v := by
  cases reads with
  | here here => exact .here (mentions v here)
  | onward here bound reads => exact .onward (mentions _ here) bound reads

theorem Reads.exists_arg {ctx : Context} {h v : Hint} (reads : ctx.Reads h v)
    (notVariable : h.isTypeVar = false) : ∃ a ∈ h.args, ctx.Reads a v := by
  rcases reads with here | ⟨here, bound, reads⟩
  · obtain ⟨a, member, here⟩ := here.exists_arg notVariable
    exact ⟨a, member, .here here⟩
  · obtain ⟨a, member, here⟩ := here.exists_arg notVariable
    exact ⟨a, member, .onward here bound reads⟩

end Context

namespace Setting

variable (S : Setting) (given : Hint → Option Hint) (bound plain : Context)

/-- The variable is bound in the one context to what replaces it in the other, or to hints in both
of which the one renders the other. -/
structure Mirrors (v : Hint) : Prop where
  replaced : ∀ a, given v = some a →
    bound.binding? v = some a ∧ a.Fills ∧ ∀ w, a.Mentions w → given w = Option.none
  kept : given v = Option.none →
    Option.Rel (Renders given) (bound.binding? v) (plain.binding? v)

/-- Contexts for the same place: in the first, variables are bound that are replaced in the hints
that are read in the second. -/
structure Paired : Prop extends bound.Counterparts S.names plain where
  keeps : bound.Keeps S.Tidy
  known : ∀ v z, bound.binding? v = some z → S.Given v z
  knownToo : ∀ v a, given v = some a → S.Given v a
  fewer : ∀ v, bound.binding? v = Option.none → plain.binding? v = Option.none

/-- Variables keep to their scopes at the hint, and all that are looked up are mirrored. -/
structure Ready (h : Hint) : Prop where
  tidy : S.Tidy h
  mirrors : ∀ v, bound.Reads h v → Mirrors given bound plain v

variable {S given bound plain} {h x : Hint}

theorem Ready.ofMentions (ready : S.Ready given bound plain h) (tidy : S.Tidy x)
    (mentions : ∀ w, x.Mentions w → h.Mentions w) : S.Ready given bound plain x :=
  ⟨tidy, fun v reads => ready.mirrors v (reads.mono mentions)⟩

theorem Ready.arg (ready : S.Ready given bound plain h) {a : Hint} (member : a ∈ h.args) :
    S.Ready given bound plain a :=
  ready.ofMentions (ready.tidy.arg member) fun _ => .inside member

/-- A hint is read by way of its arguments. -/
theorem Ready.ofArgs (tidy : S.Tidy h) (notVariable : h.isTypeVar = false)
    (each : ∀ a ∈ h.args, S.Ready given bound plain a) : S.Ready given bound plain h where
  tidy := tidy
  mirrors v reads := by
    obtain ⟨a, member, reads⟩ := reads.exists_arg notVariable
    exact (each a member).mirrors v reads

namespace Paired

variable (paired : S.Paired given bound plain)
include paired

/-- A variable that is given nothing is free in both contexts. -/
theorem mirrors_of_idle {v : Hint} (idle : ∀ z, ¬ S.Given v z) :
    given v = Option.none ∧ bound.binding? v = Option.none ∧
      Mirrors given bound plain v := by
  have isKept : given v = Option.none :=
    Option.eq_none_iff_forall_ne_some.mpr fun a same => idle a (paired.knownToo v a same)
  have isFree : bound.binding? v = Option.none :=
    Option.eq_none_iff_forall_ne_some.mpr fun z same => idle z (paired.known v z same)
  refine ⟨isKept, isFree, fun a isGiven => ?_, fun _ => ?_⟩
  · rw [isKept] at isGiven
    cases isGiven
  · rw [isFree, paired.fewer v isFree]
    exact .none

/-- A hint whose variables are given nothing reads alike in both contexts. -/
theorem ready_of_idle (tidy : S.Tidy h) (idle : S.Idle h) : S.Ready given bound plain h where
  tidy := tidy
  mirrors := by
    rintro v (mentions | ⟨mentions, isBound, _⟩)
    · exact (paired.mirrors_of_idle (idle v mentions)).2.2
    · rw [(paired.mirrors_of_idle (idle _ mentions)).2.1] at isBound
      cases isBound

theorem renders_of_idle (idle : S.Idle h) : Renders given h h :=
  renders_self fun v mentions => (paired.mirrors_of_idle (idle v mentions)).1

/-- A class reads alike in all contexts. -/
theorem ready_class {c : ClassId} (tidy : S.Tidy (cls c)) : S.Ready given bound plain (cls c) :=
  paired.ready_of_idle tidy fun v mentions => by
    obtain ⟨a, member, _⟩ := mentions.exists_arg rfl
    cases member

/-- What a hint opens to is read as the hint is. -/
theorem ready_opens (ready : S.Ready given bound plain h) (opens : Opens bound h x) :
    S.Ready given bound plain x := by
  have tidy : S.Tidy x := hereditary_tidy.ofOpens paired.keeps ready.tidy opens
  have aside {d : Hint} (tidy : S.Tidy d) (none : h.args = []) (member : d ∈ h.parts) :
      S.Ready given bound plain d :=
    paired.ready_of_idle tidy (ready.tidy.orderly.aside d (.declared none member))
  cases opens with
  | binding isVariable isBound =>
    exact ⟨tidy, fun v reads => ready.mirrors v (.onward (.itself isVariable) isBound reads)⟩
  | upper | newType => exact aside tidy rfl (by simp [parts])
  | constraints =>
    exact Ready.ofArgs tidy rfl fun a member => aside (tidy.arg member) rfl member
  | qualified | annotated => exact ready.arg (by simp [args])
  | optional =>
    refine Ready.ofArgs tidy rfl fun a member => ?_
    rcases List.mem_cons.mp member with rfl | isNone
    · exact ready.arg (by simp [args])
    · obtain rfl := List.mem_singleton.mp isNone
      exact Ready.ofArgs (tidy.arg member) rfl fun _ member => by cases member
  | superseded => exact Ready.ofArgs tidy rfl fun a member => ready.arg member
  | enclosing | builtin => exact paired.ready_class tidy

/-- Canonical forms are read as the hints that they belong to. -/
theorem passes : Passes bound (S.Ready given bound plain) (S.Ready given bound plain) where
  opens := paired.ready_opens
  member ready _ member := ready.arg member
  weaken := id
  respelled := by
    intro u members each
    obtain ⟨isUnion, args⟩ := isUnion_respelled u members
    refine Ready.ofArgs ?_ ?_ fun a member => each a (args ▸ member)
    · exact (hereditary_tidy.passes paired.keeps).respelled fun m member => (each m member).tidy
    · unfold respelled
      split <;> rfl
  object := paired.ready_class (hereditary_tidy.ofBuiltin .object)

end Paired
end Setting

end HintCheck
