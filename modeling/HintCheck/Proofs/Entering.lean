import HintCheck.Proofs.Scoping

/-!
Inside generic classes. A class that is given arguments binds its parameters to them, and the hints
of its body are read with the parameters bound. What is read there is a parameter, or something that
an argument leads to; so contexts that mirror each other outside do so inside.
-/
namespace HintCheck

open Hint

namespace Hint

theorem givenBy_eq_none {pairs : List (Hint × Hint)} {v : Hint} :
    givenBy pairs v = Option.none ↔ ∀ pair ∈ pairs, pair.1.isSame v = false := by
  induction pairs with
  | nil => simp [givenBy]
  | cons pair rest ih => simp [givenBy, ih, and_comm]

theorem givenBy_eq_some {pairs : List (Hint × Hint)} {v a : Hint}
    (found : givenBy pairs v = some a) : ∃ pair ∈ pairs, pair.1.isSame v = true ∧ pair.2 = a := by
  induction pairs with
  | nil => cases found
  | cons pair rest ih =>
    rw [givenBy, Option.or_eq_some_iff] at found
    rcases found with later | ⟨_, here⟩
    · obtain ⟨other, inRest, isOther⟩ := ih later
      exact ⟨other, List.mem_cons_of_mem _ inRest, isOther⟩
    · exact ⟨pair, by simp, by simpa using here⟩

/-- With an argument for each parameter, the variables that are given something are the
parameters. -/
theorem givenBy_zip_eq_none {params xs : List Hint} (length : params.length = xs.length)
    {v : Hint} :
    givenBy (params.zip xs) v = Option.none ↔ ∀ p ∈ params, p.isSame v = false := by
  have firsts : (params.zip xs).map Prod.fst = params :=
    List.map_fst_zip (Nat.le_of_eq length)
  rw [givenBy_eq_none]
  constructor
  · intro each p member
    rw [← firsts] at member
    obtain ⟨pair, inZip, rfl⟩ := List.mem_map.mp member
    exact each pair inZip
  · exact fun each pair inZip => each pair.1 (List.of_mem_zip inZip).1

theorem rel_givenBy {R : Hint → Hint → Prop} (params : List Hint) {xs ys : List Hint}
    (each : xs.Forall₂ R ys) (v : Hint) :
    Option.Rel R (givenBy (params.zip xs) v) (givenBy (params.zip ys) v) := by
  induction each generalizing params with
  | nil =>
    rw [List.zip_nil_right]
    exact .none
  | @cons x y xs ys head _ ih =>
    cases params with
    | nil => exact .none
    | cons p params =>
      simp only [List.zip_cons_cons, givenBy]
      have later := ih params
      revert later
      generalize givenBy (params.zip xs) v = found
      generalize givenBy (params.zip ys) v = other
      intro later
      cases later with
      | some related => exact .some related
      | none =>
        cases p.isSame v with
        | true => exact .some head
        | false => exact .none

end Hint

namespace Context

theorem Reads.step {ctx : Context} {h v z w : Hint} (reads : ctx.Reads h v)
    (bound : ctx.binding? v = some z) (mentions : z.Mentions w) : ctx.Reads h w := by
  induction reads with
  | here here => exact .onward here bound (.here mentions)
  | onward here isBound _ ih => exact .onward here isBound (ih bound)

theorem Reads.isTypeVar {ctx : Context} {h v : Hint} (reads : ctx.Reads h v) :
    v.isTypeVar = true := by
  induction reads with
  | here here => exact here.isTypeVar
  | onward _ _ _ ih => exact ih

/-- Binding parameters changes nothing for a hint that does not lead to them. -/
theorem Reads.ofBindAll {ctx : Context} {pairs : List (Hint × Hint)} {h v : Hint}
    (reads : (ctx.bindAll pairs).Reads h v)
    (away : ∀ w, ctx.Reads h w → givenBy pairs w = Option.none) : ctx.Reads h v := by
  induction reads with
  | here here => exact .here here
  | onward here isBound _ ih =>
    rw [binding?_bindAll_eq, away _ (.here here), Option.none_or] at isBound
    exact .onward here isBound (ih fun w reads => away w (.onward here isBound reads))

end Context

namespace Setting

variable {S : Setting}

theorem flows_of_reads {ctx : Context} (known : ∀ v z, ctx.binding? v = some z → S.Given v z)
    {h v : Hint} (reads : ctx.Reads h v) : ∃ w, h.Mentions w ∧ S.Flows w v := by
  induction reads with
  | here here => exact ⟨_, here, .refl⟩
  | onward here isBound _ ih =>
    obtain ⟨w, mentions, flows⟩ := ih
    exact ⟨_, here, .head ⟨_, known _ _ isBound, mentions⟩ flows⟩

theorem tidy_of_reads {ctx : Context} (keeps : ctx.Keeps S.Tidy) {h v : Hint}
    (reads : ctx.Reads h v) (tidy : S.Tidy h) : S.Tidy v := by
  induction reads with
  | here here => exact tidy.variable here
  | onward here isBound _ ih =>
    exact ih (keeps.binding (tidy.variable here) here.isTypeVar isBound)

section Entering
variable {y : Hint} {k : ClassId} {ctx : Context} (orderly : S.Orderly y)
  (origin : y.origin? = some k) (known : ∀ v z, ctx.binding? v = some z → S.Given v z)
include orderly origin known

/-- What is read of an argument is no parameter. -/
theorem apart_of_reads {a v : Hint} (member : a ∈ y.args) (reads : ctx.Reads a v) :
    ∀ p ∈ (S.catalog.get k).typeParams, p.isSame v = false := by
  obtain ⟨w, mentions, flows⟩ := flows_of_reads known reads
  exact orderly.apart k origin a member w v mentions flows

/-- Inside a class, its parameters are read, and what is read of its arguments. -/
theorem reads_body (length : (S.catalog.get k).typeParams.length = y.args.length) {d v : Hint}
    (member : d ∈ S.catalog.body k ((S.catalog.get k).typeParams.zip y.args))
    (reads : (ctx.bindAll ((S.catalog.get k).typeParams.zip y.args)).Reads d v) :
    (∃ p ∈ (S.catalog.get k).typeParams, p.isSame v = true) ∨ (∃ a ∈ y.args, ctx.Reads a v) ∨
      ∀ z, ¬ S.Given v z := by
  have own := orderly.own k origin d member
  rcases reads with mentions | ⟨mentions, isBound, reads⟩
  · exact (own v mentions).imp_right .inr
  · rw [Context.binding?_bindAll_eq, Option.or_eq_some_iff] at isBound
    rcases isBound with given | ⟨isFree, before⟩
    · obtain ⟨pair, inZip, _, rfl⟩ := givenBy_eq_some given
      have isArg := (List.of_mem_zip inZip).2
      refine .inr (.inl ⟨_, isArg, reads.ofBindAll fun w reads => ?_⟩)
      exact (givenBy_zip_eq_none length).mpr (apart_of_reads orderly origin known isArg reads)
    · rcases own _ mentions with ⟨p, isParam, same⟩ | idle
      · rw [(givenBy_zip_eq_none length).mp isFree p isParam] at same
        cases same
      · exact (idle _ (known _ _ before)).elim

end Entering

/-! ### Contexts inside generic classes -/

/-- What is replaced inside a class: its parameters are bound anew on both sides. -/
def outside (params : List Hint) (given : Hint → Option Hint) (v : Hint) : Option Hint :=
  if params.any fun p => p.isSame v then Option.none else given v

theorem outside_of_apart {params : List Hint} {given : Hint → Option Hint} {v : Hint}
    (apart : ∀ p ∈ params, p.isSame v = false) : outside params given v = given v := by
  rw [outside, if_neg]
  simpa using apart

variable {given : Hint → Option Hint} {bound plain : Context} {y : Hint} {k : ClassId}
  {args : List Hint}

section Inside
variable (paired : S.Paired given bound plain) (ready : S.Ready given bound plain y)
  (origin : y.origin? = some k)
  (length : (S.catalog.get k).typeParams.length = y.args.length)
  (renders : y.args.Forall₂ (Renders given) args)
  (named : ∀ a ∈ args, a.WellNamed S.names)
include paired ready origin length renders named

/-- Inside a class that is given arguments on the one side and their renderings on the other. -/
theorem Paired.inside :
    S.Paired (outside (S.catalog.get k).typeParams given)
      (bound.bindAll ((S.catalog.get k).typeParams.zip y.args))
      (plain.bindAll ((S.catalog.get k).typeParams.zip args)) := by
  refine ⟨paired.toCounterparts.bindAll ?arguments ?argumentsToo, ?keeps, ?known, ?knownToo, ?fewer⟩
  case arguments =>
    exact fun pair member => (ready.tidy.arg (List.of_mem_zip member).2).orderly.named
  case argumentsToo => exact fun pair member => named _ (List.of_mem_zip member).2
  case keeps =>
    exact paired.keeps.bindAll fun pair member => ready.tidy.arg (List.of_mem_zip member).2
  case known =>
    intro v z isBound
    rcases Context.binding?_bindAll isBound with ⟨pair, member, rfl, same⟩ | before
    · exact ready.tidy.orderly.arguments k origin pair member v same
    · exact paired.known v z before
  case knownToo =>
    intro v a isGiven
    unfold outside at isGiven
    split at isGiven
    · cases isGiven
    · exact paired.knownToo v a isGiven
  case fewer =>
    intro v isFree
    rw [Context.binding?_bindAll_eq, Option.or_eq_none_iff] at isFree ⊢
    rw [givenBy_zip_eq_none length] at isFree
    rw [givenBy_zip_eq_none (length.trans renders.length_eq)]
    exact ⟨isFree.1, paired.fewer v isFree.2⟩

theorem Ready.inside {d : Hint}
    (member : d ∈ S.catalog.body k ((S.catalog.get k).typeParams.zip y.args)) (tidy : S.Tidy d) :
    S.Ready (outside (S.catalog.get k).typeParams given)
      (bound.bindAll ((S.catalog.get k).typeParams.zip y.args))
      (plain.bindAll ((S.catalog.get k).typeParams.zip args)) d := by
  have orderly := ready.tidy.orderly
  have apart {a w : Hint} (isArg : a ∈ y.args) (reads : bound.Reads a w) :
      outside (S.catalog.get k).typeParams given w = given w ∧
        (bound.bindAll ((S.catalog.get k).typeParams.zip y.args)).binding? w = bound.binding? w ∧
        (plain.bindAll ((S.catalog.get k).typeParams.zip args)).binding? w = plain.binding? w := by
    have apart := apart_of_reads orderly origin paired.known isArg reads
    rw [Context.binding?_bindAll_eq, Context.binding?_bindAll_eq,
      (givenBy_zip_eq_none length).mpr apart,
      (givenBy_zip_eq_none (length.trans renders.length_eq)).mpr apart]
    exact ⟨outside_of_apart apart, rfl, rfl⟩
  have regiven {h x : Hint} (seen : ∀ v, h.Mentions v → ∃ a ∈ y.args, bound.Reads a v)
      (renders : Renders given h x) :
      Renders (outside (S.catalog.get k).typeParams given) h x := by
    refine renders.regiven (fun w => ∃ a ∈ y.args, bound.Reads a w) ?_ ?_ seen
    · rintro v ⟨a, isArg, reads⟩
      exact (apart isArg reads).1
    · rintro v b ⟨a, isArg, reads⟩ isGiven w mentions
      have mirrors := (ready.arg isArg).mirrors v reads
      exact ⟨a, isArg, reads.step (mirrors.replaced b isGiven).1 mentions⟩
  refine ⟨tidy, fun v reads => ?_⟩
  rcases reads_body orderly origin paired.known length member reads with
    ⟨p, isParam, same⟩ | ⟨a, isArg, reads⟩ | idle
  · have notGiven : outside (S.catalog.get k).typeParams given v = Option.none :=
      if_pos (List.any_eq_true.mpr ⟨p, isParam, same⟩)
    refine ⟨fun a isGiven => ?_, fun _ => ?_⟩
    · rw [notGiven] at isGiven
      cases isGiven
    · have each := List.forall₂_iff_zip.mpr ⟨renders.length_eq, fun {a b} member =>
        regiven (fun v mentions => ⟨a, (List.of_mem_zip member).1, .here mentions⟩)
          ((List.forall₂_iff_zip.mp renders).2 member)⟩
      have related := rel_givenBy (S.catalog.get k).typeParams each v
      have isGiven : givenBy ((S.catalog.get k).typeParams.zip y.args) v ≠ Option.none := by
        rw [Ne, givenBy_zip_eq_none length]
        intro apart
        rw [apart p isParam] at same
        cases same
      rw [Context.binding?_bindAll_eq, Context.binding?_bindAll_eq]
      revert related isGiven
      generalize givenBy ((S.catalog.get k).typeParams.zip y.args) v = first
      generalize givenBy ((S.catalog.get k).typeParams.zip args) v = second
      intro related isGiven
      cases related with
      | none => exact (isGiven rfl).elim
      | some related => exact .some related
  · have mirrors := (ready.arg isArg).mirrors v reads
    obtain ⟨sameGiven, sameBound, samePlain⟩ := apart isArg reads
    refine ⟨fun b isGiven => ?_, fun isKept => ?_⟩
    · rw [sameGiven] at isGiven
      obtain ⟨isBound, fills, free⟩ := mirrors.replaced b isGiven
      refine ⟨sameBound.trans isBound, fills, fun w mentions => ?_⟩
      rw [(apart isArg (reads.step isBound mentions)).1]
      exact free w mentions
    · rw [sameGiven] at isKept
      rw [sameBound, samePlain]
      have related := mirrors.kept isKept
      revert related
      generalize isBound : bound.binding? v = first
      generalize plain.binding? v = second
      intro related
      cases related with
      | none => exact .none
      | some related =>
        exact .some (regiven (fun w mentions => ⟨a, isArg, reads.step isBound mentions⟩) related)
  · exact ((paired.inside ready origin length renders named).mirrors_of_idle idle).2.2

end Inside

section Start
variable (each : ∀ y, S.root.Reaches S.catalog S.substitutes S.context y → S.Scoped y)
  (origin : S.root.origin? = some k)
  (bindings : ∀ entry ∈ S.context.bindings, entry.2.WellNamed S.names)
include each origin bindings

/-- Inside the class that the check is for, its parameters are bound on the one side and replaced on
the other. -/
theorem Paired.start :
    S.Paired (givenBy ((S.catalog.get k).typeParams.zip S.root.args))
      (S.context.bindAll ((S.catalog.get k).typeParams.zip S.root.args)) S.context.nested := by
  have tidy := tidy_root each
  obtain ⟨entries, _, same⟩ := S.context.bindAll_eq ((S.catalog.get k).typeParams.zip S.root.args)
  refine ⟨⟨by rw [same], by rw [same], by rw [same], ?named, bindings⟩, ?keeps, ?known, ?knownToo,
    fun _ => Context.free_bindAll⟩
  case named =>
    exact Context.named_bindAll bindings fun pair member =>
      (tidy.arg (List.of_mem_zip member).2).orderly.named
  case keeps =>
    exact keeps_reaches.bindAll fun pair member => tidy.arg (List.of_mem_zip member).2
  case known =>
    intro v z isBound
    rcases Context.binding?_bindAll isBound with ⟨pair, member, rfl, same⟩ | before
    · exact .argument .refl origin member same
    · exact .binding before
  case knownToo =>
    intro v a isGiven
    obtain ⟨pair, member, same, rfl⟩ := givenBy_eq_some isGiven
    exact .argument .refl origin member same

theorem Ready.start (length : (S.catalog.get k).typeParams.length = S.root.args.length)
    (fills : ∀ a ∈ S.root.args, a.Fills) {d : Hint}
    (member : d ∈ S.catalog.body k ((S.catalog.get k).typeParams.zip S.root.args)) :
    S.Ready (givenBy ((S.catalog.get k).typeParams.zip S.root.args))
      (S.context.bindAll ((S.catalog.get k).typeParams.zip S.root.args)) S.context.nested d := by
  have tidy := tidy_root each
  have paired := Paired.start each origin bindings
  have known : ∀ v z, S.context.binding? v = some z → S.Given v z := fun _ _ => .binding
  have apart {a w : Hint} (isArg : a ∈ S.root.args) (reads : S.context.Reads a w) :
      givenBy ((S.catalog.get k).typeParams.zip S.root.args) w = Option.none :=
    (givenBy_zip_eq_none length).mpr (apart_of_reads tidy.orderly origin known isArg reads)
  refine ⟨hereditary_tidy.declaration tidy (.inr origin)
    (Catalog.mem_declarations_of_mem_body member), fun v reads => ?_⟩
  rcases reads_body tidy.orderly origin known length member reads with
    ⟨p, isParam, same⟩ | ⟨a, isArg, reads⟩ | idle
  · refine ⟨fun b isGiven => ?_, fun isKept => ?_⟩
    · obtain ⟨pair, inZip, _, rfl⟩ := givenBy_eq_some isGiven
      have isArg := (List.of_mem_zip inZip).2
      refine ⟨?_, fills _ isArg, fun w mentions => apart isArg (.here mentions)⟩
      rw [Context.binding?_bindAll_eq, isGiven]
      rfl
    · rw [(givenBy_zip_eq_none length).mp isKept p isParam] at same
      cases same
  · have isKept := apart isArg reads
    refine ⟨fun b isGiven => ?_, fun _ => ?_⟩
    · rw [isKept] at isGiven
      cases isGiven
    · rw [Context.binding?_bindAll_eq, isKept, Option.none_or]
      have same : S.context.nested.binding? v = S.context.binding? v := rfl
      rw [same]
      cases isBound : S.context.binding? v with
      | none => exact .none
      | some z =>
        have tidyVariable := tidy_of_reads keeps_reaches reads (tidy.arg isArg)
        have tidyBinding : S.Tidy z :=
          keeps_reaches.binding tidyVariable reads.isTypeVar isBound
        exact .some (renders_self fun w mentions =>
          apart isArg (reads.step isBound mentions))
  · exact (paired.mirrors_of_idle idle).2.2

end Start
end Setting
end HintCheck
