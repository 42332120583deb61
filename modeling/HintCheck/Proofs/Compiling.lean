import HintCheck.Proofs.Binding
import HintCheck.Proofs.Marking
import HintCheck.Proofs.Wrapping
import HintCheck.Proofs.Writing

/-!
Listings that can be used. What decoration hands over to be listed are checks that were built in one
scope: the names that they refer to are bound there and stay bound, the defaults are bound behind
them under names of their own, and brackets nest if the names of the function and its parameters are
plain and the names of attributes and keys can stand between quotes. Nothing but such a name can
make a listing fail.
-/
namespace HintCheck

open Text (Balanced IsPlain Quotable LeavesOpen balanced_of_isPlain)

/-! ### Defaults -/

/-- What the scope of a wrapper binds for the default of a parameter. -/
def Parameter.defaultEntry? (p : Parameter) : Option (ScopeKey × ScopeEntry) :=
  p.default.map fun v => (Scope.defaultKey p.name, .default v)

namespace Declaration

variable {d : Declaration} {scope : Scope}

theorem entries_bindDefaults (d : Declaration) (scope : Scope) :
    (d.bindDefaults scope).entries =
      scope.entries ++ d.signature.params.filterMap Parameter.defaultEntry? := by
  unfold bindDefaults
  generalize d.signature.params = params
  induction params generalizing scope with
  | nil => exact (List.append_nil _).symm
  | cons p rest ih =>
    rw [List.foldl_cons, ih, List.filterMap_cons, Parameter.defaultEntry?]
    cases p.default with
    | none => rfl
    | some v => exact List.append_assoc scope.entries [_] _

theorem grows_bindDefaults (d : Declaration) (scope : Scope) :
    scope.Grows (d.bindDefaults scope) := by
  intro key entry bound
  rw [Scope.get?] at bound
  rw [Scope.get?, entries_bindDefaults, List.lookup_append, bound]
  rfl

/-- No generated name is that of a default. -/
theorem get?_defaultKey (numbered : scope.Numbered) (param : String) :
    scope.get? (Scope.defaultKey param) = none := by
  refine Option.eq_none_iff_forall_ne_some.mpr fun entry bound => ?_
  obtain ⟨kind, n, isKind, same⟩ := numbered.of_get? bound
  have letters := congrArg (String.toList ∘ ScopeKey.text) same
  cases entry <;> cases isKind <;>
    simp [Scope.defaultKey, defaultName, Scope.numberedKey] at letters

/-- All defaults are bound behind what was generated. -/
theorem undefinedDefault?_bindDefaults (numbered : scope.Numbered) :
    d.undefinedDefault? (d.bindDefaults scope) = none := by
  refine List.findSome?_eq_none_iff.mpr fun p member => ?_
  obtain ⟨isParam, hasDefault⟩ := List.mem_filter.mp member
  obtain ⟨v, isDefault⟩ := Option.isSome_iff_exists.mp hasDefault
  let defaults := d.signature.params.filterMap Parameter.defaultEntry?
  have listed : (Scope.defaultKey p.name, ScopeEntry.default v) ∈ defaults :=
    List.mem_filterMap.mpr ⟨p, isParam, by rw [Parameter.defaultEntry?, isDefault]; rfl⟩
  have got : (d.bindDefaults scope).get? (Scope.defaultKey p.name) =
      defaults.lookup (Scope.defaultKey p.name) := by
    have free := get?_defaultKey numbered p.name
    rw [Scope.get?] at free
    rw [Scope.get?, entries_bindDefaults, List.lookup_append, free]
    rfl
  rw [got]
  cases found : defaults.lookup (Scope.defaultKey p.name) with
  | none => simpa using List.lookup_eq_none_iff.mp found _ listed
  | some entry =>
    obtain ⟨before, behind, same, _⟩ := List.lookup_eq_some_iff.mp found
    have member : (Scope.defaultKey p.name, entry) ∈ defaults := by simp [same]
    obtain ⟨q, _, isEntry⟩ := List.mem_filterMap.mp member
    obtain ⟨w, _, isPair⟩ := Option.map_eq_some_iff.mp isEntry
    obtain ⟨_, rfl⟩ := Prod.mk.inj isPair
    rfl

end Declaration

/-! ### Listings -/

namespace Signature

theorem isPlain_items {params : List Parameter} (plain : ∀ p ∈ params, IsPlain p.name)
    (slashDue starDue : Bool) :
    ∀ item ∈ itemsFrom slashDue starDue params, IsPlain item.text := by
  refine forall_mem_itemsFrom (P := fun item => IsPlain item.text) (by decide) (by decide)
    (fun p member => ?_) slashDue starDue
  have named := plain p member
  refine ⟨?_, .append (by decide) named, .append (by decide) named⟩
  cases p.hasDefault with
  | true => exact (named.append (by decide)).append (.append (by decide) named)
  | false => exact named

theorem balanced_text {s : Signature} (plain : ∀ p ∈ s.params, IsPlain p.name) :
    Balanced s.text := by
  refine Text.balanced_intercalate (balanced_of_isPlain (by decide)) fun text member => ?_
  obtain ⟨item, isItem, rfl⟩ := List.mem_map.mp member
  exact balanced_of_isPlain (isPlain_items plain false true item isItem)

theorem balanced_argumentsText {s : Signature} (plain : ∀ p ∈ s.params, IsPlain p.name) :
    Balanced s.argumentsText := by
  refine Text.balanced_intercalate (balanced_of_isPlain (by decide)) fun text member => ?_
  obtain ⟨p, isParam, rfl⟩ := List.mem_map.mp member
  have named := plain p isParam
  refine balanced_of_isPlain ?_
  rw [Parameter.argument]
  cases p.kind with
  | positionalOnly | positionalOrKeyword => exact named
  | varPositional | varKeyword => exact .append (by decide) named
  | keywordOnly => exact (named.append (by decide)).append named

end Signature

/-- The names in a guard are plain, and its check can be written. -/
structure Guard.Legible (g : Guard) : Prop where
  site : IsPlain g.site
  pith : IsPlain g.pith
  check : g.check.Legible

theorem Guard.Legible.balanced {g : Guard} (legible : g.Legible) :
    ∀ line ∈ g.lines, Balanced line := by
  have named := balanced_of_isPlain legible.pith
  have exempt : Balanced (if g.exemptsDefault then
      g.pith ++ " is not " ++ defaultName g.pith ++ " and " else "") := by
    cases g.exemptsDefault with
    | true =>
      have defaultNamed : Balanced (defaultName g.pith) :=
        balanced_of_isPlain (.append (by decide) legible.pith)
      exact ((named.append (balanced_of_isPlain (by decide))).append defaultNamed).append
        (balanced_of_isPlain (by decide))
    | false => exact balanced_of_isPlain (show IsPlain "" by decide)
  have opened : LeavesOpen "        raise __hg_violation('" ⟨['('], some Quoted.singleQuote⟩ :=
    .ofScan rfl (by decide)
  have site := (opened.quoted legible.site.quotable).next (b := "', ") rfl (by decide)
  have condition : Balanced "    if " := balanced_of_isPlain (by decide)
  have negated : Balanced "not " := balanced_of_isPlain (by decide)
  have tested := ((condition.append exempt).append negated).append legible.check.balanced
  exact List.forall_mem_cons.mpr ⟨tested.append (balanced_of_isPlain (by decide)),
    List.forall_mem_singleton.mpr ((site.balanced named).next rfl (by decide))⟩

/-- Brackets nest in a listing of legible guards. -/
theorem Listing.balanced_text {l : Listing} (plainName : IsPlain l.name)
    (plain : ∀ p ∈ l.signature.params, IsPlain p.name) (params : ∀ g ∈ l.params, g.Legible)
    (result : ∀ g, l.result = some g → g.Legible) : Balanced l.text := by
  have heading : Balanced ("def " ++ l.name ++ "(" ++ l.signature.text ++ "):") := by
    have named : IsPlain ("def " ++ l.name) := .append (by decide) plainName
    have opened := (balanced_of_isPlain named).next (b := "(") rfl (by decide)
    exact (opened.balanced (Signature.balanced_text plain)).next rfl (by decide)
  have random : ∀ line ∈
      if l.samples then ["    " ++ randomName ++ " = __hg_getrandbits(32)"] else [],
      Balanced line := by
    cases l.samples with
    | true => exact List.forall_mem_singleton.mpr (.ofScan (by decide) (by decide))
    | false => exact nofun
  have call : Balanced
      ("    " ++ resultName ++ " = __hg_func(" ++ l.signature.argumentsText ++ ")") := by
    have opened : LeavesOpen ("    " ++ resultName ++ " = __hg_func(") ⟨['('], none⟩ :=
      .ofScan (by decide) (by decide)
    exact (opened.balanced (Signature.balanced_argumentsText plain)).next rfl (by decide)
  have resultLines : ∀ line ∈ (l.result.map Guard.lines).getD [], Balanced line := by
    cases held : l.result with
    | none => exact nofun
    | some g => exact (result g held).balanced
  have paramLines : ∀ line ∈ l.params.flatMap Guard.lines, Balanced line := by
    intro line member
    obtain ⟨g, isGuard, isLine⟩ := List.mem_flatMap.mp member
    exact (params g isGuard).balanced line isLine
  have last : Balanced ("    return " ++ resultName) := balanced_of_isPlain (by decide)
  have each : ∀ line ∈ l.lines, Balanced line := by
    simp only [lines, List.forall_mem_append, List.forall_mem_singleton]
    exact ⟨⟨⟨⟨⟨heading, random⟩, paramLines⟩, call⟩, resultLines⟩, last⟩
  refine Text.balanced_join fun text member => ?_
  obtain ⟨line, isLine, rfl⟩ := List.mem_map.mp member
  exact (each line isLine).append (balanced_of_isPlain (by decide))

/-! ### What is listed -/

namespace Check

variable {p : Payload} {value : Value → Prop} {count : Nat → Prop} {spelt : String → Prop}
  {exhaustive : Bool} {pith : String} {scope : Scope} {c : Check}

/-- Every name that a check refers to is bound. -/
theorem Formed.contains (formed : c.Formed (.bound value count spelt) exhaustive scope)
    {key : ScopeKey} (member : key ∈ c.scopeKeys) : scope.contains key = true := by
  obtain ⟨node, entry, isNode, mentioned⟩ := mem_scopeKeys.mp member
  obtain ⟨own, _⟩ := formed.ofNode isNode
  rw [Scope.contains, own.bound mentioned]
  rfl

/-- The check was built with variables that were handed out, and stays right while the scope
grows. -/
def BuiltIn (p : Payload) (exhaustive : Bool) (pith : String) (scope : Scope) (c : Check) : Prop :=
  ∃ handedOut, (∀ name ∈ handedOut, IsPlain name) ∧
    ∀ later, scope.Grows later → c.StandsOn p exhaustive pith handedOut later

theorem BuiltIn.mono (built : c.BuiltIn p exhaustive pith scope) {after : Scope}
    (grows : scope.Grows after) : c.BuiltIn p exhaustive pith after := by
  obtain ⟨handedOut, plain, stands⟩ := built
  exact ⟨handedOut, plain, fun later further =>
    stands later fun key entry bound => further key entry (grows key entry bound)⟩

end Check

theorem Scope.Steps.isPlain {scope after : Scope} {names : List String}
    (steps : scope.Steps names after) : ∀ name ∈ names, IsPlain name := by
  rw [steps.names_eq.1]
  intro name member
  obtain ⟨n, _, rfl⟩ := List.mem_map.mp member
  exact isPlain_pithName n

/-- What decoration hands over to be listed: checks of parameters and perhaps of the result, all of
them built in one scope. -/
structure Declaration.Prepared (d : Declaration) (p : Payload) (exhaustive : Bool) (scope : Scope)
    (params : List ParamCheck) (result : Option Check) : Prop where
  numbered : scope.Numbered
  params : ∀ c ∈ params, (∃ q ∈ d.signature.params, q.name = c.name) ∧
    c.check.BuiltIn p exhaustive c.name scope
  result : ∀ c, result = some c → c.BuiltIn p exhaustive resultName scope

namespace Declaration.Prepared

variable {d : Declaration} {value : Value → Prop} {count : Nat → Prop} {spelt : String → Prop}
  {exhaustive : Bool} {scope : Scope} {params : List ParamCheck} {result : Option Check}
  (prepared : d.Prepared (.bound value count spelt) exhaustive scope params result)
include prepared

/-- All that can be wrong with a listing is its brackets. -/
theorem fault?_eq (source : String) :
    d.fault? params result (d.bindDefaults scope) source =
      (Text.imbalance? source).map .unbalanced := by
  have names : undefinedName? params result (d.bindDefaults scope) = none := by
    refine List.findSome?_eq_none_iff.mpr fun c member => List.find?_eq_none.mpr fun key isKey => ?_
    have built : ∃ pith, c.BuiltIn (.bound value count spelt) exhaustive pith scope := by
      rcases List.mem_append.mp member with isParam | isResult
      · obtain ⟨check, inParams, rfl⟩ := List.mem_map.mp isParam
        exact ⟨_, (prepared.params check inParams).2⟩
      · exact ⟨_, prepared.result c (Option.mem_toList.mp isResult)⟩
    obtain ⟨pith, _, _, stands⟩ := built
    rw [(stands _ (d.grows_bindDefaults scope)).formed.contains isKey]
    decide
  rw [fault?, names, undefinedDefault?_bindDefaults prepared.numbered]
  rfl

/-- Brackets nest in the listing if all names are as they should be. -/
theorem balanced (literals : ∀ v, value v → v.isLiteral = true)
    (quotable : ∀ name, spelt name → Quotable name) (plainName : IsPlain d.name)
    (plain : ∀ q ∈ d.signature.params, IsPlain q.name) (cat : Catalog) :
    Balanced (d.listing cat params result).text := by
  have legible {c : Check} {pith : String}
      (built : c.BuiltIn (.bound value count spelt) exhaustive pith scope)
      (plainPith : IsPlain pith) : (c.expression cat).Legible := by
    obtain ⟨_, plainNames, stands⟩ := built
    exact (stands scope fun _ _ => id).legible prepared.numbered cat literals quotable plainPith
      plainNames
  refine Listing.balanced_text plainName plain (fun g member => ?_) fun g held => ?_
  · obtain ⟨c, isParam, rfl⟩ := List.mem_map.mp member
    obtain ⟨⟨q, isDeclared, same⟩, built⟩ := prepared.params c isParam
    have named : IsPlain c.name := same ▸ plain q isDeclared
    exact ⟨named, named, legible built named⟩
  · obtain ⟨c, isResult, rfl⟩ := Option.map_eq_some_iff.mp held
    have named : IsPlain resultName := by decide
    exact ⟨(by decide : IsPlain "return"), named, legible (prepared.result c isResult) named⟩

theorem unbalanced_of_wrap {cat : Catalog} {label : Nat} {conf : Config} {e : ListingError}
    (fails : d.wrap cat label params result scope conf = .error e) :
    ∃ i, Text.imbalance? (d.listing cat params result).text = some i ∧ e.fault = .unbalanced i := by
  simp only [wrap, prepared.fault?_eq] at fails
  cases found : Text.imbalance? (d.listing cat params result).text with
  | none => rw [found] at fails; cases fails
  | some i => rw [found] at fails; cases fails; exact ⟨i, rfl, rfl⟩

end Declaration.Prepared

/-! ### Names between quotes -/

namespace Hint

variable {cat : Catalog} {subs : Substitutes} {ctx : Context}

/-- The annotations of every class that the hint leads to have names that can stand between
quotes. -/
def HasQuotableNames (cat : Catalog) (subs : Substitutes) (ctx : Context) (h : Hint) : Prop :=
  ∀ y, h.Reaches cat subs ctx y → ∀ k, y.class? = some k ∨ y.origin? = some k →
    ∀ entry ∈ cat.allAnnotations k, Quotable entry.1

theorem hereditary_hasQuotableNames : Hereditary cat subs (HasQuotableNames cat subs ctx) := by
  refine hereditary_reaches fun h made _ k named entry member => ?_
  obtain ⟨b, rfl⟩ := made.isBuiltin named
  rw [cat.allAnnotations_builtin] at member
  cases member

theorem quotable_of_names (name : String)
    (named : (Payload.regular cat (HasQuotableNames cat subs ctx)).name name) : Quotable name := by
  obtain ⟨k, ⟨h, quotable, names⟩, member⟩ := named
  obtain ⟨entry, isEntry, rfl⟩ := List.mem_map.mp member
  exact quotable h .refl k names entry isEntry

end Hint

/-! ### Decoration -/

namespace Decorator

/-- Whatever goes wrong, it is not a listing. -/
def ListsNothing {α : Type} (x : Decorating α) : Prop :=
  ∀ work e, (x.run.run work).1 ≠ .error (.listing e)

theorem listsNothing_pure {α : Type} (a : α) : ListsNothing (pure a) :=
  fun _ _ => nofun

/-- If a listing is wrong in the end, it is so in what comes behind. -/
theorem ListsNothing.of_bind {α β : Type} {x : Decorating α} {f : α → Decorating β}
    (silent : ListsNothing x) {work : Workshop} {e : ListingError}
    (fails : ((x >>= f).run.run work).1 = .error (.listing e)) :
    ∃ a mid, x.run.run work = (.ok a, mid) ∧ ((f a).run.run mid).1 = .error (.listing e) := by
  rw [run_run_bind] at fails
  have none := silent work e
  rcases ran : x.run.run work with ⟨failed | a, mid⟩ <;> rw [ran] at fails none
  · cases fails
    exact (none rfl).elim
  · exact ⟨a, mid, rfl, fails⟩

theorem ListsNothing.bind {α β : Type} {x : Decorating α} {f : α → Decorating β}
    (first : ListsNothing x) (second : ∀ a, ListsNothing (f a)) : ListsNothing (x >>= f) := by
  intro work e fails
  obtain ⟨a, mid, _, behind⟩ := first.of_bind fails
  exact second a mid e behind

theorem listsNothing_atSite {α : Type} (d : Declaration) (site : Site)
    (x : ExceptT HintError (StateM Workshop) α) : ListsNothing (atSite d site x) := by
  intro work e
  rw [atSite_run]
  rcases x.run.run work with ⟨_ | _, after⟩ <;> exact nofun

variable {dec : Decorator} {ctx : Context} {d : Declaration}

theorem listsNothing_paramChecks (index : Nat) (params : List Parameter) :
    ListsNothing (dec.paramChecks ctx d index params) := by
  induction params generalizing index with
  | nil => exact listsNothing_pure _
  | cons p rest ih =>
    rw [paramChecks]
    cases p.hint with
    | none =>
      exact (listsNothing_pure _).bind fun _ => (ih _).bind fun _ => listsNothing_pure _
    | some h =>
      exact (listsNothing_atSite d _ _).bind fun _ => (ih _).bind fun _ => listsNothing_pure _

theorem listsNothing_resultCheck : ListsNothing (dec.resultCheck ctx d) := by
  rw [resultCheck]
  cases d.returns with
  | none => exact listsNothing_pure _
  | some h => exact listsNothing_atSite d _ _

theorem wrap_of_listing {params : List ParamCheck} {result : Option Check} {work : Workshop}
    {e : ListingError} (fails : ((dec.wrap d params result).run.run work).1 = .error (.listing e)) :
    d.wrap dec.around.catalog work.nextLabel params result work.scope dec.conf = .error e := by
  have silent : ListsNothing (get : Decorating Workshop) := by
    intro work e fails
    have opened : Except.ok work = .error (DecorationError.listing e) := fails
    cases opened
  unfold wrap at fails
  obtain ⟨_, _, got, fails⟩ := silent.of_bind fails
  cases got
  cases wrapped : d.wrap dec.around.catalog work.nextLabel params result work.scope dec.conf with
  | error failed => rw [wrapped] at fails; cases fails; rfl
  | ok w => rw [wrapped] at fails; cases fails

/-- A listing fails only after all checks were built. -/
theorem decorate_of_listing {owner : Option ClassId} {body : Body} {work : Workshop}
    {e : ListingError}
    (fails : ((dec.decorate owner (.plain d body)).run.run work).1 = .error (.listing e)) :
    ∃ params mid result after,
      (dec.paramChecks (dec.contextOf owner d) d 0 d.signature.params).run.run work =
        (.ok params, mid) ∧
      (dec.resultCheck (dec.contextOf owner d) d).run.run mid = (.ok result, after) ∧
      d.wrap dec.around.catalog after.nextLabel params result after.scope dec.conf = .error e := by
  rw [decorate] at fails
  split at fails
  next => cases fails
  next =>
    obtain ⟨params, mid, checked, fails⟩ := (listsNothing_paramChecks 0 _).of_bind fails
    obtain ⟨result, after, resultChecked, fails⟩ := listsNothing_resultCheck.of_bind fails
    refine ⟨params, mid, result, after, checked, resultChecked, ?_⟩
    split at fails
    next => cases fails
    next =>
      rw [run_run_bind] at fails
      rcases ran : (dec.wrap d params result).run.run after with ⟨failed | w, last⟩ <;>
        rw [ran] at fails <;> cases fails
      exact wrap_of_listing (by rw [ran])

end Decorator

namespace Session

theorem ParamsCovered.declared {s : Session} {ctx : Context} {index : Nat} {params : List Parameter}
    {scope after : Scope} {checks : List ParamCheck}
    (covered : s.ParamsCovered ctx index params scope checks after) :
    ∀ c ∈ checks, ∃ p ∈ params, p.name = c.name := by
  induction covered with
  | nil => exact nofun
  | bare _ _ ih | idle _ _ _ _ ih =>
    exact fun c member => List.exists_mem_cons_of_exists (ih c member)
  | held _ _ _ _ ih =>
    refine List.forall_mem_cons.mpr ⟨⟨_, List.mem_cons_self, rfl⟩, fun c member => ?_⟩
    exact List.exists_mem_cons_of_exists (ih c member)

section Prepared
variable {s : Session} {ctx : Context} {names : Naming} {P : Hint → Prop}
  (hereditary : Hereditary s.catalog s.substitutes P) (keeps : ctx.Keeps P)
  (grown : s.cache.Grown names s.catalog s.substitutes)
include hereditary keeps grown

/-- What is generated from a hint is built in the scope that is left. -/
theorem Generates.builtIn {position : Position} {pith : String} {h : Hint} {scope after : Scope}
    {c : Check} (generates : s.Generates (ctx.placedAt position) pith h scope c after)
    (named : h.WellNamed names) (holds : P h) (sound : scope.Sound) :
    (∃ handedOut, scope.Steps handedOut after) ∧
      c.BuiltIn (.regular s.catalog P) (ctx.conf.thoroughness == .exhaustive) pith after := by
  have keepsToo : (ctx.placedAt position).Keeps P := ⟨keeps.binding, keeps.enclosing⟩
  obtain ⟨handedOut, steps, stands⟩ := buildCheck_stands hereditary keepsToo holds sound named grown
    generates
  exact ⟨⟨handedOut, steps⟩, handedOut, steps.isPlain, stands⟩

theorem ParamsCovered.builtIn {index : Nat} {params : List Parameter} {scope after : Scope}
    {checks : List ParamCheck} (covered : s.ParamsCovered ctx index params scope checks after)
    (named : ∀ p ∈ params, ∀ h, p.hint = some h → h.WellNamed names)
    (holds : ∀ p ∈ params, ∀ h, p.hint = some h → P h) (sound : scope.Sound) :
    (∃ handedOut, scope.Steps handedOut after) ∧ ∀ c ∈ checks,
      c.check.BuiltIn (.regular s.catalog P) (ctx.conf.thoroughness == .exhaustive) c.name
        after := by
  induction covered with
  | nil => exact ⟨⟨[], .refl⟩, nofun⟩
  | bare _ _ ih =>
    exact ih (List.forall_mem_cons.mp named).2 (List.forall_mem_cons.mp holds).2 sound
  | idle hint generates _ _ ih =>
    obtain ⟨namedFirst, namedRest⟩ := List.forall_mem_cons.mp named
    obtain ⟨holdsFirst, holdsRest⟩ := List.forall_mem_cons.mp holds
    obtain ⟨⟨_, steps⟩, _⟩ := generates.builtIn hereditary keeps grown (namedFirst _ hint)
      (holdsFirst _ hint) sound
    obtain ⟨⟨_, further⟩, built⟩ := ih namedRest holdsRest (steps.sound sound)
    exact ⟨⟨_, steps.trans further⟩, built⟩
  | held hint generates _ _ ih =>
    obtain ⟨namedFirst, namedRest⟩ := List.forall_mem_cons.mp named
    obtain ⟨holdsFirst, holdsRest⟩ := List.forall_mem_cons.mp holds
    obtain ⟨⟨_, steps⟩, own⟩ := generates.builtIn hereditary keeps grown (namedFirst _ hint)
      (holdsFirst _ hint) sound
    obtain ⟨⟨_, further⟩, built⟩ := ih namedRest holdsRest (steps.sound sound)
    exact ⟨⟨_, steps.trans further⟩, List.forall_mem_cons.mpr ⟨own.mono further.grows, built⟩⟩

variable {dec : Decorator} {d : Declaration}
  (reads : dec.builder = ⟨s.catalog, s.substitutes, ctx.conf⟩)
include reads

theorem resultCheck_builtIn {work after : Workshop} {result : Option Check}
    (done : (dec.resultCheck ctx d).run.run work = (.ok result, after))
    (named : ∀ h, d.returns = some h → h.WellNamed names) (holds : ∀ h, d.returns = some h → P h)
    (grownToo : work.cache.Grown names s.catalog s.substitutes) (sound : work.scope.Sound) :
    (∃ handedOut, work.scope.Steps handedOut after.scope) ∧ ∀ c, result = some c →
      c.BuiltIn (.regular s.catalog P) (ctx.conf.thoroughness == .exhaustive) resultName
        after.scope := by
  unfold Decorator.resultCheck at done
  cases returns : d.returns with
  | none =>
    rw [returns] at done
    cases done
    exact ⟨⟨[], .refl⟩, nofun⟩
  | some h =>
    rw [returns] at done
    obtain ⟨_, check, generates, decided⟩ := Decorator.checkOf_generates
      (Decorator.atSite_cases done) reads (named h returns) grown grownToo
    obtain ⟨steps, built⟩ := generates.builtIn hereditary keeps grown (named h returns)
      (holds h returns) sound
    refine ⟨steps, fun c held => ?_⟩
    rcases decided with ⟨_, rfl⟩ | ⟨_, rfl⟩ <;> cases held
    exact built

/-- All that is listed was built in one scope. -/
theorem prepared_of_checks {work mid after : Workshop} {params : List ParamCheck}
    {result : Option Check}
    (checked : (dec.paramChecks ctx d 0 d.signature.params).run.run work = (.ok params, mid))
    (resultChecked : (dec.resultCheck ctx d).run.run mid = (.ok result, after))
    (namedParams : ∀ p ∈ d.signature.params, ∀ h, p.hint = some h → h.WellNamed names)
    (namedResult : ∀ h, d.returns = some h → h.WellNamed names)
    (holdsParams : ∀ p ∈ d.signature.params, ∀ h, p.hint = some h → P h)
    (holdsResult : ∀ h, d.returns = some h → P h)
    (grownToo : work.cache.Grown names s.catalog s.substitutes) (fresh : work.scope = .empty) :
    d.Prepared (.regular s.catalog P) (ctx.conf.thoroughness == .exhaustive) after.scope params
      result := by
  obtain ⟨grownMid, covered⟩ :=
    Decorator.paramChecks_covered reads grown namedParams grownToo checked
  rw [fresh] at covered
  obtain ⟨⟨_, steps⟩, built⟩ := covered.builtIn hereditary keeps grown namedParams holdsParams
    Scope.sound_empty
  obtain ⟨⟨_, further⟩, resultBuilt⟩ :=
    resultCheck_builtIn hereditary keeps grown reads resultChecked namedResult holdsResult grownMid
      (steps.sound Scope.sound_empty)
  exact
    { numbered := (steps.trans further).numbered Scope.numbered_empty
      params := fun c member => ⟨covered.declared c member, (built c member).mono further.grows⟩
      result := resultBuilt }

end Prepared

/-- Whatever its hints, a function is not refused because its listing has a name or a default that
is not bound. Its brackets nest as well if the function and its parameters have plain names, as
identifiers are, and the annotations of all classes that the hints lead to have names that can stand
between quotes. -/
theorem decorate_compiles {s : Session} {names : Naming} {conf : Config}
    {owner : Option ClassId} {d : Declaration} {body : Body}
    (grown : s.cache.Grown names s.catalog s.substitutes)
    (namedParams : ∀ p ∈ d.signature.params, ∀ h, p.hint = some h → h.WellNamed names)
    (namedResult : ∀ h, d.returns = some h → h.WellNamed names) :
    let ctx := Decorator.contextOf ⟨s.around, s.substitutes, conf⟩ owner d
    let outcome := ((decorate conf owner (.plain d body)).run s).1.1
    (∀ e, outcome = .error (.listing e) → ∃ i, e.fault = .unbalanced i) ∧
    (IsPlain d.name → (∀ p ∈ d.signature.params, IsPlain p.name) →
      (∀ p ∈ d.signature.params, ∀ h, p.hint = some h →
        h.HasQuotableNames s.catalog s.substitutes ctx) →
      (∀ h, d.returns = some h → h.HasQuotableNames s.catalog s.substitutes ctx) →
      ∀ e, outcome ≠ .error (.listing e)) := by
  intro ctx outcome
  have reads : Decorator.builder ⟨s.around, s.substitutes, conf⟩ =
      ⟨s.catalog, s.substitutes, ctx.conf⟩ := by
    cases owner <;> rfl
  have listed {e : ListingError} (fails : outcome = .error (.listing e)) :=
    Decorator.decorate_of_listing ((decorate_outcome s conf owner _).symm.trans fails)
  refine ⟨fun e fails => ?_, fun plainName plainParams quotableParams quotableResult e fails => ?_⟩
  · obtain ⟨params, mid, result, after, checked, resultChecked, wrapped⟩ := listed fails
    have prepared := prepared_of_checks (hereditary_true _ _) ctx.keeps_true grown reads checked
      resultChecked namedParams namedResult (fun _ _ _ _ => trivial) (fun _ _ => trivial) grown rfl
    obtain ⟨i, _, fault⟩ := prepared.unbalanced_of_wrap wrapped
    exact ⟨i, fault⟩
  · obtain ⟨params, mid, result, after, checked, resultChecked, wrapped⟩ := listed fails
    have prepared := prepared_of_checks Hint.hereditary_hasQuotableNames keeps_reaches grown reads
      checked resultChecked namedParams namedResult quotableParams quotableResult grown rfl
    obtain ⟨i, unbalanced, _⟩ := prepared.unbalanced_of_wrap wrapped
    have balanced := prepared.balanced (fun _ => id) Hint.quotable_of_names plainName plainParams
      s.catalog
    have never : none = some i := (Text.imbalance?_of_balanced balanced).symm.trans unbalanced
    cases never

/-- A session with a class of typed dictionaries that have one key. -/
def withBook (key : String) : Session :=
  let draft := (ClassDraft.named "Book").asTypedDict true
  ((defineClass (draft.withAnnotation key Builtin.str)).run.run start).2

/-- A function of one such dictionary. -/
def takesBook : Declaration :=
  ⟨7, "f", "f", "m", ⟨[⟨"x", .positionalOrKeyword, none, some (.cls (.user 0))⟩], by decide⟩, none,
    false, none⟩

theorem withBook_classes (key : String) :
    (withBook key).catalog.allAnnotations (.user 0) = [(key, .cls Builtin.str)] ∧
      (withBook key).catalog.declarations (.user 0) = [.cls Builtin.str] ∧
      (withBook key).cache = .empty := by
  have linearized : Catalog.builtin.linearize [Builtin.dict] =
      .ok [Builtin.dict, Builtin.object] := by
    decide +kernel
  rw [withBook, defineClass_of_linearize linearized]
  exact ⟨rfl, rfl, rfl⟩

theorem hasQuotableNames_book {s : Session} {key : String} {ctx : Context}
    (annotations : s.catalog.allAnnotations (.user 0) = [(key, .cls Builtin.str)])
    (declares : s.catalog.declarations (.user 0) = [.cls Builtin.str]) (quotable : Quotable key) :
    (Hint.cls (.user 0)).HasQuotableNames s.catalog s.substitutes ctx := by
  intro y reaches
  have reached : y = .cls (.user 0) ∨ y = .cls Builtin.str := by
    induction reaches with
    | refl => exact .inl rfl
    | tail _ leads ih =>
      rcases ih with rfl | rfl
      · rcases leads with member | isVariable | _ | _ | ⟨named, declared⟩
        · cases member
        · cases isVariable
        · rcases named with named | named <;> cases named
          rw [declares] at declared
          exact .inr (List.mem_singleton.mp declared)
      · cases leads.of_made (.builtin _)
  intro k named entry member
  rcases reached with rfl | rfl <;> rcases named with named | named <;> cases named
  · rw [annotations] at member
    rw [List.mem_singleton.mp member]
    exact quotable
  · rw [Catalog.allAnnotations_builtin] at member
    cases member

/-- A key with brackets and double quotes is listed as it is. -/
theorem decorate_compiles_book :
    let outcome := ((decorate .standard none (.plain takesBook (.argument "x"))).run
      (withBook "said \"no\" (twice")).1.1
    let source := "def f(x):\n" ++
      "    if not (isinstance(x, dict) and 'said \"no\" (twice' in x):\n" ++
      "        raise __hg_violation('x', x)\n" ++
      "    __hg_return = __hg_func(x)\n" ++
      "    return __hg_return\n"
    (∃ g w, outcome = .ok g ∧ g.wrapper? = some w ∧ w.source = source) ∧
      ∀ e, outcome ≠ .error (.listing e) := by
  intro outcome source
  have evaluated : outcome.toOption.any (fun g => g.wrapper?.any fun w => w.source == source) =
      true := by decide +kernel
  obtain ⟨annotations, declares, nothingCached⟩ := withBook_classes "said \"no\" (twice"
  subst outcome
  generalize withBook "said \"no\" (twice" = s at *
  let names : Naming := ⟨fun _ => Builtin.object, fun _ => .instanceOf []⟩
  have grown : s.cache.Grown names s.catalog s.substitutes := by
    rw [nothingCached]
    exact .empty
  have isBook : ∀ p ∈ takesBook.signature.params, ∀ h, p.hint = some h → h = .cls (.user 0) := by
    intro p member h hint
    cases List.mem_singleton.mp member
    cases hint
    rfl
  have named : ∀ p ∈ takesBook.signature.params, ∀ h, p.hint = some h → h.WellNamed names := by
    intro p member h hint
    rw [isBook p member h hint]
    exact .ofClass _
  have noResult (h : Hint) : takesBook.returns ≠ some h := nofun
  refine ⟨?_, ?_⟩
  · obtain ⟨g, decorated, isListed⟩ := ok_of_any evaluated
    cases wrapped : g.wrapper? with
    | none => rw [wrapped] at isListed; cases isListed
    | some w =>
      rw [wrapped] at isListed
      exact ⟨g, w, decorated, wrapped, beq_iff_eq.mp isListed⟩
  · refine (decorate_compiles grown named fun h returns => (noResult h returns).elim).2 (by decide)
      (by decide) (fun p member h hint => ?_) fun h returns => (noResult h returns).elim
    rw [isBook p member h hint]
    exact hasQuotableNames_book annotations declares (by decide +kernel)

/-- A quote in a key ends the quotes around it, and the bracket that closes the test is taken to be
quoted. -/
theorem decorate_unbalanced_book :
    let code := "def f(x):\n" ++
      "    if not (isinstance(x, dict) and 'reader's note' in x):\n" ++
      "        raise __hg_violation('x', x)\n" ++
      "    __hg_return = __hg_func(x)\n" ++
      "    return __hg_return\n"
    ((decorate .standard none (.plain takesBook (.argument "x"))).run
        (withBook "reader's note")).1.1 =
      .error (.listing ⟨"f", .unbalanced (.neverClosed '('), code⟩) := by
  intro code
  have evaluated : (match ((decorate .standard none (.plain takesBook (.argument "x"))).run
      (withBook "reader's note")).1.1 with
      | .ok _ => false
      | .error e => decide (e = .listing ⟨"f", .unbalanced (.neverClosed '('), code⟩)) = true := by
    decide +kernel
  cases ended : ((decorate .standard none (.plain takesBook (.argument "x"))).run
      (withBook "reader's note")).1.1 with
  | ok g => rw [ended] at evaluated; cases evaluated
  | error e =>
    rw [ended] at evaluated
    rw [of_decide_eq_true evaluated]

end Session

end HintCheck
