import Mathlib.Logic.Relation
import HintCheck.Check.Build
import HintCheck.Proofs.Independence
import HintCheck.Proofs.Steps

/-!
Where hints lead. Whatever is looked at while a hint is classified and its check is built can be
reached from the hint: its parts, what its variables are bound to, what extensions stand for, and
the declarations of the classes that it names. A property of hints that is inherited along these
ways holds of everything that is looked at, in every context on the way.
-/
namespace HintCheck

/-- The hints that the declaration of a class holds: its annotations and its subscribed bases. -/
def Catalog.declarations (cat : Catalog) (c : ClassId) : List Hint :=
  (cat.allAnnotations c).map Prod.snd ++ (cat.get c).genericBases

theorem Catalog.allAnnotations_builtin (cat : Catalog) (b : Builtin) :
    cat.allAnnotations (.builtin b) = [] := by
  have above (classes : List Builtin) (acc : Entries Hint) :
      (classes.map ClassId.builtin).foldl
        (fun acc k => Entries.insertAll acc (cat.get k).annotations) acc = acc := by
    induction classes with
    | nil => rfl
    | cons c rest ih => exact ih
  have lineage : (cat.lineage (.builtin b)).reverse =
      (b :: b.ancestors).reverse.map ClassId.builtin := by
    rw [List.map_reverse]
    rfl
  rw [allAnnotations, lineage, above]

theorem Catalog.declarations_builtin (cat : Catalog) (b : Builtin) :
    cat.declarations (.builtin b) = [] := by
  rw [declarations, allAnnotations_builtin]
  rfl

namespace Hint

/-- Where a hint leads in one move. -/
inductive Leads (cat : Catalog) (subs : Substitutes) (ctx : Context) : Hint → Hint → Prop
  | part {h p : Hint} (member : p ∈ h.parts) : Leads cat subs ctx h p
  | binding {h b : Hint} (isVariable : h.isTypeVar = true) (bound : ctx.binding? h = some b) :
    Leads cat subs ctx h b
  | enclosing {f : SpecialForm} {c : ClassId} (isSelf : f.form = .selfType)
    (innermost : ctx.classes.getLast? = some c) : Leads cat subs ctx (form f) (cls c)
  | substitute {label : Nat} {shown : String} {h : Hint} (found : subs.lookup label = some h) :
    Leads cat subs ctx (extension label shown) h
  | declaration {h d : Hint} {c : ClassId} (named : h.class? = some c ∨ h.origin? = some c)
    (declared : d ∈ cat.declarations c) : Leads cat subs ctx h d
  | superseded {label : Option Nat} {f : SpecialForm} {args : List Hint} {b : Builtin}
    (origin : f.form.origin? = some b) :
    Leads cat subs ctx (subscription label (.form f) args) (generic Option.none b args)

/-- Where a hint leads, itself included. -/
def Reaches (cat : Catalog) (subs : Substitutes) (ctx : Context) : Hint → Hint → Prop :=
  Relation.ReflTransGen (Leads cat subs ctx)

/-- The hints that are made in passing, out of others. -/
inductive Made : Hint → Prop
  | none : Made (none Option.none)
  | dots : Made (value Option.none .ellipsis)
  | builtin (b : Builtin) : Made (cls b)
  | union (members : List Hint) : Made (union Option.none members)
  | typing (members : List Hint) : Made (typing Option.none .union members)
  | tuple (args : List Hint) : Made (generic Option.none Builtin.tuple args)
  | dict (args : List Hint) : Made (generic Option.none Builtin.dict args)

end Hint

open Hint (Made)

/-- The property is inherited along the ways that do not depend on the context. -/
structure Hereditary (cat : Catalog) (subs : Substitutes) (P : Hint → Prop) : Prop where
  part : ∀ {h p : Hint}, P h → p ∈ h.parts → P p
  substitute : ∀ {label : Nat} {shown : String} {h : Hint}, P (.extension label shown) →
    subs.lookup label = some h → P h
  declaration : ∀ {h d : Hint} {c : ClassId}, P h → h.class? = some c ∨ h.origin? = some c →
    d ∈ cat.declarations c → P d
  superseded : ∀ {label : Option Nat} {f : SpecialForm} {args : List Hint} {b : Builtin},
    P (.subscription label (.form f) args) → f.form.origin? = some b →
      P (.generic Option.none b args)
  made : ∀ {h : Hint}, h.Made → (∀ p ∈ h.parts, P p) → P h

/-- The property is inherited along the ways that the context opens. -/
structure Context.Keeps (ctx : Context) (P : Hint → Prop) : Prop where
  binding : ∀ {h b : Hint}, P h → h.isTypeVar = true → ctx.binding? h = some b → P b
  enclosing : ∀ {f : SpecialForm} {c : ClassId}, P (.form f) → f.form = .selfType →
    ctx.classes.getLast? = some c → P (.cls c)

namespace Context

variable {ctx : Context} {P : Hint → Prop}

theorem Keeps.nested (keeps : ctx.Keeps P) : ctx.nested.Keeps P :=
  ⟨keeps.binding, keeps.enclosing⟩

/-- What is found after binding was just bound, or was found before. -/
theorem binding?_bind {typeVar h t b : Hint} (found : (ctx.bind typeVar h).binding? t = some b) :
    b = h ∧ typeVar.isSame t = true ∨ ctx.binding? t = some b := by
  unfold bind at found
  split at found
  case h_2 => exact .inr found
  case h_1 id named =>
    unfold binding? at found ⊢
    cases other : t.id? with
    | none => rw [other] at found; cases found
    | some key =>
      rw [other] at found
      dsimp only [Option.bind_some] at found ⊢
      rw [List.lookup_cons] at found
      cases same : key == id with
      | true =>
        rw [same] at found
        cases found
        refine .inl ⟨rfl, ?_⟩
        simp only [Hint.isSame, named, other]
        exact beq_iff_eq.mpr (beq_iff_eq.mp same).symm
      | false =>
        rw [same] at found
        exact .inr found

theorem binding?_bindAll {pairs : List (Hint × Hint)} {t b : Hint}
    (found : (ctx.bindAll pairs).binding? t = some b) :
    (∃ pair ∈ pairs, b = pair.2 ∧ pair.1.isSame t = true) ∨ ctx.binding? t = some b := by
  have started : ctx.binding? t = ctx.nested.binding? t := rfl
  rw [started]
  unfold bindAll at found
  revert found
  generalize ctx.nested = acc
  induction pairs generalizing acc with
  | nil => exact .inr
  | cons pair rest ih =>
    intro found
    rcases ih _ found with ⟨later, member, isLater⟩ | earlier
    · exact .inl ⟨later, List.mem_cons_of_mem _ member, isLater⟩
    · rcases binding?_bind earlier with isPair | before
      · exact .inl ⟨pair, by simp, isPair⟩
      · exact .inr before

theorem free_bind {typeVar h t : Hint} (free : (ctx.bind typeVar h).binding? t = none) :
    ctx.binding? t = none := by
  unfold bind at free
  split at free
  · unfold binding? at free ⊢
    cases named : t.id? with
    | none => rfl
    | some id =>
      rw [named, Option.bind_some, List.lookup_cons] at free
      split at free
      · cases free
      · exact free
  · exact free

/-- A variable that is free after others were bound was free before. -/
theorem free_bindAll {pairs : List (Hint × Hint)} {t : Hint}
    (free : (ctx.bindAll pairs).binding? t = none) : ctx.binding? t = none := by
  have started : ctx.binding? t = ctx.nested.binding? t := rfl
  rw [started]
  unfold bindAll at free
  revert free
  generalize ctx.nested = acc
  induction pairs generalizing acc with
  | nil => exact id
  | cons pair rest ih => exact fun free => free_bind (ih _ free)

theorem classes_bindAll (ctx : Context) (pairs : List (Hint × Hint)) :
    (ctx.bindAll pairs).classes = ctx.classes := by
  have started : ctx.classes = ctx.nested.classes := rfl
  rw [started]
  unfold bindAll
  generalize ctx.nested = acc
  induction pairs generalizing acc with
  | nil => rfl
  | cons pair rest ih =>
    rw [List.foldl_cons, ih]
    unfold bind
    split <;> rfl

theorem Keeps.bindAll (keeps : ctx.Keeps P) {pairs : List (Hint × Hint)}
    (arguments : ∀ pair ∈ pairs, P pair.2) : (ctx.bindAll pairs).Keeps P where
  binding := by
    intro h b holds isVariable found
    rcases binding?_bindAll found with ⟨pair, member, rfl, _⟩ | before
    · exact arguments pair member
    · exact keeps.binding holds isVariable before
  enclosing := by
    intro f c holds isSelf innermost
    rw [classes_bindAll] at innermost
    exact keeps.enclosing holds isSelf innermost

end Context

/-! ### Properties of everything that a hint leads to -/

section Reaches
variable {cat : Catalog} {subs : Substitutes} {ctx : Context} {Q : Hint → Prop}

/-- What is made in passing names no classes but builtin ones. -/
theorem Hint.Made.isBuiltin {h : Hint} {k : ClassId} (made : h.Made)
    (named : h.class? = some k ∨ h.origin? = some k) : ∃ b, k = .builtin b := by
  cases made <;> rcases named with named | named <;> cases named <;> exact ⟨_, rfl⟩

theorem Hint.Leads.of_made {h y : Hint} (made : h.Made) (leads : h.Leads cat subs ctx y) :
    y ∈ h.parts := by
  cases leads with
  | part member => exact member
  | binding isVariable => cases made <;> cases isVariable
  | enclosing | substitute => cases made
  | superseded origin => cases made; cases origin
  | declaration named declared =>
    obtain ⟨b, rfl⟩ := made.isBuiltin named
    rw [cat.declarations_builtin] at declared
    cases declared

theorem Hint.Made.wellNamed {names : Naming} {h : Hint} (made : h.Made)
    (parts : ∀ p ∈ h.parts, p.WellNamed names) : h.WellNamed names := by
  cases made with
  | builtin => exact .ofClass _
  | _ => exact .ofParts rfl (fun _ _ same => by cases same) parts

/-- What holds of everything that a hint leads to is inherited. -/
theorem hereditary_reaches (made : ∀ h : Hint, h.Made → (∀ p ∈ h.parts, Q p) → Q h) :
    Hereditary cat subs fun h => ∀ y, h.Reaches cat subs ctx y → Q y where
  part holds member y reaches := holds y (.head (.part member) reaches)
  substitute holds found y reaches := holds y (.head (.substitute found) reaches)
  declaration holds named declared y reaches :=
    holds y (.head (.declaration named declared) reaches)
  superseded holds origin y reaches := holds y (.head (.superseded origin) reaches)
  made := by
    intro h isMade parts y reaches
    rcases reaches.cases_head with rfl | ⟨p, leads, further⟩
    · exact made h isMade fun p member => parts p member p .refl
    · exact parts p (leads.of_made isMade) y further

theorem keeps_reaches : ctx.Keeps fun h => ∀ y, h.Reaches cat subs ctx y → Q y where
  binding holds isVariable bound y reaches := holds y (.head (.binding isVariable bound) reaches)
  enclosing holds isSelf innermost y reaches :=
    holds y (.head (.enclosing isSelf innermost) reaches)

end Reaches

theorem hereditary_true (cat : Catalog) (subs : Substitutes) :
    Hereditary cat subs fun _ => True :=
  ⟨fun _ _ => trivial, fun _ _ => trivial, fun _ _ _ => trivial, fun _ _ => trivial,
    fun _ _ => trivial⟩

theorem Context.keeps_true (ctx : Context) : ctx.Keeps fun _ => True :=
  ⟨fun _ _ _ => trivial, fun _ _ _ => trivial⟩

/-! ### Canonical forms -/

namespace Hereditary

open Hint

variable {cat : Catalog} {subs : Substitutes} {P : Hint → Prop} {ctx : Context} {h : Hint}
  {reduce : Hint → Except HintError Reduced}

theorem ofArgs (hereditary : Hereditary cat subs P) (holds : P h) : ∀ a ∈ h.args, P a := by
  intro a member
  refine hereditary.part holds ?_
  cases h <;> first | exact member | cases member

theorem ofBuiltin (hereditary : Hereditary cat subs P) (b : Builtin) : P (cls b) :=
  hereditary.made (.builtin b) fun _ member => by cases member

theorem ofOpens (hereditary : Hereditary cat subs P) (keeps : ctx.Keeps P) (holds : P h)
    {next : Hint} (opens : Opens ctx h next) : P next := by
  have none : P (Hint.none Option.none) := hereditary.made .none fun _ member => by cases member
  cases opens with
  | binding isVariable bound => exact keeps.binding holds isVariable bound
  | upper | newType | qualified | annotated => exact hereditary.part holds (by simp [parts])
  | constraints =>
    exact hereditary.made (.typing _) fun p member => hereditary.part holds (by simpa [parts])
  | optional =>
    refine hereditary.made (.typing _) fun p member => ?_
    rcases List.mem_cons.mp member with rfl | isNone
    · exact hereditary.part holds (by simp [parts])
    · rw [List.mem_singleton.mp isNone]
      exact none
  | superseded origin => exact hereditary.superseded holds origin
  | enclosing isSelf innermost => exact keeps.enclosing holds isSelf innermost
  | builtin _ b => exact hereditary.ofBuiltin b

theorem ofPlaced (hereditary : Hereditary cat subs P) (holds : P h) {start : Hint}
    (placed : h.placed cat ctx = .ok start) : P start := by
  have dots : P (value Option.none .ellipsis) :=
    hereditary.made .dots fun _ member => by cases member
  cases starts_of_placed placed with
  | itself => exact holds
  | anything => exact hereditary.ofBuiltin .object
  | unpacked => exact hereditary.part holds (by simp [parts])
  | tuple =>
    refine hereditary.made (.tuple _) fun p member => ?_
    rcases List.mem_cons.mp member with rfl | isDots
    · exact holds
    · rw [List.mem_singleton.mp isDots]
      exact dots
  | dict =>
    refine hereditary.made (.dict _) fun p member => ?_
    rcases List.mem_cons.mp member with rfl | isHint
    · exact hereditary.ofBuiltin .str
    · rw [List.mem_singleton.mp isHint]
      exact holds

theorem passes (hereditary : Hereditary cat subs P) (keeps : ctx.Keeps P) : Passes ctx P P where
  opens holds becomes := hereditary.ofOpens keeps holds becomes
  member holds _ member := hereditary.ofArgs holds _ member
  weaken := id
  respelled := by
    intro u members each
    unfold Hint.respelled
    split
    · exact hereditary.made (.union _) each
    · exact hereditary.made (.typing _) each
  object := hereditary.ofBuiltin .object

/-- The canonical form of a hint inherits what the hint has. -/
theorem ofCanonical (hereditary : Hereditary cat subs P) (keeps : ctx.Keeps P) (holds : P h) :
    Ends (fun _ => True) (fun r => P r.hint) (h.canonical cat ctx) :=
  (hereditary.passes keeps).ofCanonicalWithin (fun _ placed => hereditary.ofPlaced holds placed) _

end Hereditary

/-! ### Classification -/

/-- The value is of a kind that literals can have. -/
def Value.isLiteral : Value → Bool
  | none | bool _ | int _ | str _ | bytes _ | inst _ _ _ _ => true
  | _ => false

/-- With these arguments the sign is that of a container of which one item is sampled. A tuple has
any length if its second argument is the ellipsis. -/
def Sign.samples (sign : Sign) : List Hint → Bool
  | [_, last] => sign.isIn .sequence || (sign.isIn .tuple && last.isDots)
  | _ => sign.isIn .sequence

theorem Sign.samples_of_sequence {sign : Sign} (isSequence : sign.isIn .sequence = true)
    (args : List Hint) : sign.samples args = true := by
  unfold samples
  split
  · rw [isSequence, Bool.true_or]
  · exact isSequence

/-- What a classified hint has from the canonical hint. -/
structure Classified.Of (cat : Catalog) (h : Hint) (c : Classified) : Prop where
  hint : c.hint = h
  children : ∀ x ∈ c.children, x ∈ h.args
  sign : h.sign? cat = some c.sign ∨ c.sign = .generic ∨ c.sign = .tupleFixed ∨
    c.sign = .tupleVariadic
  plain : ∀ validators inner, c.data ≠ .annotated validators inner
  generic : ∀ k substitutions supers, c.data = .generic k substitutions supers →
    (h.class? = some k ∨ h.origin? = some k) ∧ supers = (cat.get k).genericBases ∧
      (substitutions = [] ∨
        h.origin? = some k ∧ substitutions = (cat.get k).typeParams.zip h.args)
  literals : ∀ values, c.data = .literals values → ∀ v ∈ values, v.isLiteral = true
  keys : ∀ required, c.data = .typedDict required →
    ∃ k, h.class? = some k ∧ required = Hint.requiredKeys cat k
  sampled : c.sign.isIn .sequence = true → c.children ≠ [] →
    c.origin = h.origin?.or h.class? ∧ ∃ sign, h.sign? cat = some sign ∧ sign.samples h.args = true

namespace Hint

variable {cat : Catalog} {h : Hint}

/-- The hint is classified as one of its own, or breaks a rule. -/
abbrev ClassifiesOf (cat : Catalog) (h : Hint) : Except HintError Classified → Prop :=
  Ends (fun e => e.isEndless = false) (Classified.Of cat h)

theorem of_leaf {sign : Sign} {origin : Option ClassId} (spelled : h.sign? cat = some sign) :
    Classified.Of cat h (.leaf sign h origin) :=
  ⟨rfl, nofun, .inl spelled, nofun, nofun, nofun, nofun, fun _ occupied => (occupied rfl).elim⟩

theorem of_container {sign : Sign} {origin : Option ClassId} (spelled : h.sign? cat = some sign)
    (starts : sign.isIn .sequence = true → origin = h.origin?.or h.class?) :
    Classified.Of cat h (.container sign h origin h.args) :=
  ⟨rfl, fun _ => id, .inl spelled, nofun, nofun, nofun, nofun, fun isSequence _ =>
    ⟨starts isSequence, sign, spelled, Sign.samples_of_sequence isSequence _⟩⟩

theorem of_classifyByArity {sign : Sign} (spelled : h.sign? cat = some sign) :
    ClassifiesOf cat h (h.classifyByArity cat sign (h.origin?.or h.class?)) := by
  have isContainer : Classified.Of cat h (.container sign h (h.origin?.or h.class?) h.args) :=
    of_container spelled fun _ => rfl
  unfold classifyByArity
  dsimp only
  split
  · exact rfl
  split
  · exact of_leaf spelled
  split
  case h_4 => exact isContainer
  all_goals
    split
    · exact rfl
    split
    · exact rfl
    · exact isContainer

theorem of_classifyTuple {sign : Sign} (spelled : h.sign? cat = some sign)
    (isTuple : sign.isIn .tuple = true) :
    ClassifiesOf cat h (h.classifyTuple cat (h.origin?.or h.class?)) := by
  have fixed : ClassifiesOf cat h
      (if h.args.any isDots then
        .error (.malformed (h.text cat) "'...' only valid as the last of two tuple arguments")
      else .ok (.container .tupleFixed h (h.origin?.or h.class?) h.args)) := by
    split
    · exact rfl
    · exact ⟨rfl, fun _ => id, .inr (.inr (.inl rfl)), nofun, nofun, nofun, nofun, nofun⟩
  unfold classifyTuple
  dsimp only
  split
  case h_2 => exact fixed
  case h_1 item last isPair =>
    split
    · exact fixed
    next dots =>
    split
    · exact rfl
    · refine ⟨rfl, fun x member => ?_, .inr (.inr (.inr rfl)), nofun, nofun, nofun, nofun,
        fun _ _ => ⟨rfl, sign, spelled, ?_⟩⟩
      · rw [List.mem_singleton.mp member, isPair]
        simp
      · have isDots : last.isDots = true := by simpa using dots
        rw [isPair, Sign.samples, isTuple, isDots, Bool.true_and, Bool.or_true]

theorem isLiteral_literalValue? {v : Value} (isValue : h.literalValue? cat = some v) :
    v.isLiteral = true := by
  unfold literalValue? at isValue
  split at isValue
  · cases isValue
    rfl
  · split at isValue
    case h_6 =>
      split at isValue <;> cases isValue
      rfl
    all_goals cases isValue
    all_goals rfl
  · cases isValue

theorem isLiteral_literalValues (members : List Hint) :
    Ends (fun e => e.isEndless = false) (fun values => ∀ v ∈ values, v.isLiteral = true)
      (literalValues cat h members) := by
  induction members with
  | nil => exact nofun
  | cons m rest ih =>
    rw [literalValues]
    cases value : m.literalValue? cat with
    | none => exact rfl
    | some v =>
      cases others : literalValues cat h rest <;> rw [others] at ih
      · exact ih
      · exact List.forall_mem_cons.mpr ⟨isLiteral_literalValue? value, ih⟩

theorem of_classifyLiteral (spelled : h.sign? cat = some .literal) :
    ClassifiesOf cat h (h.classifyLiteral cat) := by
  unfold classifyLiteral
  split
  · exact rfl
  · have ends : Ends _ _ (literalValues cat h h.args) := isLiteral_literalValues h.args
    cases values : literalValues cat h h.args <;> rw [values] at ends
    · exact ends
    · exact ⟨rfl, nofun, .inl spelled, nofun, nofun, by rintro _ ⟨⟩; exact ends, nofun, nofun⟩

theorem of_classifyTypedDict (spelled : h.sign? cat = some .typedDict) :
    ClassifiesOf cat h (h.classifyTypedDict cat) := by
  unfold classifyTypedDict
  split
  · exact rfl
  · exact ⟨rfl, nofun, .inl spelled, nofun, nofun, nofun, by rintro _ ⟨⟩; exact ⟨_, ‹_›, rfl⟩,
      nofun⟩

theorem of_genericOf {c : ClassId} {substitutions : List (Hint × Hint)}
    (named : h.class? = some c ∨ h.origin? = some c)
    (bound : substitutions = [] ∨
      h.origin? = some c ∧ substitutions = (cat.get c).typeParams.zip h.args) :
    Classified.Of cat h (h.genericOf cat c substitutions) where
  hint := rfl
  children := fun _ => id
  sign := .inr (.inl rfl)
  plain := nofun
  generic := by
    rintro _ _ _ ⟨⟩
    exact ⟨named, rfl, bound⟩
  literals := nofun
  keys := nofun
  sampled := nofun

theorem of_classifyBareGeneric : ClassifiesOf cat h (h.classifyBareGeneric cat) := by
  unfold classifyBareGeneric
  split
  · exact rfl
  · exact of_genericOf (.inl ‹_›) (.inl rfl)

theorem of_classifyUserGeneric : ClassifiesOf cat h (h.classifyUserGeneric cat) := by
  unfold classifyUserGeneric
  split
  · exact rfl
  dsimp only
  split
  · exact rfl
  split
  · exact rfl
  · exact of_genericOf (.inr ‹_›) (.inr ⟨‹_›, rfl⟩)

theorem of_classifyCanonical (cat : Catalog) (h : Hint) :
    ClassifiesOf cat h (h.classifyCanonical cat) := by
  unfold classifyCanonical
  split
  · exact of_classifyUserGeneric
  · next sign spelled =>
    dsimp only
    split
    case h_5 | h_6 =>
      split
      · exact rfl
      · exact of_container spelled nofun
    case h_7 => exact of_classifyLiteral spelled
    case h_8 | h_9 | h_10 => exact of_classifyTuple spelled rfl
    case h_11 => exact of_classifyTypedDict spelled
    case h_12 => exact of_classifyBareGeneric
    case h_13 => exact of_classifyByArity spelled
    all_goals exact of_leaf spelled

end Hint

/-- The property holds of the hint that a classified hint was made from, and of the hint inside that
its validators are put on. -/
inductive Classified.Holds (cat : Catalog) (P : Hint → Prop) : Classified → Prop
  | plain {h : Hint} {c : Classified} (of : c.Of cat h) (holds : P h) : Holds cat P c
  | annotated {h inside : Hint} {validators : List Validator} {c : Classified}
    (holds : P h) (holdsInside : P inside) (inner : Holds cat P c) (occupied : validators ≠ []) :
    Holds cat P ⟨.annotated, h, [inside], c.origin, .annotated validators c⟩

namespace Hint

variable {cat : Catalog} {subs : Substitutes} {P : Hint → Prop} {ctx : Context} {h : Hint}

/-- Everything about a classified hint has what passes on to canonical forms. -/
theorem holds_classifyWithin {excused : HintError → Prop}
    (breaks : ∀ e, e.isEndless = false → excused e)
    (canonical : ∀ place, place = ctx ∨ place = ctx.nested → ∀ h, P h →
      Ends excused (fun r => P r.hint) (h.canonical cat place))
    (substitute : ∀ {label : Nat} {shown : String} {h : Hint}, P (extension label shown) →
      subs.lookup label = some h → P h)
    (room : Nat) (holds : P h) :
    Ends excused (Classified.Holds cat P) (classifyWithin cat subs room ctx h) := by
  have annotated {h : Hint} {r : Reduced} {c : Classified} (holds : P h) (reduced : P r.hint)
      (inner : c.Holds cat P) : (h.annotate r c).Holds cat P := by
    unfold annotate
    split
    · exact inner
    · next some => exact .annotated holds reduced inner (by simpa using some)
  refine classifyWithin_induction cat subs
    (motive := fun place h x => place = ctx ∨ place = ctx.nested → P h →
      Ends excused (Classified.Holds cat P) x)
    (fun _ _ _ _ _ => breaks _ rfl) (fun _ _ _ _ _ => breaks _ rfl)
    (fun _ _ _ _ _ => breaks _ rfl) ?replaced ?proper room ctx h (.inl rfl) holds
  case replaced =>
    intro place label shown h x found ih isPlace holds
    exact ih isPlace (substitute holds found)
  case proper =>
    intro place h classifies _ cases isPlace holds
    refine (canonical place isPlace h holds).bind fun r reduced => ?_
    have ends : Ends excused (Classified.Holds cat P) (classifies r.hint) := by
      rcases cases r.hint with ⟨_, same⟩ | ⟨_, _, _, ih⟩
      · rw [same]
        exact (of_classifyCanonical cat r.hint).mono breaks fun c of => .plain of reduced
      · exact ih (.inr (by rcases isPlace with rfl | rfl <;> rfl)) reduced
    exact ends.bind fun c inner => annotated holds reduced inner

end Hint

namespace Hereditary

open Hint

variable {cat : Catalog} {subs : Substitutes} {P : Hint → Prop} {ctx : Context} {h : Hint}
  {c : Classified}

/-- Everything about a classified hint inherits what the hint has. -/
theorem ofClassify (hereditary : Hereditary cat subs P) (keeps : ctx.Keeps P) (holds : P h)
    (classified : h.classify cat subs ctx = .ok c) : c.Holds cat P := by
  have ends : Ends (fun _ => True) (Classified.Holds cat P) (h.classify cat subs ctx) := by
    refine holds_classifyWithin (fun _ _ => trivial) ?_ hereditary.substitute _ holds
    rintro place (rfl | rfl) h holds
    · exact hereditary.ofCanonical keeps holds
    · exact hereditary.ofCanonical keeps.nested holds
  rw [classified] at ends
  exact ends

/-! ### Classified hints -/

theorem ofChildren (hereditary : Hereditary cat subs P) (holds : c.Holds cat P) :
    ∀ x ∈ c.children, P x := by
  cases holds with
  | plain of holds => exact fun x member => hereditary.ofArgs holds x (of.children x member)
  | annotated _ inside => simpa using inside

theorem ofHint (holds : c.Holds cat P) : P c.hint := by
  cases holds with
  | plain of holds => exact of.hint ▸ holds
  | annotated holds => exact holds

theorem ofInner {validators : List Validator} {inner : Classified} (holds : c.Holds cat P)
    (data : c.data = .annotated validators inner) : inner.Holds cat P := by
  cases holds with
  | plain of => exact (of.plain _ _ data).elim
  | annotated _ _ inner => cases data; exact inner

variable {k : ClassId} {substitutions : List (Hint × Hint)} {supers : List Hint}

theorem ofArguments (hereditary : Hereditary cat subs P) (holds : c.Holds cat P)
    (data : c.data = .generic k substitutions supers) : ∀ pair ∈ substitutions, P pair.2 := by
  cases holds with
  | annotated => cases data
  | plain of holds =>
    intro pair member
    obtain ⟨_, _, rfl | ⟨_, rfl⟩⟩ := of.generic _ _ _ data
    · cases member
    · exact hereditary.ofArgs holds _ (List.of_mem_zip member).2

theorem ofDeclarations (hereditary : Hereditary cat subs P) (holds : c.Holds cat P)
    (data : c.data = .generic k substitutions supers) : ∀ d ∈ cat.declarations k, P d := by
  cases holds with
  | annotated => cases data
  | plain of holds =>
    exact fun d declared => hereditary.declaration holds (of.generic _ _ _ data).1 declared

theorem ofSupers (hereditary : Hereditary cat subs P) (holds : c.Holds cat P)
    (data : c.data = .generic k substitutions supers) : ∀ base ∈ supers, P base := by
  intro base member
  refine hereditary.ofDeclarations holds data base (List.mem_append_right _ ?_)
  cases holds with
  | annotated => cases data
  | plain of => exact (of.generic _ _ _ data).2.1 ▸ member

theorem ofBoundFields (hereditary : Hereditary cat subs P) (holds : c.Holds cat P)
    (data : c.data = .generic k substitutions supers) :
    ∀ entry ∈ Builder.boundFields cat k substitutions, P entry.2 := by
  intro entry member
  refine hereditary.ofDeclarations holds data _ (List.mem_append_left _ ?_)
  exact List.mem_map_of_mem (List.mem_of_mem_filter member)

end Hereditary
end HintCheck
