import HintCheck.Signature.Binding
import Mathlib.Data.List.Forall2
import Mathlib.Data.List.Nodup
import Mathlib.Data.List.Perm.Basic

/-!
The arguments of a call. A call fits a signature if its positional arguments find parameters, each
keyword finds one that is still free or is taken in by the parameter for all other keywords, and
nothing that is required is missing. Binding succeeds for these calls only, and it hands out every
argument once: what the loops do is said by one equation for each of them, and the distribution is
read off these equations.
-/
namespace HintCheck

/-- What a list holds under a name is found by it, if no two entries share a name. -/
theorem find?_of_nodup {α : Type} {name : α → String} {xs : List α} (nodup : (xs.map name).Nodup)
    {x : α} (member : x ∈ xs) : xs.find? (fun y => name y == name x) = some x := by
  cases found : xs.find? (fun y => name y == name x) with
  | none => exact absurd (List.find?_eq_none.mp found x member) (by simp)
  | some y =>
    have same : name y = name x := by simpa using List.find?_some found
    rw [List.inj_on_of_nodup_map nodup (List.mem_of_find?_eq_some found) member same]

/-! ### Parameters -/

namespace Signature

/-- What is sound starts with a parameter whose name is new, whose kind may stand there and which
has a default only if it is not variadic, and it goes on soundly. -/
theorem sound_cons {seen : List String} {previous : Option ParamKind} {defaults : Bool}
    {p : Parameter} {rest : List Parameter}
    (sound : faultFrom seen previous defaults (p :: rest) = none) :
    p.name ∉ seen ∧ (∀ k, previous = some k → p.kind.mayFollow k = true) ∧
      (p.kind.isVariadic = true → p.default = none) ∧
      ∃ later, faultFrom (seen ++ [p.name]) (some p.kind) later rest = none := by
  rw [faultFrom] at sound
  split at sound
  next => cases sound
  next fresh =>
    split at sound
    next => cases sound
    next inOrder =>
      split at sound
      next => cases sound
      next plain =>
        split at sound
        next => cases sound
        next =>
          refine ⟨by simpa using fresh, fun k isPrevious => ?_, fun isVariadic => ?_, _, sound⟩
          · simpa [isPrevious] using inOrder
          · simpa [isVariadic, Parameter.hasDefault] using plain

theorem names_of_faultFrom {seen : List String} {previous : Option ParamKind} {defaults : Bool}
    {params : List Parameter} (sound : faultFrom seen previous defaults params = none) :
    (params.map Parameter.name).Nodup ∧ ∀ p ∈ params, p.name ∉ seen := by
  induction params generalizing seen previous defaults with
  | nil => simp
  | cons p rest ih =>
    obtain ⟨fresh, _, _, _, sound⟩ := sound_cons sound
    obtain ⟨nodup, apart⟩ := ih sound
    simp only [List.mem_append, List.mem_singleton, not_or] at apart
    refine ⟨?_, List.forall_mem_cons.mpr ⟨fresh, fun q member => (apart q member).1⟩⟩
    rw [List.map_cons, List.nodup_cons]
    refine ⟨fun repeated => ?_, nodup⟩
    obtain ⟨q, member, same⟩ := List.mem_map.mp repeated
    exact (apart q member).2 same

/-- No two parameters share a name. -/
theorem nodup_names (s : Signature) : (s.params.map Parameter.name).Nodup :=
  (names_of_faultFrom s.sound).1

theorem defaults_of_faultFrom {seen : List String} {previous : Option ParamKind} {defaults : Bool}
    {params : List Parameter} (sound : faultFrom seen previous defaults params = none) :
    ∀ p ∈ params, p.kind.isVariadic = true → p.default = none := by
  induction params generalizing seen previous defaults with
  | nil => exact nofun
  | cons p rest ih =>
    obtain ⟨_, _, plain, _, sound⟩ := sound_cons sound
    exact List.forall_mem_cons.mpr ⟨plain, ih sound⟩

/-- No variadic parameter has a default. -/
theorem default_of_variadic (s : Signature) {p : Parameter} (member : p ∈ s.params)
    (isVariadic : p.kind.isVariadic = true) : p.default = none :=
  defaults_of_faultFrom s.sound p member isVariadic

/-- Some parameter takes the keyword. -/
def takes (params : List Parameter) (name : String) : Bool :=
  params.any fun p => p.kind.acceptsKeyword && p.name == name

/-- The parameters that are filled by position, by as many arguments. -/
def filled (params : List Parameter) (given : Nat) : List Parameter :=
  (params.filter fun p => p.kind.acceptsPosition).take given

end Signature

open Signature (takes filled)

/-! ### Positional arguments -/

namespace Slot

theorem map_param_fill (params : List Parameter) (args : List Value) :
    (fill params args).1.map Slot.param = params := by
  fun_induction fill params args <;> simp_all

theorem extra_fill (params : List Parameter) (args : List Value) :
    (fill params args).2 = args.drop (params.filter fun p => p.kind.acceptsPosition).length := by
  fun_induction fill params args <;> simp_all

/-- A parameter has received an argument by position exactly if it is among the first ones. -/
theorem given_fill {params : List Parameter} {args : List Value}
    (nodup : (params.map Parameter.name).Nodup) {s : Slot} (member : s ∈ (fill params args).1) :
    s.given.isSome = true ↔ s.param.name ∈ (filled params args.length).map Parameter.name := by
  have isParam {params : List Parameter} {args : List Value} {s : Slot}
      (member : s ∈ (fill params args).1) : s.param ∈ params :=
    map_param_fill params args ▸ List.mem_map_of_mem member
  induction params generalizing args with
  | nil => cases member
  | cons p rest ih =>
    obtain ⟨fresh, nodup⟩ := List.nodup_cons.mp nodup
    have later {args : List Value} (member : s ∈ (fill rest args).1) : s.param.name ≠ p.name :=
      fun same => fresh (same ▸ List.mem_map_of_mem (isParam member))
    by_cases accepts : p.kind.acceptsPosition
    · cases args with
      | nil =>
        simp only [fill, accepts, if_true, List.mem_cons] at member
        rcases member with rfl | member
        · simp [filled]
        · simpa [filled] using ih nodup member
      | cons v more =>
        simp only [fill, accepts, if_true, List.mem_cons] at member
        rcases member with rfl | member
        · simp [filled, accepts]
        · simpa [filled, accepts, later member] using ih nodup member
    · simp only [fill, accepts, Bool.false_eq_true, if_false, List.mem_cons] at member
      rcases member with rfl | member
      · have absent : p.name ∉ (filled rest args.length).map Parameter.name := fun found =>
          fresh ((((List.take_sublist _ _).trans List.filter_sublist).map _).subset found)
        simpa [filled, accepts] using absent
      · simpa [filled, accepts] using ih nodup member

/-- The values of the parameters filled by position, and what is left over, are the arguments. -/
theorem values_fill {params : List Parameter} {args : List Value} {bound : List Bound}
    (agree : (fill params args).1.Forall₂ (fun s b => s.param.kind.acceptsPosition = true →
      ∀ v, s.given = some v → b.value = v) bound) :
    (((params.zip bound).filter fun e => e.1.kind.acceptsPosition).take args.length).map
      (fun e => e.2.value) ++ (fill params args).2 = args := by
  induction params generalizing args bound with
  | nil => cases args <;> simp [fill]
  | cons p rest ih =>
    by_cases accepts : p.kind.acceptsPosition
    · cases args with
      | nil =>
        simp only [fill, accepts, if_true] at agree ⊢
        obtain ⟨b, bs, _, others, rfl⟩ := List.forall₂_cons_left_iff.mp agree
        simpa using ih others
      | cons v more =>
        simp only [fill, accepts, if_true] at agree ⊢
        obtain ⟨b, bs, first, others, rfl⟩ := List.forall₂_cons_left_iff.mp agree
        simpa [accepts, first accepts v rfl] using ih others
    · simp only [fill, accepts, Bool.false_eq_true, if_false] at agree ⊢
      obtain ⟨b, bs, _, others, rfl⟩ := List.forall₂_cons_left_iff.mp agree
      simpa [accepts] using ih others

/-! ### Keywords -/

/-- What the slot holds once the keywords are handed out. -/
def receive (keywords : List (String × Value)) (s : Slot) : Slot :=
  if s.param.kind.acceptsKeyword then
    { s with given := s.given.or (keywords.lookup s.param.name) }
  else s

@[simp] theorem param_receive (keywords : List (String × Value)) (s : Slot) :
    (s.receive keywords).param = s.param := by
  unfold receive
  split <;> rfl

/-- The keywords that parameters take find them free, and each but once; the others are absorbed. -/
structure Admits (absorbs : Bool) (slots : List Slot) (keywords : List (String × Value)) :
    Prop where
  free : ∀ keyword ∈ keywords, ∀ s ∈ slots, s.param.kind.acceptsKeyword = true →
    s.param.name = keyword.1 → s.given = none
  once : keywords.Pairwise fun earlier keyword =>
    takes (slots.map Slot.param) keyword.1 = true → earlier.1 ≠ keyword.1
  absorbed : ∀ keyword ∈ keywords, takes (slots.map Slot.param) keyword.1 = false → absorbs = true

section
variable {absorbs : Bool} {slots : List Slot} {keywords rest : List (String × Value)}
  {name : String} {v : Value}

theorem takes_iff : takes (slots.map Slot.param) name = true ↔
    ∃ s ∈ slots, s.param.kind.acceptsKeyword = true ∧ s.param.name = name := by
  simp [takes]

theorem map_param_set (name : String) (v : Value) (slots : List Slot) :
    (set name v slots).map Slot.param = slots.map Slot.param := by
  rw [set, List.map_map]
  refine List.map_congr_left fun s _ => ?_
  dsimp only [Function.comp]
  split <;> rfl

theorem find?_name (nodup : (slots.map fun s => s.param.name).Nodup) {s : Slot}
    (member : s ∈ slots) : slots.find? (fun t => t.param.name == s.param.name) = some s :=
  find?_of_nodup nodup member

/-- A keyword that a parameter takes goes into its slot, if that is free. -/
theorem fillKeywords_taken (nodup : (slots.map fun s => s.param.name).Nodup) {s : Slot}
    (member : s ∈ slots) (accepts : s.param.kind.acceptsKeyword = true) :
    fillKeywords absorbs ((s.param.name, v) :: rest) slots =
      if s.given = none then fillKeywords absorbs rest (set s.param.name v slots)
      else .error (.multipleValues s.param.name) := by
  rw [fillKeywords]
  simp only [find?_name nodup member, accepts, if_true, isFree, Option.isNone_iff_eq_none]

/-- A keyword that no parameter takes is kept for the one that absorbs them. -/
theorem fillKeywords_surplus (absorbs : Bool) (v : Value) (rest : List (String × Value))
    (untaken : takes (slots.map Slot.param) name = false) :
    ∃ e, fillKeywords absorbs ((name, v) :: rest) slots =
      if absorbs then (fillKeywords absorbs rest slots).map fun r => (r.1, (name, v) :: r.2)
      else .error e := by
  rw [fillKeywords]
  generalize fillKeywords absorbs rest slots = others
  split
  next => exact ⟨_, if_congr Iff.rfl (by cases others <;> rfl) rfl⟩
  next s found =>
    have named : s.param.name = name := by simpa using List.find?_some found
    have refuses : ¬s.param.kind.acceptsKeyword = true := fun accepts =>
      Bool.false_ne_true (untaken.symm.trans
        (takes_iff.mpr ⟨s, List.mem_of_find?_eq_some found, accepts, named⟩))
    rw [if_neg refuses]
    split
    next unabsorbed =>
      refine ⟨.positionalOnlyAsKeyword name, ?_⟩
      simp_all
    next => exact ⟨_, if_congr Iff.rfl (by cases others <;> rfl) rfl⟩

theorem admits_cons : Admits absorbs slots ((name, v) :: rest) ↔
    ((∀ s ∈ slots, s.param.kind.acceptsKeyword = true → s.param.name = name → s.given = none) ∧
      (takes (slots.map Slot.param) name = false → absorbs = true)) ∧
    (∀ keyword ∈ rest, takes (slots.map Slot.param) keyword.1 = true → name ≠ keyword.1) ∧
      Admits absorbs slots rest := by
  constructor
  · rintro ⟨free, once, absorbed⟩
    obtain ⟨freeFirst, free⟩ := List.forall_mem_cons.mp free
    obtain ⟨onceFirst, once⟩ := List.pairwise_cons.mp once
    obtain ⟨absorbedFirst, absorbed⟩ := List.forall_mem_cons.mp absorbed
    exact ⟨⟨freeFirst, absorbedFirst⟩, onceFirst, ⟨free, once, absorbed⟩⟩
  · rintro ⟨⟨freeFirst, absorbedFirst⟩, onceFirst, ⟨free, once, absorbed⟩⟩
    exact ⟨List.forall_mem_cons.mpr ⟨freeFirst, free⟩, List.pairwise_cons.mpr ⟨onceFirst, once⟩,
      List.forall_mem_cons.mpr ⟨absorbedFirst, absorbed⟩⟩

theorem mem_set {t : Slot} : t ∈ set name v slots ↔
    ∃ s ∈ slots, (if s.param.name = name then { s with given := some v } else s) = t := by
  simp [set]

/-- A slot that is filled is no longer free. -/
theorem admits_set : Admits absorbs (set name v slots) rest ↔
    (∀ keyword ∈ rest, takes (slots.map Slot.param) keyword.1 = true → name ≠ keyword.1) ∧
      Admits absorbs slots rest := by
  constructor
  · rintro ⟨free, once, absorbed⟩
    rw [map_param_set] at once absorbed
    have freeBefore : ∀ keyword ∈ rest, ∀ s ∈ slots, s.param.kind.acceptsKeyword = true →
        s.param.name = keyword.1 → s.param.name ≠ name ∧ s.given = none := by
      intro keyword member s inSlots accepts named
      have stays := free keyword member _ (mem_set.mpr ⟨s, inSlots, rfl⟩)
      by_cases same : s.param.name = name
      · simp only [same, if_true] at stays
        exact absurd (stays accepts (same ▸ named)) (by simp)
      · simp only [same, if_false] at stays
        exact ⟨same, stays accepts named⟩
    refine ⟨fun keyword member taken same => ?_, ⟨fun keyword member s inSlots accepts named =>
      (freeBefore keyword member s inSlots accepts named).2, once, absorbed⟩⟩
    obtain ⟨s, inSlots, accepts, named⟩ := takes_iff.mp taken
    exact (freeBefore keyword member s inSlots accepts named).1 (named.trans same.symm)
  · rintro ⟨apart, ⟨free, once, absorbed⟩⟩
    rw [← map_param_set name v slots] at once absorbed
    refine ⟨fun keyword member t inSlots accepts named => ?_, once, absorbed⟩
    obtain ⟨s, isSlot, rfl⟩ := mem_set.mp inSlots
    by_cases same : s.param.name = name
    · simp only [same, if_true] at accepts named
      exact absurd named (apart keyword member
        (takes_iff.mpr ⟨s, isSlot, accepts, same.trans named⟩))
    · simp only [same, if_false] at accepts named ⊢
      exact free keyword member s isSlot accepts named

/-- A keyword that a parameter takes is admitted if its slot is free, and the slot is then filled
for the keywords to come. -/
theorem admits_taken (nodup : (slots.map fun s => s.param.name).Nodup) {s : Slot}
    (member : s ∈ slots) (accepts : s.param.kind.acceptsKeyword = true) :
    Admits absorbs slots ((s.param.name, v) :: rest) ↔
      s.given = none ∧ Admits absorbs (set s.param.name v slots) rest := by
  rw [admits_cons, admits_set]
  refine and_congr_left' ⟨fun first => first.1 s member accepts rfl, fun isFree => ⟨?_, ?_⟩⟩
  · intro t inSlots _ same
    rwa [List.inj_on_of_nodup_map nodup inSlots member same]
  · intro untaken
    exact absurd (takes_iff.mpr ⟨s, member, accepts, rfl⟩) (by simp [untaken])

theorem receive_taken (nodup : (slots.map fun s => s.param.name).Nodup) {s : Slot}
    (member : s ∈ slots) (accepts : s.param.kind.acceptsKeyword = true) (isFree : s.given = none) :
    (set s.param.name v slots).map (receive rest) =
      slots.map (receive ((s.param.name, v) :: rest)) := by
  rw [set, List.map_map]
  refine List.map_congr_left fun t inSlots => ?_
  by_cases same : t.param.name = s.param.name
  · obtain rfl := List.inj_on_of_nodup_map nodup inSlots member same
    simp [receive, accepts, isFree]
  · have differs : (t.param.name == s.param.name) = false := beq_false_of_ne same
    simp only [Function.comp, differs, receive, List.lookup_cons, Bool.false_eq_true, if_false]

section
variable (untaken : takes (slots.map Slot.param) name = false)
include untaken

theorem name_ne_of_untaken {s : Slot} (member : s ∈ slots)
    (accepts : s.param.kind.acceptsKeyword = true) : s.param.name ≠ name := fun same =>
  Bool.false_ne_true (untaken.symm.trans (takes_iff.mpr ⟨s, member, accepts, same⟩))

/-- A keyword that no parameter takes is admitted if it is absorbed. -/
theorem admits_surplus : Admits absorbs slots ((name, v) :: rest) ↔
    absorbs = true ∧ Admits absorbs slots rest := by
  rw [admits_cons]
  constructor
  · rintro ⟨⟨_, absorbed⟩, _, admits⟩
    exact ⟨absorbed untaken, admits⟩
  · rintro ⟨absorbs, admits⟩
    refine ⟨⟨fun s member accepts same => ?_, fun _ => absorbs⟩, ?_, admits⟩
    · exact absurd same (name_ne_of_untaken untaken member accepts)
    · rintro keyword _ taken rfl
      exact Bool.false_ne_true (untaken.symm.trans taken)

theorem receive_surplus : slots.map (receive ((name, v) :: rest)) = slots.map (receive rest) := by
  refine List.map_congr_left fun s member => ?_
  unfold receive
  split
  next accepts =>
    have differs : (s.param.name == name) = false :=
      beq_false_of_ne (name_ne_of_untaken untaken member accepts)
    rw [List.lookup_cons, differs]
  next => rfl

end

/-- Keywords are handed out exactly if they are admitted. Then every slot has received the keyword
of its name, and those that no parameter takes are left over, in the order of the call. -/
theorem fillKeywords_eq_ok_iff (nodup : (slots.map fun s => s.param.name).Nodup)
    {r : List Slot × List (String × Value)} :
    fillKeywords absorbs keywords slots = .ok r ↔
      Admits absorbs slots keywords ∧ (slots.map (receive keywords),
        keywords.filter fun keyword => !takes (slots.map Slot.param) keyword.1) = r := by
  induction keywords generalizing slots r with
  | nil =>
    have unchanged : slots.map (receive []) = slots :=
      (List.map_congr_left fun s _ => by simp [receive]).trans (List.map_id slots)
    have admitted : Admits absorbs slots [] := ⟨by simp, .nil, by simp⟩
    simp [fillKeywords, unchanged, admitted]
  | cons keyword rest ih =>
    obtain ⟨name, v⟩ := keyword
    cases taken : takes (slots.map Slot.param) name with
    | true =>
      obtain ⟨s, member, accepts, rfl⟩ := takes_iff.mp taken
      rw [fillKeywords_taken nodup member accepts, admits_taken nodup member accepts]
      by_cases isFree : s.given = none
      · have named : ((set s.param.name v slots).map fun s => s.param.name).Nodup := by
          have kept := congrArg (List.map Parameter.name) (map_param_set s.param.name v slots)
          rw [List.map_map, List.map_map] at kept
          exact kept ▸ nodup
        rw [if_pos isFree, ih named, map_param_set, receive_taken nodup member accepts isFree]
        simp [taken, isFree]
      · simp [isFree]
    | false =>
      obtain ⟨e, surplus⟩ := fillKeywords_surplus absorbs v rest taken
      rw [surplus, admits_surplus taken, receive_surplus taken]
      cases absorbs with
      | false => simp
      | true =>
        have kept : (fillKeywords true rest slots).map (fun r => (r.1, (name, v) :: r.2)) = .ok r ↔
            ∃ r', fillKeywords true rest slots = .ok r' ∧ (r'.1, (name, v) :: r'.2) = r := by
          cases fillKeywords true rest slots <;> simp [Except.map]
        simp [kept, ih nodup, taken]

end

/-! ### Values -/

/-- The value of a parameter: what is left over for a variadic one, and for any other what it was
given or its default. -/
structure Settles (extra : List Value) (surplus : List (String × Value)) (s : Slot) (b : Bound) :
    Prop where
  name : b.name = s.param.name
  starred : s.param.kind = .varPositional → b.value = .tuple extra ∧ b.passed = !extra.isEmpty
  doubleStarred : s.param.kind = .varKeyword →
    b.value = .dict (surplus.map fun keyword => (.str keyword.1, keyword.2)) ∧
      b.passed = !surplus.isEmpty
  plain : s.param.kind.isVariadic = false →
    s.given.or s.param.default = some b.value ∧ b.passed = s.given.isSome

theorem settles_of_settle {extra : List Value} {surplus : List (String × Value)} {s : Slot}
    {b : Bound} (settled : s.settle extra surplus = .ok b) : s.Settles extra surplus b := by
  unfold settle at settled
  split at settled
  next kind => cases settled; constructor <;> simp_all [ParamKind.isVariadic]
  next kind => cases settled; constructor <;> simp_all [ParamKind.isVariadic]
  next notStarred notDoubleStarred =>
    split at settled
    all_goals cases settled
    all_goals exact ⟨rfl, fun kind => absurd kind notStarred,
      fun kind => absurd kind notDoubleStarred, fun _ => by simp [*]⟩

theorem exists_settle_iff {extra : List Value} {surplus : List (String × Value)} {s : Slot} :
    (∃ b, s.settle extra surplus = .ok b) ↔
      (s.param.kind.isVariadic = false → s.param.default = none → s.given.isSome = true) := by
  unfold settle
  cases s.param.kind <;> cases s.given <;> cases s.param.default <;> simp [ParamKind.isVariadic]

end Slot

theorem mapM_eq_ok_iff {ε α β : Type} {f : α → Except ε β} {xs : List α} {ys : List β} :
    xs.mapM f = .ok ys ↔ xs.Forall₂ (fun x y => f x = .ok y) ys := by
  induction xs generalizing ys with
  | nil =>
    rw [List.mapM_nil, List.forall₂_nil_left_iff]
    exact ⟨fun same => by cases same; rfl, fun same => by rw [same]; rfl⟩
  | cons x rest ih =>
    rw [List.mapM_cons, List.forall₂_cons_left_iff]
    constructor
    · intro mapped
      rcases first : f x with e | y <;> rw [first] at mapped
      · cases mapped
      rcases others : rest.mapM f with e | more <;> rw [others] at mapped
      · cases mapped
      cases mapped
      exact ⟨y, more, rfl, ih.mp others, rfl⟩
    · rintro ⟨y, more, first, others, rfl⟩
      rw [first, ih.mpr others]
      rfl

theorem exists_forall₂_iff {α β : Type} {related : α → β → Prop} {xs : List α} :
    (∃ ys, xs.Forall₂ related ys) ↔ ∀ x ∈ xs, ∃ y, related x y := by
  induction xs with
  | nil => exact ⟨fun _ => by simp, fun _ => ⟨[], .nil⟩⟩
  | cons x rest ih =>
    rw [List.forall_mem_cons, ← ih]
    constructor
    · rintro ⟨_, _ | ⟨first, others⟩⟩
      exact ⟨⟨_, first⟩, _, others⟩
    · rintro ⟨⟨y, first⟩, more, others⟩
      exact ⟨y :: more, .cons first others⟩

namespace Signature

variable {s : Signature} {call : Call} {bound : List Bound}

/-- An argument of the call is meant for the parameter. -/
def Supplied (s : Signature) (call : Call) (p : Parameter) : Prop :=
  p.name ∈ (filled s.params call.positional.length).map Parameter.name ∨
    p.kind.acceptsKeyword = true ∧ p.name ∈ call.keywords.map Prod.fst

/-- The arguments of a call find parameters. -/
structure Fits (s : Signature) (call : Call) : Prop where
  positional : call.positional.length ≤ (s.params.filter fun p => p.kind.acceptsPosition).length ∨
    s.has .varPositional = true
  /-- A keyword names a parameter that takes keywords and that no positional argument and no earlier
  keyword has filled, or it is absorbed. -/
  keywords : ∀ before name v after, call.keywords = before ++ (name, v) :: after →
    (takes s.params name = true ∧
      name ∉ (filled s.params call.positional.length).map Parameter.name ∧
      name ∉ before.map Prod.fst) ∨
    takes s.params name = false ∧ s.has .varKeyword = true
  supplied : ∀ p ∈ s.params, p.kind.isVariadic = false → p.default = none → s.Supplied call p

/-- The parameter has received its value by keyword. -/
def isKeyed (s : Signature) (call : Call) (p : Parameter) (b : Bound) : Bool :=
  !p.kind.isVariadic && b.passed &&
    !((filled s.params call.positional.length).map Parameter.name).contains p.name

theorem isKeyed_iff {p : Parameter} {b : Bound} : s.isKeyed call p b = true ↔
    p.kind.isVariadic = false ∧ b.passed = true ∧
      p.name ∉ (filled s.params call.positional.length).map Parameter.name := by
  simp [isKeyed, and_assoc]

/-- Every argument of the call is handed out once: `extra` are the positional arguments that are
left over, and `surplus` the keywords. -/
structure Distributes (s : Signature) (call : Call) (extra : List Value)
    (surplus : List (String × Value)) (bound : List Bound) : Prop where
  names : bound.map Bound.name = s.params.map Parameter.name
  positional : (((s.params.zip bound).filter fun e => e.1.kind.acceptsPosition).take
    call.positional.length).map (fun e => e.2.value) ++ extra = call.positional
  keywords : (((s.params.zip bound).filter fun e => s.isKeyed call e.1 e.2).map
    (fun e => (e.1.name, e.2.value)) ++ surplus).Perm call.keywords
  inOrder : surplus.Sublist call.keywords
  unstarred : s.has .varPositional = false → extra = []
  starred : ∀ e ∈ s.params.zip bound, e.1.kind = .varPositional →
    e.2.value = .tuple extra ∧ (e.2.passed = true ↔ extra ≠ [])
  undoubled : s.has .varKeyword = false → surplus = []
  doubleStarred : ∀ e ∈ s.params.zip bound, e.1.kind = .varKeyword →
    e.2.value = .dict (surplus.map fun keyword => (.str keyword.1, keyword.2)) ∧
      (e.2.passed = true ↔ surplus ≠ [])
  passed : ∀ e ∈ s.params.zip bound, e.1.kind.isVariadic = false →
    (e.2.passed = true ↔ s.Supplied call e.1)
  default : ∀ e ∈ s.params.zip bound, e.1.kind.isVariadic = false → ¬s.Supplied call e.1 →
    e.1.default = some e.2.value

/-- The keywords that no parameter takes. -/
def surplus (s : Signature) (call : Call) : List (String × Value) :=
  call.keywords.filter fun keyword => !takes s.params keyword.1

/-- The slots once all arguments are handed out. -/
def slots (s : Signature) (call : Call) : List Slot :=
  (Slot.fill s.params call.positional).1.map (Slot.receive call.keywords)

/-- The positional arguments that are left over. -/
def extra (s : Signature) (call : Call) : List Value :=
  (Slot.fill s.params call.positional).2

theorem nodup_fill (s : Signature) (args : List Value) :
    ((Slot.fill s.params args).1.map fun t => t.param.name).Nodup := by
  have names := congrArg (List.map Parameter.name) (Slot.map_param_fill s.params args)
  rw [List.map_map] at names
  exact names ▸ s.nodup_names

theorem map_param_slots (s : Signature) (call : Call) :
    (s.slots call).map Slot.param = s.params := by
  rw [slots, List.map_map]
  refine (List.map_congr_left fun t _ => ?_).trans (Slot.map_param_fill s.params call.positional)
  exact Slot.param_receive call.keywords t

/-- Binding succeeds if the positional arguments find parameters, the keywords are admitted and
every slot can be settled. -/
theorem bind_eq_ok_iff : s.bind call = .ok bound ↔
    (s.extra call = [] ∨ s.has .varPositional = true) ∧
      Slot.Admits (s.has .varKeyword) (Slot.fill s.params call.positional).1 call.keywords ∧
      (s.slots call).Forall₂ (fun t b => t.settle (s.extra call) (s.surplus call) = .ok b)
        bound := by
  have handed {r : List Slot × List (String × Value)} :
      Slot.fillKeywords (s.has .varKeyword) call.keywords (Slot.fill s.params call.positional).1 =
        .ok r ↔ _ := Slot.fillKeywords_eq_ok_iff (s.nodup_fill call.positional)
  rw [Slot.map_param_fill] at handed
  rw [← mapM_eq_ok_iff]
  unfold bind
  dsimp only
  split
  next beyond =>
    obtain ⟨leftOver, unstarred⟩ : s.extra call ≠ [] ∧ s.has .varPositional = false := by
      simpa [extra] using beyond
    exact iff_of_false (fun binds => by cases binds) fun fits => by simp_all
  next within =>
    have positional : s.extra call = [] ∨ s.has .varPositional = true := by
      rw [Bool.not_eq_true, Bool.and_eq_false_imp] at within
      by_cases leftOver : s.extra call = []
      · exact .inl leftOver
      · exact .inr (by simpa using within (by simpa [extra] using leftOver))
    rw [and_iff_right positional]
    rcases keyed : Slot.fillKeywords (s.has .varKeyword) call.keywords
      (Slot.fill s.params call.positional).1 with e | ⟨all, more⟩
    · refine iff_of_false (fun binds => by cases binds) fun fits => ?_
      rw [handed.mpr ⟨fits.1, rfl⟩] at keyed
      cases keyed
    · obtain ⟨admits, same⟩ := handed.mp keyed
      cases same
      exact (and_iff_right admits).symm

/-! ### Calls that fit -/

theorem given_slots {t : Slot} (member : t ∈ s.slots call) :
    t.given.isSome = true ↔ s.Supplied call t.param := by
  obtain ⟨before, inFill, rfl⟩ := List.mem_map.mp member
  have positional := Slot.given_fill s.nodup_names inFill
  rw [Slot.param_receive, Supplied, ← positional]
  unfold Slot.receive
  split
  next accepts =>
    have found : (∃ keyword ∈ call.keywords, (before.param.name == keyword.1) = true) ↔
        before.param.name ∈ call.keywords.map Prod.fst := by
      rw [List.mem_map]
      exact exists_congr fun keyword => and_congr_right fun _ => beq_iff_eq.trans eq_comm
    rw [Option.isSome_or, Bool.or_eq_true, List.lookup_isSome_iff, found, and_iff_right accepts]
  next refuses => simp [refuses]

theorem pairwise_of_splits {α : Type} {related : α → α → Prop} {xs : List α}
    (splits : ∀ before x after, xs = before ++ x :: after → ∀ y ∈ before, related y x) :
    xs.Pairwise related := by
  rw [List.pairwise_iff_getElem]
  intro i j inside inBounds earlier
  refine splits (xs.take j) xs[j] (xs.drop (j + 1)) ?_ _ ?_
  · rw [← List.drop_eq_getElem_cons, List.take_append_drop]
  · exact List.mem_take_iff_getElem.mpr ⟨i, by omega, rfl⟩

theorem admits_iff : Slot.Admits (s.has .varKeyword) (Slot.fill s.params call.positional).1
      call.keywords ↔
    ∀ before name v after, call.keywords = before ++ (name, v) :: after →
      (takes s.params name = true ∧
        name ∉ (filled s.params call.positional.length).map Parameter.name ∧
        name ∉ before.map Prod.fst) ∨
      takes s.params name = false ∧ s.has .varKeyword = true := by
  have isFree {t : Slot} (member : t ∈ (Slot.fill s.params call.positional).1) :
      t.given = none ↔
        t.param.name ∉ (filled s.params call.positional.length).map Parameter.name := by
    rw [← Slot.given_fill s.nodup_names member, Option.not_isSome_iff_eq_none]
  have taken {name : String} : takes s.params name = true ↔
      ∃ t ∈ (Slot.fill s.params call.positional).1,
        t.param.kind.acceptsKeyword = true ∧ t.param.name = name := by
    rw [← Slot.takes_iff, Slot.map_param_fill]
  constructor
  · rintro ⟨free, once, absorbed⟩ before name v after split
    rw [Slot.map_param_fill] at once absorbed
    have member : (name, v) ∈ call.keywords := by simp [split]
    cases takesName : takes s.params name with
    | false => exact .inr ⟨rfl, absorbed _ member takesName⟩
    | true =>
      obtain ⟨t, inFill, accepts, rfl⟩ := taken.mp takesName
      refine .inl ⟨rfl, (isFree inFill).mp (free _ member t inFill accepts rfl), fun repeated => ?_⟩
      obtain ⟨earlier, inBefore, same⟩ := List.mem_map.mp repeated
      rw [split, List.pairwise_append] at once
      exact once.2.2 earlier inBefore _ List.mem_cons_self takesName same
  · intro admitted
    have each {keyword : String × Value} (member : keyword ∈ call.keywords) :
        (takes s.params keyword.1 = true ∧
          keyword.1 ∉ (filled s.params call.positional.length).map Parameter.name) ∨
        takes s.params keyword.1 = false ∧ s.has .varKeyword = true := by
      obtain ⟨before, after, split⟩ := List.append_of_mem member
      exact (admitted before keyword.1 keyword.2 after split).imp_left fun h => ⟨h.1, h.2.1⟩
    refine ⟨fun keyword member t inFill accepts named => ?_, ?_, fun keyword member untaken => ?_⟩
    · rcases each member with ⟨_, unfilled⟩ | ⟨untaken, _⟩
      · exact (isFree inFill).mpr (named ▸ unfilled)
      · exact absurd (taken.mpr ⟨t, inFill, accepts, named⟩) (by simp [untaken])
    · refine pairwise_of_splits fun before keyword after split earlier inBefore isTaken same => ?_
      rw [Slot.map_param_fill] at isTaken
      rcases admitted before keyword.1 keyword.2 after split with ⟨_, _, fresh⟩ | ⟨untaken, _⟩
      · exact fresh (same ▸ List.mem_map_of_mem inBefore)
      · rw [untaken] at isTaken
        cases isTaken
    · rw [Slot.map_param_fill] at untaken
      rcases each member with ⟨isTaken, _⟩ | ⟨_, absorbs⟩
      · rw [untaken] at isTaken
        cases isTaken
      · exact absorbs

/-- Binding succeeds exactly for the calls that fit. -/
theorem exists_bind_iff_fits : (∃ bound, s.bind call = .ok bound) ↔ s.Fits call := by
  have positional : (s.extra call = [] ∨ s.has .varPositional = true) ↔
      call.positional.length ≤ (s.params.filter fun p => p.kind.acceptsPosition).length ∨
        s.has .varPositional = true := by
    rw [extra, Slot.extra_fill, List.drop_eq_nil_iff]
  have settled : (∃ bound, (s.slots call).Forall₂
        (fun t b => t.settle (s.extra call) (s.surplus call) = .ok b) bound) ↔
      ∀ p ∈ s.params, p.kind.isVariadic = false → p.default = none → s.Supplied call p := by
    rw [exists_forall₂_iff, ← s.map_param_slots call, List.forall_mem_map]
    refine forall₂_congr fun t member => ?_
    rw [Slot.exists_settle_iff, given_slots member]
  simp only [bind_eq_ok_iff, exists_and_left]
  rw [positional, admits_iff, settled]
  exact ⟨fun ⟨positional, keywords, supplied⟩ => ⟨positional, keywords, supplied⟩,
    fun ⟨positional, keywords, supplied⟩ => ⟨positional, keywords, supplied⟩⟩

/-! ### The distribution of the arguments -/

/-- The value of each parameter is that of its slot. -/
theorem settles_of_bind (binds : s.bind call = .ok bound) :
    (s.slots call).Forall₂ (Slot.Settles (s.extra call) (s.surplus call)) bound :=
  (bind_eq_ok_iff.mp binds).2.2.imp fun _ _ => Slot.settles_of_settle

theorem slot_of_mem_zip (settles : (s.slots call).Forall₂
      (Slot.Settles (s.extra call) (s.surplus call)) bound)
    {p : Parameter} {b : Bound} (member : (p, b) ∈ s.params.zip bound) :
    ∃ t ∈ s.slots call, t.param = p ∧ t.Settles (s.extra call) (s.surplus call) b := by
  rw [← s.map_param_slots call, List.zip_map_left] at member
  obtain ⟨⟨t, b⟩, inZip, same⟩ := List.mem_map.mp member
  cases same
  exact ⟨t, (List.of_mem_zip inZip).1, rfl, (List.forall₂_iff_zip.mp settles).2 inZip⟩

theorem names_of_settles (settles : (s.slots call).Forall₂
      (Slot.Settles (s.extra call) (s.surplus call)) bound) :
    bound.map Bound.name = s.params.map Parameter.name := by
  rw [← s.map_param_slots call, List.map_map, ← List.forall₂_eq_eq_eq, List.forall₂_map_left_iff,
    List.forall₂_map_right_iff]
  exact settles.flip.imp fun _ _ settles => settles.name

theorem positional_of_settles (settles : (s.slots call).Forall₂
      (Slot.Settles (s.extra call) (s.surplus call)) bound) :
    (((s.params.zip bound).filter fun e => e.1.kind.acceptsPosition).take
      call.positional.length).map (fun e => e.2.value) ++ s.extra call = call.positional := by
  refine Slot.values_fill ?_
  rw [slots, List.forall₂_map_left_iff] at settles
  refine settles.imp fun t b settles accepts v given => ?_
  have plain : t.param.kind.isVariadic = false := by
    cases kind : t.param.kind <;> simp_all [ParamKind.acceptsPosition, ParamKind.isVariadic]
  have value := (settles.plain (Slot.param_receive _ t ▸ plain)).1
  have kept : (t.receive call.keywords).given = some v := by
    unfold Slot.receive
    split <;> simp [given]
  rw [kept, Option.some_or] at value
  exact (Option.some.inj value).symm

/-- What no positional argument has filled holds the keyword of its name. -/
theorem given_of_unfilled {t : Slot} (member : t ∈ s.slots call)
    (unfilled : t.param.name ∉ (filled s.params call.positional.length).map Parameter.name) :
    t.given = if t.param.kind.acceptsKeyword then call.keywords.lookup t.param.name else none := by
  obtain ⟨before, inFill, rfl⟩ := List.mem_map.mp member
  rw [Slot.param_receive] at unfilled ⊢
  have free : before.given = none := by
    rw [← Option.not_isSome_iff_eq_none, Slot.given_fill s.nodup_names inFill]
    exact unfilled
  unfold Slot.receive
  split <;> simp [free]

/-- A keyword that a parameter takes finds it free. -/
theorem Fits.free (fits : s.Fits call) {before after : List (String × Value)} {name : String}
    {v : Value} (split : call.keywords = before ++ (name, v) :: after)
    (taken : takes s.params name = true) :
    name ∉ (filled s.params call.positional.length).map Parameter.name ∧
      ∀ earlier ∈ before, earlier.1 ≠ name := by
  rcases fits.keywords before name v after split with ⟨_, unfilled, fresh⟩ | ⟨untaken, _⟩
  · exact ⟨unfilled, fun earlier inBefore same => fresh (same ▸ List.mem_map_of_mem inBefore)⟩
  · rw [taken] at untaken
    cases untaken

theorem Fits.lookup_eq_some_iff (fits : s.Fits call) {name : String} {v : Value}
    (taken : takes s.params name = true) :
    call.keywords.lookup name = some v ↔ (name, v) ∈ call.keywords := by
  rw [List.lookup_eq_some_iff]
  constructor
  · rintro ⟨before, after, split, _⟩
    simp [split]
  · intro member
    obtain ⟨before, after, split⟩ := List.append_of_mem member
    exact ⟨before, after, split, fun earlier inBefore =>
      bne_iff_ne.mpr ((fits.free split taken).2 earlier inBefore).symm⟩

theorem Fits.nodup_taken (fits : s.Fits call) :
    (call.keywords.filter fun keyword => takes s.params keyword.1).Nodup := by
  have apart : call.keywords.Pairwise fun earlier keyword =>
      takes s.params keyword.1 = true → earlier ≠ keyword :=
    pairwise_of_splits fun before keyword after split earlier inBefore taken same =>
      (fits.free split taken).2 earlier inBefore (congrArg Prod.fst same)
  refine (apart.sublist List.filter_sublist).imp_of_mem fun _ member apart => ?_
  exact apart (List.mem_filter.mp member).2

section
variable (settles : (s.slots call).Forall₂ (Slot.Settles (s.extra call) (s.surplus call)) bound)
include settles

theorem map_fst_zip_of_settles : (s.params.zip bound).map Prod.fst = s.params := by
  refine List.map_fst_zip (Nat.le_of_eq ?_)
  rw [← s.map_param_slots call, List.length_map, settles.length_eq]

theorem map_snd_zip_of_settles : (s.params.zip bound).map Prod.snd = bound := by
  refine List.map_snd_zip (Nat.le_of_eq ?_)
  rw [← s.map_param_slots call, List.length_map, settles.length_eq]

theorem nodup_zip_of_settles : ((s.params.zip bound).map fun e => e.1.name).Nodup := by
  have names := congrArg (List.map Parameter.name) (map_fst_zip_of_settles settles)
  rw [List.map_map] at names
  exact names ▸ s.nodup_names

theorem nodup_keyed : (((s.params.zip bound).filter fun e => s.isKeyed call e.1 e.2).map
    fun e => (e.1.name, e.2.value)).Nodup := by
  refine List.Nodup.of_map Prod.fst ?_
  rw [List.map_map]
  exact (List.filter_sublist.map _).nodup (nodup_zip_of_settles settles)

/-- A keyword that the parameter takes is its value. -/
theorem keyed_of_mem (fits : s.Fits call) {p : Parameter} {b : Bound} {v : Value}
    (member : (p, b) ∈ s.params.zip bound) (accepts : p.kind.acceptsKeyword = true)
    (given : (p.name, v) ∈ call.keywords) : s.isKeyed call p b = true ∧ b.value = v := by
  have taken : takes s.params p.name = true :=
    List.any_eq_true.mpr ⟨p, (List.of_mem_zip member).1, by simp [accepts]⟩
  have plain : p.kind.isVariadic = false := by
    cases kind : p.kind <;> simp_all [ParamKind.acceptsKeyword, ParamKind.isVariadic]
  obtain ⟨before, after, split⟩ := List.append_of_mem given
  have unfilled := (fits.free split taken).1
  obtain ⟨t, inSlots, rfl, settles⟩ := slot_of_mem_zip settles member
  have holds := given_of_unfilled inSlots unfilled
  rw [if_pos accepts, (fits.lookup_eq_some_iff taken).mpr given] at holds
  obtain ⟨value, passed⟩ := settles.plain plain
  rw [holds, Option.some_or] at value
  rw [holds, Option.isSome_some] at passed
  exact ⟨isKeyed_iff.mpr ⟨plain, passed, unfilled⟩, (Option.some.inj value).symm⟩

/-- What a parameter has received by keyword stands in the call, under its name. -/
theorem mem_of_keyed (fits : s.Fits call) {p : Parameter} {b : Bound}
    (member : (p, b) ∈ s.params.zip bound) (keyed : s.isKeyed call p b = true) :
    takes s.params p.name = true ∧ (p.name, b.value) ∈ call.keywords := by
  obtain ⟨plain, passed, unfilled⟩ := isKeyed_iff.mp keyed
  have isParam := (List.of_mem_zip member).1
  obtain ⟨t, inSlots, rfl, settles⟩ := slot_of_mem_zip settles member
  have holds := given_of_unfilled inSlots unfilled
  obtain ⟨value, isGiven⟩ := settles.plain plain
  obtain ⟨v, isValue⟩ := Option.isSome_iff_exists.mp (isGiven.symm.trans passed)
  rw [isValue, Option.some_or] at value
  cases value
  rw [isValue] at holds
  split at holds
  next accepts =>
    have taken : takes s.params t.param.name = true :=
      List.any_eq_true.mpr ⟨t.param, isParam, by simp [accepts]⟩
    exact ⟨taken, (fits.lookup_eq_some_iff taken).mp holds.symm⟩
  next => cases holds

/-- The parameters that keywords have filled, with their values, are the keywords that parameters
take. -/
theorem keyed_perm (fits : s.Fits call) :
    (((s.params.zip bound).filter fun e => s.isKeyed call e.1 e.2).map
      fun e => (e.1.name, e.2.value)).Perm
      (call.keywords.filter fun keyword => takes s.params keyword.1) := by
  refine (List.perm_ext_iff_of_nodup (nodup_keyed settles) fits.nodup_taken).mpr
    fun ⟨name, v⟩ => ?_
  rw [List.mem_map, List.mem_filter]
  constructor
  · rintro ⟨⟨p, b⟩, inEntries, same⟩
    cases same
    obtain ⟨member, keyed⟩ := List.mem_filter.mp inEntries
    exact (mem_of_keyed settles fits member keyed).symm
  · rintro ⟨given, taken⟩
    obtain ⟨p, isParam, takesName⟩ := List.any_eq_true.mp taken
    obtain ⟨accepts, rfl⟩ : p.kind.acceptsKeyword = true ∧ p.name = name := by
      simpa using takesName
    rw [← map_fst_zip_of_settles settles] at isParam
    obtain ⟨⟨_, b⟩, member, rfl⟩ := List.mem_map.mp isParam
    obtain ⟨keyed, rfl⟩ := keyed_of_mem settles fits member accepts given
    exact ⟨(_, b), List.mem_filter.mpr ⟨member, keyed⟩, rfl⟩

theorem distributes_of_settles (fits : s.Fits call)
    (positional : s.extra call = [] ∨ s.has .varPositional = true) :
    s.Distributes call (s.extra call) (s.surplus call) bound where
  names := names_of_settles settles
  positional := positional_of_settles settles
  keywords := ((keyed_perm settles fits).append_right _).trans (List.filter_append_perm _ _)
  inOrder := List.filter_sublist
  unstarred missing := positional.resolve_right (by simp [missing])
  undoubled missing := by
    refine List.filter_eq_nil_iff.mpr fun keyword member surplus => ?_
    obtain ⟨before, after, split⟩ := List.append_of_mem member
    rcases fits.keywords before keyword.1 keyword.2 after split with ⟨taken, _⟩ | ⟨_, absorbs⟩
    · simp [taken] at surplus
    · simp [missing] at absorbs
  starred := by
    rintro ⟨p, b⟩ member kind
    obtain ⟨t, _, rfl, settles⟩ := slot_of_mem_zip settles member
    obtain ⟨value, passed⟩ := settles.starred kind
    exact ⟨value, by simp [passed]⟩
  doubleStarred := by
    rintro ⟨p, b⟩ member kind
    obtain ⟨t, _, rfl, settles⟩ := slot_of_mem_zip settles member
    obtain ⟨value, passed⟩ := settles.doubleStarred kind
    exact ⟨value, by simp [passed]⟩
  passed := by
    rintro ⟨p, b⟩ member plain
    obtain ⟨t, inSlots, rfl, settles⟩ := slot_of_mem_zip settles member
    rw [(settles.plain plain).2, given_slots inSlots]
  default := by
    rintro ⟨p, b⟩ member plain unsupplied
    obtain ⟨t, inSlots, rfl, settles⟩ := slot_of_mem_zip settles member
    rw [← given_slots inSlots, Option.not_isSome_iff_eq_none] at unsupplied
    simpa [unsupplied] using (settles.plain plain).1

end

/-- Binding succeeds exactly for the calls that fit, and it then hands out every argument once. -/
theorem bind_distributes (s : Signature) (call : Call) :
    ((∃ bound, s.bind call = .ok bound) ↔ s.Fits call) ∧
      ∀ bound, s.bind call = .ok bound →
        ∃ extra surplus, s.Distributes call extra surplus bound := by
  refine ⟨exists_bind_iff_fits, fun bound binds => ⟨s.extra call, s.surplus call, ?_⟩⟩
  exact distributes_of_settles (settles_of_bind binds) (exists_bind_iff_fits.mp ⟨bound, binds⟩)
    (bind_eq_ok_iff.mp binds).1

/-- A keyword with the name of a parameter that takes none by keyword is absorbed. -/
theorem bind_distributes_absorbed :
    let s : Signature := ⟨[⟨"a", .positionalOnly, none, none⟩,
      ⟨"b", .positionalOrKeyword, none, none⟩, ⟨"rest", .varPositional, none, none⟩,
      ⟨"c", .keywordOnly, none, none⟩, ⟨"d", .keywordOnly, some .none, none⟩,
      ⟨"others", .varKeyword, none, none⟩], rfl⟩
    let call : Call := ⟨[.int 1, .int 2, .int 3], [("a", .int 4), ("c", .int 5), ("e", .int 6)]⟩
    s.Fits call ∧ ∃ extra surplus, s.Distributes call extra surplus
      [⟨"a", .int 1, true⟩, ⟨"b", .int 2, true⟩, ⟨"rest", .tuple [.int 3], true⟩,
        ⟨"c", .int 5, true⟩, ⟨"d", .none, false⟩,
        ⟨"others", .dict [(.str "a", .int 4), (.str "e", .int 6)], true⟩] := by
  intro s call
  have binds : s.bind call = .ok _ := rfl
  exact ⟨(bind_distributes s call).1.mp ⟨_, binds⟩, (bind_distributes s call).2 _ binds⟩

end Signature
end HintCheck
