import HintCheck.Proofs.Arguments

/-!
Handing arguments on. A wrapper calls the function inside with the values of its own parameters: the
positional ones in order, then the items of the variadic one, then the keyword-only ones by name and
the entries of the dictionary. Parameters are declared in the order of their kinds, so every value
finds its own parameter again when the call is bound; a default that was filled in is handed on like
any other value.
-/
namespace HintCheck

/-- What a list holds under a name is what the name is bound to, if no two entries share a name. -/
theorem lookup_of_nodup {α : Type} {entries : List (String × α)}
    (nodup : (entries.map Prod.fst).Nodup) {entry : String × α} (member : entry ∈ entries) :
    entries.lookup entry.1 = some entry.2 := by
  obtain ⟨before, after, split⟩ := List.append_of_mem member
  rw [split, List.map_append, List.nodup_append] at nodup
  refine List.lookup_eq_some_iff.mpr ⟨before, after, split, fun earlier inBefore => ?_⟩
  exact bne_iff_ne.mpr (nodup.2.2 _ (List.mem_map_of_mem inBefore) _ List.mem_cons_self).symm

/-! ### The order of parameters -/

theorem ParamKind.mayFollow_trans {first second third : ParamKind}
    (follows : second.mayFollow first = true) (followsToo : third.mayFollow second = true) :
    third.mayFollow first = true := by
  revert follows followsToo
  cases first <;> cases second <;> cases third <;> decide

namespace Signature

theorem kinds_of_faultFrom {seen : List String} {previous : Option ParamKind} {defaults : Bool}
    {params : List Parameter} (sound : faultFrom seen previous defaults params = none) :
    (params.Pairwise fun p q => q.kind.mayFollow p.kind = true) ∧
      ∀ k, previous = some k → ∀ p ∈ params, p.kind.mayFollow k = true := by
  induction params generalizing seen previous defaults with
  | nil => simp
  | cons p rest ih =>
    obtain ⟨_, follows, _, _, sound⟩ := sound_cons sound
    obtain ⟨inOrder, later⟩ := ih sound
    refine ⟨List.pairwise_cons.mpr ⟨later p.kind rfl, inOrder⟩, fun k isPrevious => ?_⟩
    refine List.forall_mem_cons.mpr ⟨follows k isPrevious, fun q member => ?_⟩
    exact ParamKind.mayFollow_trans (follows k isPrevious) (later p.kind rfl q member)

/-- Parameters stand in the order of their kinds, and of each variadic kind there is one at most. -/
theorem pairwise_kinds (s : Signature) :
    s.params.Pairwise fun p q => q.kind.mayFollow p.kind = true :=
  (kinds_of_faultFrom s.sound).1

end Signature

/-! ### Written arguments -/

namespace Value

/-- The items of a tuple. -/
def tupleItems? : Value → Option (List Value)
  | tuple items => some items
  | _ => Option.none

/-- The entries of a dictionary whose keys are texts. -/
def textEntries? : Value → Option (List (String × Value))
  | dict pairs => pairs.mapM fun pair =>
      match pair.1 with
      | str name => some (name, pair.2)
      | _ => Option.none
  | _ => Option.none

theorem textEntries?_dict (keywords : List (String × Value)) :
    (dict (keywords.map fun keyword => (str keyword.1, keyword.2))).textEntries? =
      some keywords := by
  rw [textEntries?, List.mapM_map]
  induction keywords with
  | nil => rfl
  | cons keyword rest ih =>
    rw [List.mapM_cons, ih]
    rfl

end Value

/-- The arguments that a written argument stands for, where the parameters have the given values. A
tuple is spread over positions and a dictionary over keywords; nothing else can be spread. -/
def Argument.given (bound : List Bound) : Argument → Option Call
  | positional name => (Bound.get? bound name).map fun v => ⟨[v], []⟩
  | spread name =>
    ((Bound.get? bound name).bind Value.tupleItems?).map fun items => ⟨items, []⟩
  | keyword name => (Bound.get? bound name).map fun v => ⟨[], [(name, v)]⟩
  | spreadKeywords name =>
    ((Bound.get? bound name).bind Value.textEntries?).map fun entries => ⟨[], entries⟩

/-- The call that written arguments make, from left to right. -/
def Call.written? (bound : List Bound) : List Argument → Option Call
  | [] => some ⟨[], []⟩
  | argument :: rest => do
    let first ← argument.given bound
    let others ← written? bound rest
    return ⟨first.positional ++ others.positional, first.keywords ++ others.keywords⟩

/-- The call by which a wrapper hands the values of its parameters on. -/
def Signature.handedOn? (s : Signature) (bound : List Bound) : Option Call :=
  Call.written? bound (s.params.map Parameter.argument)

namespace Signature

variable {s : Signature} {call : Call} {bound : List Bound}

/-! ### The call that hands arguments on -/

/-- The values of the positional parameters. -/
def positionalValues (entries : List (Parameter × Bound)) : List Value :=
  (entries.filter fun e => e.1.kind.acceptsPosition).map fun e => e.2.value

/-- The keyword-only parameters with their values. -/
def keywordValues (entries : List (Parameter × Bound)) : List (String × Value) :=
  (entries.filter fun e => e.1.kind == .keywordOnly).map fun e => (e.1.name, e.2.value)

/-- What the parameters of a variadic kind, if there are any, take in. -/
def variadicPart {α : Type} (kind : ParamKind) (entries : List (Parameter × Bound))
    (taken : List α) : List α :=
  if entries.any fun e => e.1.kind == kind then taken else []

section Parts
variable {α : Type} (e : Parameter × Bound) (rest : List (Parameter × Bound))

@[simp] theorem positionalValues_cons : positionalValues (e :: rest) =
    if e.1.kind.acceptsPosition then e.2.value :: positionalValues rest
    else positionalValues rest := by
  unfold positionalValues
  cases accepts : e.1.kind.acceptsPosition <;> simp [accepts]

@[simp] theorem keywordValues_cons : keywordValues (e :: rest) =
    if e.1.kind = .keywordOnly then (e.1.name, e.2.value) :: keywordValues rest
    else keywordValues rest := by
  unfold keywordValues
  by_cases isKeyword : e.1.kind = .keywordOnly <;> simp [isKeyword]

@[simp] theorem variadicPart_cons (kind : ParamKind) (taken : List α) :
    variadicPart kind (e :: rest) taken =
      if e.1.kind = kind then taken else variadicPart kind rest taken := by
  unfold variadicPart
  by_cases isKind : e.1.kind = kind
  · simp [isKind]
  · simp only [List.any_cons, beq_false_of_ne isKind, Bool.false_or, isKind, if_false]

end Parts

section Order
variable {p : Parameter} {rest : List (Parameter × Bound)}
  (follow : ∀ e ∈ rest, e.1.kind.mayFollow p.kind = true)
include follow

/-- Behind the variadic positional parameter no value is handed on by position. -/
theorem nothing_positional (isStarred : p.kind = .varPositional) {α : Type} (extra : List α) :
    positionalValues rest = [] ∧ variadicPart .varPositional rest extra = [] := by
  have noMore (e : Parameter × Bound) (member : e ∈ rest) :
      e.1.kind.acceptsPosition = false ∧ (e.1.kind == .varPositional) = false := by
    have follows := follow e member
    rw [isStarred] at follows
    revert follows
    cases e.1.kind <;> decide
  constructor
  · rw [positionalValues, List.map_eq_nil_iff, List.filter_eq_nil_iff]
    exact fun e member => by simp [(noMore e member).1]
  · rw [variadicPart, if_neg]
    simp only [List.any_eq_true, not_exists, not_and]
    exact fun e member => by simp [(noMore e member).2]

/-- Behind the variadic keyword parameter there is nothing. -/
theorem nothing_keyed (isDoubleStarred : p.kind = .varKeyword) : rest = [] := by
  refine List.eq_nil_iff_forall_not_mem.mpr fun e member => ?_
  have follows := follow e member
  rw [isDoubleStarred] at follows
  revert follows
  cases e.1.kind <;> decide

end Order

section Settled
variable (settles : (s.slots call).Forall₂ (Slot.Settles (s.extra call) (s.surplus call)) bound)
include settles

theorem get?_of_mem_zip {p : Parameter} {b : Bound} (member : (p, b) ∈ s.params.zip bound) :
    Bound.get? bound p.name = some b.value := by
  have nodup : (bound.map Bound.name).Nodup := names_of_settles settles ▸ s.nodup_names
  have isBound := (List.of_mem_zip member).2
  obtain ⟨t, _, rfl, settles⟩ := slot_of_mem_zip settles member
  rw [Bound.get?, ← settles.name, find?_of_nodup nodup isBound]
  rfl

/-- The arguments written for the parameters from some on: values by position come before the items
of the tuple, and values by name before the entries of the dictionary. -/
theorem written?_arguments {entries : List (Parameter × Bound)}
    (inZip : ∀ e ∈ entries, e ∈ s.params.zip bound)
    (inOrder : entries.Pairwise fun e f => f.1.kind.mayFollow e.1.kind = true) :
    Call.written? bound (entries.map fun e => e.1.argument) =
      some ⟨positionalValues entries ++ variadicPart .varPositional entries (s.extra call),
        keywordValues entries ++ variadicPart .varKeyword entries (s.surplus call)⟩ := by
  induction entries with
  | nil => rfl
  | cons e rest ih =>
    obtain ⟨p, b⟩ := e
    have member := inZip (p, b) List.mem_cons_self
    have ofRest := ih (fun f later => inZip f (List.mem_cons_of_mem _ later))
      (List.pairwise_cons.mp inOrder).2
    have follow := (List.pairwise_cons.mp inOrder).1
    have value := get?_of_mem_zip settles member
    obtain ⟨t, _, rfl, holds⟩ := slot_of_mem_zip settles member
    rw [List.map_cons, Call.written?, ofRest]
    cases kind : t.param.kind with
    | positionalOnly | positionalOrKeyword | keywordOnly =>
      simp [Parameter.argument, kind, Argument.given, value, ParamKind.acceptsPosition]
    | varPositional =>
      obtain ⟨noValues, noItems⟩ := nothing_positional follow kind (s.extra call)
      have isTuple := (holds.starred kind).1
      simp [Parameter.argument, kind, Argument.given, value, ParamKind.acceptsPosition, isTuple,
        Value.tupleItems?, noValues, noItems]
    | varKeyword =>
      obtain rfl := nothing_keyed follow kind
      have isDict := (holds.doubleStarred kind).1
      simp [Parameter.argument, kind, Argument.given, value, ParamKind.acceptsPosition, isDict,
        Value.textEntries?_dict, positionalValues, keywordValues, variadicPart]

theorem any_zip_of_settles (kind : ParamKind) :
    (s.params.zip bound).any (fun e => e.1.kind == kind) = s.has kind := by
  have kinds := congrArg (List.any · fun p => p.kind == kind) (map_fst_zip_of_settles settles)
  rwa [List.any_map] at kinds

end Settled

/-- What the variadic parameters have taken in is handed on as a whole: where there is none, nothing
was left over. -/
theorem handedOn?_eq (binds : s.bind call = .ok bound) :
    s.handedOn? bound = some ⟨positionalValues (s.params.zip bound) ++ s.extra call,
      keywordValues (s.params.zip bound) ++ s.surplus call⟩ := by
  have settles := settles_of_bind binds
  obtain ⟨positional, admits, _⟩ := bind_eq_ok_iff.mp binds
  have inOrder : (s.params.zip bound).Pairwise fun e f => f.1.kind.mayFollow e.1.kind = true := by
    have inOrder := s.pairwise_kinds
    rw [← map_fst_zip_of_settles settles, List.pairwise_map] at inOrder
    exact inOrder
  have extra : variadicPart .varPositional (s.params.zip bound) (s.extra call) = s.extra call := by
    rw [variadicPart, any_zip_of_settles settles]
    rcases positional with nothing | starred
    · simp [nothing]
    · simp [starred]
  have surplus :
      variadicPart .varKeyword (s.params.zip bound) (s.surplus call) = s.surplus call := by
    rw [variadicPart, any_zip_of_settles settles]
    split
    next => rfl
    next undoubled =>
      refine (List.filter_eq_nil_iff.mpr fun keyword member untaken => undoubled ?_).symm
      refine admits.absorbed keyword member ?_
      rwa [Slot.map_param_fill, ← Bool.not_eq_true']
  have written := written?_arguments settles (fun _ => id) inOrder
  have arguments := congrArg (List.map Parameter.argument) (map_fst_zip_of_settles settles)
  rw [List.map_map] at arguments
  rw [handedOn?, ← arguments]
  rwa [extra, surplus] at written

/-! ### Binding it again -/

/-- What a parameter has received by position, where all positional values are handed on. -/
def handedSlot (e : Parameter × Bound) : Slot :=
  ⟨e.1, if e.1.kind.acceptsPosition then some e.2.value else none⟩

/-- Every positional parameter is given its value, and what is left over stays left over. -/
theorem fill_positionalValues (entries : List (Parameter × Bound)) (extra : List Value) :
    Slot.fill (entries.map Prod.fst) (positionalValues entries ++ extra) =
      (entries.map handedSlot, extra) := by
  induction entries with
  | nil => rfl
  | cons e rest ih =>
    cases accepts : e.1.kind.acceptsPosition <;> simp [Slot.fill, handedSlot, accepts, ih]

theorem mem_keywordValues {entries : List (Parameter × Bound)} {keyword : String × Value} :
    keyword ∈ keywordValues entries ↔
      ∃ e ∈ entries, e.1.kind = .keywordOnly ∧ (e.1.name, e.2.value) = keyword := by
  simp [keywordValues, and_assoc]

theorem nodup_keywordValues {entries : List (Parameter × Bound)}
    (nodup : (entries.map fun e => e.1.name).Nodup) :
    ((keywordValues entries).map Prod.fst).Nodup := by
  rw [keywordValues, List.map_map]
  exact (List.filter_sublist.map _).nodup nodup

theorem takes_keywordValues {keyword : String × Value}
    (member : keyword ∈ keywordValues (s.params.zip bound)) : takes s.params keyword.1 = true := by
  obtain ⟨e, inZip, isKeyword, rfl⟩ := mem_keywordValues.mp member
  exact List.any_eq_true.mpr
    ⟨e.1, (List.of_mem_zip inZip).1, by simp [isKeyword, ParamKind.acceptsKeyword]⟩

theorem untaken_surplus {keyword : String × Value} (member : keyword ∈ s.surplus call) :
    takes s.params keyword.1 = false := by
  simpa using (List.mem_filter.mp member).2

/-- The keywords that no parameter takes are the ones that were left over before. -/
theorem surplus_handedOn (positional : List Value) :
    s.surplus ⟨positional, keywordValues (s.params.zip bound) ++ s.surplus call⟩ =
      s.surplus call := by
  have keyed : (keywordValues (s.params.zip bound)).filter
      (fun keyword => !takes s.params keyword.1) = [] :=
    List.filter_eq_nil_iff.mpr fun keyword member => by simp [takes_keywordValues member]
  have kept : (s.surplus call).filter (fun keyword => !takes s.params keyword.1) = s.surplus call :=
    List.filter_eq_self.mpr fun keyword member => by simp [untaken_surplus member]
  rw [surplus, List.filter_append, keyed, kept, List.nil_append]

section Again
variable (binds : s.bind call = .ok bound)
include binds

/-- The keywords of the call are taken by the keyword-only parameters, and the others are absorbed
as they were before. -/
theorem admits_handedOn : Slot.Admits (s.has .varKeyword) ((s.params.zip bound).map handedSlot)
    (keywordValues (s.params.zip bound) ++ s.surplus call) := by
  have settles := settles_of_bind binds
  have nodup := nodup_zip_of_settles settles
  have params : ((s.params.zip bound).map handedSlot).map Slot.param = s.params := by
    rw [List.map_map]
    exact map_fst_zip_of_settles settles
  refine ⟨fun keyword member t inSlots accepts named => ?_, ?_, fun keyword member free => ?_⟩
  · obtain ⟨e, inZip, rfl⟩ := List.mem_map.mp inSlots
    rcases List.mem_append.mp member with keyed | leftOver
    · obtain ⟨f, inZipToo, isKeyword, rfl⟩ := mem_keywordValues.mp keyed
      obtain rfl := List.inj_on_of_nodup_map nodup inZip inZipToo named
      simp [handedSlot, isKeyword, ParamKind.acceptsPosition]
    · have taken := Slot.takes_iff.mpr ⟨_, inSlots, accepts, named⟩
      rw [params, untaken_surplus leftOver] at taken
      cases taken
  · rw [params]
    have untaken {keyword : String × Value} (member : keyword ∈ s.surplus call) :
        ¬takes s.params keyword.1 = true := by simp [untaken_surplus member]
    refine List.pairwise_append.mpr ⟨?_, ?_, ?_⟩
    · refine (List.pairwise_map.mp (nodup_keywordValues nodup)).imp ?_
      exact fun apart _ => apart
    · exact List.pairwise_of_forall_mem_list fun _ _ _ member taken => absurd taken (untaken member)
    · exact fun _ _ _ member taken => absurd taken (untaken member)
  · rw [params] at free
    rcases List.mem_append.mp member with keyed | leftOver
    · rw [takes_keywordValues keyed] at free
      cases free
    · have absorbed := (bind_eq_ok_iff.mp binds).2.1.absorbed
      rw [Slot.map_param_fill] at absorbed
      exact absorbed keyword (List.mem_filter.mp leftOver).1 free

/-- Once the keywords are handed out, every parameter settles for the value it had. -/
theorem settle_handedOn {e : Parameter × Bound} (member : e ∈ s.params.zip bound) :
    ((handedSlot e).receive (keywordValues (s.params.zip bound) ++ s.surplus call)).settle
        (s.extra call) (s.surplus call) =
      .ok { e.2 with passed := e.2.passed || !e.1.kind.isVariadic } := by
  have settles := settles_of_bind binds
  have nodup := nodup_keywordValues (nodup_zip_of_settles settles)
  obtain ⟨p, b⟩ := e
  obtain ⟨t, _, rfl, holds⟩ := slot_of_mem_zip settles member
  cases kind : t.param.kind with
  | positionalOnly | positionalOrKeyword =>
    simp [Slot.settle, Slot.receive, handedSlot, kind, ParamKind.acceptsPosition,
      ParamKind.acceptsKeyword, ParamKind.isVariadic, holds.name]
  | varPositional =>
    obtain ⟨value, passed⟩ := holds.starred kind
    simp [Slot.settle, handedSlot, kind, ParamKind.isVariadic, ← holds.name, ← value, ← passed]
  | keywordOnly =>
    have keyed : (t.param.name, b.value) ∈ keywordValues (s.params.zip bound) :=
      mem_keywordValues.mpr ⟨_, member, kind, rfl⟩
    have found := lookup_of_nodup nodup keyed
    simp [Slot.settle, Slot.receive, handedSlot, kind, ParamKind.acceptsPosition,
      ParamKind.acceptsKeyword, ParamKind.isVariadic, holds.name, List.lookup_append, found]
  | varKeyword =>
    obtain ⟨value, passed⟩ := holds.doubleStarred kind
    simp [Slot.settle, handedSlot, kind, ParamKind.isVariadic, ← holds.name, ← value, ← passed]

end Again

/-- The call by which a wrapper hands the values of its parameters on can be made, and it binds
every parameter to the value it has. -/
theorem bind_handedOn (binds : s.bind call = .ok bound) :
    ∃ handed again, s.handedOn? bound = some handed ∧ s.bind handed = .ok again ∧
      again.map (fun b => (b.name, b.value)) = bound.map fun b => (b.name, b.value) := by
  have settles := settles_of_bind binds
  have params := map_fst_zip_of_settles settles
  let handed : Call := ⟨positionalValues (s.params.zip bound) ++ s.extra call,
    keywordValues (s.params.zip bound) ++ s.surplus call⟩
  have filled : Slot.fill s.params handed.positional =
      ((s.params.zip bound).map handedSlot, s.extra call) := by
    have filled := fill_positionalValues (s.params.zip bound) (s.extra call)
    rwa [params] at filled
  have extra : s.extra handed = s.extra call := by rw [Signature.extra, filled]
  have surplus : s.surplus handed = s.surplus call := surplus_handedOn _
  refine ⟨handed, (s.params.zip bound).map fun e =>
    { e.2 with passed := e.2.passed || !e.1.kind.isVariadic }, handedOn?_eq binds, ?_, ?_⟩
  · refine bind_eq_ok_iff.mpr ⟨?_, ?_, ?_⟩
    · rw [extra]
      exact (bind_eq_ok_iff.mp binds).1
    · rw [filled]
      exact admits_handedOn binds
    · rw [slots, filled, extra, surplus]
      simp only [List.map_map, List.forall₂_map_left_iff, List.forall₂_map_right_iff]
      exact List.forall₂_same.mpr fun e member => settle_handedOn binds member
  · have values := congrArg (List.map fun b => (b.name, b.value)) (map_snd_zip_of_settles settles)
    rw [List.map_map] at values ⊢
    exact values

/-- A default and a keyword are handed on by position, and the keywords that were absorbed are
absorbed again, under the names of other parameters. -/
theorem bind_handedOn_mixed :
    let s : Signature := ⟨[⟨"a", .positionalOnly, none, none⟩,
      ⟨"b", .positionalOrKeyword, none, none⟩, ⟨"c", .positionalOrKeyword, some (.int 3), none⟩,
      ⟨"rest", .varPositional, none, none⟩, ⟨"d", .keywordOnly, some .none, none⟩,
      ⟨"others", .varKeyword, none, none⟩], rfl⟩
    let call : Call := ⟨[.int 1], [("rest", .int 4), ("b", .int 2), ("a", .int 5)]⟩
    let bound : List Bound := [⟨"a", .int 1, true⟩, ⟨"b", .int 2, true⟩, ⟨"c", .int 3, false⟩,
      ⟨"rest", .tuple [], false⟩, ⟨"d", .none, false⟩,
      ⟨"others", .dict [(.str "rest", .int 4), (.str "a", .int 5)], true⟩]
    s.bind call = .ok bound ∧ ∃ handed again, s.handedOn? bound = some handed ∧
      s.bind handed = .ok again ∧
      again.map (fun b => (b.name, b.value)) = bound.map fun b => (b.name, b.value) := by
  intro s call bound
  have binds : s.bind call = .ok bound := rfl
  exact ⟨binds, bind_handedOn binds⟩

end Signature
end HintCheck
