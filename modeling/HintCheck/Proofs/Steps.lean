import HintCheck.Hint.Canonical
import HintCheck.Proofs.Naming

/-!
What one step can do. A step of a union brings its members to canonical form; a step of any other
hint opens it: it shows what the hint stands for, be it what a variable is bound to, the inside of a
qualifier or a class, and fails only on hints that break a rule. Everything that holds of canonical
forms follows from what holds of these two kinds of steps.
-/
namespace HintCheck

/-- The outcome is a good result, or an error that is excused. -/
def Ends {α : Type} (excused : HintError → Prop) (good : α → Prop) : Except HintError α → Prop
  | .ok a => good a
  | .error e => excused e

namespace Ends

variable {α β : Type} {excused : HintError → Prop} {x : Except HintError α} {good : α → Prop}

theorem bind {f : α → Except HintError β} {better : β → Prop} (first : Ends excused good x)
    (next : ∀ a, good a → Ends excused better (f a)) : Ends excused better (x >>= f) := by
  cases x with
  | ok a => exact next a first
  | error e => exact first

theorem mono {wider : HintError → Prop} {better : α → Prop} (ends : Ends excused good x)
    (excuses : ∀ e, excused e → wider e) (improves : ∀ a, good a → better a) :
    Ends wider better x := by
  cases x with
  | ok a => exact improves a ends
  | error e => exact excuses e ends

theorem mapM {ι : Type} {f : ι → Except HintError α} {hints : List ι}
    (each : ∀ i ∈ hints, Ends excused good (f i)) :
    Ends excused (fun found => ∀ a ∈ found, good a) (hints.mapM f) := by
  induction hints with
  | nil => exact fun _ member => by cases member
  | cons i rest ih =>
    rw [List.mapM_cons]
    refine (each i (by simp)).bind fun a first => ?_
    refine (ih fun j member => each j (by simp [member])).bind fun others further => ?_
    exact List.forall_mem_cons.mpr ⟨first, further⟩

theorem and {wider : HintError → Prop} {better : α → Prop} (ends : Ends excused good x)
    (also : Ends wider better x) :
    Ends (fun e => excused e ∧ wider e) (fun a => good a ∧ better a) x := by
  cases x <;> exact ⟨ends, also⟩

end Ends

/-- A result that is tested is there. -/
theorem ok_of_any {ε α : Type} {x : Except ε α} {test : α → Bool}
    (passes : x.toOption.any test = true) : ∃ a, x = .ok a ∧ test a = true := by
  cases x with
  | ok a => exact ⟨a, rfl, passes⟩
  | error e => cases passes

theorem ok_of_bind {ε α β : Type} {x : Except ε α} {f : α → Except ε β} {b : β}
    (done : x >>= f = .ok b) : ∃ a, x = .ok a ∧ f a = .ok b := by
  cases x with
  | error e => cases done
  | ok a => exact ⟨a, rfl, done⟩

theorem error_of_map {ε α β : Type} {x : Except ε α} {f : α → β} {e : ε}
    (fails : x.map f = .error e) : x = .error e := by
  cases x with
  | ok a => cases fails
  | error e => exact congrArg Except.error (Except.error.inj fails)

/-- The hint breaks a rule of its own kind. -/
def HintError.isMalformed : HintError → Bool
  | malformed _ _ => true
  | _ => false

/-- Replacing hints does not end. -/
def HintError.isEndless : HintError → Bool
  | endless _ => true
  | _ => false

theorem HintError.notEndless_of_isMalformed {e : HintError} (isMalformed : e.isMalformed = true) :
    e.isEndless = false := by
  cases e <;> first | rfl | cases isMalformed

namespace Hint

variable {cat : Catalog} {ctx : Context} {reduce : Hint → Except HintError Reduced} {h : Hint}

/-! ### Unions -/

theorem isUnion_cases (isUnion : h.isUnion = true) :
    (∃ label members, h = .union label members) ∨
      ∃ label f members, f.form = .union ∧ h = .subscription label (.form f) members := by
  unfold Hint.isUnion at isUnion
  split at isUnion
  · exact .inl ⟨_, _, rfl⟩
  · exact .inr ⟨_, _, _, beq_iff_eq.mp isUnion, rfl⟩
  · simp at isUnion

theorem flatten_union (isUnion : h.isUnion = true) : h.flatten = flattenAll h.args := by
  rcases isUnion_cases isUnion with ⟨label, members, rfl⟩ | ⟨label, f, members, form, rfl⟩
  · rw [flatten, args]
  · rw [flatten, if_pos form, args]

theorem flatten_other (notUnion : h.isUnion = false) : h.flatten = [h] := by
  unfold flatten
  split
  · simp [isUnion] at notUnion
  · rw [if_neg (by simpa [isUnion] using notUnion)]
  · rfl

theorem parts_union (isUnion : h.isUnion = true) : h.parts = h.args := by
  rcases isUnion_cases isUnion with ⟨label, members, rfl⟩ | ⟨label, f, members, form, rfl⟩ <;> rfl

theorem depth_union (isUnion : h.isUnion = true) : h.depth = depthAll h.args + 1 := by
  rcases isUnion_cases isUnion with ⟨label, members, rfl⟩ | ⟨label, f, members, form, rfl⟩ <;>
    rw [depth, args]

theorem forall_flattenAll {Q : Hint → Prop} {hints : List Hint}
    (each : ∀ p ∈ hints, ∀ m ∈ p.flatten, Q m) : ∀ m ∈ flattenAll hints, Q m := by
  induction hints with
  | nil => exact fun m member => by cases member
  | cons p rest ih =>
    intro m member
    rcases List.mem_append.mp member with inHead | inRest
    · exact each p (by simp) m inHead
    · exact ih (fun p member => each p (List.mem_cons_of_mem _ member)) m inRest

/-- What the arguments of unions inherit holds of the members. -/
theorem forall_flatten {Q : Hint → Prop}
    (inherits : ∀ u : Hint, u.isUnion = true → Q u → ∀ a ∈ u.args, Q a) (holds : Q h) :
    ∀ m ∈ h.flatten, Q m := by
  induction h using induction_parts with
  | step h ih =>
    cases isUnion : h.isUnion with
    | true =>
      rw [flatten_union isUnion]
      rw [parts_union isUnion] at ih
      exact forall_flattenAll fun p member => ih p member (inherits h isUnion holds p member)
    | false =>
      rw [flatten_other isUnion]
      simpa using holds

theorem notUnion_flatten (h : Hint) : ∀ m ∈ h.flatten, m.isUnion = false := by
  induction h using induction_parts with
  | step h ih =>
    cases isUnion : h.isUnion with
    | true =>
      rw [flatten_union isUnion]
      rw [parts_union isUnion] at ih
      exact forall_flattenAll ih
    | false =>
      rw [flatten_other isUnion]
      simpa using isUnion

theorem flattenAll_of_notUnion {hints : List Hint} (each : ∀ m ∈ hints, m.isUnion = false) :
    flattenAll hints = hints := by
  induction hints with
  | nil => rfl
  | cons m rest ih =>
    rw [flattenAll, flatten_other (each m (by simp)), ih fun m member => each m (by simp [member])]
    rfl

theorem mem_flattenAll {hints : List Hint} {m : Hint} (member : m ∈ flattenAll hints) :
    m.isUnion = false := by
  have flat : (union Option.none hints).flatten = flattenAll hints := rfl
  exact notUnion_flatten _ m (flat ▸ member)

theorem unionForms_cons (m : Hint) (rest : List Hint) :
    unionForms cat reduce (m :: rest) = (do
      let r ← reduce m
      match memberForms cat m r with
      | Option.none => return Option.none
      | some mine => return (← unionForms cat reduce rest).map (mine ++ ·)) := by
  rw [unionForms]
  cases reduce m with
  | error e => rfl
  | ok r =>
    dsimp only [bind, Except.bind]
    cases memberForms cat m r with
    | none => rfl
    | some mine => rcases unionForms cat reduce rest with _ | _ | _ <;> rfl

theorem unionForms_cons_some {m : Hint} {rest members : List Hint}
    (found : unionForms cat reduce (m :: rest) = .ok (some members)) :
    ∃ r mine more, reduce m = .ok r ∧ memberForms cat m r = some mine ∧
      unionForms cat reduce rest = .ok (some more) ∧ members = mine ++ more := by
  rw [unionForms_cons] at found
  cases reduced : reduce m with
  | error e => rw [reduced] at found; cases found
  | ok r =>
    rw [reduced] at found
    cases contributed : memberForms cat m r with
    | none => simp only [bind, Except.bind, contributed] at found; cases found
    | some mine =>
      simp only [bind, Except.bind, contributed] at found
      rcases others : unionForms cat reduce rest with e | _ | more <;> rw [others] at found
      · cases found
      · cases found
      · cases found
        exact ⟨r, mine, more, rfl, contributed, rfl, rfl⟩

/-- A member and one of the canonical members that it contributes. -/
def Contributes (cat : Catalog) (reduce : Hint → Except HintError Reduced) (m x : Hint) : Prop :=
  ∃ r forms, reduce m = .ok r ∧ memberForms cat m r = some forms ∧ x ∈ forms

theorem contributes_of_mem {flat members : List Hint}
    (found : unionForms cat reduce flat = .ok (some members)) {x : Hint} (member : x ∈ members) :
    ∃ m ∈ flat, Contributes cat reduce m x := by
  induction flat generalizing members with
  | nil => cases found; cases member
  | cons m rest ih =>
    obtain ⟨r, mine, more, reduced, contributed, others, rfl⟩ := unionForms_cons_some found
    rcases List.mem_append.mp member with isMine | isOther
    · exact ⟨m, by simp, r, mine, reduced, contributed, isMine⟩
    · obtain ⟨m, inRest, contributes⟩ := ih others isOther
      exact ⟨m, List.mem_cons_of_mem _ inRest, contributes⟩

/-- The hint for the given members in the place of a union: one member needs no union. -/
def joined (h : Hint) : List Hint → Hint
  | [only] => only
  | members => h.respelled members

theorem isUnion_respelled (h : Hint) (members : List Hint) :
    (h.respelled members).isUnion = true ∧ (h.respelled members).args = members := by
  unfold respelled
  split <;> exact ⟨rfl, rfl⟩

theorem id?_respelled (h : Hint) (members : List Hint) :
    (h.respelled members).id? = Option.none := by
  unfold respelled
  split <;> rfl

theorem wellNamed_respelled {names : Naming} {members : List Hint}
    (each : ∀ m ∈ members, m.WellNamed names) (h : Hint) :
    (h.respelled members).WellNamed names := by
  obtain ⟨isUnion, args⟩ := isUnion_respelled h members
  refine .ofParts (id?_respelled h members) (fun label v same => ?_) ?_
  · rw [same] at isUnion
    cases isUnion
  · rwa [parts_union isUnion, args]

theorem stepUnion_eq (nonempty : flattenAll h.args ≠ []) :
    h.stepUnion cat reduce = (do
      match ← unionForms cat reduce (flattenAll h.args) with
      | Option.none => return some object
      | some members =>
        return if (h.joined members).structEq h then Option.none else some (h.joined members)) := by
  unfold stepUnion
  split
  case h_1 empty => exact (nonempty empty).elim
  case h_2 =>
    rcases unionForms cat reduce (flattenAll h.args) with _ | _ | members
    · rfl
    · rfl
    · match members with
      | [] | [_] | _ :: _ :: _ => rfl

/-- A union becomes the hint that every value satisfies, or the union of what its members
contribute. -/
theorem stepUnion_cases {next : Hint} (stepped : h.stepUnion cat reduce = .ok (some next)) :
    next = object ∨ ∃ members, unionForms cat reduce (flattenAll h.args) = .ok (some members) ∧
      next = h.joined members := by
  by_cases empty : flattenAll h.args = []
  · simp [stepUnion, empty] at stepped
  rw [stepUnion_eq empty] at stepped
  rcases found : unionForms cat reduce (flattenAll h.args) with e | _ | members <;>
    rw [found] at stepped
  · cases stepped
  · cases stepped
    exact .inl rfl
  · simp only [bind, Except.bind, pure, Except.pure] at stepped
    split at stepped <;> cases stepped
    exact .inr ⟨members, rfl, rfl⟩

theorem step_union (ctx : Context) (isUnion : h.isUnion = true) :
    h.step cat ctx reduce = (do return ⟨← h.stepUnion cat reduce, []⟩) := by
  rcases isUnion_cases isUnion with ⟨label, members, rfl⟩ | ⟨label, f, members, form, rfl⟩
  · unfold step
    dsimp only
    cases stepUnion cat reduce _ <;> rfl
  · unfold step stepSubscribed
    simp only [form, Form.isQualifier]
    cases stepUnion cat reduce _ <;> rfl

/-! ### Other hints -/

/-- What a step can make of a hint that is no union. -/
inductive Opens (ctx : Context) : Hint → Hint → Prop
  /-- What a variable is bound to. -/
  | binding {h b : Hint} (isVariable : h.isTypeVar = true) (bound : ctx.binding? h = some b) :
    Opens ctx h b
  /-- The upper bound of a variable that is not bound to anything. -/
  | upper {label : Nat} {name : String} {variance : Variance} {b : Hint} {constraints : List Hint}
    (free : ctx.binding? (typeVar label name variance (some b) constraints) = Option.none) :
    Opens ctx (typeVar label name variance (some b) constraints) b
  /-- The union of the constraints of a variable that is not bound to anything. -/
  | constraints {label : Nat} {name : String} {variance : Variance} {constraints : List Hint}
    (free : ctx.binding? (typeVar label name variance Option.none constraints) = Option.none) :
    Opens ctx (typeVar label name variance Option.none constraints)
      (typing Option.none .union constraints)
  | newType {label : Nat} {name module : String} {supertype : Hint} :
    Opens ctx (newType label name module supertype) supertype
  | qualified {label : Option Nat} {f : SpecialForm} {inner : Hint}
    (isQualifier : f.form.isQualifier = true) :
    Opens ctx (subscription label (.form f) [inner]) inner
  | optional {label : Option Nat} {f : SpecialForm} {inner : Hint}
    (isOptional : f.form = .optional) :
    Opens ctx (subscription label (.form f) [inner])
      (typing Option.none .union [inner, none Option.none])
  | annotated {label : Option Nat} {f : SpecialForm} {inner : Hint} {metadata : List Hint}
    (isAnnotated : f.form = .annotated) :
    Opens ctx (subscription label (.form f) (inner :: metadata)) inner
  /-- The class that superseded a form, with the same arguments. -/
  | superseded {label : Option Nat} {f : SpecialForm} {args : List Hint} {b : Builtin}
    (origin : f.form.origin? = some b) :
    Opens ctx (subscription label (.form f) args) (generic Option.none b args)
  /-- The innermost class around. -/
  | enclosing {f : SpecialForm} {c : ClassId} (isSelf : f.form = .selfType)
    (innermost : ctx.classes.getLast? = some c) : Opens ctx (form f) (cls c)
  /-- A builtin class, whatever the hint was made of. -/
  | builtin {h : Hint} (notUnion : h.isUnion = false) (b : Builtin) : Opens ctx h (cls b)

theorem Opens.ofNested {x : Hint} (opens : Opens ctx.nested h x) : Opens ctx h x := by
  cases opens with
  | binding isVariable bound => exact .binding isVariable bound
  | upper free => exact .upper free
  | constraints free => exact .constraints free
  | newType => exact .newType
  | qualified isQualifier => exact .qualified isQualifier
  | optional isOptional => exact .optional isOptional
  | annotated isAnnotated => exact .annotated isAnnotated
  | superseded origin => exact .superseded origin
  | enclosing isSelf innermost => exact .enclosing isSelf innermost
  | builtin notUnion b => exact .builtin notUnion b

theorem opens_typeVarMeaning {label : Nat} {name : String} {variance : Variance}
    {bound : Option Hint} {constraints : List Hint} :
    Opens ctx (typeVar label name variance bound constraints)
      (typeVarMeaning ctx (typeVar label name variance bound constraints) bound constraints) := by
  unfold typeVarMeaning
  cases free : ctx.binding? (typeVar label name variance bound constraints) with
  | some b => exact .binding rfl free
  | none =>
    match bound, constraints with
    | some b, _ => exact .upper free
    | Option.none, [] => exact .builtin rfl .object
    | Option.none, _ :: _ => exact .constraints free

theorem opens_binding (isVariable : h.isTypeVar = true) (notUnion : h.isUnion = false) :
    Opens ctx h ((ctx.binding? h).getD object) := by
  cases bound : ctx.binding? h with
  | some b => exact .binding isVariable bound
  | none => exact .builtin notUnion .object

/-- The outcome of a step: what the hint opens to, if to anything, unless it breaks a rule. -/
def Opened (ctx : Context) (h : Hint) {α : Type} (next : α → Option Hint) :
    Except HintError α → Prop :=
  Ends (fun e => e.isMalformed = true) fun a => ∀ x, next a = some x → Opens ctx h x

theorem stepForm_opens (f : SpecialForm) :
    Opened ctx (form f) id (stepForm cat ctx f) := by
  have opens (b : Builtin) : Opened ctx (form f) id (.ok (some (cls b))) := by
    rintro _ ⟨⟩
    exact .builtin rfl b
  have stays : Opened ctx (form f) id (.ok Option.none) := by
    rintro _ ⟨⟩
  unfold stepForm
  dsimp only
  split
  · exact opens .object
  split
  · cases f.form.origin? with
    | none => exact stays
    | some b => exact opens b
  split
  · exact opens .object
  split
  · exact opens .str
  · exact opens .bool
  · exact opens .bool
  · cases innermost : ctx.classes.getLast? with
    | none => exact rfl
    | some c =>
      rintro _ ⟨⟩
      exact .enclosing ‹_› innermost
  · split
    · split
      · exact rfl
      · exact stays
    · split <;> first | exact rfl | exact stays

theorem stepTuple_opens (notUnion : h.isUnion = false) (args : List Hint) :
    Opened ctx h id (h.stepTuple cat args) := by
  unfold stepTuple
  split
  · rintro _ ⟨⟩
  · rintro _ ⟨⟩
    exact .builtin notUnion .tuple
  · exact rfl

theorem stepSubscribed_opens (label : Option Nat) {f : SpecialForm} (args : List Hint)
    (notUnion : (subscription label (.form f) args).isUnion = false) :
    Opened ctx (subscription label (.form f) args) Step.next
      ((subscription label (.form f) args).stepSubscribed cat reduce f args) := by
  have opens {x : Hint} {found : List Validator}
      (becomes : Opens ctx (subscription label (.form f) args) x) :
      Opened ctx (subscription label (.form f) args) Step.next (.ok ⟨some x, found⟩) := by
    rintro _ ⟨⟩
    exact becomes
  unfold stepSubscribed
  dsimp only
  split
  case isTrue isQualifier =>
    match args with
    | [inner] => exact opens (.qualified isQualifier)
    | [] | _ :: _ :: _ => exact rfl
  case isFalse =>
    split
    case h_1 isOptional =>
      match args with
      | [inner] => exact opens (.optional isOptional)
      | [] | _ :: _ :: _ => exact rfl
    case h_2 isUnion => simp [Hint.isUnion, isUnion] at notUnion
    case h_3 isAnnotated =>
      match args with
      | inner :: _ :: _ => exact opens (.annotated isAnnotated)
      | [] | [_] => exact rfl
    case h_4 | h_5 => exact opens (.builtin notUnion .bool)
    case h_6 | h_7 => exact opens (.builtin notUnion .object)
    case h_8 | h_9 | h_10 | h_11 | h_12 | h_13 => exact rfl
    case h_14 =>
      have stays : Opened ctx (subscription label (.form f) args) Step.next
          (.ok ⟨Option.none, []⟩) := by
        rintro _ ⟨⟩
      split
      · cases origin : f.form.origin? with
        | some b => exact opens (.superseded origin)
        | none => exact stays
      · exact stays

theorem opened_plain (x : Except HintError (Option Hint)) : Opened ctx h id x →
    Opened ctx h Step.next
      (match x with
        | .error e => .error e
        | .ok next => .ok ⟨next, []⟩) := by
  cases x <;> exact id

/-- A step of a hint that is no union opens it, or the hint breaks a rule. -/
theorem step_opens (cat : Catalog) (ctx : Context) (reduce : Hint → Except HintError Reduced)
    (notUnion : h.isUnion = false) :
    Opened ctx h Step.next (h.step cat ctx reduce) := by
  have opens {x : Hint} (becomes : Opens ctx h x) :
      Opened ctx h Step.next (.ok ⟨some x, []⟩) := by
    rintro _ ⟨⟩
    exact becomes
  have stays : Opened ctx h Step.next (.ok ⟨Option.none, []⟩) := by
    rintro _ ⟨⟩
  unfold step
  cases h with
  | none => exact opens (.builtin rfl .noneType)
  | typeVar => exact opens opens_typeVarMeaning
  | paramSpec | typeVarTuple => exact opens (opens_binding rfl rfl)
  | newType => exact opens .newType
  | union => cases notUnion
  | form f => exact opened_plain _ (stepForm_opens f)
  | subscription label origin args =>
    cases origin with
    | form f => exact stepSubscribed_opens label args notUnion
    | cls c =>
      dsimp only
      split
      · exact opened_plain _ (stepTuple_opens notUnion args)
      · exact stays
  | cls c =>
    dsimp only
    split
    · exact opens (.builtin rfl .object)
    · exact stays
  | _ => exact stays

/-! ### Positions -/

theorem placed_ends (cat : Catalog) (ctx : Context) (h : Hint) :
    Ends (fun e => e.isMalformed = true) (fun _ => True) (h.placed cat ctx) := by
  have either {c : Prop} [Decidable c] {x : Hint} {shown reason : String} :
      Ends (fun e => e.isMalformed = true) (fun _ => True)
        (if c then .ok x else .error (.malformed shown reason)) := by
    split <;> first | exact trivial | exact rfl
  unfold placed
  split
  case h_2 => exact trivial
  case h_1 =>
    unfold spread
    split
    case h_1 => split <;> first | exact trivial | exact either
    case h_2 => split <;> first | exact rfl | exact either
    all_goals first | exact trivial | exact rfl

/-- How the hint to start from comes from a hint: a variadic parameter starts from what is unpacked
in it, or from a container of what it says. -/
inductive Starts : Hint → Hint → Prop
  | itself (h : Hint) : Starts h h
  | anything (h : Hint) : Starts h object
  | unpacked {label : Option Nat} {origin : Subscriptable} {inner : Hint}
      (closed : inner.origin? = some (.builtin .tuple) ∨ ∃ c, inner = cls c) :
      Starts (subscription label origin [inner]) inner
  | tuple (h : Hint) : Starts h (tupleOf Option.none Option.none h)
  | dict (h : Hint) : Starts h (generic Option.none Builtin.dict [Builtin.str, h])

theorem starts_of_placed {start : Hint} (placed : h.placed cat ctx = .ok start) :
    h.Starts start := by
  unfold Hint.placed at placed
  split at placed
  case h_2 => cases placed; exact .itself h
  case h_1 =>
    unfold spread at placed
    split at placed
    · split at placed
      · cases placed
        exact .anything _
      · split at placed <;> cases placed
        exact .unpacked (.inl ‹_›)
    · split at placed
      · split at placed <;> cases placed
        exact .unpacked (.inr ⟨_, rfl⟩)
      · cases placed
    · cases placed
    · cases placed
      exact .tuple _
    · cases placed
      exact .dict _
    · cases placed
      exact .itself _

theorem spread_varPositional (notUnpack : h.subscriptedForm? ≠ some .unpack) :
    h.spread cat .varPositional = .ok (tupleOf Option.none Option.none h) := by
  unfold spread
  split <;> simp_all [subscriptedForm?]

theorem spread_varKeyword (notUnpack : h.subscriptedForm? ≠ some .unpack) :
    h.spread cat .varKeyword = .ok (generic Option.none Builtin.dict [Builtin.str, h]) := by
  unfold spread
  split <;> simp_all [subscriptedForm?]

/-- Elsewhere a hint starts from itself, or it is unpacked where that is not allowed. -/
theorem placed_of_notVariadic (cat : Catalog) (h : Hint)
    (notVariadic : ctx.position.isVariadic = false) : h.placed cat ctx = .ok h ∨
      h.subscriptedForm? = some .unpack ∧ ∃ e, h.placed cat ctx = .error e := by
  unfold Hint.placed
  split
  case h_2 => exact .inl rfl
  case h_1 kind position =>
    rw [position] at notVariadic
    unfold spread
    split <;> simp_all [subscriptedForm?, Position.isVariadic, ParamKind.isVariadic]

theorem placed_of_notUnpack (notVariadic : ctx.position.isVariadic = false)
    (notUnpack : h.subscriptedForm? ≠ some .unpack) : h.placed cat ctx = .ok h :=
  (placed_of_notVariadic cat h notVariadic).resolve_right fun failed => notUnpack failed.1

/-- Only at a variadic parameter does a hint start from another. -/
theorem placed_eq_ok (notVariadic : ctx.position.isVariadic = false) {start : Hint}
    (placed : h.placed cat ctx = .ok start) : start = h := by
  rcases placed_of_notVariadic cat h notVariadic with itself | ⟨_, e, failed⟩
  · exact Except.ok.inj (placed.symm.trans itself)
  · cases placed.symm.trans failed

/-! ### Canonical forms -/

/-- The limit leaves room for a few steps. -/
theorem exists_maxSteps : ∃ steps, maxSteps = steps + 3 :=
  ⟨61, rfl⟩

theorem iterate_succ (ctx : Context) (steps : Nat) (h : Hint) (validators : List Validator) :
    iterate cat ctx reduce (steps + 1) h validators = (do
      let s ← h.step cat ctx reduce
      match s.next with
      | Option.none => return some ⟨h, validators⟩
      | some next => iterate cat ctx reduce steps next (s.validators ++ validators)) := by
  rw [iterate]
  rcases h.step cat ctx reduce with _ | ⟨_ | next, found⟩ <;> rfl

theorem canonicalWithin_succ (ctx : Context) (bound : Nat) (h : Hint) :
    canonicalWithin cat (bound + 1) ctx h = (do
      let start ← h.placed cat ctx
      match ← iterate cat ctx (canonicalWithin cat bound ctx.nested) maxSteps start [] with
      | Option.none => throw (.recursion (h.text cat) maxSteps)
      | some reduced => return reduced) := by
  rw [canonicalWithin]
  rcases h.placed cat ctx with _ | start
  · rfl
  · dsimp only [bind, Except.bind]
    rcases iterate cat ctx (canonicalWithin cat bound ctx.nested) maxSteps start [] with
      _ | _ | _ <;> rfl

/-- Where the steps end, there is none left to take. -/
theorem rests_iterate {steps : Nat} {current : Hint} {validators : List Validator} {r : Reduced}
    (done : iterate cat ctx reduce steps current validators = .ok (some r)) :
    ∃ found, r.hint.step cat ctx reduce = .ok ⟨Option.none, found⟩ := by
  induction steps generalizing current validators with
  | zero => cases done
  | succ steps ih =>
    rw [iterate_succ] at done
    rcases taken : current.step cat ctx reduce with e | ⟨_ | next, found⟩ <;> rw [taken] at done
    · cases done
    · cases done
      exact ⟨found, taken⟩
    · exact ih done

/-! ### What passes on from a hint to its canonical form -/

/-- What holds of a hint passes on to whatever a step makes of it, where `M` holds of the members of
unions. -/
structure Passes (ctx : Context) (M P : Hint → Prop) : Prop where
  opens : ∀ {h x : Hint}, P h → Opens ctx h x → P x
  member : ∀ {u m : Hint}, P u → u.isUnion = true → m ∈ u.args → M m
  weaken : ∀ {h : Hint}, M h → P h
  respelled : ∀ {u : Hint} {members : List Hint}, (∀ m ∈ members, M m) → P (u.respelled members)
  object : P object

namespace Passes

variable {M P : Hint → Prop} {excused : HintError → Prop}

theorem args (passes : Passes ctx M P) {u : Hint} (isUnion : u.isUnion = true) (holds : M u) :
    ∀ m ∈ u.args, M m :=
  fun _ member => passes.member (passes.weaken holds) isUnion member

theorem flattened (passes : Passes ctx M P) (isUnion : h.isUnion = true) (holds : P h) :
    ∀ m ∈ flattenAll h.args, M m :=
  forall_flattenAll fun _ member => forall_flatten (fun _ => passes.args)
    (passes.member holds isUnion member)

theorem forms (passes : Passes ctx M P) {m : Hint} (holds : M m) {r : Reduced} (reduced : M r.hint)
    {forms : List Hint} (found : memberForms cat m r = some forms) : ∀ x ∈ forms, M x := by
  unfold memberForms at found
  split at found
  · cases found
    simpa using holds
  split at found
  · cases found
  split at found
  case isTrue isUnion =>
    cases found
    exact passes.args isUnion reduced
  · cases found
    simpa using reduced

theorem unionForms (passes : Passes ctx M P)
    (inside : ∀ m, M m → Ends excused (fun r => M r.hint) (reduce m)) {flat : List Hint}
    (each : ∀ m ∈ flat, M m) :
    Ends excused (fun found => ∀ members, found = some members → ∀ x ∈ members, M x)
      (Hint.unionForms cat reduce flat) := by
  induction flat with
  | nil =>
    rintro _ ⟨⟩ _ member
    cases member
  | cons m rest ih =>
    have first := each m (by simp)
    rw [unionForms_cons]
    refine (inside m first).bind fun r reduced => ?_
    cases contributed : memberForms cat m r with
    | none => rintro _ ⟨⟩
    | some mine =>
      refine (ih fun m member => each m (List.mem_cons_of_mem _ member)).bind fun found more => ?_
      cases found with
      | none => rintro _ ⟨⟩
      | some others =>
        rintro _ ⟨⟩ x member
        rcases List.mem_append.mp member with isMine | isOther
        · exact passes.forms first reduced contributed x isMine
        · exact more others rfl x isOther

theorem joined (passes : Passes ctx M P) {members : List Hint} (each : ∀ x ∈ members, M x) :
    P (h.joined members) := by
  match members with
  | [only] => exact passes.weaken (each only (by simp))
  | [] | _ :: _ :: _ => exact passes.respelled each

theorem stepUnion (passes : Passes ctx M P) (breaks : ∀ e, e.isEndless = false → excused e)
    (inside : ∀ m, M m → Ends excused (fun r => M r.hint) (reduce m)) (isUnion : h.isUnion = true)
    (holds : P h) :
    Ends excused (fun next => ∀ x, next = some x → P x) (h.stepUnion cat reduce) := by
  by_cases empty : flattenAll h.args = []
  · rw [Hint.stepUnion, empty]
    exact breaks _ rfl
  rw [stepUnion_eq empty]
  refine (passes.unionForms inside (passes.flattened isUnion holds)).bind fun found forms => ?_
  cases found with
  | none =>
    rintro _ ⟨⟩
    exact passes.object
  | some members =>
    intro x isNext
    split at isNext <;> cases isNext
    exact passes.joined (forms members rfl)

theorem step (passes : Passes ctx M P) (breaks : ∀ e, e.isEndless = false → excused e)
    (inside : ∀ m, M m → Ends excused (fun r => M r.hint) (reduce m)) (holds : P h) :
    Ends excused (fun s => ∀ x, s.next = some x → P x) (h.step cat ctx reduce) := by
  cases isUnion : h.isUnion with
  | true =>
    rw [step_union ctx isUnion]
    exact (passes.stepUnion breaks inside isUnion holds).bind fun next isNext => isNext
  | false =>
    exact (step_opens cat ctx reduce isUnion).mono
      (fun e isMalformed => breaks e (HintError.notEndless_of_isMalformed isMalformed))
      fun s opens x isNext => passes.opens holds (opens x isNext)

theorem iterate (passes : Passes ctx M P) (breaks : ∀ e, e.isEndless = false → excused e)
    (inside : ∀ m, M m → Ends excused (fun r => M r.hint) (reduce m)) (steps : Nat)
    (validators : List Validator) (holds : P h) :
    Ends excused (fun found => ∀ r, found = some r → P r.hint)
      (Hint.iterate cat ctx reduce steps h validators) := by
  induction steps generalizing h validators with
  | zero => rintro _ ⟨⟩
  | succ steps ih =>
    rw [iterate_succ]
    refine (passes.step breaks inside holds).bind fun s isNext => ?_
    cases next : s.next with
    | none =>
      rintro _ ⟨⟩
      exact holds
    | some x => exact ih _ (isNext x next)

/-- What holds of a hint, and where it starts, holds of its canonical form. -/
theorem canonicalWithin (passes : Passes ctx M P) (breaks : ∀ e, e.isEndless = false → excused e)
    {bound : Nat} (inside : ∀ m, M m →
      Ends excused (fun r => M r.hint) (Hint.canonicalWithin cat bound ctx.nested m))
    (placed : ∀ start, h.placed cat ctx = .ok start → P start) :
    Ends excused (fun r => P r.hint) (Hint.canonicalWithin cat (bound + 1) ctx h) := by
  rw [canonicalWithin_succ]
  have starts := placed_ends cat ctx h
  rcases isStart : h.placed cat ctx with e | start <;> rw [isStart] at starts
  · exact breaks e (HintError.notEndless_of_isMalformed starts)
  refine (passes.iterate breaks inside maxSteps [] (placed start isStart)).bind fun found ends => ?_
  cases found with
  | none => exact breaks _ rfl
  | some r => exact ends r rfl

theorem nested (passes : Passes ctx M P) : Passes ctx.nested M P :=
  { passes with opens := fun holds opens => passes.opens holds opens.ofNested }

theorem ofCanonicalWithin (passes : Passes ctx P P)
    (placed : ∀ start, h.placed cat ctx = .ok start → P start) (bound : Nat) :
    Ends (fun _ => True) (fun r => P r.hint) (Hint.canonicalWithin cat bound ctx h) := by
  induction bound generalizing ctx h with
  | zero => exact trivial
  | succ bound ih =>
    refine passes.canonicalWithin (fun _ _ => trivial) (fun m holds => ?_) placed
    exact ih passes.nested fun start same => by cases same; exact holds

end Passes
end Hint
end HintCheck
