import HintCheck.Check.Verdict
import HintCheck.Hint.Cache
import HintCheck.Proofs.Naming

/-!
When a value satisfies a hint, said by recursion on the hint and without checks, canonical forms or
signs. The hints concerned are the simple ones: classes, unions, containers, tuples, literals,
validators, new types and qualifiers, nested in any way.
-/
namespace HintCheck

/-- The classes whose instances count as instances of a class: with the numeric tower, `float` takes
integers too, and `complex` takes integers and floats. -/
def ClassId.kinds (tower : Bool) (c : ClassId) : List ClassId :=
  match tower, c with
  | true, .builtin .float => [Builtin.float, Builtin.int]
  | true, .builtin .complex => [Builtin.complex, Builtin.float, Builtin.int]
  | _, c => [c]

namespace Satisfaction

/-- The containers with one hint for all items. -/
def itemContainers : List Builtin :=
  [.list, .set, .frozenset, .deque, .sequence, .collection, .iterable, .mutableSequence,
    .byteString, .abstractSet, .mutableSet, .reversible, .keysView, .valuesView, .counter]

/-- The containers with a hint for the keys and one for the values. -/
def pairContainers : List Builtin :=
  [.dict, .mapping, .mutableMapping, .defaultdict, .orderedDict, .chainMap]

/-- The value is what a literal stands for. A singleton and an instance stand for the object they
are, a number or text for every equal instance of its class that is not a truth value. -/
def isLiteral (cat : Catalog) (literal v : Value) : Bool :=
  match literal, v with
  | .none, v | .bool _, v | .inst _ _ _ _, v => v.isSame literal
  | .int _, .bool _ | .str _, .bool _ | .bytes _, .bool _ => false
  | .int _, v | .str _, v | .bytes _, v =>
    cat.isInstance v literal.classOf && v.equals literal
  | _, _ => false

/-- The value is what a member of a literal hint stands for. -/
def isMember (cat : Catalog) (v : Value) : Hint → Bool
  | .none _ => isLiteral cat .none v
  | .value _ literal => isLiteral cat literal v
  | _ => false

/-- The value passes an item of metadata; only validators ask for something. -/
def passes (cat : Catalog) (v : Value) : Hint → Bool
  | .validator _ validator => validator.holds cat v
  | _ => true

/-- The arguments of `tuple[item, ...]`. -/
def isVariadic : List Hint → Bool
  | [_, last] => last.isDots
  | _ => false

/-- The items of a tuple satisfy the arguments. -/
def tupleItems (args : List Hint) (tests : List (Value → Bool)) (v : Value) : Bool :=
  if isVariadic args then tests.head?.all fun item => v.items.all item
  else
    v.len? == some tests.length &&
      tests.zipIdx.all fun entry => (v.at? entry.2).all entry.1

/-- An instance of the class whose contents satisfy the arguments. -/
def contents (cat : Catalog) (c : ClassId) (args : List Hint) (tests : List (Value → Bool))
    (v : Value) : Bool :=
  cat.isInstance v c &&
    if c = Builtin.tuple then tupleItems args tests v
    else
      match tests with
      | [item] => v.items.all item
      | [key, value] => (v.pairs?.getD []).all fun pair => key pair.1 && value pair.2
      | _ => false

/-- What satisfies a subscription of a special form, given what satisfies its arguments. -/
def subscribedForm (cat : Catalog) (form : Form) (args : List Hint) (tests : List (Value → Bool))
    (v : Value) : Bool :=
  match form, tests with
  | .union, tests => tests.any fun member => member v
  | .optional, [inner] => inner v || cat.isInstance v Builtin.noneType
  | .literal, _ => args.any (isMember cat v)
  | .annotated, inner :: _ => inner v && args.tail.all (passes cat v)
  | form, tests =>
    if form.isQualifier then tests.all fun inner => inner v
    else
      match form.origin? with
      | some c => contents cat c args tests v
      | none => false

/-- What satisfies a subscription, given what satisfies its arguments. -/
def subscription (cat : Catalog) (origin : Subscriptable) (args : List Hint)
    (tests : List (Value → Bool)) (v : Value) : Bool :=
  match origin with
  | .cls c => contents cat c args tests v
  | .form f => subscribedForm cat f.form args tests v

end Satisfaction

namespace Hint

mutual

/-- The value satisfies the hint. -/
def admits (cat : Catalog) (tower : Bool) : Hint → Value → Bool
  | cls c, v => (c.kinds tower).any (cat.isInstance v)
  | form f, _ => f.form == .any
  | none _, v => cat.isInstance v Builtin.noneType
  | union _ members, v => (admitsEach cat tower members).any fun member => member v
  | subscription _ origin args, v =>
    Satisfaction.subscription cat origin args (admitsEach cat tower args) v
  | newType _ _ _ supertype, v => admits cat tower supertype v
  | _, _ => false
termination_by structural h => h

/-- What satisfies each of the hints. -/
def admitsEach (cat : Catalog) (tower : Bool) : List Hint → List (Value → Bool)
  | [] => []
  | h :: rest => (fun v => admits cat tower h v) :: admitsEach cat tower rest
termination_by structural hints => hints

end

/-- The value satisfies the hint at its position: a parameter that takes any number of arguments is
bound to a tuple or a dictionary of values that satisfy its hint. -/
def admitsAt (cat : Catalog) (tower : Bool) (position : Position) (h : Hint) (v : Value) : Bool :=
  match position with
  | .param .varPositional => cat.isInstance v Builtin.tuple && v.items.all (h.admits cat tower)
  | .param .varKeyword =>
    cat.isInstance v Builtin.dict && (v.pairs?.getD []).all fun pair =>
      cat.isInstance pair.1 Builtin.str && h.admits cat tower pair.2
  | _ => h.admits cat tower v

/-- The hints whose meaning `admits` gives. -/
inductive Simple (cat : Catalog) : Hint → Prop
  | plain {c : ClassId} (isPlain : Cache.isPlainClass cat c = true) : Simple cat (cls c)
  | root {c : ClassId} (isRoot : (cat.get c).root = true) : Simple cat (cls c)
  | any {f : SpecialForm} (isAny : f.form = .any) : Simple cat (form f)
  | none (label : Option Nat) : Simple cat (none label)
  | pipe (label : Option Nat) {members : List Hint} (nonempty : members ≠ [])
      (each : ∀ h ∈ members, Simple cat h) : Simple cat (union label members)
  | union (label : Option Nat) {f : SpecialForm} (isUnion : f.form = .union)
      (home : f.module ≠ .dataclasses) {members : List Hint} (nonempty : members ≠ [])
      (each : ∀ h ∈ members, Simple cat h) : Simple cat (subscription label (.form f) members)
  | optional (label : Option Nat) {f : SpecialForm} (isOptional : f.form = .optional)
      {inner : Hint} (simple : Simple cat inner) :
      Simple cat (subscription label (.form f) [inner])
  /-- A container, spelled as its class. -/
  | items (label : Option Nat) {b : Builtin} (isContainer : b ∈ Satisfaction.itemContainers)
      {item : Hint} (simple : Simple cat item) : Simple cat (generic label b [item])
  | pairs (label : Option Nat) {b : Builtin} (isContainer : b ∈ Satisfaction.pairContainers)
      {key value : Hint} (simpleKey : Simple cat key) (simpleValue : Simple cat value) :
      Simple cat (generic label b [key, value])
  | tuple (label : Option Nat) {items : List Hint} (each : ∀ h ∈ items, Simple cat h) :
      Simple cat (generic label Builtin.tuple items)
  | tupleOf (label dots : Option Nat) {item : Hint} (simple : Simple cat item) :
      Simple cat (tupleOf label dots item)
  /-- A container in the spelling that its class superseded. -/
  | deprecated (label : Option Nat) {f : SpecialForm} {b : Builtin}
      (standsFor : f.form.origin? = some b) (home : f.module ≠ .dataclasses) {args : List Hint}
      (simple : Simple cat (generic Option.none b args)) :
      Simple cat (subscription label (.form f) args)
  | literal (label : Option Nat) {f : SpecialForm} (isLiteral : f.form = .literal)
      (home : f.module ≠ .dataclasses) {members : List Hint} (nonempty : members ≠ [])
      (each : ∀ h ∈ members, (h.literalValue? cat).isSome) :
      Simple cat (subscription label (.form f) members)
  | annotated (label : Option Nat) {f : SpecialForm} (isAnnotated : f.form = .annotated)
      {inner : Hint} (simple : Simple cat inner) {metadata : List Hint} (nonempty : metadata ≠ []) :
      Simple cat (subscription label (.form f) (inner :: metadata))
  | newType (label : Nat) (name module : String) {supertype : Hint}
      (simple : Simple cat supertype) : Simple cat (newType label name module supertype)
  | qualified (label : Option Nat) {f : SpecialForm} (isQualifier : f.form.isQualifier = true)
      {inner : Hint} (simple : Simple cat inner) : Simple cat (subscription label (.form f) [inner])

end Hint

/-! ### Structurally equal hints -/

namespace Satisfaction

theorem isLiteral_congr (cat : Catalog) {a b : Value} (equal : a.structEq b = true) (v : Value) :
    isLiteral cat a v = isLiteral cat b v := by
  rw [Value.structEq.eq_def] at equal
  split at equal
  case h_3 | h_4 | h_7 | h_9 => rw [beq_iff_eq.mp equal]
  case h_17 =>
    unfold Value.isSame at equal
    split at equal
    case h_3 | h_4 | h_7 => rw [beq_iff_eq.mp equal]
    case h_5 =>
      -- two instances with one label are one object
      rw [beq_iff_eq] at equal
      subst equal
      cases v <;> rfl
    case h_8 => simp at equal
    all_goals rfl
  all_goals rfl

/-- The arguments are structurally equal, and well named. -/
abbrev ArgsAlike (names : Naming) : List Hint → List Hint → Prop :=
  List.Forall₂ fun x y => x.WellNamed names ∧ y.WellNamed names ∧ x.structEq y = true

variable {names : Naming} {xs ys : List Hint}

theorem isMember_congr (cat : Catalog) {x y : Hint} (left : x.WellNamed names)
    (right : y.WellNamed names) (equal : x.structEq y = true) (v : Value) :
    isMember cat v x = isMember cat v y := by
  cases left.spelledAlike right equal with
  | value l m equal => exact isLiteral_congr cat equal v
  | _ => rfl

theorem passes_congr (cat : Catalog) {x y : Hint} (left : x.WellNamed names)
    (right : y.WellNamed names) (equal : x.structEq y = true) (v : Value) :
    passes cat v x = passes cat v y := by
  cases left.spelledAlike right equal with
  | @validator l m w u labels =>
    have rules : w.rule = u.rule := by rw [← left.ruled, ← right.ruled, labels]
    simp only [passes, Validator.holds, rules]
  | _ => rfl

theorem isDots_congr {x y : Hint} (left : x.WellNamed names) (right : y.WellNamed names)
    (equal : x.structEq y = true) : x.isDots = y.isDots := by
  cases left.spelledAlike right equal with
  | @value l m v w same =>
    rw [Value.structEq.eq_def] at same
    split at same
    case h_17 =>
      unfold Value.isSame at same
      split at same
      case h_8 => simp at same
      all_goals rfl
    all_goals rfl
  | _ => rfl

theorem isVariadic_congr (alike : ArgsAlike names xs ys) : isVariadic xs = isVariadic ys := by
  match alike with
  | .nil | .cons _ .nil | .cons _ (.cons _ (.cons _ _)) => rfl
  | .cons _ (.cons ⟨left, right, equal⟩ .nil) => exact isDots_congr left right equal

theorem contents_congr (cat : Catalog) (c : ClassId) (alike : ArgsAlike names xs ys)
    (tests : List (Value → Bool)) (v : Value) :
    contents cat c xs tests v = contents cat c ys tests v := by
  simp only [contents, tupleItems, isVariadic_congr alike]

theorem map_congr {test : Hint → Bool} (alike : ArgsAlike names xs ys)
    (congr : ∀ x y, x.WellNamed names → y.WellNamed names → x.structEq y = true → test x = test y) :
    xs.map test = ys.map test := by
  induction alike with
  | nil => rfl
  | cons head _ ih => rw [List.map_cons, List.map_cons, ih, congr _ _ head.1 head.2.1 head.2.2]

/-- What satisfies a subscription does not depend on how its arguments are labelled. -/
theorem subscription_congr (cat : Catalog) (origin : Subscriptable) (alike : ArgsAlike names xs ys)
    (tests : List (Value → Bool)) (v : Value) :
    subscription cat origin xs tests v = subscription cat origin ys tests v := by
  have members := congrArg (fun tests => tests.any id)
    (map_congr alike fun x y left right equal => isMember_congr cat left right equal v)
  have metadata : xs.tail.all (passes cat v) = ys.tail.all (passes cat v) := by
    cases alike with
    | nil => rfl
    | cons _ rest =>
      have same := congrArg (fun tests => tests.all id)
        (map_congr rest fun x y left right equal => passes_congr cat left right equal v)
      simpa only [List.all_map, Function.id_comp, List.tail_cons] using same
  simp only [List.any_map, Function.id_comp] at members
  simp only [subscription, subscribedForm, members, metadata, contents_congr cat _ alike]

end Satisfaction

namespace Hint

theorem admitsEach_eq_map (cat : Catalog) (tower : Bool) (hints : List Hint) :
    admitsEach cat tower hints = hints.map (admits cat tower) := by
  induction hints with
  | nil => rfl
  | cons h rest ih => rw [admitsEach, ih, List.map_cons]

/-- Structurally equal hints are satisfied by the same values. -/
theorem admits_congr (cat : Catalog) (tower : Bool) {names : Naming} {a b : Hint}
    (left : a.WellNamed names) (right : b.WellNamed names) (equal : a.structEq b = true) :
    a.admits cat tower = b.admits cat tower := by
  induction a using induction_parts generalizing b with
  | step a ih =>
    have inside : ∀ {xs ys : List Hint}, (∀ x ∈ xs, x ∈ a.parts) → (∀ y ∈ ys, y ∈ b.parts) →
        List.Forall₂ (fun x y => x.structEq y = true) xs ys →
        Satisfaction.ArgsAlike names xs ys ∧
          admitsEach cat tower xs = admitsEach cat tower ys := by
      intro xs ys ofLeft ofRight alike
      induction alike with
      | nil => exact ⟨.nil, rfl⟩
      | @cons x y xs ys head _ rest =>
        obtain ⟨args, tests⟩ := rest (fun x member => ofLeft x (by simp [member]))
          fun y member => ofRight y (by simp [member])
        have inLeft := ofLeft x (by simp)
        have named := right.part y (ofRight y (by simp))
        refine ⟨.cons ⟨left.part x inLeft, named, head⟩ args, ?_⟩
        rw [admitsEach, admitsEach, tests, ih x inLeft (left.part x inLeft) named head]
    cases left.spelledAlike right equal with
    | @subscription l m origin xs ys alike =>
      obtain ⟨args, tests⟩ := inside (fun x (member : x ∈ xs) => member)
        (fun y (member : y ∈ ys) => member) alike
      funext v
      rw [admits, admits, tests, Satisfaction.subscription_congr cat origin args]
    | @union l m xs ys alike =>
      obtain ⟨_, tests⟩ := inside (fun x (member : x ∈ xs) => member)
        (fun y (member : y ∈ ys) => member) alike
      funext v
      rw [admits, admits, tests]
    | _ => rfl

end Hint
end HintCheck
