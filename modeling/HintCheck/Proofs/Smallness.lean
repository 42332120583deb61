import HintCheck.Proofs.Comparison
import HintCheck.Proofs.Registration
import HintCheck.Proofs.Remembering
import HintCheck.Proofs.Spellings

/-!
Small values are checked exactly. Where everything that a value leads to has at most one item, the
item that is sampled is the only one, so a check gives the same answer however thorough it is. A set
or a dictionary has no item at a position, and a check that samples passes it over; but it is not an
instance of any class that a sequence starts from. Only a protocol can be taken for a sequence, for
the sake of its name, and still have sets among its instances.
-/
namespace HintCheck

/-! ### Small values -/

/-- The attributes of builtin classes are methods, or disabled. -/
theorem Catalog.builtin_attrs (cat : Catalog) {b : Builtin} {name : String} {a : Value}
    (found : cat.classAttr? b name = some a) : a = .none ∨ ∃ m, a = .method m := by
  obtain ⟨k, above, isAttr⟩ := List.exists_of_findSome?_eq_some found
  have lineage : cat.lineage b = (b :: b.ancestors).map ClassId.builtin := rfl
  obtain ⟨c, _, rfl⟩ := List.mem_map.mp (lineage ▸ above)
  obtain ⟨entry, isEntry, rfl⟩ := Option.map_eq_some_iff.mp isAttr
  rcases List.mem_append.mp (List.mem_of_find?_eq_some isEntry) with isMethod | isHash
  · obtain ⟨m, _, rfl⟩ := List.mem_map.mp isMethod
    exact .inr ⟨m, rfl⟩
  · split at isHash
    · rw [List.mem_singleton.mp isHash]
      exact .inl rfl
    · cases isHash

namespace Value

/-- What is directly inside a value: its items, the keys and values of its pairs, its attributes. -/
inductive Leads (cat : Catalog) (v : Value) : Value → Prop
  | item {x : Value} (member : x ∈ v.items) : Leads cat v x
  | key {pair : Value × Value} (member : pair ∈ v.pairs?.getD []) : Leads cat v pair.1
  | value {pair : Value × Value} (member : pair ∈ v.pairs?.getD []) : Leads cat v pair.2
  | attr {a : Value} (name : String) (found : cat.attr? v name = some a) : Leads cat v a

def payload? : Value → Option Value
  | inst _ _ _ payload => payload
  | _ => Option.none

/-- The value has no payload and at most one item. -/
structure IsSmall (v : Value) : Prop where
  bare : v.payload? = Option.none
  short : ∀ n, v.len? = some n → n ≤ 1

/-- All that the value leads to is small. -/
def IsSmallThroughout (cat : Catalog) (v : Value) : Prop :=
  ∀ w, Relation.ReflTransGen (Leads cat) v w → w.IsSmall

variable {cat : Catalog} {v w : Value}

theorem IsSmallThroughout.leads (small : v.IsSmallThroughout cat) (leads : Leads cat v w) :
    w.IsSmallThroughout cat :=
  fun x reaches => small x (.head leads reaches)

/-- Values that lead to each other and to methods only are small throughout if each of them is
small. -/
theorem isSmallThroughout_of_parts {parts : List Value} (member : v ∈ parts)
    (each : ∀ w ∈ parts, w.IsSmall ∧ (∀ x ∈ w.items, x ∈ parts) ∧
      (∀ pair ∈ w.pairs?.getD [], pair.1 ∈ parts ∧ pair.2 ∈ parts) ∧
      ∃ b : Builtin, ∀ name, cat.attr? w name = cat.classAttr? b name) :
    v.IsSmallThroughout cat := by
  have known : ∀ w, Relation.ReflTransGen (Leads cat) v w →
      w ∈ parts ∨ w = none ∨ ∃ m, w = method m := by
    intro w reaches
    induction reaches with
    | refl => exact .inl member
    | tail _ leads ih =>
      rcases ih with isPart | rfl | ⟨m, rfl⟩
      · obtain ⟨_, items, pairs, b, attrs⟩ := each _ isPart
        cases leads with
        | item isItem => exact .inl (items _ isItem)
        | key isPair => exact .inl (pairs _ isPair).1
        | value isPair => exact .inl (pairs _ isPair).2
        | attr name found => exact .inr (cat.builtin_attrs (attrs name ▸ found))
      all_goals
        cases leads with
        | item isItem => cases isItem
        | key isPair => cases isPair
        | value isPair => cases isPair
        | attr name found => exact .inr (cat.builtin_attrs found)
  intro w reaches
  rcases known w reaches with isPart | rfl | ⟨m, rfl⟩
  · exact (each w isPart).1
  · exact ⟨rfl, fun _ counted => by cases counted⟩
  · exact ⟨rfl, fun _ counted => by cases counted⟩

/-- Containers whose items have no positions. -/
def isUnindexed : Value → Bool
  | dict _ | set _ | frozenset _ => true
  | _ => false

theorem at?_eq_none {index : Nat} (beyond : ∀ n, v.len? = some n → n ≤ index) :
    v.at? index = Option.none := by
  unfold len? at beyond
  unfold at?
  split <;> simp_all [String.length_toList]

/-- In a small value the sampled item is the first. -/
theorem IsSmall.sample? (small : v.IsSmall) (random : UInt32) : v.sample? random = v.at? 0 := by
  unfold Value.sample?
  cases len : v.len? with
  | none => exact (at?_eq_none fun n same => by rw [len] at same; cases same).symm
  | some n =>
    rw [Option.bind_some]
    split
    · next occupied =>
      obtain rfl : n = 1 := Nat.le_antisymm (small.short n len) occupied
      rw [sampleIndex, Nat.mod_one]
    · next empty =>
      refine (at?_eq_none fun k same => ?_).symm
      rw [len] at same
      cases same
      exact Nat.not_lt.mp empty

theorem IsSmall.first?_of_indexed (small : v.IsSmall) (indexed : v.isUnindexed = false) :
    v.first? = v.at? 0 := by
  have bare : v.data = v := by
    cases v with
    | inst _ _ _ payload =>
      obtain rfl : payload = Option.none := small.bare
      rfl
    | _ => rfl
  unfold Value.first?
  rw [bare]
  split <;> first | rfl | cases indexed

theorem toList_head? {α : Type} {xs : List α} (short : xs.length ≤ 1) : xs.head?.toList = xs := by
  rw [← List.take_one, List.take_of_length_le short]

/-- The first item of a small value is its only one. -/
theorem IsSmall.first? (small : v.IsSmall) : v.first?.toList = v.items := by
  have short := small.short
  unfold len? at short
  unfold Value.first? at? items
  generalize v.data = d at short
  cases d with
  | set xs | frozenset xs => exact toList_head? (short _ rfl)
  | list xs | tuple xs | deque xs =>
    simp only [← List.head?_eq_getElem?]
    exact toList_head? (short _ rfl)
  | dict pairs =>
    simp only [← List.head?_map]
    exact toList_head? (by rw [List.length_map]; exact short _ rfl)
  | str s =>
    simp only [← List.head?_eq_getElem?, ← List.head?_map]
    exact toList_head? (by rw [List.length_map, String.length_toList]; exact short _ rfl)
  | bytes bs =>
    simp only [← List.head?_eq_getElem?, ← List.head?_map]
    exact toList_head? (by rw [List.length_map]; exact short _ rfl)
  | _ => rfl

end Value

namespace Reading

variable {m : Type → Type} (r : Reading m) {v : Value}

/-- However thorough the reader, it tests all items of a small value that has positions. -/
theorem sampledItems_of_small (small : v.IsSmall) (indexed : v.isUnindexed = false) :
    r.sampledItems v = v.items := by
  unfold sampledItems
  split
  · rfl
  · rw [small.sample?, ← small.first?_of_indexed indexed, small.first?]

theorem firstItems_of_small (small : v.IsSmall) : r.firstItems v = v.items := by
  unfold firstItems
  split
  · rfl
  · exact small.first?

theorem firstPairs_of_small (small : v.IsSmall) : r.firstPairs v = v.pairs?.getD [] := by
  unfold firstPairs
  dsimp only
  split
  · rfl
  · refine List.take_of_length_le ?_
    have short := small.short
    unfold Value.len? at short
    unfold Value.pairs?
    split
    · next pairs isDict => simpa [isDict] using short
    · exact Nat.zero_le 1

end Reading

/-! ### Classes of sequences -/

/-- The builtin classes that sequences and tuples start from. -/
def Builtin.sequences : List Builtin :=
  [.tuple, .list, .deque, .sequence, .mutableSequence, .byteString]

namespace Catalog

variable {cat : Catalog}

/-- No set and no dictionary is an instance of the class, however widely it is taken. -/
def Indexes (cat : Catalog) (k : ClassId) : Prop :=
  ∀ (conf : Config) (v : Value), v.isUnindexed = true →
    cat.isInstanceOfAny v (Builder.widened conf k) = false

variable (registered : cat.registered = Catalog.builtin.registered)
include registered

/-- A class that is not above those of sets and dictionaries, has none of them registered and asks
for no attributes. -/
theorem indexes_of_apart {k : ClassId} (notNumber : k ≠ Builtin.float ∧ k ≠ Builtin.complex)
    (notRoot : (cat.get k).root = false)
    (noHook : (cat.get k).hook = []) (notProtocol : (cat.get k).isUserProtocol = false)
    (apart : ∀ sub ∈ [Builtin.dict, .set, .frozenset], ∀ a ∈ sub :: sub.ancestors,
      k ≠ .builtin a ∧ (k, .builtin a) ∉ Catalog.builtin.registered) : cat.Indexes k := by
  have notBelow : ∀ sub ∈ [Builtin.dict, .set, .frozenset], ¬cat.Below sub k := by
    intro sub member below
    have lineage : cat.lineage sub = (sub :: sub.ancestors).map ClassId.builtin := rfl
    cases below with
    | root isRoot => rw [notRoot] at isRoot; cases isRoot
    | inherits above =>
      obtain ⟨a, isAbove, rfl⟩ := List.mem_map.mp (lineage ▸ above)
      exact (apart sub member a isAbove).1 rfl
    | hook asks => exact asks noHook
    | protocol isProtocol => rw [notProtocol] at isProtocol; cases isProtocol
    | registered _ isRegistered above =>
      obtain ⟨a, isAbove, rfl⟩ := List.mem_map.mp (lineage ▸ above)
      exact (apart sub member a isAbove).2 (registered ▸ isRegistered)
  intro conf v unindexed
  have alone : Builder.widened conf k = [k] := by
    simp [Builder.widened, notNumber]
  have ofClass : cat.isSubclass v.classOf k = false := by
    rw [← Bool.not_eq_true, isSubclass_iff_below]
    cases v <;> first | exact notBelow _ (by decide) | cases unindexed
  simp [isInstanceOfAny, alone, isInstance, notRoot, notProtocol, ofClass]

theorem indexes_builtin {b : Builtin} (isSequence : b ∈ Builtin.sequences) : cat.Indexes b := by
  have table : ∀ b ∈ Builtin.sequences,
      (ClassId.builtin b ≠ Builtin.float ∧ ClassId.builtin b ≠ Builtin.complex) ∧
      b.toClass.root = false ∧ b.toClass.hook = [] ∧ b.toClass.isUserProtocol = false ∧
        ∀ sub ∈ [Builtin.dict, .set, .frozenset], ∀ a ∈ sub :: sub.ancestors,
          ClassId.builtin b ≠ .builtin a ∧
            (.builtin b, .builtin a) ∉ Catalog.builtin.registered := by
    decide +kernel
  obtain ⟨notNumber, notRoot, noHook, notProtocol, apart⟩ := table b isSequence
  exact indexes_of_apart registered notNumber notRoot noHook notProtocol apart

/-- A class that was defined is not above any builtin class, and has none registered. -/
theorem indexes_user (built : cat.Built) {n : Nat}
    (notProtocol : (cat.get (.user n)).isUserProtocol = false) : cat.Indexes (.user n) := by
  have hosts : ∀ pair ∈ Catalog.builtin.registered, ∃ b ∈ Builtin.all, pair.1 = .builtin b := by
    decide +kernel
  have notNumber : ClassId.user n ≠ Builtin.float ∧ ClassId.user n ≠ Builtin.complex := by
    constructor <;> intro same <;> cases same
  refine indexes_of_apart registered notNumber (built.plain n).2 (built.plain n).1
    notProtocol ?_
  intro sub _ a _
  constructor
  · intro same
    cases same
  · intro isRegistered
    obtain ⟨_, _, same⟩ := hosts _ isRegistered
    cases same

end Catalog

/-! ### Hints read as sequences -/

theorem Sign.kind_of_samples {sign : Sign} {args : List Hint} (samples : sign.samples args = true) :
    (sign.isIn .sequence || sign.isIn .tuple) = true := by
  unfold Sign.samples at samples
  split at samples
  · simp only [Bool.or_eq_true, Bool.and_eq_true] at samples ⊢
    exact samples.imp_right And.left
  · rw [samples, Bool.true_or]

/-- The forms of sequences and tuples start from classes of sequences. -/
theorem Form.origin_sequence {f : Form} {sign : Sign} {b : Builtin} (signOf : f.sign? = some sign)
    (kind : (sign.isIn .sequence || sign.isIn .tuple) = true) (isOrigin : f.origin? = some b) :
    b ∈ Builtin.sequences := by
  cases f <;> cases signOf <;> first
    | exact absurd kind (by decide)
    | cases isOrigin; decide

theorem Spelling.superseding_sequence {b : Builtin} {sign : Sign}
    (member : (b, sign) ∈ Spelling.superseding)
    (kind : (sign.isIn .sequence || sign.isIn .tuple) = true) : b ∈ Builtin.sequences := by
  obtain ⟨f, _, isEntry⟩ := List.mem_filterMap.mp member
  cases isOrigin : f.origin? <;> cases signOf : f.sign? <;> rw [isOrigin, signOf] at isEntry <;>
    cases isEntry
  exact Form.origin_sequence signOf kind isOrigin

namespace Hint

/-- A subscription of a protocol that is read as a sequence, for the sake of its name. -/
def isSequenceProtocol (cat : Catalog) (h : Hint) : Bool :=
  match h with
  | subscription _ (.cls (.user n)) args =>
    (cat.get (.user n)).isUserProtocol && (h.sign? cat).any fun sign => sign.samples args
  | _ => false

theorem Made.notSequenceProtocol {h : Hint} (made : h.Made) (cat : Catalog) :
    h.isSequenceProtocol cat = false := by
  cases made <;> rfl

variable {cat : Catalog} {h : Hint} {sign : Sign} {k : ClassId}

/-- Where no class defined is a protocol, none is read as a sequence. -/
theorem notSequenceProtocol_of_defined (each : ∀ k ∈ cat.defined, k.isUserProtocol = false)
    (h : Hint) : h.isSequenceProtocol cat = false := by
  unfold isSequenceProtocol
  split
  · next n args =>
    have notProtocol : (cat.get (.user n)).isUserProtocol = false := by
      simp only [Catalog.get]
      cases found : cat.defined[n]? with
      | none => exact (by decide +kernel : Class.missing.isUserProtocol = false)
      | some k => exact each k (Array.mem_of_getElem? found)
    rw [notProtocol, Bool.false_and]
  · rfl

variable {world : Catalog} (extension : cat.Extends world)
  (registered : world.registered = Catalog.builtin.registered) (built : world.Built)
include extension registered built

theorem indexes_of_user {label : Option Nat} {n : Nat} {args : List Hint}
    (proper : (subscription label (.cls (.user n)) args).isSequenceProtocol cat = false)
    (spelled : (subscription label (.cls (.user n)) args).sign? cat = some sign)
    (samples : sign.samples args = true) : world.Indexes (.user n) := by
  -- a class that does not exist would be spelled like the root, which has no sign
  have has : cat.Has (.user n) := by
    by_contra missing
    have unspelled : Spelling.subscribedSign? (Spelling.stem Class.missing.text) = Option.none := by
      decide +kernel
    simp [sign?, kindSign?, Spelling.sign?_subscription, Subscriptable.text,
      Catalog.get_of_not_has missing, unspelled, origin?, Sign.ofOrigin?] at spelled
  have notProtocol : (cat.get (.user n)).isUserProtocol = false := by
    simpa [isSequenceProtocol, spelled, samples] using proper
  rw [← extension.get _ has] at notProtocol
  exact Catalog.indexes_user registered built notProtocol

/-- What is read as a sequence starts from a class without sets and dictionaries, and later
definitions do not change that. -/
theorem indexes_of_samples (proper : h.isSequenceProtocol cat = false)
    (spelled : h.sign? cat = some sign) (samples : sign.samples h.args = true)
    (isOrigin : h.origin?.or h.class? = some k) : world.Indexes k := by
  have kind := Sign.kind_of_samples samples
  cases h with
  | cls c =>
    rcases sign_of_class spelled with rfl | rfl | rfl | rfl <;> cases kind
  | subscription label origin args =>
    replace isOrigin : (subscription label origin args).origin? = some k := by
      simpa [class?] using isOrigin
    have signs := spelled
    simp only [sign?, kindSign?, Option.none_or, Spelling.sign?_subscription,
      Option.or_eq_some_iff] at signs
    rcases signs with known | ⟨_, ofOrigin⟩
    · cases origin with
      | form f =>
        rw [Subscriptable.text, Spelling.stem_eq_self f.noBracket] at known
        obtain ⟨b, isBuiltin, rfl⟩ := Option.map_eq_some_iff.mp isOrigin
        have isSequence := Form.origin_sequence (Spelling.sign_of_form known).1 kind isBuiltin
        exact Catalog.indexes_builtin registered isSequence
      | cls c =>
        cases isOrigin
        cases k with
        | builtin b =>
          change Spelling.subscribedSign? (Spelling.stem b.toClass.text) = some sign at known
          rw [Spelling.stem_eq_self (Spelling.noBracket_class b)] at known
          rcases Spelling.sign_of_class known with member | rfl | rfl
          · exact Catalog.indexes_builtin registered (Spelling.superseding_sequence member kind)
          · cases kind
          · cases kind
        | user n => exact indexes_of_user extension registered built proper spelled samples
    · obtain ⟨c, isClass, signOf⟩ := Option.bind_eq_some_iff.mp ofOrigin
      obtain rfl : c = k := Option.some.inj (isClass.symm.trans isOrigin)
      cases c with
      | builtin b =>
        have member := Spelling.mem_of_lookup signOf
        exact Catalog.indexes_builtin registered (Spelling.superseding_sequence member kind)
      | user => cases signOf
  | _ => cases isOrigin

end Hint

theorem Classified.Holds.indexes {cat world : Catalog} {P : Hint → Prop} {c : Classified}
    {k : ClassId} (holds : c.Holds cat P) (extension : cat.Extends world)
    (registered : world.registered = Catalog.builtin.registered) (built : world.Built)
    (proper : ∀ h, P h → h.isSequenceProtocol cat = false)
    (isSequence : c.sign.isIn .sequence = true) (occupied : c.children ≠ [])
    (isOrigin : c.origin = some k) : world.Indexes k := by
  cases holds with
  | plain of holds =>
    obtain ⟨origin, sign, spelled, samples⟩ := of.sampled isSequence occupied
    exact Hint.indexes_of_samples extension registered built (proper _ holds) spelled samples
      (origin.symm.trans isOrigin)
  | annotated => cases isSequence

/-! ### Readers -/

section Verdicts
variable {ε : Type}

theorem compatible_eq : Compatible (Eq : Except ε Bool → Except ε Bool → Prop) where
  refl _ := rfl
  both := by
    intro a a' b b' first second
    obtain rfl : b = b' := funext fun _ => second
    rw [first]
  either first second := by rw [first, second]

/-- Behind the same verdict the same items are tested, if any are. -/
theorem selects_same {α : Type} {a : Bool} {items others : List α}
    (same : a = true → items = others) :
    Selects (Eq : Except ε Bool → Except ε Bool → Prop) a a items others := by
  intro test other each
  cases a with
  | false => rfl
  | true =>
    obtain rfl := same rfl
    have tests : Check.allOf test items = Check.allOf other items := by
      clear same
      induction items with
      | nil => rfl
      | cons x rest ih =>
        rw [List.forall_mem_cons] at each
        rw [Check.allOf, Check.allOf, each.1, ih each.2]
    rw [tests]

end Verdicts

namespace Reading

variable {ε : Type} {one two : Reading (Except ε)} {P : Hint → Prop}

/-- However thorough the readers are, they give small values the same verdicts. -/
theorem compares_small (agrees : Agrees one two) (tower : one.conf.tower = two.conf.tower)
    (extension : one.catalog.Extends one.world)
    (registered : one.world.registered = Catalog.builtin.registered) (built : one.world.Built)
    (hereditary : Hereditary one.catalog one.substitutes P)
    (proper : ∀ h, P h → h.isSequenceProtocol one.catalog = false) :
    Compares Eq (Value.IsSmallThroughout two.world)
      (fun ctx c => ctx.Keeps P ∧ c.Holds one.catalog P) one two := by
  have widened (k : ClassId) : Builder.widened one.conf k = Builder.widened two.conf k := by
    rw [Builder.widened, tower, Builder.widened]
  exact {
    toAgrees := agrees
    compatible := compatible_eq
    item := fun small member => small.leads (.item member)
    pair := fun small member => ⟨small.leads (.key member), small.leads (.value member)⟩
    attr := fun small found => small.leads (.attr _ found)
    inner := fun ⟨keeps, holds⟩ data => ⟨keeps, Hereditary.ofInner holds data⟩
    part := by
      intro ctx near c d h ⟨keeps, holds⟩ part classified
      obtain ⟨keepsNear, holdsPart⟩ := part.holds hereditary keeps holds
      exact ⟨keepsNear, hereditary.ofClassify keepsNear holdsPart classified⟩
    origin := by
      intro k v _
      rw [widened, agrees.instanceOf]
    sampled := by
      intro ctx c k v ⟨_, holds⟩ isSequence occupied isOrigin small
      have indexes := holds.indexes extension registered built proper isSequence occupied isOrigin
      rw [widened, ← agrees.world]
      refine selects_same fun isInstance => ?_
      have indexed : v.isUnindexed = false := by
        by_contra unindexed
        rw [indexes two.conf v (by simpa using unindexed)] at isInstance
        cases isInstance
      rw [sampledItems_of_small one (small v .refl) indexed,
        sampledItems_of_small two (small v .refl) indexed]
    first := by
      intro k v small
      rw [widened, ← agrees.world, firstItems_of_small one (small v .refl),
        firstItems_of_small two (small v .refl)]
      exact selects_same fun _ => rfl
    pairs := by
      intro k v small
      rw [widened, ← agrees.world, firstPairs_of_small one (small v .refl),
        firstPairs_of_small two (small v .refl)]
      exact selects_same fun _ => rfl }

end Reading

/-! ### Checks -/

namespace Session

variable {s : Session} {ctx : Context} {h : Hint} {scope : Scope} {names : Naming}

/-- The verdicts of the two checks on small values, with every reference looked up anew. -/
theorem buildCheck_agree {later : Session} {conf : Config}
    (proper : ∀ y, h.Reaches s.catalog s.substitutes ctx y → y.isSequenceProtocol s.catalog = false)
    (tower : ctx.conf.tower = conf.tower)
    (catalog : later.catalog = s.catalog) (substitutes : later.substitutes = s.substitutes)
    (wellKept : scope.WellKept) (named : h.WellNamed names)
    (grown : s.cache.Grown names s.catalog s.substitutes)
    (grownLater : later.cache.Grown names later.catalog later.substitutes) (pith other : String)
    {around : Surroundings} (extension : s.catalog.Extends around.catalog)
    (registered : around.catalog.registered = Catalog.builtin.registered)
    (built : around.catalog.Built) (random random' : UInt32) :
    Building.Alike
      (fun one two => ∀ v, v.IsSmallThroughout around.catalog →
        one.1.accepts (.direct around random) v = two.1.accepts (.direct around random') v)
      ((buildCheck ctx pith h scope).run.run s).1
      ((buildCheck (ctx.configured conf) other h scope).run.run later).1 := by
  let one : Reading (Except ReferenceError) :=
    .direct ⟨s.catalog, s.substitutes, ctx.conf⟩ scope around random
  let two : Reading (Except ReferenceError) :=
    .direct ⟨later.catalog, later.substitutes, conf⟩ scope around random'
  have agrees : Reading.Agrees one two := ⟨catalog.symm, rfl, substitutes.symm, rfl⟩
  have hereditary : Hereditary s.catalog s.substitutes fun h =>
      ∀ y, h.Reaches s.catalog s.substitutes ctx y → y.isSequenceProtocol s.catalog = false :=
    hereditary_reaches fun _ made _ => made.notSequenceProtocol _
  have compares := Reading.compares_small agrees tower extension registered built hereditary
    fun h holds => holds h .refl
  exact buildCheck_compares compares rfl rfl (Oracle.suits_direct _ _ _ _)
    (Oracle.suits_direct _ _ _ _) wellKept named grown grownLater
    (fun c classified => ⟨keeps_reaches, hereditary.ofClassify keeps_reaches proper classified⟩)
    pith other

/-- The check of a hint is built under every thoroughness or under none. Where no protocol is read
as a sequence, and with the registrations of the builtin catalog alone, the answer of the check on a
value that is small throughout does not depend on the thoroughness, whatever classes have been
defined since. -/
theorem buildCheck_small (later : Session) (conf : Config)
    (proper : ∀ y, h.Reaches s.catalog s.substitutes ctx y → y.isSequenceProtocol s.catalog = false)
    (tower : ctx.conf.tower = conf.tower)
    (catalog : later.catalog = s.catalog) (substitutes : later.substitutes = s.substitutes)
    (wellKept : scope.WellKept) (named : h.WellNamed names)
    (grown : s.cache.Grown names s.catalog s.substitutes)
    (grownLater : later.cache.Grown names later.catalog later.substitutes) (pith other : String) :
    (∀ e, ((buildCheck ctx pith h scope).run.run s).1 = .error e →
      ((buildCheck (ctx.configured conf) other h scope).run.run later).1 = .error e) ∧
    ∀ one after, ((buildCheck ctx pith h scope).run.run s).1 = .ok (one, after) →
      ∃ two left,
        ((buildCheck (ctx.configured conf) other h scope).run.run later).1 = .ok (two, left) ∧
        ∀ (around : Surroundings) (owner owner' : Nat) (calls calls' : CallState)
          (random random' : UInt32) (v : Value), s.catalog.Extends around.catalog →
          around.catalog.registered = Catalog.builtin.registered → around.catalog.Built →
          calls.Recalls around owner after → calls'.Recalls around owner' left →
          v.IsSmallThroughout around.catalog →
          ((one.accepts (Running.oracle around owner random) v).run.run calls).1 =
            ((two.accepts (Running.oracle around owner' random') v).run.run calls').1 := by
  have first : Building.Alike _ ((buildCheck ctx pith h scope).run.run s).1
      ((buildCheck (ctx.configured conf) other h scope).run.run later).1 :=
    buildCheck_configured catalog substitutes wellKept named grown grownLater pith other
  constructor
  · intro e failed
    rw [failed] at first
    exact first.error_left
  · intro one after made
    rw [made] at first
    obtain ⟨⟨two, left⟩, madeLater, _⟩ := first.ok_left
    have closed := buildCheck_closed (hereditary_true _ _) ctx.keeps_true trivial wellKept named
      grown made
    have closedLater := buildCheck_closed (hereditary_true _ _) (Context.keeps_true _) trivial
      wellKept named grownLater madeLater
    refine ⟨two, left, madeLater, ?_⟩
    intro around owner owner' calls calls' random random' v extension registered built recalls
      recallsLater small
    rw [Check.accepts_remembering closed recalls,
      Check.accepts_remembering closedLater recallsLater]
    have verdicts := buildCheck_agree proper tower catalog substitutes wellKept named grown
      grownLater pith other extension registered built random random'
    rw [made, madeLater] at verdicts
    exact verdicts v small

/-- A dictionary in a list maps to a tuple whose only item does not fit, and whatever item the check
draws, it finds that one. -/
theorem buildCheck_small_nested :
    let ctx := Context.bare ⟨.exhaustive, false, none⟩
    let tuple := Hint.generic none Builtin.tuple [Builtin.int, .value none .ellipsis]
    let h := Hint.generic none Builtin.list [.generic none Builtin.dict [Builtin.str, tuple]]
    let v := Value.list [.dict [(.str "a", .tuple [.str "b"])]]
    v.IsSmallThroughout start.catalog ∧ ∃ check after,
      ((buildCheck (ctx.configured .standard) "obj" h .empty).run.run start).1 =
        .ok (check, after) ∧
      ∀ random, ((check.accepts (Running.oracle start.around 1 random) v).run.run start.calls).1 =
        .ok false := by
  intro ctx tuple h v
  let parts := [v, .dict [(.str "a", .tuple [.str "b"])], .tuple [.str "b"], .str "a", .str "b"]
  have small : v.IsSmallThroughout start.catalog := by
    refine Value.isSmallThroughout_of_parts (show v ∈ parts from List.mem_cons_self) ?_
    simp only [parts, v, List.forall_mem_cons, List.not_mem_nil, false_implies, implies_true,
      and_true]
    refine ⟨?_, ?_, ?_, ?_, ?_⟩ <;>
      refine ⟨⟨rfl, by rintro _ ⟨⟩; decide⟩, ?_, ?_, _, fun _ => rfl⟩ <;>
      simp [Value.items, Value.pairs?, Value.data, Value.ofChar]
  have proper (y : Hint) : y.isSequenceProtocol start.catalog = false :=
    Hint.notSequenceProtocol_of_defined (fun _ member => absurd member (Array.not_mem_empty _)) y
  let names : Naming := ⟨fun _ => Builtin.object, fun _ => .instanceOf []⟩
  have namedTuple : tuple.WellNamed names :=
    .ofArgs (by simpa using ⟨.ofClass _, .ofValue _⟩)
  have namedDict : (Hint.generic none Builtin.dict [Builtin.str, tuple]).WellNamed names :=
    .ofArgs (by simpa using ⟨.ofClass _, namedTuple⟩)
  have named : h.WellNamed names := .ofArgs (by simpa using namedDict)
  have new (owner : Nat) (scope : Scope) : start.calls.Recalls start.around owner scope :=
    CallState.recalls_of_new fun _ member => by cases member
  have rejected : (((buildCheck ctx "obj" h .empty).run.run start).1.toOption.any fun made =>
      ((made.1.accepts (Running.oracle start.around 0 0) v).run.run start.calls).1.toOption.any
        (!·)) = true := by decide +kernel
  obtain ⟨⟨all, left⟩, built, rejected⟩ := ok_of_any rejected
  obtain ⟨verdict, isVerdict, rejects⟩ := ok_of_any rejected
  have failed : ((all.accepts (Running.oracle start.around 0 0) v).run.run start.calls).1 =
      .ok false := isVerdict.trans (congrArg Except.ok (by simpa using rejects))
  obtain ⟨check, after, builtSampled, same⟩ := (buildCheck_small (s := start) start .standard
    (fun y _ => proper y) (show ctx.conf.tower = false from rfl) rfl rfl
    Scope.wellKept_empty named .empty .empty "obj" "obj").2 all left built
  refine ⟨small, check, after, builtSampled, fun random => ?_⟩
  rw [← failed]
  exact (same start.around 0 1 start.calls start.calls 0 random v (.refl _) rfl .builtin (new _ _)
    (new _ _) small).symm

/-- A protocol that is named like the form of lists is read as a list, and sets have the method that
it asks for. The only item of a set is passed over where items are sampled, since it has no
position, and found where all are tested. -/
theorem sampled_overlooks_set :
    let t := Hint.typeVar 0 "T" .invariant none []
    let draft := (((ClassDraft.named "List").inModule "typing").withDeclaredBase
      (.typing none .protocol [t])).withMethod "__len__"
    let list : Class := ⟨"List", "typing", "List", [Builtin.protocol],
      Catalog.builtin.lineage Builtin.protocol, [("__len__", .method "__len__")], [], [t],
      [.typing none .protocol [t]], { ClassFlags.unset with protocol := true }, [], false⟩
    let s := { start with catalog := { Catalog.builtin with defined := #[list] } }
    let h := Hint.generic none (.user 0) [Builtin.int]
    let v := Value.set [.str "a"]
    let answers (conf : Config) (verdict : Bool) := ∃ check after,
      ((buildCheck (.bare conf) "obj" h .empty).run.run s).1 = .ok (check, after) ∧
      ((check.accepts (Running.oracle s.around 0 0) v).run.run s.calls).1 = .ok verdict
    Catalog.builtin.define draft = .ok (.user 0, s.catalog) ∧ v.IsSmallThroughout s.catalog ∧
      answers ⟨.sampled, false, none⟩ true ∧ answers ⟨.exhaustive, false, none⟩ false := by
  intro t draft list s h v answers
  have defined : Catalog.builtin.define draft = .ok (.user 0, s.catalog) := by
    have linearized : Catalog.builtin.linearize [Builtin.protocol] =
        .ok (Catalog.builtin.lineage Builtin.protocol) := by
      decide +kernel
    exact Catalog.define_of_linearize linearized
  have small : v.IsSmallThroughout s.catalog := by
    refine Value.isSmallThroughout_of_parts (show v ∈ [v, .str "a"] from List.mem_cons_self) ?_
    simp only [v, List.forall_mem_cons, List.not_mem_nil, false_implies, implies_true, and_true]
    constructor <;> refine ⟨⟨rfl, by rintro _ ⟨⟩; decide⟩, ?_, ?_, _, fun _ => rfl⟩ <;>
      simp [Value.items, Value.pairs?, Value.data, Value.ofChar]
  have answered {conf : Config} {verdict : Bool}
      (run : (((buildCheck (.bare conf) "obj" h .empty).run.run s).1.toOption.any fun made =>
        ((made.1.accepts (Running.oracle s.around 0 0) v).run.run s.calls).1.toOption.any
          (· == verdict)) = true) : answers conf verdict := by
    obtain ⟨⟨check, after⟩, built, decided⟩ := ok_of_any run
    obtain ⟨_, isVerdict, same⟩ := ok_of_any decided
    exact ⟨check, after, built, isVerdict.trans (congrArg Except.ok (by simpa using same))⟩
  exact ⟨defined, small, answered (by decide +kernel), answered (by decide +kernel)⟩

end Session
end HintCheck
