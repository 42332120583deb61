import HintCheck.Proofs.Registration
import HintCheck.Proofs.Variadics

/-!
Inheritance of typed dictionaries. A class has the keys of the classes above it, each as the first
class of its lineage that declares it does. Which of them a dictionary must hold is decided by the
marks of the declarations and, for the keys without a mark, by the totality of the class itself,
whichever class declares them. A dictionary of a class is therefore one of a class above it unless
the class above is total, the class is not, and a key without a mark is inherited.
-/
namespace HintCheck

/-! ### Entries -/

namespace Entries

variable {α : Type}

theorem get?_cons (entry : String × α) (rest : Entries α) (name : String) :
    get? (entry :: rest) name = if entry.1 = name then some entry.2 else get? rest name := by
  by_cases same : entry.1 = name <;> simp [get?, same]

theorem get?_append (entries more : Entries α) (name : String) :
    get? (entries ++ more) name = (get? entries name).or (get? more name) := by
  induction entries with
  | nil => rfl
  | cons entry rest ih =>
    rw [List.cons_append, get?_cons, get?_cons, ih]
    split <;> rfl

theorem contains_iff (entries : Entries α) (name : String) :
    contains entries name = true ↔ name ∈ names entries := by
  simp [contains, names]

theorem get?_eq_none {entries : Entries α} {name : String} (missing : name ∉ names entries) :
    get? entries name = none := by
  rw [get?, Option.map_eq_none_iff, List.find?_eq_none]
  intro entry member same
  exact missing (List.mem_map.mpr ⟨entry, member, beq_iff_eq.mp same⟩)

theorem names_insert (entries : Entries α) (name : String) (value : α) :
    names (insert entries name value) =
      if name ∈ names entries then names entries else names entries ++ [name] := by
  unfold insert
  by_cases known : name ∈ names entries
  · rw [if_pos ((contains_iff ..).mpr known), if_pos known]
    simp only [names, List.map_map]
    refine List.map_congr_left fun entry _ => ?_
    by_cases same : entry.1 = name <;> simp [same]
  · rw [if_neg (mt (contains_iff ..).mp known), if_neg known]
    simp [names]

theorem get?_replace (entries : Entries α) (name other : String) (value : α) :
    get? (entries.map fun entry => if entry.1 == name then (name, value) else entry) other =
      if name = other ∧ name ∈ names entries then some value else get? entries other := by
  induction entries with
  | nil => simp [names]
  | cons entry rest ih =>
    rw [List.map_cons, get?_cons, ih, get?_cons]
    by_cases isName : entry.1 = name
    · by_cases isOther : name = other <;> simp [names, isName, isOther]
    · have listed : name ∈ names (entry :: rest) ↔ name ∈ names rest := by
        simp [names, Ne.symm isName]
      simp only [listed, beq_iff_eq, isName, if_false]
      by_cases isEntry : entry.1 = other
      · rw [if_pos isEntry, if_pos isEntry, if_neg fun same => isName (isEntry.trans same.1.symm)]
      · rw [if_neg isEntry, if_neg isEntry]

theorem get?_insert (entries : Entries α) (name other : String) (value : α) :
    get? (insert entries name value) other =
      if name = other then some value else get? entries other := by
  unfold insert
  by_cases known : name ∈ names entries
  · rw [if_pos ((contains_iff ..).mpr known), get?_replace]
    simp [known]
  · rw [if_neg (mt (contains_iff ..).mp known), get?_append, get?_cons]
    by_cases same : name = other
    · rw [if_pos same, if_pos same, ← same, get?_eq_none known]
      rfl
    · rw [if_neg same, if_neg same]
      exact Option.or_none

theorem nodup_insert {entries : Entries α} (nodup : (names entries).Nodup) (name : String)
    (value : α) : (names (insert entries name value)).Nodup := by
  rw [names_insert]
  split
  · exact nodup
  next isNew => simpa using nodup.concat isNew

/-- Of what is written, the last entry of a name counts. -/
theorem get?_insertAll (entries more : Entries α) (name : String) :
    get? (insertAll entries more) name = (get? more.reverse name).or (get? entries name) := by
  induction more generalizing entries with
  | nil => rfl
  | cons entry rest ih =>
    rw [insertAll, List.foldl_cons, ← insertAll, ih, get?_insert, List.reverse_cons, get?_append,
      Option.or_assoc, get?_cons]
    split <;> rfl

theorem nodup_insertAll {entries : Entries α} (nodup : (names entries).Nodup) (more : Entries α) :
    (names (insertAll entries more)).Nodup := by
  induction more generalizing entries with
  | nil => exact nodup
  | cons entry rest ih => exact ih (nodup_insert nodup entry.1 entry.2)

theorem mem_iff_get? {entries : Entries α} (nodup : (names entries).Nodup) {name : String}
    {value : α} : (name, value) ∈ entries ↔ get? entries name = some value := by
  constructor
  · intro member
    rw [get?, find?_of_nodup nodup member]
    rfl
  · intro found
    obtain ⟨entry, isFound, rfl⟩ := Option.map_eq_some_iff.mp found
    obtain rfl : entry.1 = name := by simpa using List.find?_some isFound
    exact List.mem_of_find?_eq_some isFound

end Entries

/-! ### Keys and their declarations -/

/-- How a class itself declares a key. -/
def Class.declared? (k : Class) (key : String) : Option Hint :=
  Entries.get? k.annotations.reverse key

/-- What the declaration of a key says about the key: that it is required, that it is not, or
nothing. -/
def Hint.mark? (h : Hint) : Option Bool :=
  match h.subscriptedForm? with
  | some .required => some true
  | some .notRequired => some false
  | _ => Option.none

namespace Catalog

variable {cat : Catalog}

/-- How a key of a class is declared: by the class, or by the first class above it that does. -/
def key? (cat : Catalog) (c : ClassId) (key : String) : Option Hint :=
  (cat.lineage c).findSome? fun k => (cat.get k).declared? key

theorem get?_allAnnotations (cat : Catalog) (c : ClassId) (key : String) :
    Entries.get? (cat.allAnnotations c) key = cat.key? c key := by
  rw [allAnnotations, List.foldl_reverse, key?]
  induction cat.lineage c with
  | nil => rfl
  | cons k rest ih =>
    rw [List.foldr_cons, Entries.get?_insertAll, ih, List.findSome?_cons, Class.declared?]
    split <;> simp_all

theorem nodup_allAnnotations (cat : Catalog) (c : ClassId) :
    (Entries.names (cat.allAnnotations c)).Nodup := by
  rw [allAnnotations, List.foldl_reverse]
  induction cat.lineage c with
  | nil => exact List.nodup_nil
  | cons k rest ih => exact Entries.nodup_insertAll ih _

/-- A key is required by its mark, and without one by the totality of the class. -/
theorem mem_requiredKeys {c : ClassId} {key : String} :
    key ∈ Hint.requiredKeys cat c ↔
      ∃ h, cat.key? c key = some h ∧ h.mark?.getD (cat.get c).flags.total = true := by
  simp only [Hint.requiredKeys, List.mem_map, List.mem_filter, Prod.exists, exists_and_right,
    exists_eq_right, Entries.mem_iff_get? (nodup_allAnnotations cat c), get?_allAnnotations]
  refine exists_congr fun h => and_congr_right fun _ => ?_
  rw [Hint.mark?]
  rcases h.subscriptedForm? with _ | form
  · rfl
  · cases form <;> rfl

/-! ### What a class inherits -/

/-- No class of the lineage declares a key of the base, except the base and the classes above it. -/
def Keeps (cat : Catalog) (base derived : ClassId) : Prop :=
  ∀ k ∈ cat.lineage derived, k ∉ cat.lineage base →
    ∀ key, cat.key? base key ≠ none → (cat.get k).declared? key = none

theorem findSome?_of_sublist {α β : Type} {f : α → Option β} {xs ys : List α}
    (sublist : xs.Sublist ys) (nodup : ys.Nodup) (apart : ∀ y ∈ ys, y ∉ xs → f y = none) :
    ys.findSome? f = xs.findSome? f := by
  induction sublist with
  | slnil => rfl
  | cons y sublist ih =>
    obtain ⟨isNew, nodup⟩ := List.nodup_cons.mp nodup
    have ofFirst : f y = none := apart y (by simp) fun member => isNew (sublist.subset member)
    rw [List.findSome?_cons, ofFirst]
    exact ih nodup fun z member => apart z (List.mem_cons_of_mem y member)
  | cons_cons y sublist ih =>
    obtain ⟨isNew, nodup⟩ := List.nodup_cons.mp nodup
    rw [List.findSome?_cons, List.findSome?_cons, ih nodup]
    intro z member missing
    refine apart z (List.mem_cons_of_mem y member) fun listed => ?_
    rcases List.mem_cons.mp listed with rfl | later
    · exact isNew member
    · exact missing later

/-- A key that is not declared again is inherited as it is declared above. -/
theorem Built.key?_of_keeps (built : cat.Built) {base derived : ClassId}
    (isAbove : base ∈ (cat.get derived).ancestors) (keeps : cat.Keeps base derived) {key : String}
    {h : Hint} (isKey : cat.key? base key = some h) : cat.key? derived key = some h := by
  have ordered := (built.ordered derived (has_of_ancestors isAbove)).1
  rw [← isKey]
  refine findSome?_of_sublist ((ordered.closed base isAbove).cons derived)
    (List.nodup_cons.mpr ⟨ordered.irreflexive, ordered.nodup⟩) fun k member missing => ?_
  exact keeps k member missing key (by rw [isKey]; exact Option.some_ne_none h)

/-- An inherited key stops being required if it has no mark, the class that it comes from is total,
and the class that inherits it is not. -/
theorem Built.loses_iff (built : cat.Built) {base derived : ClassId}
    (isAbove : base ∈ (cat.get derived).ancestors) (keeps : cat.Keeps base derived) (key : String) :
    key ∈ Hint.requiredKeys cat base ∧ key ∉ Hint.requiredKeys cat derived ↔
      (∃ h, cat.key? base key = some h ∧ h.mark? = none) ∧
        (cat.get base).flags.total = true ∧ (cat.get derived).flags.total = false := by
  simp only [mem_requiredKeys]
  constructor
  · rintro ⟨⟨h, isKey, required⟩, lost⟩
    have inherited := built.key?_of_keeps isAbove keeps isKey
    cases mark : h.mark? with
    | none =>
      rw [mark] at required
      refine ⟨⟨h, isKey, mark⟩, required, Bool.eq_false_iff.mpr fun total => ?_⟩
      refine lost ⟨h, inherited, ?_⟩
      rw [mark]
      exact total
    | some marked =>
      refine absurd ⟨h, inherited, ?_⟩ lost
      rw [mark] at required ⊢
      exact required
  · rintro ⟨⟨h, isKey, unmarked⟩, isTotal, notTotal⟩
    refine ⟨⟨h, isKey, by rw [unmarked]; exact isTotal⟩, ?_⟩
    rintro ⟨again, isKeyToo, required⟩
    cases (built.key?_of_keeps isAbove keeps isKey).symm.trans isKeyToo
    rw [unmarked] at required
    exact Bool.false_ne_true (notTotal.symm.trans required)

/-- Typed dictionaries are classes that were defined. -/
theorem Built.defined_of_typedDict (built : cat.Built) {c : ClassId}
    (isDict : (cat.get c).flags.typedDict = true) :
    ∃ n, c = .user n ∧ (cat.get c).root = false := by
  cases c with
  | builtin b => cases isDict
  | user n =>
    exact ⟨n, rfl, (built.plain n).2⟩

end Catalog

/-! ### Checks of typed dictionaries -/

theorem Value.hasKey_dict {keys : List String} {key : String} :
    (dict (keys.map fun key => (str key, none))).hasKey key = true ↔ key ∈ keys := by
  simp [hasKey, pairs?, data]

/-- Of two checks of typed dictionaries, one accepts what the other does if and only if it asks for
no other keys. -/
theorem Check.verdict_typedDict_imp (cat : Catalog) {s t : Subject} (fewer more : List String) :
    (∀ v, (typedDict t [.inline Builtin.dict] more).verdict cat v = true →
        (typedDict s [.inline Builtin.dict] fewer).verdict cat v = true) ↔
      ∀ key ∈ fewer, key ∈ more := by
  have verdict (s : Subject) (keys : List String) (v : Value) :
      (typedDict s [.inline Builtin.dict] keys).verdict cat v = true ↔
        cat.isInstanceOf v [.inline Builtin.dict] = true ∧ ∀ key ∈ keys, v.hasKey key = true := by
    rw [← List.all_eq_true, ← Bool.and_eq_true]
    exact Iff.rfl
  simp only [verdict]
  constructor
  · intro accepts key member
    -- the dictionary that holds no other keys
    have least := accepts (.dict (more.map fun key => (.str key, .none)))
      ⟨Builder.isInstanceOf_own rfl cat, fun _ => Value.hasKey_dict.mpr⟩
    exact Value.hasKey_dict.mp (least.2 key member)
  · rintro subset v ⟨isDict, holds⟩
    exact ⟨isDict, fun key member => holds key (subset key member)⟩

/-- A class of typed dictionaries stands for the keys that it requires. -/
theorem Hint.classify_typedDict {cat : Catalog} {ctx : Context} {c : ClassId}
    (built : cat.Built) (notVariadic : ctx.position.isVariadic = false)
    (isDict : (cat.get c).flags.typedDict = true) (subs : Substitutes) :
    (cls c).classify cat subs ctx =
      .ok ⟨.typedDict, cls c, [], some Builtin.dict, .typedDict (requiredKeys cat c)⟩ := by
  obtain ⟨n, rfl, notRoot⟩ := built.defined_of_typedDict isDict
  have rests (reduce : Hint → Except HintError Reduced) :
      (cls (.user n)).step cat ctx reduce = .ok ⟨Option.none, []⟩ := step_class nofun nofun
  have itself : (cls (.user n)).canonical cat ctx = .ok ⟨cls (.user n), []⟩ :=
    canonical_of_rests (placed_of_notStandIn notVariadic rfl) rfl (rests fun _ => .ok ⟨object, []⟩)
  have canonical : (cls (.user n)).classifyCanonical cat =
      .ok ⟨.typedDict, cls (.user n), [], some Builtin.dict,
        .typedDict (requiredKeys cat (.user n))⟩ := by
    simp [classifyCanonical, sign?, kindSign?, notRoot, isDict, classifyTypedDict, class?,
      Classified.leaf]
  rw [Hint.classify, classifyWithin_proper rfl, itself]
  dsimp only [bind, Except.bind]
  rw [classifyReduced_settled rfl, canonical]
  rfl

namespace Session

section Generated
variable {s : Session} {names : Naming} {ctx : Context} {c base derived : ClassId}
  (built : s.catalog.Built) (grown : s.cache.Grown names s.catalog s.substitutes)
  (notVariadic : ctx.position.isVariadic = false)
include built grown notVariadic

/-- The check of a class of typed dictionaries asks for a dictionary and for the required keys. -/
theorem generates_typedDict (isDict : (s.catalog.get c).flags.typedDict = true) (pith : String)
    (scope : Scope) : s.Generates ctx pith (.cls c) scope
      (.typedDict ⟨pith, (Hint.cls c).text s.catalog⟩ [.inline Builtin.dict]
        (Hint.requiredKeys s.catalog c)) scope := by
  refine (generates_iff (.ofClass _) grown).mpr
    ⟨_, Hint.classify_typedDict built notVariadic isDict s.substitutes, ?_⟩
  rfl

/-- A class of typed dictionaries and one above it, none of whose keys is declared again, have
checks. The keys that the class above requires and the class does not are those without a mark, if
the class above is total and the class is not. If there are none, and only then, every value that
the check of the class accepts is accepted by the check of the class above. -/
theorem typedDict_substitutable (isBase : (s.catalog.get base).flags.typedDict = true)
    (isDerived : (s.catalog.get derived).flags.typedDict = true)
    (isAbove : base ∈ (s.catalog.get derived).ancestors) (keeps : s.catalog.Keeps base derived)
    (pith : String) (scope : Scope) :
    let required := Hint.requiredKeys s.catalog
    let total c := (s.catalog.get c).flags.total
    (∀ key, key ∈ required base ∧ key ∉ required derived ↔
      (∃ h, s.catalog.key? base key = some h ∧ h.mark? = none) ∧
        total base = true ∧ total derived = false) ∧
    ∃ ofBase ofDerived, s.Generates ctx pith (.cls base) scope ofBase scope ∧
      s.Generates ctx pith (.cls derived) scope ofDerived scope ∧
      (∀ (m : Type → Type) [Monad m] (o : Oracle m) (v : Value),
        ofBase.accepts o v = pure (ofBase.verdict o.catalog v) ∧
          ofDerived.accepts o v = pure (ofDerived.verdict o.catalog v)) ∧
      ∀ cat : Catalog,
        ((∀ v, ofDerived.verdict cat v = true → ofBase.verdict cat v = true) ↔
          ∀ key ∈ required base, key ∈ required derived) ∧
        ((∀ v, ofDerived.verdict cat v = true → ofBase.verdict cat v = true) ↔
          (total base = true → total derived = false →
            ∀ key h, s.catalog.key? base key = some h → h.mark? ≠ none)) := by
  intro required total
  have lost (key : String) := built.loses_iff isAbove keeps key
  have kept : (∀ key ∈ required base, key ∈ required derived) ↔
      (total base = true → total derived = false →
        ∀ key h, s.catalog.key? base key = some h → h.mark? ≠ none) := by
    constructor
    · intro subset isTotal notTotal key h isKey unmarked
      obtain ⟨inBase, notInDerived⟩ := (lost key).mpr ⟨⟨h, isKey, unmarked⟩, isTotal, notTotal⟩
      exact notInDerived (subset key inBase)
    · intro marked key inBase
      by_contra notInDerived
      obtain ⟨⟨h, isKey, unmarked⟩, isTotal, notTotal⟩ := (lost key).mp ⟨inBase, notInDerived⟩
      exact marked isTotal notTotal key h isKey unmarked
  refine ⟨lost, _, _, generates_typedDict built grown notVariadic isBase pith scope,
    generates_typedDict built grown notVariadic isDerived pith scope, fun m _ o v => ⟨rfl, rfl⟩,
    fun cat => ?_⟩
  exact ⟨Check.verdict_typedDict_imp cat _ _, (Check.verdict_typedDict_imp cat _ _).trans kept⟩

end Generated

theorem built_defineClass {s : Session} (built : s.catalog.Built) {d : ClassDraft}
    (known : ∀ b ∈ d.bases, s.catalog.Has b) : ((defineClass d).run.run s).2.catalog.Built := by
  rw [defineClass_state]
  cases defined : s.catalog.define d with
  | error e => exact built
  | ok made => exact .define built known defined

/-- A session with a class of typed dictionaries that hold a title. -/
def withMovie : Session :=
  let movie := (ClassDraft.named "Movie").asTypedDict true
  ((defineClass (movie.withAnnotation "title" Builtin.str)).run.run start).2

/-- The session has a class below it as well, of dictionaries that hold notes. -/
def withDraft (total : Bool) : Session :=
  let draft := ((ClassDraft.named "Draft").withBase (.user 0)).asTypedDict total
  ((defineClass (draft.withAnnotation "notes" Builtin.str)).run.run withMovie).2

/-- The class of drafts is below the class of movies and declares another key. -/
structure HasDraft (s : Session) (total : Bool) : Prop where
  built : s.catalog.Built
  movieLineage : s.catalog.lineage (.user 0) = [.user 0, .builtin .dict, .builtin .object]
  draftLineage : s.catalog.lineage (.user 1) = .user 1 :: s.catalog.lineage (.user 0)
  movieKeys : (s.catalog.get (.user 0)).annotations = [("title", .cls Builtin.str)]
  draftKeys : (s.catalog.get (.user 1)).annotations = [("notes", .cls Builtin.str)]
  movieFlags : (s.catalog.get (.user 0)).flags =
    { ClassFlags.unset with typedDict := true, total := true }
  draftFlags : (s.catalog.get (.user 1)).flags = { ClassFlags.unset with typedDict := true, total }
  nothingCached : s.cache = .empty

theorem withDraft_classes (total : Bool) :
    let cat := (withDraft total).catalog
    cat.lineage (.user 0) = [.user 0, .builtin .dict, .builtin .object] ∧
    cat.lineage (.user 1) = .user 1 :: cat.lineage (.user 0) ∧
    (cat.get (.user 0)).annotations = [("title", .cls Builtin.str)] ∧
    (cat.get (.user 1)).annotations = [("notes", .cls Builtin.str)] ∧
    (cat.get (.user 0)).flags = { ClassFlags.unset with typedDict := true, total := true } ∧
    (cat.get (.user 1)).flags = { ClassFlags.unset with typedDict := true, total } ∧
    (withDraft total).cache = .empty := by
  have dict : Catalog.builtin.linearize [Builtin.dict] = .ok [Builtin.dict, Builtin.object] := by
    decide +kernel
  have movie : withMovie = _ := defineClass_of_linearize dict
  have below : withMovie.catalog.linearize [.user 0, Builtin.dict] =
      .ok [.user 0, Builtin.dict, Builtin.object] := by
    decide +kernel
  rw [withDraft, defineClass_of_linearize below, movie]
  exact ⟨rfl, rfl, rfl, rfl, rfl, rfl, rfl⟩

theorem withDraft_hasDraft (total : Bool) : HasDraft (withDraft total) total := by
  obtain ⟨movieLineage, draftLineage, movieKeys, draftKeys, movieFlags, draftFlags,
    nothingCached⟩ := withDraft_classes total
  have builtMovie : withMovie.catalog.Built :=
    built_defineClass .builtin (List.forall_mem_singleton.mpr True.intro)
  have movieDefined : 0 < withMovie.catalog.defined.size := by decide +kernel
  have built : (withDraft total).catalog.Built := built_defineClass builtMovie
    (List.forall_mem_cons.mpr ⟨movieDefined, List.forall_mem_singleton.mpr True.intro⟩)
  exact ⟨built, movieLineage, draftLineage, movieKeys, draftKeys, movieFlags, draftFlags,
    nothingCached⟩

namespace HasDraft

variable {s : Session} {total : Bool} (classes : HasDraft s total)
include classes

theorem key?_movie (key : String) :
    s.catalog.key? (.user 0) key = if "title" = key then some (.cls Builtin.str) else none := by
  have ofMovie : (s.catalog.get (.user 0)).declared? key =
      if "title" = key then some (.cls Builtin.str) else none := by
    rw [Class.declared?, classes.movieKeys, List.reverse_singleton, Entries.get?_cons]
    rfl
  rw [Catalog.key?, classes.movieLineage, List.findSome?_cons, ofMovie]
  split <;> simp_all [Class.declared?, Catalog.get, Builtin.toClass, Entries.get?]

theorem keeps : s.catalog.Keeps (.user 0) (.user 1) := by
  intro k member outside key isKey
  rw [classes.draftLineage] at member
  obtain rfl := (List.mem_cons.mp member).resolve_right outside
  rw [classes.key?_movie] at isKey
  split at isKey
  next isTitle =>
    rw [Class.declared?, classes.draftKeys, ← isTitle]
    decide
  next => exact absurd rfl isKey

theorem isAbove : .user 0 ∈ (s.catalog.get (.user 1)).ancestors := by
  have lineage := classes.draftLineage
  rw [classes.movieLineage] at lineage
  rw [(List.cons.inj lineage).2]
  exact List.mem_cons_self

theorem areDicts : (s.catalog.get (.user 0)).flags.typedDict = true ∧
    (s.catalog.get (.user 1)).flags.typedDict = true := by
  rw [classes.movieFlags, classes.draftFlags]
  exact ⟨rfl, rfl⟩

theorem grown (names : Naming) : s.cache.Grown names s.catalog s.substitutes := by
  rw [classes.nothingCached]
  exact .empty

end HasDraft

/-- A total class below a total one requires its keys. -/
theorem typedDict_substitutable_total :
    let s := withDraft true
    .user 0 ∈ (s.catalog.get (.user 1)).ancestors ∧ s.catalog.Keeps (.user 0) (.user 1) ∧
    ∃ ofMovie ofDraft,
      s.Generates (.bare .standard) "obj" (.cls (.user 0)) .empty ofMovie .empty ∧
      s.Generates (.bare .standard) "obj" (.cls (.user 1)) .empty ofDraft .empty ∧
      ∀ cat v, ofDraft.verdict cat v = true → ofMovie.verdict cat v = true := by
  intro s
  have classes : HasDraft s true := withDraft_hasDraft true
  have grown := classes.grown ⟨fun _ => Builtin.object, fun _ => .instanceOf []⟩
  obtain ⟨isMovie, isDraft⟩ := classes.areDicts
  have notVariadic : (Context.bare .standard).position.isVariadic = false := rfl
  obtain ⟨_, ofMovie, ofDraft, movie, draft, _, each⟩ := typedDict_substitutable classes.built grown
    notVariadic isMovie isDraft classes.isAbove classes.keeps "obj" .empty
  refine ⟨classes.isAbove, classes.keeps, ofMovie, ofDraft, movie, draft, fun cat => ?_⟩
  have isTotal : (s.catalog.get (.user 1)).flags.total = true := by rw [classes.draftFlags]
  exact (each cat).2.mpr fun _ notTotal => absurd (isTotal.symm.trans notTotal) (by decide)

/-- A class that is not total, below a total one, is satisfied by a dictionary without the title. -/
theorem typedDict_loses_title :
    let s := withDraft false
    (s.catalog.get (.user 0)).flags.typedDict = true ∧
    (s.catalog.get (.user 1)).flags.typedDict = true ∧
    .user 0 ∈ (s.catalog.get (.user 1)).ancestors ∧ s.catalog.Keeps (.user 0) (.user 1) ∧
    ∃ ofMovie ofDraft,
      s.Generates (.bare .standard) "obj" (.cls (.user 0)) .empty ofMovie .empty ∧
      s.Generates (.bare .standard) "obj" (.cls (.user 1)) .empty ofDraft .empty ∧
      ofDraft.verdict s.catalog (.dict []) = true ∧
      ofMovie.verdict s.catalog (.dict []) = false := by
  intro s
  have classes : HasDraft s false := withDraft_hasDraft false
  have grown := classes.grown ⟨fun _ => Builtin.object, fun _ => .instanceOf []⟩
  obtain ⟨isMovie, isDraft⟩ := classes.areDicts
  refine ⟨isMovie, isDraft, classes.isAbove, classes.keeps, _, _,
    generates_typedDict classes.built grown rfl isMovie "obj" .empty,
    generates_typedDict classes.built grown rfl isDraft "obj" .empty, ?_, ?_⟩ <;> decide +kernel

end Session
end HintCheck
