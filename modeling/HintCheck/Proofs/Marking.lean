import HintCheck.Proofs.Forwarding

/-!
The marks of a signature. Its text falls into entries at the commas, and an entry is told from the
others by its stars, its slash or its default. Read from left to right, the marks say what a bare
name stands for: a positional-only parameter up to the slash, a keyword-only one behind the star or
the variadic parameter, and one that may be given in both ways between them. So the text tells the
names, the kinds and which parameters have defaults, and it tells nothing else.
-/
namespace HintCheck

/-- What the text of a signature tells about a parameter. -/
structure ParamShape where
  name : String
  kind : ParamKind
  hasDefault : Bool
deriving DecidableEq, Repr

def Parameter.shape (p : Parameter) : ParamShape :=
  ⟨p.name, p.kind, p.hasDefault⟩

/-! ### From entries to parameters -/

/-- The part of a signature that a reader has come to. -/
inductive Zone where
  | beforeSlash
  | beforeStar
  | behindStar
deriving DecidableEq, Repr

namespace Zone

/-- What a bare name stands for. -/
def kind : Zone → ParamKind
  | beforeSlash => .positionalOnly
  | beforeStar => .positionalOrKeyword
  | behindStar => .keywordOnly

/-- A slash has to come. -/
def slashDue : Zone → Bool
  | beforeSlash => true
  | beforeStar | behindStar => false

/-- Keyword-only parameters need a star in front. -/
def starDue : Zone → Bool
  | beforeSlash | beforeStar => true
  | behindStar => false

/-- Where a parameter of the kind leads to. -/
def after (zone : Zone) : ParamKind → Zone
  | .positionalOnly => beforeSlash
  | .positionalOrKeyword => beforeStar
  | .varPositional | .keywordOnly => behindStar
  | .varKeyword => if zone = behindStar then behindStar else beforeStar

theorem rank_after {zone : Zone} {kind next : ParamKind} (follows : next.mayFollow kind = true) :
    (zone.after kind).kind.rank ≤ next.rank := by
  revert follows
  cases zone <;> cases kind <;> cases next <;> decide

end Zone

namespace ParamShape

/-- The parameters that entries stand for. -/
def readFrom : Zone → List SignatureItem → List ParamShape
  | _, [] => []
  | _, .slash :: rest => readFrom .beforeStar rest
  | _, .star :: rest => readFrom .behindStar rest
  | zone, .plain name hasDefault :: rest => ⟨name, zone.kind, hasDefault⟩ :: readFrom zone rest
  | _, .starred name :: rest => ⟨name, .varPositional, false⟩ :: readFrom .behindStar rest
  | zone, .doubleStarred name :: rest => ⟨name, .varKeyword, false⟩ :: readFrom zone rest

/-- The parameters that all entries of a signature stand for; names in front of a slash are those
of positional-only parameters. -/
def read (items : List SignatureItem) : List ParamShape :=
  readFrom (if .slash ∈ items then .beforeSlash else .beforeStar) items

end ParamShape

namespace Signature

open ParamShape (readFrom)

/-- One parameter and its marks are read as the parameter. -/
theorem readFrom_itemsFrom_cons {zone : Zone} {p : Parameter}
    (inOrder : zone.kind.rank ≤ p.kind.rank)
    (plain : p.kind.isVariadic = true → p.default = none) (rest : List Parameter) :
    readFrom zone (itemsFrom zone.slashDue zone.starDue (p :: rest)) =
      p.shape :: readFrom (zone.after p.kind)
        (itemsFrom (zone.after p.kind).slashDue (zone.after p.kind).starDue rest) := by
  rcases p with ⟨name, kind, default, hint⟩
  dsimp only at inOrder plain
  -- Kinds that lie behind the zone cannot come any more; for all others both sides compute.
  cases zone <;> cases kind <;>
    simp_all [itemsFrom, readFrom, Zone.kind, Zone.slashDue, Zone.starDue, Zone.after,
      Parameter.shape, Parameter.hasDefault, ParamKind.rank, ParamKind.isVariadic]

theorem readFrom_itemsFrom (zone : Zone) {params : List Parameter}
    (inOrder : params.Pairwise fun p q => q.kind.mayFollow p.kind = true)
    (within : ∀ p ∈ params, zone.kind.rank ≤ p.kind.rank)
    (plain : ∀ p ∈ params, p.kind.isVariadic = true → p.default = none) :
    readFrom zone (itemsFrom zone.slashDue zone.starDue params) = params.map Parameter.shape := by
  induction params generalizing zone with
  | nil => cases zone <;> rfl
  | cons p rest ih =>
    obtain ⟨follow, inOrder⟩ := List.pairwise_cons.mp inOrder
    obtain ⟨here, _⟩ := List.forall_mem_cons.mp within
    obtain ⟨first, others⟩ := List.forall_mem_cons.mp plain
    have later : ∀ q ∈ rest, (zone.after p.kind).kind.rank ≤ q.kind.rank :=
      fun q member => Zone.rank_after (follow q member)
    rw [readFrom_itemsFrom_cons here first, ih _ inOrder later others, List.map_cons]

/-- A slash is written if one is due or some parameter is positional-only, and only then. -/
theorem slash_mem_itemsFrom {slashDue starDue : Bool} {params : List Parameter} :
    .slash ∈ itemsFrom slashDue starDue params ↔
      slashDue = true ∨ ∃ p ∈ params, p.kind = .positionalOnly := by
  induction params generalizing slashDue starDue with
  | nil => cases slashDue <;> simp [itemsFrom]
  | cons p rest ih =>
    rcases p with ⟨name, kind, default, hint⟩
    cases kind <;> cases slashDue <;> cases starDue <;> simp [itemsFrom, ih]

/-- Where some parameter is positional-only the first one is, so a slash is due from the start. -/
theorem itemsFrom_of_positionalOnly {params : List Parameter}
    (inOrder : params.Pairwise fun p q => q.kind.mayFollow p.kind = true) {p : Parameter}
    (member : p ∈ params) (isFirst : p.kind = .positionalOnly) (starDue : Bool) :
    itemsFrom false starDue params = itemsFrom true starDue params := by
  cases params with
  | nil => cases member
  | cons q rest =>
    have first : q.kind = .positionalOnly := by
      rcases List.mem_cons.mp member with rfl | later
      · exact isFirst
      · have follows := (List.pairwise_cons.mp inOrder).1 p later
        rw [isFirst] at follows
        revert follows
        cases q.kind <;> decide
    simp only [itemsFrom, first]

/-- The entries of a signature stand for its parameters. -/
theorem read_items (s : Signature) : ParamShape.read s.items = s.params.map Parameter.shape := by
  have inOrder := s.pairwise_kinds
  have plain (p : Parameter) (member : p ∈ s.params) := s.default_of_variadic member
  unfold ParamShape.read items
  simp only [slash_mem_itemsFrom, Bool.false_eq_true, false_or]
  split
  · next slashed =>
    obtain ⟨p, member, isFirst⟩ := slashed
    rw [itemsFrom_of_positionalOnly inOrder member isFirst]
    exact readFrom_itemsFrom .beforeSlash inOrder (fun _ _ => Nat.zero_le _) plain
  · next unslashed =>
    have within (p : Parameter) (member : p ∈ s.params) : 1 ≤ p.kind.rank := by
      have other : p.kind ≠ .positionalOnly := fun isFirst => unslashed ⟨p, member, isFirst⟩
      revert other
      cases p.kind <;> decide
    exact readFrom_itemsFrom .beforeStar inOrder within plain

end Signature

/-! ### From the text to entries -/

/-- The characters that part and mark the entries of a signature. -/
def marks : List Char :=
  [',', ' ', '=', '*', '/']

/-- The name can be told from the marks around it, as every identifier can: it is not empty and has
none of them. -/
structure IsUnmarked (name : String) : Prop where
  occupied : name.toList ≠ []
  free : ∀ c ∈ name.toList, c ∉ marks

instance (name : String) : Decidable (IsUnmarked name) :=
  haveI : Decidable (∀ c ∈ name.toList, c ∉ marks) :=
    List.decidableBAll (fun c => c ∉ marks) name.toList
  decidable_of_iff (name.toList ≠ [] ∧ ∀ c ∈ name.toList, c ∉ marks)
    ⟨fun both => ⟨both.1, both.2⟩, fun unmarked => ⟨unmarked.1, unmarked.2⟩⟩

namespace IsUnmarked

variable {name : String} (unmarked : IsUnmarked name)
include unmarked

theorem notMem (mark : Char) (isMark : mark ∈ marks) : mark ∉ name.toList :=
  fun member => unmarked.free mark member isMark

theorem cons : ∃ c cs, name.toList = c :: cs ∧ c ≠ '*' ∧ c ≠ '/' := by
  obtain ⟨c, cs, split⟩ := List.exists_cons_of_ne_nil unmarked.occupied
  have free := unmarked.free c (split ▸ List.mem_cons_self)
  simp only [marks, List.mem_cons, not_or] at free
  exact ⟨c, cs, split, free.2.2.2.1, free.2.2.2.2.1⟩

end IsUnmarked

/-- The text can stand between two commas: it is not empty, and nothing in it parts it. -/
structure IsEntry (text : String) : Prop where
  occupied : text.toList ≠ []
  noComma : ',' ∉ text.toList
  noBlank : ' ' ∉ text.toList

namespace SignatureItem

/-- The entry with the given text. -/
def read (cs : List Char) : SignatureItem :=
  if cs = ['/'] then slash
  else if cs = ['*'] then star
  else if cs.take 2 = ['*', '*'] then doubleStarred (String.ofList (cs.drop 2))
  else if cs.take 1 = ['*'] then starred (String.ofList (cs.drop 1))
  else if '=' ∈ cs then plain (String.ofList (cs.takeWhile (· != '='))) true
  else plain (String.ofList cs) false

/-- The name in the entry, if there is one, can be told from the marks. -/
def IsUnmarked : SignatureItem → Prop
  | slash | star => True
  | plain name _ | starred name | doubleStarred name => HintCheck.IsUnmarked name

theorem read_bare {c : Char} (notStar : c ≠ '*') (notSlash : c ≠ '/') (cs : List Char) :
    read (c :: cs) = if '=' ∈ c :: cs then
      plain (String.ofList ((c :: cs).takeWhile (· != '='))) true
    else plain (String.ofList (c :: cs)) false := by
  simp [read, notStar, notSlash]

theorem read_text {item : SignatureItem} (unmarked : item.IsUnmarked) :
    read item.text.toList = item := by
  cases item with
  | slash => rfl
  | star => rfl
  | plain name hasDefault =>
    obtain ⟨c, cs, split, notStar, notSlash⟩ := unmarked.cons
    cases hasDefault with
    | false =>
      rw [text, split, read_bare notStar notSlash, ← split,
        if_neg (unmarked.notMem '=' (by decide)), String.ofList_toList]
    | true =>
      have whole : (plain name true).text.toList =
          name.toList ++ '=' :: (defaultName name).toList := by
        simp [text]
      have ends : (name.toList ++ '=' :: (defaultName name).toList).takeWhile (· != '=') =
          name.toList := by
        rw [List.takeWhile_append_of_pos]
        · simp
        · intro d member
          exact bne_iff_ne.mpr fun same => unmarked.notMem '=' (by decide) (same ▸ member)
      rw [whole, split, List.cons_append, read_bare notStar notSlash, ← List.cons_append, ← split,
        if_pos (by simp), ends, String.ofList_toList]
  | starred name =>
    obtain ⟨c, cs, split, notStar, _⟩ := unmarked.cons
    have whole : (starred name).text.toList = '*' :: c :: cs := by simp [text, split]
    rw [whole, ← String.ofList_toList (s := name), split]
    simp [read, notStar]
  | doubleStarred name =>
    obtain ⟨c, cs, split, _⟩ := unmarked.cons
    have whole : (doubleStarred name).text.toList = '*' :: '*' :: c :: cs := by
      simp [text, split]
    rw [whole, ← String.ofList_toList (s := name), split]
    simp [read]

theorem isEntry_text {item : SignatureItem} (unmarked : item.IsUnmarked) : IsEntry item.text := by
  cases item with
  | slash => constructor <;> decide
  | star => constructor <;> decide
  | plain name hasDefault =>
    have noComma := unmarked.notMem ',' (by decide)
    have noBlank := unmarked.notMem ' ' (by decide)
    cases hasDefault <;> constructor <;>
      simp [text, defaultName, unmarked.occupied, noComma, noBlank]
  | starred name | doubleStarred name =>
    have noComma := unmarked.notMem ',' (by decide)
    have noBlank := unmarked.notMem ' ' (by decide)
    constructor <;> simp [text, noComma, noBlank]

end SignatureItem

namespace Signature

/-- The texts between commas, without blanks; none of them is empty. -/
def entries (cs : List Char) : List (List Char) :=
  ((cs.filter (· != ' ')).splitOn ',').filter (!·.isEmpty)

theorem filter_intercalate {texts : List String} (each : ∀ text ∈ texts, IsEntry text) :
    (", ".intercalate texts).toList.filter (· != ' ') =
      [','].intercalate (texts.map String.toList) := by
  have whole {text : String} (entry : IsEntry text) :
      text.toList.filter (· != ' ') = text.toList :=
    List.filter_eq_self.mpr fun c member => bne_iff_ne.mpr fun same => entry.noBlank (same ▸ member)
  induction texts with
  | nil => rfl
  | cons text rest ih =>
    obtain ⟨first, others⟩ := List.forall_mem_cons.mp each
    cases rest with
    | nil => simpa using whole first
    | cons next rest =>
      rw [String.intercalate_cons_cons, String.toList_append, String.toList_append,
        List.filter_append, List.filter_append, whole first, ih others]
      simp [List.intercalate_cons_cons]

theorem entries_intercalate {texts : List String} (each : ∀ text ∈ texts, IsEntry text) :
    entries (", ".intercalate texts).toList = texts.map String.toList := by
  rw [entries, filter_intercalate each]
  cases texts with
  | nil => rfl
  | cons text rest =>
    have noCommas : ∀ cs ∈ (text :: rest).map String.toList, ',' ∉ cs :=
      List.forall_mem_map.mpr fun text member => (each text member).noComma
    have occupied : ∀ cs ∈ (text :: rest).map String.toList, (!cs.isEmpty) = true :=
      List.forall_mem_map.mpr fun text member => by simpa using (each text member).occupied
    rw [List.splitOn_intercalate ',' noCommas (by simp), List.filter_eq_self.mpr occupied]

theorem forall_mem_itemsFrom {P : SignatureItem → Prop} {params : List Parameter} (slash : P .slash)
    (star : P .star) (each : ∀ p ∈ params,
      P (.plain p.name p.hasDefault) ∧ P (.starred p.name) ∧ P (.doubleStarred p.name))
    (slashDue starDue : Bool) : ∀ item ∈ itemsFrom slashDue starDue params, P item := by
  have whenDue (due : Bool) {item : SignatureItem} (holds : P item) :
      ∀ x ∈ if due then [item] else [], P x := by
    cases due with
    | true => exact List.forall_mem_singleton.mpr holds
    | false => exact nofun
  induction params generalizing slashDue starDue with
  | nil => exact whenDue slashDue slash
  | cons p rest ih =>
    obtain ⟨⟨shown, starred, doubleStarred⟩, others⟩ := List.forall_mem_cons.mp each
    have behind := ih others
    rw [itemsFrom]
    cases p.kind <;> simp only [List.forall_mem_append, List.forall_mem_cons]
    case positionalOnly => exact ⟨shown, behind true starDue⟩
    case positionalOrKeyword => exact ⟨whenDue _ slash, shown, behind false starDue⟩
    case varPositional => exact ⟨whenDue _ slash, starred, behind false false⟩
    case keywordOnly =>
      exact ⟨⟨whenDue _ slash, whenDue starDue star⟩, shown, behind false false⟩
    case varKeyword => exact ⟨whenDue _ slash, doubleStarred, behind false starDue⟩

/-- The parameters that a text stands for. -/
def read (text : String) : List ParamShape :=
  ParamShape.read ((entries text.toList).map SignatureItem.read)

theorem read_text {s : Signature} (unmarked : ∀ p ∈ s.params, IsUnmarked p.name) :
    read s.text = s.params.map Parameter.shape := by
  have each : ∀ item ∈ s.items, item.IsUnmarked :=
    forall_mem_itemsFrom trivial trivial
      (fun p member => ⟨unmarked p member, unmarked p member, unmarked p member⟩) false true
  have isEntry : ∀ text ∈ s.items.map SignatureItem.text, IsEntry text :=
    List.forall_mem_map.mpr fun item member => SignatureItem.isEntry_text (each item member)
  have items : (entries s.text.toList).map SignatureItem.read = s.items := by
    rw [text, entries_intercalate isEntry, List.map_map, List.map_map]
    exact (List.map_congr_left fun item member => SignatureItem.read_text (each item member)).trans
      (List.map_id s.items)
  rw [read, items, read_items]

theorem itemsFrom_congr {params others : List Parameter}
    (same : params.map Parameter.shape = others.map Parameter.shape) (slashDue starDue : Bool) :
    itemsFrom slashDue starDue params = itemsFrom slashDue starDue others := by
  induction params generalizing others slashDue starDue with
  | nil =>
    cases others with
    | nil => rfl
    | cons q others => cases same
  | cons p rest ih =>
    cases others with
    | nil => cases same
    | cons q others =>
      obtain ⟨first, later⟩ := List.cons.inj same
      obtain ⟨name, kind, hasDefault⟩ := ParamShape.mk.inj first
      simp only [itemsFrom, name, kind, hasDefault, ih later]

/-- Signatures have the same text exactly if their parameters, in order, have the same names and
kinds and defaults at the same places. -/
theorem text_determines {s t : Signature} (unmarked : ∀ p ∈ s.params, IsUnmarked p.name)
    (unmarkedToo : ∀ p ∈ t.params, IsUnmarked p.name) :
    s.text = t.text ↔ s.params.map Parameter.shape = t.params.map Parameter.shape := by
  constructor
  · intro same
    rw [← read_text unmarked, ← read_text unmarkedToo, same]
  · intro same
    have items : s.items = t.items := itemsFrom_congr same false true
    rw [text, text, items]

/-- The values of defaults and the annotations are not in the text. -/
theorem text_determines_mixed :
    let s : Signature := ⟨[⟨"a", .positionalOnly, none, none⟩,
      ⟨"b", .positionalOrKeyword, some (.bool true), none⟩, ⟨"c", .keywordOnly, some .none, none⟩,
      ⟨"kw", .varKeyword, none, none⟩], by decide⟩
    let t : Signature := ⟨[⟨"a", .positionalOnly, none, some Builtin.int⟩,
      ⟨"b", .positionalOrKeyword, some (.str "x"), none⟩, ⟨"c", .keywordOnly, some (.int 3), none⟩,
      ⟨"kw", .varKeyword, none, none⟩], by decide⟩
    (∀ p ∈ s.params, IsUnmarked p.name) ∧ (∀ p ∈ t.params, IsUnmarked p.name) ∧
      s.text = "a, /, b=__hg_default_b, *, c=__hg_default_c, **kw" ∧ s.text = t.text ∧
      s.params.map Parameter.shape = t.params.map Parameter.shape := by
  intro s t
  have unmarked : ∀ p ∈ s.params, IsUnmarked p.name := by decide
  have unmarkedToo : ∀ p ∈ t.params, IsUnmarked p.name := by decide
  have same : s.text = t.text := rfl
  exact ⟨unmarked, unmarkedToo, by decide +kernel, same,
    (text_determines unmarked unmarkedToo).mp same⟩

end Signature
end HintCheck
