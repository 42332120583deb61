import HintCheck.Proofs.Classification
import HintCheck.Proofs.Hereditary
import Mathlib.Data.List.Nodup

/-!
Texts and spellings. A sign is looked up by the part of a text before its first bracket, and
everything that stands in the place of a hint has a text. Forms and the classes that superseded them
are told apart by their names, so a form has its own sign or none. The spellings of the tables are
made of letters, dots and underscores, so the texts of values, validators and parameter lists have
no sign, unless the name of a class is mistaken for a spelling.
-/
namespace HintCheck

/-! ### Names -/

theorem Builtin.isWord_name (b : Builtin) :
    ∀ c ∈ b.name.toList, (c.isAlpha || c == '_') = true := by
  have letters : (b.name.toList.all fun c => c.isAlpha || c == '_') = true := by
    cases b <;> decide
  exact List.all_eq_true.mp letters

theorem Builtin.isDotted_home (b : Builtin) :
    ∀ c ∈ b.home.toList, (c.isAlpha || c == '.') = true := by
  have letters : (b.home.toList.all fun c => c.isAlpha || c == '.') = true := by
    cases b <;> decide
  exact List.all_eq_true.mp letters

/-- The classes that live in a module of forms. -/
theorem Builtin.home_form {b : Builtin} {m : FormModule} (same : b.home = m.name) :
    b = .generic ∨ b = .protocol := by
  cases b <;> first
    | exact .inl rfl
    | exact .inr rfl
    | cases m <;> exact absurd same (by decide)

theorem Builtin.text_cases (b : Builtin) :
    b.toClass.text = b.name ∨ b.toClass.text = b.home ++ "." ++ b.name := by
  unfold Class.text
  split
  · exact .inl rfl
  · exact .inr rfl

theorem Builtin.mem_all (b : Builtin) : b ∈ Builtin.all := by
  cases b <;> decide

theorem Builtin.text_injective {a b : Builtin} (same : a.toClass.text = b.toClass.text) :
    a = b := by
  have nodup : (Builtin.all.map fun b => b.toClass.text).Nodup := by decide +kernel
  exact List.inj_on_of_nodup_map nodup a.mem_all b.mem_all same

/-! ### Spellings -/

namespace Spelling

/-- The text, up to the first bracket, is a spelling that has a sign. -/
def isRegistered (text : String) : Bool :=
  (subscribedSign? (stem text)).isSome

/-- The characters that spellings are made of. -/
def isLetter (c : Char) : Bool :=
  c.isAlpha || c == '.' || c == '_'

theorem mem_of_lookup {α β : Type} [BEq α] [LawfulBEq α] {key : α} {value : β}
    {entries : List (α × β)} (found : entries.lookup key = some value) :
    (key, value) ∈ entries := by
  obtain ⟨before, after, rfl, _⟩ := List.lookup_eq_some_iff.mp found
  simp

/-- The spelling is that of a form, at home in its module, with its sign. -/
def IsForm (forms : List Form) (spelling : String) (sign : Sign) : Prop :=
  ∃ f ∈ forms, f.sign? = some sign ∧ ∃ m ∈ modulesOf f, spelling = SpecialForm.text ⟨m, f⟩

theorem isForm_of_mem_table {forms : List Form} {spelling : String} {sign : Sign}
    (member : (spelling, sign) ∈ table forms) : IsForm forms spelling sign := by
  obtain ⟨f, inForms, inSpellings⟩ := List.mem_flatMap.mp member
  split at inSpellings
  next signOf =>
    obtain ⟨_, isSpelling, same⟩ := List.mem_map.mp inSpellings
    cases same
    obtain ⟨m, home, rfl⟩ := List.mem_map.mp isSpelling
    exact ⟨f, inForms, signOf, m, home, rfl⟩
  next => cases inSpellings

/-- The spellings that have a sign are those of forms and of the classes that superseded some. -/
theorem cases_of_subscribedSign? {spelling : String} {sign : Sign}
    (known : subscribedSign? spelling = some sign) :
    IsForm (Form.all.filter fun f => !needsSubscription f) spelling sign ∨
      IsForm (Form.all.filter needsSubscription) spelling sign ∨
      ∃ b, (b, sign) ∈ superseding ∧ spelling = b.toClass.text := by
  unfold subscribedSign? at known
  rcases Option.or_eq_some_iff.mp known with found | ⟨_, found⟩
  · exact .inl (isForm_of_mem_table (mem_of_lookup found))
  · rcases List.mem_append.mp (mem_of_lookup found) with inTable | isClass
    · exact .inr (.inl (isForm_of_mem_table inTable))
    · obtain ⟨⟨b, _⟩, member, same⟩ := List.mem_map.mp isClass
      cases same
      exact .inr (.inr ⟨b, member, rfl⟩)

theorem signs_superseding : ∀ entry ∈ superseding,
    (entry.1 ≠ .generic ∧ entry.1 ≠ .protocol) ∧
      entry.2 ≠ .optional ∧ entry.2 ≠ .annotated ∧ entry.2 ≠ .forwardRef := by
  decide +kernel

/-- A class spelled like a form is one of the two that forms are bases with. -/
theorem form_of_class {b : Builtin} {f : SpecialForm} (same : f.text = b.toClass.text) :
    b = .generic ∧ f.form = .generic ∨ b = .protocol ∧ f.form = .protocol := by
  rcases b.text_cases with plain | dotted
  · have dot : '.' ∈ b.name.toList := by
      rw [← plain, ← same]
      simp [SpecialForm.text, String.toList_append]
    exact absurd (b.isWord_name _ dot) (by decide)
  · obtain ⟨home, name⟩ := SpecialForm.parts_of_text (same.trans dotted)
    rcases Builtin.home_form home.symm with rfl | rfl
    · exact .inl ⟨rfl, Form.name_injective name⟩
    · exact .inr ⟨rfl, Form.name_injective name⟩

/-- A form has the sign of its spelling only where it is at home. -/
theorem sign_of_form {f : SpecialForm} {sign : Sign} (known : subscribedSign? f.text = some sign) :
    f.form.sign? = some sign ∧ f.module ∈ modulesOf f.form := by
  have ofForm {forms : List Form} (isForm : IsForm forms f.text sign) :
      f.form.sign? = some sign ∧ f.module ∈ modulesOf f.form := by
    obtain ⟨g, _, signOf, m, home, same⟩ := isForm
    obtain ⟨modules, names⟩ := SpecialForm.parts_of_text same
    rw [FormModule.name_injective modules, Form.name_injective names]
    exact ⟨signOf, home⟩
  rcases cases_of_subscribedSign? known with isForm | isForm | ⟨b, member, same⟩
  · exact ofForm isForm
  · exact ofForm isForm
  · have other := signs_superseding _ member
    rcases form_of_class same with ⟨rfl, _⟩ | ⟨rfl, _⟩
    · exact absurd rfl other.1.1
    · exact absurd rfl other.1.2

/-- The subscriptions of a builtin class have the sign of the form that it superseded. -/
theorem sign_of_class {b : Builtin} {sign : Sign}
    (known : subscribedSign? b.toClass.text = some sign) :
    (b, sign) ∈ superseding ∨ sign = .generic ∨ sign = .protocol := by
  have ofForm {forms : List Form} (isForm : IsForm forms b.toClass.text sign) :
      sign = .generic ∨ sign = .protocol := by
    obtain ⟨f, _, signOf, m, _, same⟩ := isForm
    rcases form_of_class same.symm with ⟨_, rfl⟩ | ⟨_, rfl⟩ <;> cases signOf
    · exact .inl rfl
    · exact .inr rfl
  rcases cases_of_subscribedSign? known with isForm | isForm | ⟨other, member, same⟩
  · exact .inr (ofForm isForm)
  · exact .inr (ofForm isForm)
  · exact .inl (Builtin.text_injective same ▸ member)

theorem isLetter_form (f : SpecialForm) : ∀ c ∈ f.text.toList, isLetter c = true := by
  intro c member
  simp only [SpecialForm.text, String.toList_append, List.mem_append] at member
  rcases member with (inModule | dot) | inName
  · have plain := f.module.isWord_name c inModule
    simp only [isLetter, Bool.or_eq_true] at plain ⊢
    exact plain.imp_left .inl
  · rw [List.mem_singleton.mp dot]
    rfl
  · simp [isLetter, f.form.isAlpha_name c inName]

theorem isLetter_class (b : Builtin) : ∀ c ∈ b.toClass.text.toList, isLetter c = true := by
  have inName (c : Char) (member : c ∈ b.name.toList) : isLetter c = true := by
    have plain := b.isWord_name c member
    simp only [isLetter, Bool.or_eq_true] at plain ⊢
    exact plain.imp_left .inl
  intro c member
  rcases b.text_cases with same | same <;> rw [same] at member
  · exact inName c member
  · simp only [String.toList_append, List.mem_append] at member
    rcases member with (inHome | dot) | member
    · simp only [isLetter, b.isDotted_home c inHome, Bool.true_or]
    · rw [List.mem_singleton.mp dot]
      rfl
    · exact inName c member

theorem noBracket_class (b : Builtin) : '[' ∉ b.toClass.text.toList :=
  fun member => absurd (isLetter_class b _ member) (by decide)

theorem letters_of_isRegistered {text : String} (registered : isRegistered text = true) :
    ∀ c ∈ text.toList.takeWhile (· != '['), isLetter c = true := by
  obtain ⟨sign, known⟩ := Option.isSome_iff_exists.mp registered
  have letters : ∀ c ∈ (stem text).toList, isLetter c = true := by
    rcases cases_of_subscribedSign? known with ⟨f, _, _, m, _, same⟩ | ⟨f, _, _, m, _, same⟩ |
      ⟨b, _, same⟩
    · exact same ▸ isLetter_form ⟨m, f⟩
    · exact same ▸ isLetter_form ⟨m, f⟩
    · exact same ▸ isLetter_class b
  rwa [stem, String.toList_ofList] at letters

/-- A text with a strange character before its first bracket has no sign. -/
theorem unregistered_of_strange {text : String} {before after : List Char} {c : Char}
    (split : text.toList = before ++ c :: after) (closed : '[' ∉ before) (ordinary : c ≠ '[')
    (strange : isLetter c = false) : isRegistered text = false := by
  by_contra registered
  rw [Bool.not_eq_false] at registered
  have inStem : c ∈ text.toList.takeWhile (· != '[') := by
    have letters : ∀ d ∈ before, (d != '[') = true :=
      fun d member => bne_iff_ne.mpr (ne_of_mem_of_not_mem member closed)
    rw [split, List.takeWhile_append_of_pos letters]
    simp [ordinary]
  rw [letters_of_isRegistered registered c inStem] at strange
  cases strange

theorem unregistered_append {text : String} (rest : String) (closed : '[' ∉ text.toList)
    (strange : text.toList.any (fun c => !isLetter c) = true) :
    isRegistered (text ++ rest) = false := by
  obtain ⟨c, member, notLetter⟩ := List.any_eq_true.mp strange
  obtain ⟨before, after, split⟩ := List.append_of_mem member
  have whole : (text ++ rest).toList = before ++ c :: (after ++ rest.toList) := by
    rw [String.toList_append, split, List.append_assoc, List.cons_append]
  refine unregistered_of_strange whole ?_ ?_ (by simpa using notLetter)
  · exact fun inside => closed (split ▸ List.mem_append_left _ inside)
  · rintro rfl
    exact closed member

theorem sign?_of_unregistered {text : String} (unregistered : isRegistered text = false) :
    sign? text = none := by
  simp only [isRegistered, Option.isSome_eq_false_iff, Option.isNone_iff_eq_none, subscribedSign?,
    Option.or_eq_none_iff] at unregistered
  unfold sign?
  simp [unregistered.1, unregistered.2]

/-- The words that values and conditions are shown with. -/
def shownWords : List String :=
  ["Ellipsis", "...", "None", "True", "False", "nan", "inf", "-inf", "nanj", "infj", "-infj", "[",
    "set()", "frozenset()", "deque([", "<iterator object>", "object", "Is[", "IsAttr['", "IsEqual[",
    "IsInstance[", "IsSubclass["]

theorem unregistered_word (text : String) (isWord : text ∈ shownWords) :
    isRegistered text = false := by
  have table : ∀ text ∈ shownWords, isRegistered text = false := by decide +kernel
  exact table text isWord

theorem unregistered_of_bracket {text : String} (bracket : '[' ∈ text.toList)
    (unregistered : isRegistered text = false) (rest : String) :
    isRegistered (text ++ rest) = false := by
  rwa [isRegistered, stem_of_bracket bracket]

end Spelling

/-! ### Numbers -/

theorem notLetter_of_isDigit {c : Char} (digit : c.isDigit = true) :
    Spelling.isLetter c = false := by
  rw [← Bool.not_eq_true]
  intro isLetter
  have letter : (decide (c.val ≥ 'A'.val ∧ c.val ≤ 'Z'.val) ||
      (decide (c.val ≥ 'a'.val) && decide (c.val ≤ 'z'.val)) || c == '.' || c == '_') = true :=
    isLetter
  simp only [Char.isDigit, Bool.and_eq_true, decide_eq_true_eq, ge_iff_le,
    UInt32.le_iff_toNat_le] at digit
  simp only [Bool.or_eq_true, Bool.and_eq_true, decide_eq_true_eq, beq_iff_eq, ge_iff_le,
    UInt32.le_iff_toNat_le] at letter
  rcases letter with ((upper | lower) | rfl) | rfl
  · exact absurd (upper.1.trans digit.2) (by decide)
  · exact absurd (lower.1.trans digit.2) (by decide)
  · exact absurd digit (by decide)
  · exact absurd digit (by decide)

/-- The text starts like a number. -/
def StartsNumber (text : String) : Prop :=
  ∃ c after, text.toList = c :: after ∧ (c.isDigit = true ∨ c = '-')

namespace StartsNumber

theorem unregistered {text : String} (starts : StartsNumber text) (rest : String) :
    Spelling.isRegistered (text ++ rest) = false := by
  obtain ⟨c, after, split, kind⟩ := starts
  have whole : (text ++ rest).toList = [] ++ c :: (after ++ rest.toList) := by
    rw [String.toList_append, split]
    rfl
  refine Spelling.unregistered_of_strange whole List.not_mem_nil ?_ ?_
  · rcases kind with digit | rfl
    · rintro rfl
      cases digit
    · decide
  · rcases kind with digit | rfl
    · exact notLetter_of_isDigit digit
    · decide

theorem ofDigits {digits : List Char} (occupied : digits ≠ [])
    (each : ∀ c ∈ digits, c.isDigit = true) (rest : List Char) :
    StartsNumber (String.ofList (digits ++ rest)) := by
  obtain ⟨c, after, rfl⟩ := List.exists_cons_of_ne_nil occupied
  exact ⟨c, after ++ rest, String.toList_ofList, .inl (each c List.mem_cons_self)⟩

theorem negative (text : String) : StartsNumber ("-" ++ text) :=
  ⟨'-', text.toList, by rw [String.toList_append]; rfl, .inr rfl⟩

theorem isDigit_toDigits (n : Nat) : ∀ c ∈ Nat.toDigits 10 n, c.isDigit = true :=
  fun _ member => Nat.isDigit_of_mem_toDigits (by decide) (by decide) member

theorem nat (n : Nat) : StartsNumber (toString n) := by
  have shown : toString n = String.ofList (Nat.toDigits 10 n ++ []) := by
    rw [List.append_nil, ← String.toList_inj, String.toList_ofList]
    exact Nat.toList_repr
  exact shown ▸ ofDigits Nat.toDigits_ne_nil (isDigit_toDigits n) []

theorem int (i : Int) : StartsNumber (toString i) := by
  cases i with
  | ofNat n => exact nat n
  | negSucc n => exact negative (toString (n + 1))

theorem decimal (d : Double.Decimal) : StartsNumber d.text := by
  unfold Double.Decimal.text
  dsimp only
  generalize isDigits : Nat.toDigits 10 (d.digits * Nat.pow 10 d.exponent) = digits
  have padded : ∀ c ∈ List.replicate (342 - digits.length) '0' ++ digits, c.isDigit = true := by
    intro c member
    rcases List.mem_append.mp member with zero | digit
    · rw [(List.mem_replicate.mp zero).2]
      rfl
    · exact isDigit_toDigits _ c (isDigits ▸ digit)
  have long : 342 ≤ (List.replicate (342 - digits.length) '0' ++ digits).length := by
    rw [List.length_append, List.length_replicate]
    omega
  generalize List.replicate (342 - digits.length) '0' ++ digits = written at padded long
  have occupied : written.take (written.length - 341) ≠ [] := by
    rw [ne_eq, List.take_eq_nil_iff, not_or]
    exact ⟨by omega, List.ne_nil_of_length_pos (by omega)⟩
  have each : ∀ c ∈ written.take (written.length - 341), c.isDigit = true :=
    fun c member => padded c (List.mem_of_mem_take member)
  split
  · exact List.append_nil (written.take _) ▸ ofDigits occupied each []
  · exact ofDigits occupied each _

theorem finite (x : Double) : StartsNumber x.finiteText := by
  unfold Double.finiteText
  split
  · exact negative _
  · rw [String.empty_append]
    split
    · exact ⟨'0', [], rfl, .inl rfl⟩
    · exact decimal _

end StartsNumber

theorem unregistered_float (x : Double) : Spelling.isRegistered x.text = false := by
  have finite := StartsNumber.finite x
  unfold Double.text
  dsimp only
  split
  · exact Spelling.unregistered_word "nan" (by decide)
  split
  · split <;> exact Spelling.unregistered_word _ (by decide)
  split
  · simpa using finite.unregistered ""
  · exact finite.unregistered ".0"

theorem unregistered_complex (re im : Double) :
    Spelling.isRegistered (Value.complexText re im) = false := by
  unfold Value.complexText
  split
  · unfold Double.partText
    split
    · exact Spelling.unregistered_word "nanj" (by decide)
    split
    · split <;> exact Spelling.unregistered_word _ (by decide)
    · exact (StartsNumber.finite im).unregistered "j"
  · simp only [String.append_assoc]
    exact Spelling.unregistered_append _ (by decide) (by decide)

/-! ### Classes and values -/

/-- The name of a class is not mistaken for a spelling where it is shown in front of a bracket. -/
def Class.IsUnmistakable (k : Class) : Prop :=
  '[' ∈ k.qualname.toList → Spelling.isRegistered k.qualname = false

/-- How an instance is shown has no sign. -/
theorem Class.IsUnmistakable.instanceText {k : Class} (unmistakable : k.IsUnmistakable)
    (payload : Option String) : Spelling.isRegistered (Value.instanceText k payload) = false := by
  cases payload with
  | none =>
    rw [Value.instanceText, String.append_assoc, String.append_assoc, String.append_assoc]
    exact Spelling.unregistered_append _ (by decide) (by decide)
  | some payload =>
    rw [Value.instanceText, String.append_assoc, String.append_assoc]
    by_cases bracket : '[' ∈ k.qualname.toList
    · exact Spelling.unregistered_of_bracket bracket (unmistakable bracket) _
    · rw [← String.append_assoc]
      refine Spelling.unregistered_append _ ?_ ?_
      · simp [String.toList_append, bracket]
      · simp [String.toList_append, Spelling.isLetter]

theorem notLetter_quoteFor (cs : List Char) :
    Quoted.quoteFor cs ≠ '[' ∧ Spelling.isLetter (Quoted.quoteFor cs) = false := by
  unfold Quoted.quoteFor
  split <;> decide

theorem unregistered_quoted (text : String) :
    Spelling.isRegistered (Quoted.ofString text) = false := by
  have split : (Quoted.ofString text).toList = [] ++ Quoted.encode text.toList :=
    String.toList_ofList
  exact Spelling.unregistered_of_strange split List.not_mem_nil
    (notLetter_quoteFor text.toList).1 (notLetter_quoteFor text.toList).2

theorem unregistered_bytes (bytes : List UInt8) :
    Spelling.isRegistered (Quoted.ofBytes bytes) = false := by
  have quote := notLetter_quoteFor (bytes.map fun b => Char.ofNat b.toNat)
  have split : (Quoted.ofBytes bytes).toList = ['b'] ++ _ := String.toList_ofList
  exact Spelling.unregistered_of_strange split (by decide) quote.1 quote.2

theorem unregistered_between (opening middle closing : String) (closed : '[' ∉ opening.toList)
    (strange : opening.toList.any (fun c => !Spelling.isLetter c) = true) :
    Spelling.isRegistered (opening ++ middle ++ closing) = false := by
  rw [String.append_assoc]
  exact Spelling.unregistered_append _ closed strange

theorem unregistered_behind (opening middle closing : String) (bracket : '[' ∈ opening.toList)
    (isWord : opening ∈ Spelling.shownWords) :
    Spelling.isRegistered (opening ++ middle ++ closing) = false := by
  rw [String.append_assoc]
  exact Spelling.unregistered_of_bracket bracket (Spelling.unregistered_word opening isWord) _

theorem Class.IsUnmistakable.objectText {k : Class} (unmistakable : k.IsUnmistakable)
    (name : Option Value) (value payload : Option String) :
    Spelling.isRegistered (Value.objectText k name value payload) = false := by
  unfold Value.objectText
  split
  · split
    · simp only [String.append_assoc]
      exact Spelling.unregistered_append _ (by decide) (by decide)
    · exact unmistakable.instanceText payload
  · exact unmistakable.instanceText payload

theorem unregistered_tuple (texts : List String) :
    Spelling.isRegistered (Value.tupleText texts) = false := by
  unfold Value.tupleText
  split <;> exact unregistered_between "(" _ _ (by decide) (by decide)

theorem unregistered_set (texts : List String) :
    Spelling.isRegistered (Value.setText texts) = false ∧
      Spelling.isRegistered (Value.frozensetText texts) = false := by
  cases texts with
  | nil =>
    exact ⟨Spelling.unregistered_word "set()" (by decide),
      Spelling.unregistered_word "frozenset()" (by decide)⟩
  | cons =>
    exact ⟨unregistered_between "\x7b" _ _ (by decide) (by decide),
      unregistered_between "frozenset(\x7b" _ _ (by decide) (by decide)⟩

/-- An instance is of a class whose name is not mistaken for a spelling. -/
def Value.IsUnmistakable (cat : Catalog) : Value → Prop
  | inst _ c _ _ => (cat.get c).IsUnmistakable
  | _ => True

/-- How a value is shown has no sign. -/
theorem Value.IsUnmistakable.unregistered {cat : Catalog} {v : Value}
    (unmistakable : v.IsUnmistakable cat) : Spelling.isRegistered (v.text cat) = false := by
  cases v with
  | ellipsis => exact Spelling.unregistered_word "Ellipsis" (by decide)
  | none => exact Spelling.unregistered_word "None" (by decide)
  | bool b =>
    cases b with
    | true => exact Spelling.unregistered_word "True" (by decide)
    | false => exact Spelling.unregistered_word "False" (by decide)
  | int i =>
    have unregistered := (StartsNumber.int i).unregistered ""
    rw [String.append_empty] at unregistered
    exact unregistered
  | float x => exact unregistered_float x
  | complex re im => exact unregistered_complex re im
  | str s => exact unregistered_quoted s
  | bytes bs => exact unregistered_bytes bs
  | list items => exact unregistered_behind "[" _ "]" (by decide) (by decide)
  | tuple items => exact unregistered_tuple (Value.texts cat items)
  | dict pairs => exact unregistered_between "\x7b" _ "\x7d" (by decide) (by decide)
  | set items => exact (unregistered_set (Value.texts cat items)).1
  | frozenset items => exact (unregistered_set (Value.texts cat items)).2
  | deque items => exact unregistered_behind "deque([" _ "])" (by decide) (by decide)
  | type c => exact unregistered_between "<class '" _ "'>" (by decide) (by decide)
  | inst _ c attrs payload => exact Class.IsUnmistakable.objectText unmistakable _ _ _
  | function f => exact unregistered_between "<function " _ ">" (by decide) (by decide)
  | method name => exact unregistered_between "<built-in method " _ ">" (by decide) (by decide)
  | iterator => exact Spelling.unregistered_word "<iterator object>" (by decide)
  | module name => exact unregistered_between "<module '" _ "'>" (by decide) (by decide)

theorem unregistered_rule (cat : Catalog) (rule : Rule) :
    Spelling.isRegistered (rule.text cat) = false := by
  cases rule with
  | test shown _ => exact unregistered_behind "Is[" _ "]" (by decide) (by decide)
  | attr name rule =>
    simp only [Rule.text, String.append_assoc]
    exact Spelling.unregistered_of_bracket (by decide)
      (Spelling.unregistered_word "IsAttr['" (by decide)) _
  | equal v => exact unregistered_behind "IsEqual[" _ "]" (by decide) (by decide)
  | instanceOf classes =>
    exact unregistered_behind "IsInstance[" _ "]" (by decide) (by decide)
  | subclassOf classes =>
    exact unregistered_behind "IsSubclass[" _ "]" (by decide) (by decide)
  | both a b | either a b =>
    simp only [Rule.text, String.append_assoc]
    exact Spelling.unregistered_append _ (by decide) (by decide)
  | negation a => exact Spelling.unregistered_append _ (by decide) (by decide)

namespace Hint

/-- No class is mistaken for a spelling: not the class that the hint subscribes, and not that of an
instance in the place of the hint. -/
def IsUnmistakable (cat : Catalog) : Hint → Prop
  | subscription _ (.cls (.user n)) _ => Spelling.isRegistered (cat.get (.user n)).text = false
  | value _ v => v.IsUnmistakable cat
  | _ => True

variable {cat : Catalog}

theorem sign_of_class {c : ClassId} {sign : Sign} (spelled : (cls c).sign? cat = some sign) :
    sign = .ignorable ∨ sign = .typedDict ∨ sign = .generic ∨ sign = .isinstanceable := by
  simp only [sign?, kindSign?, Option.some_or, Option.some.injEq] at spelled
  subst spelled
  split
  · simp
  split
  · simp
  split <;> simp

theorem sign?_of_object {h : Hint} (unmistakable : h.IsUnmistakable cat)
    (improper : h.isProper = false) (notExtension : ∀ label shown, h ≠ extension label shown) :
    h.sign? cat = Option.none := by
  have unregistered : Spelling.isRegistered (h.text cat) = false := by
    cases h with
    | value label v =>
      cases v with
      | ellipsis => exact Spelling.unregistered_word "..." (by decide)
      | _ => exact Value.IsUnmistakable.unregistered unmistakable
    | validator label v => exact unregistered_rule cat v.rule
    | params label hints => exact unregistered_behind "[" _ "]" (by decide) (by decide)
    | extension label shown => exact absurd rfl (notExtension label shown)
    | _ => cases improper
  rw [sign?, Spelling.sign?_of_unregistered unregistered]
  cases h <;> first | rfl | cases improper

/-- Where no class defined is mistaken for a spelling, none is. -/
theorem isUnmistakable_of_defined (each : ∀ k ∈ cat.defined,
    Spelling.isRegistered k.text = false ∧ k.IsUnmistakable) (h : Hint) : h.IsUnmistakable cat := by
  have builtin (b : Builtin) : b.toClass.IsUnmistakable :=
    fun bracket => absurd (b.isWord_name _ bracket) (by decide)
  have user (n : Nat) : Spelling.isRegistered (cat.get (.user n)).text = false ∧
      (cat.get (.user n)).IsUnmistakable := by
    simp only [Catalog.get]
    cases found : cat.defined[n]? with
    | none => exact ⟨Spelling.unregistered_word "object" (by decide), builtin .object⟩
    | some k => exact each k (Array.mem_of_getElem? found)
  cases h with
  | subscription label origin args =>
    cases origin with
    | form => exact trivial
    | cls c =>
      cases c with
      | builtin => exact trivial
      | user n => exact (user n).1
  | value label v =>
    cases v with
    | inst _ c =>
      cases c with
      | builtin b => exact builtin b
      | user n => exact (user n).2
    | _ => exact trivial
  | _ => exact trivial

theorem Made.isUnmistakable {h : Hint} (made : h.Made) : h.IsUnmistakable cat := by
  cases made <;> exact trivial

end Hint
end HintCheck
