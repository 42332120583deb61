import HintCheck.Proofs.Balancing
import HintCheck.Value.Text

/-!
Literals. A literal is read from its opening quote to the next quote of the same kind that no
backslash takes away; inside, a backslash goes with a quote, another backslash, a letter for a line
break or a tab, or with `x` and two hexadecimal digits. What values write as their text or bytes is
read back as it was, whatever stands behind it, and the search for brackets that do not nest passes
over it.
-/
namespace HintCheck

namespace Quoted

/-! ### Reading -/

/-- The number that a hexadecimal digit stands for. -/
def hexDigit? (c : Char) : Option Nat :=
  if '0' ≤ c ∧ c ≤ '9' then some (c.toNat - 0x30)
  else if 'a' ≤ c ∧ c ≤ 'f' then some (c.toNat - 0x57)
  else if 'A' ≤ c ∧ c ≤ 'F' then some (c.toNat - 0x37)
  else none

/-- The number that two hexadecimal digits stand for. -/
def hexCode? (high low : Char) : Option Nat :=
  (hexDigit? high).bind fun h => (hexDigit? low).map fun l => 16 * h + l

/-- The character that stands for another one behind a backslash. -/
def escaped? (c : Char) : Option Char :=
  if c = backslash ∨ c = singleQuote ∨ c = doubleQuote then some c
  else if c = 'n' then some '\n'
  else if c = 'r' then some '\r'
  else if c = 't' then some '\t'
  else none

/-- What a literal is a sequence of. -/
structure Script (α : Type) where
  /-- What a character stands for by itself, if it may stand there. -/
  bare? : Char → Option α
  /-- What an escape for the given code stands for. -/
  coded : Nat → α

/-- A text: any character but a line break may stand for itself. -/
def Script.text : Script Char where
  bare? c := if c = '\n' ∨ c = '\r' then none else some c
  coded := Char.ofNat

/-- Bytes: a character has to be one byte long, too. -/
def Script.bytes : Script UInt8 where
  bare? c := if c = '\n' ∨ c = '\r' ∨ 0x80 ≤ c.toNat then none else some (UInt8.ofNat c.toNat)
  coded := UInt8.ofNat

section Reading
variable {α : Type}

/-- An item in front of what was read behind it. -/
def ahead (item : Option α) (behind : Option (List α × List Char)) :
    Option (List α × List Char) :=
  item.bind fun a => behind.map fun found => (a :: found.1, found.2)

/-- Reads up to the closing quote; gives the items and what stands behind the quote. -/
def readItems (s : Script α) (quote : Char) : List Char → Option (List α × List Char)
  | [] => none
  | c :: rest =>
    if c = quote then some ([], rest)
    else if c = backslash then
      match rest with
      | 'x' :: high :: low :: rest =>
        ahead ((hexCode? high low).map s.coded) (readItems s quote rest)
      | e :: rest => ahead ((escaped? e).map fun d => s.coded d.toNat) (readItems s quote rest)
      | [] => none
    else ahead (s.bare? c) (readItems s quote rest)

/-- Reads what stands in quotes of either kind. -/
def readQuoted (s : Script α) : List Char → Option (List α × List Char)
  | [] => none
  | c :: rest => if c = singleQuote ∨ c = doubleQuote then readItems s c rest else none

end Reading

/-- Reads a literal; gives its value and what stands behind it. -/
def readLiteral : List Char → Option (Value × List Char)
  | [] => none
  | c :: rest =>
    if c = 'b' then (readQuoted .bytes rest).map fun found => (.bytes found.1, found.2)
    else
      (readQuoted .text (c :: rest)).map fun found => (.str (String.ofList found.1), found.2)

/-! ### One item -/

section Items
variable {α : Type} {s : Script α} {quote : Char}

theorem readItems_close (s : Script α) (quote : Char) (rest : List Char) :
    readItems s quote (quote :: rest) = some ([], rest) := by
  simp [readItems.eq_def s quote (quote :: rest)]

/-- The characters stand for the item, whatever is behind them. -/
def Spells (s : Script α) (quote : Char) (written : List Char) (item : α) : Prop :=
  ∀ rest, readItems s quote (written ++ rest) = ahead (some item) (readItems s quote rest)

theorem spells_bare {c : Char} {item : α} (notQuote : c ≠ quote) (notEscape : c ≠ backslash)
    (bare : s.bare? c = some item) : Spells s quote [c] item := by
  intro rest
  rw [List.singleton_append, readItems.eq_def]
  simp only [notQuote, notEscape, if_false, bare]

theorem spells_escaped {e d : Char} (notEscape : quote ≠ backslash)
    (escaped : escaped? e = some d) :
    Spells s quote [backslash, e] (s.coded d.toNat) := by
  have notCode : e ≠ 'x' := by
    rintro rfl
    cases escaped
  intro rest
  rw [List.cons_append, List.singleton_append, readItems.eq_def]
  simp only [notEscape.symm, if_false, if_true]
  split
  · next same => exact absurd (List.cons.inj same).1 notCode
  · next same =>
    obtain ⟨rfl, rfl⟩ := List.cons.inj same
    rw [escaped]
    rfl
  · next same => cases same

/-- Two digits give the number back that they were written for. -/
theorem hexCode?_hexPair {n : Nat} (small : n < 256) :
    hexCode? (Nat.digitChar (n / 16)) (Nat.digitChar (n % 16)) = some n := by
  have digit : ∀ d < 16, hexDigit? (Nat.digitChar d) = some d := by decide
  rw [hexCode?, digit (n / 16) (by omega), digit (n % 16) (by omega)]
  exact congrArg some (Nat.div_add_mod n 16)

theorem spells_hexPair {n : Nat} (notEscape : quote ≠ backslash) (small : n < 256) :
    Spells s quote (backslash :: 'x' :: hexPair n) (s.coded n) := by
  intro rest
  rw [hexPair, List.cons_append, readItems.eq_def]
  simp only [notEscape.symm, if_false, if_true, List.cons_append, List.nil_append,
    hexCode?_hexPair small, Option.map_some]

/-- Items that are spelled one by one are read up to the closing quote. -/
theorem readItems_flatMap {write : α → List Char}
    (spells : ∀ item, Spells s quote (write item) item) (items : List α) (rest : List Char) :
    readItems s quote (items.flatMap write ++ quote :: rest) = some (items, rest) := by
  induction items with
  | nil => exact readItems_close s quote rest
  | cons item items ih =>
    rw [List.flatMap_cons, List.append_assoc, spells, ih]
    rfl

end Items

/-! ### What is written -/

theorem escaped?_backslash : escaped? backslash = some backslash :=
  if_pos (.inl rfl)

section Written
variable {quote : Char} (isQuote : quote = singleQuote ∨ quote = doubleQuote)
include isQuote

theorem ne_backslash : quote ≠ backslash := by
  rcases isQuote with rfl | rfl <;> decide

theorem escaped?_quote : escaped? quote = some quote :=
  if_pos (.inr isQuote)

theorem spells_escape (c : Char) : Spells .text quote (escape quote c) c := by
  have notEscape := ne_backslash isQuote
  have code : Script.text.coded c.toNat = c := Char.ofNat_toNat c
  have escaped {e : Char} (isEscaped : escaped? e = some c) :
      Spells .text quote [backslash, e] c := by
    simpa only [code] using spells_escaped (s := .text) notEscape isEscaped
  unfold escape
  split
  · next same => exact escaped (same ▸ escaped?_backslash)
  split
  · next same => exact escaped (same ▸ rfl)
  split
  · next same => exact escaped (same ▸ rfl)
  split
  · next same => exact escaped (same ▸ rfl)
  split
  · next same => exact escaped (same ▸ escaped?_quote isQuote)
  split
  · next control =>
    have small : c.toNat < 256 := by
      simp only [isControl, Bool.or_eq_true, Bool.and_eq_true, decide_eq_true_eq] at control
      omega
    simpa only [code] using spells_hexPair (s := .text) notEscape small
  · next notBackslash notFeed notReturn _ notQuote _ =>
    have bare : Script.text.bare? c = some c := if_neg (by simp [notFeed, notReturn])
    exact spells_bare notQuote notBackslash bare

theorem spells_escapeByte (b : UInt8) : Spells .bytes quote (escapeByte quote b) b := by
  have notEscape := ne_backslash isQuote
  have isCode : (Char.ofNat b.toNat).toNat = b.toNat := by
    have small := b.toNat_lt
    have valid : b.toNat.isValidChar := .inl (by omega)
    rw [Char.ofNat, dif_pos valid]
    rfl
  have code : Script.bytes.coded (Char.ofNat b.toNat).toNat = b := by
    rw [isCode]
    exact UInt8.ofNat_toNat
  have escaped {e : Char} (isEscaped : escaped? e = some (Char.ofNat b.toNat)) :
      Spells .bytes quote [backslash, e] b := by
    simpa only [code] using spells_escaped (s := .bytes) notEscape isEscaped
  unfold escapeByte
  dsimp only
  split
  · next same => exact escaped (same ▸ escaped?_backslash)
  split
  · next same => exact escaped (same ▸ rfl)
  split
  · next same => exact escaped (same ▸ rfl)
  split
  · next same => exact escaped (same ▸ rfl)
  split
  · next same => exact escaped (same ▸ escaped?_quote isQuote)
  split
  · next notBackslash _ notFeed notReturn notQuote shown =>
    have bare : Script.bytes.bare? (Char.ofNat b.toNat) = some b := by
      simp only [Bool.and_eq_true, decide_eq_true_eq] at shown
      have short : ¬ 0x80 ≤ (Char.ofNat b.toNat).toNat := by omega
      have stands : ¬ (Char.ofNat b.toNat = '\n' ∨ Char.ofNat b.toNat = '\r' ∨
          0x80 ≤ (Char.ofNat b.toNat).toNat) := by
        simp [notFeed, notReturn, short]
      exact (if_neg stands).trans (congrArg some code)
    exact spells_bare notQuote notBackslash bare
  · have byte : Script.bytes.coded b.toNat = b := UInt8.ofNat_toNat
    simpa only [byte] using spells_hexPair (s := .bytes) notEscape b.toNat_lt

theorem readQuoted_enclosed {α : Type} {s : Script α} {write : α → List Char}
    (spells : ∀ item, Spells s quote (write item) item) (items : List α) (rest : List Char) :
    readQuoted s (quote :: (items.flatMap write ++ [quote]) ++ rest) = some (items, rest) := by
  rw [List.cons_append, readQuoted, if_pos isQuote, List.append_assoc, List.singleton_append]
  exact readItems_flatMap spells items rest

end Written

-- More is read than is written: either quote may be escaped, and digits may be capitals. What is no
-- escape is refused.
example : readQuoted .text "\"\\'\\x4A\" in x".toList = some ("'J".toList, " in x".toList) := by
  decide +kernel
example : readQuoted .bytes "'\\q'".toList = none := by decide +kernel

theorem readLiteral_ofString (text : String) (rest : List Char) :
    readLiteral ((ofString text).toList ++ rest) = some (.str text, rest) := by
  have isQuote := Text.quoteFor_cases text.toList
  have notLetter : quoteFor text.toList ≠ 'b' := by
    rcases isQuote with same | same <;> rw [same] <;> decide
  have read := readQuoted_enclosed isQuote (spells_escape isQuote) text.toList rest
  rw [List.cons_append] at read
  rw [ofString, String.toList_ofList, encode, List.cons_append, readLiteral, if_neg notLetter, read]
  simp only [Option.map_some, String.ofList_toList]

theorem readLiteral_ofBytes (bytes : List UInt8) (rest : List Char) :
    readLiteral ((ofBytes bytes).toList ++ rest) = some (.bytes bytes, rest) := by
  have isQuote := Text.quoteFor_cases (bytes.map fun b => Char.ofNat b.toNat)
  have read := readQuoted_enclosed isQuote (spells_escapeByte isQuote) bytes rest
  rw [ofBytes, String.toList_ofList, encodeBytes, List.cons_append, readLiteral, if_pos rfl, read]
  rfl

end Quoted

/-! ### Literals in a listing -/

/-- The text is a literal for the value, and nothing but its own closing quote ends it. -/
structure IsLiteral (v : Value) (written : String) : Prop where
  /-- Reading gives the value back and leaves what stands behind the literal. -/
  read : ∀ rest, Quoted.readLiteral (written.toList ++ rest) = some (v, rest)
  /-- On a line, brackets are looked for behind the literal as they were in front of it. -/
  passed : ∀ stack rest, Text.scan ⟨stack, none⟩ (written.toList ++ rest) =
    Text.scan ⟨stack, none⟩ rest
  /-- By itself it leaves the open brackets as they are, and no quote is open. -/
  closed : ∀ number stack, Text.scanLines number ⟨stack, none⟩ (Text.lines written) =
    .ok ⟨stack, none⟩

namespace IsLiteral

theorem of_balanced {v : Value} {written : String} (balanced : Text.Balanced written)
    (read : ∀ rest, Quoted.readLiteral (written.toList ++ rest) = some (v, rest)) :
    IsLiteral v written := by
  have passed (stack rest : List Char) : Text.scan ⟨stack, none⟩ (written.toList ++ rest) =
      Text.scan ⟨stack, none⟩ rest := balanced stack rest
  refine ⟨read, passed, fun number stack => ?_⟩
  have scanned : Text.scan ⟨stack, none⟩ written.toList = .ok ⟨stack, none⟩ := by
    simpa [Text.scan] using passed stack []
  have sane : Text.Nesting.Sane ⟨stack, none⟩ := by
    rintro quote ⟨⟩
  exact Text.scanLines_linesFrom sane scanned number

theorem unique {v w : Value} {written : String} (first : IsLiteral v written)
    (second : IsLiteral w written) : v = w := by
  have same := (first.read []).symm.trans (second.read [])
  exact congrArg Prod.fst (Option.some.inj same)

theorem ofString (text : String) : IsLiteral (.str text) (Quoted.ofString text) :=
  of_balanced (Text.balanced_ofString text) (Quoted.readLiteral_ofString text)

theorem ofBytes (bytes : List UInt8) : IsLiteral (.bytes bytes) (Quoted.ofBytes bytes) :=
  of_balanced (Text.balanced_ofBytes bytes) (Quoted.readLiteral_ofBytes bytes)

end IsLiteral

/-- Texts and bytes are shown as literals, and what is shown tells them apart. -/
theorem Value.text_delimited (cat : Catalog) :
    (∀ s, IsLiteral (str s) ((str s).text cat)) ∧
      (∀ b, IsLiteral (bytes b) ((bytes b).text cat)) ∧
      (Function.Injective fun s => (str s).text cat) ∧
      (Function.Injective fun b => (bytes b).text cat) := by
  have texts (s : String) : IsLiteral (str s) ((str s).text cat) := .ofString s
  have allBytes (b : List UInt8) : IsLiteral (bytes b) ((bytes b).text cat) := .ofBytes b
  refine ⟨texts, allBytes, fun s t same => ?_, fun b c same => ?_⟩
  · dsimp only at same
    exact str.inj ((texts s).unique (same ▸ texts t))
  · dsimp only at same
    exact bytes.inj ((allBytes b).unique (same ▸ allBytes c))

end HintCheck
