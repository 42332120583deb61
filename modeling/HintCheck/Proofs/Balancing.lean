import Mathlib.Data.List.Basic
import HintCheck.Text.Balance

/-!
Texts in which brackets nest. A text is read piece by piece: what a piece does to the open brackets
and quotes does not depend on the brackets around it or on what stands behind it, unless it ends in
the middle of an escape. Plain names, quoted literals and names between single quotes leave
everything as it was, and a text that does so has no imbalance, however it falls into lines.
-/
namespace HintCheck.Text

open Quoted (singleQuote doubleQuote backslash)

/-! ### One character -/

section Steps
variable {stack : List Char} {s : Nesting} {quote c : Char}

theorem scan_outside (read : readOutside stack c = some s) (rest : List Char) :
    scan ⟨stack, none⟩ (c :: rest) = scan s rest := by
  simp only [scan, read]

theorem scan_escape (stack : List Char) (quote c : Char) (rest : List Char) :
    scan ⟨stack, some quote⟩ (backslash :: c :: rest) = scan ⟨stack, some quote⟩ rest := by
  rw [scan, if_pos (beq_self_eq_true _)]

theorem scan_inside (notEscape : c ≠ backslash) (other : c ≠ quote) (stack rest : List Char) :
    scan ⟨stack, some quote⟩ (c :: rest) = scan ⟨stack, some quote⟩ rest := by
  simp [scan.eq_def ⟨stack, some quote⟩ (c :: rest), notEscape, other]

theorem scan_close (notEscape : quote ≠ backslash) (stack rest : List Char) :
    scan ⟨stack, some quote⟩ (quote :: rest) = scan ⟨stack, none⟩ rest := by
  simp [scan.eq_def ⟨stack, some quote⟩ (quote :: rest), notEscape]

end Steps

/-! ### Reading by pieces -/

/-- Reading the characters turns one nesting into the other, whatever brackets are open around them
and whatever stands behind them. -/
def Reads (before : Nesting) (cs : List Char) (after : Nesting) : Prop :=
  ∀ outer rest, scan ⟨before.stack ++ outer, before.quote⟩ (cs ++ rest) =
    scan ⟨after.stack ++ outer, after.quote⟩ rest

/-- Outside of brackets and quotes. -/
def Nesting.outside : Nesting :=
  ⟨[], none⟩

section Reads
variable {before mid after s : Nesting} {cs ds : List Char}

theorem reads_nil : Reads s [] s :=
  fun _ _ => rfl

theorem Reads.append (first : Reads before cs mid) (second : Reads mid ds after) :
    Reads before (cs ++ ds) after := by
  intro outer rest
  rw [List.append_assoc, first, second]

theorem Reads.within (reads : Reads before cs after) (around : List Char) :
    Reads ⟨before.stack ++ around, before.quote⟩ cs ⟨after.stack ++ around, after.quote⟩ := by
  intro outer rest
  simp only [List.append_assoc]
  exact reads (around ++ outer) rest

theorem readOutside_within {stack : List Char} {c : Char} (read : readOutside stack c = some s)
    (outer : List Char) : readOutside (stack ++ outer) c = some ⟨s.stack ++ outer, s.quote⟩ := by
  unfold readOutside at read ⊢
  split
  · next isQuote => rw [if_pos isQuote] at read; cases read; rfl
  · next notQuote =>
    rw [if_neg notQuote] at read
    split
    · next opens => rw [if_pos opens] at read; cases read; rfl
    · next notOpening =>
      rw [if_neg notOpening] at read
      cases bracket : opening? c with
      | none => rw [bracket] at read; cases read; rfl
      | some b =>
        rw [bracket] at read
        cases stack with
        | nil => cases read
        | cons top rest =>
          dsimp only [List.cons_append] at read ⊢
          split at read
          · next same => cases read; rw [if_pos same]
          · cases read

/-- A piece that does not end with a backslash can be read alone. -/
theorem reads_of_scan (read : scan before cs = .ok after) (ends : cs.getLast? ≠ some backslash) :
    Reads before cs after := by
  intro outer rest
  fun_induction scan before cs generalizing after with
  | case1 s => cases read; rfl
  | case2 stack c cs s opened ih =>
    rw [List.cons_append, scan_outside (readOutside_within opened outer)]
    exact ih read (fun last => ends (by simp [List.getLast?_cons, last]))
  | case3 => cases read
  | case4 stack quote c isEscape => exact (ends (by simpa using isEscape)).elim
  | case5 stack quote c isEscape taken cs ih =>
    rw [beq_iff_eq.mp isEscape, List.cons_append, List.cons_append, scan_escape]
    exact ih read (fun last => ends (by simp [List.getLast?_cons, last]))
  | case6 stack quote c cs notEscape isClose ih =>
    obtain rfl := beq_iff_eq.mp isClose
    rw [List.cons_append, scan_close (by simpa using notEscape)]
    exact ih read (fun last => ends (by simp [List.getLast?_cons, last]))
  | case7 stack quote c cs notEscape notClose ih =>
    rw [List.cons_append, scan_inside (by simpa using notEscape) (by simpa using notClose)]
    exact ih read (fun last => ends (by simp [List.getLast?_cons, last]))

end Reads

/-! ### Lines -/

/-- An open quote is one of the two. -/
def Nesting.Sane (s : Nesting) : Prop :=
  ∀ quote, s.quote = some quote → quote = singleQuote ∨ quote = doubleQuote

theorem Nesting.Sane.readOutside {stack : List Char} {c : Char} {s : Nesting}
    (read : readOutside stack c = some s) : s.Sane := by
  unfold Text.readOutside at read
  split at read
  · next isQuote =>
    cases read
    rintro _ ⟨⟩
    simpa using isQuote
  · split at read
    · cases read
      exact nofun
    · split at read
      · cases read
        exact nofun
      · split at read
        · split at read <;> cases read
          exact nofun
        · cases read

theorem Nesting.Sane.scan {s t : Nesting} (sane : s.Sane) {cs : List Char}
    (read : scan s cs = .ok t) : t.Sane := by
  fun_induction Text.scan s cs generalizing t with
  | case1 s => cases read; exact sane
  | case2 stack c cs s opened ih => exact ih (.readOutside opened) read
  | case3 => cases read
  | case4 => cases read; exact sane
  | case5 _ _ _ _ _ _ ih => exact ih sane read
  | case6 _ _ _ _ _ _ ih => exact ih nofun read
  | case7 _ _ _ _ _ _ ih => exact ih sane read

theorem scan_break_cons {s : Nesting} (sane : s.Sane) {c : Char} (isBreak : c = '\n' ∨ c = '\r')
    (rest : List Char) : scan s (c :: rest) = scan s rest := by
  rcases s with ⟨stack, _ | quote⟩
  · rcases isBreak with rfl | rfl <;> rfl
  · have other : c ≠ backslash ∧ c ≠ quote := by
      rcases isBreak with rfl | rfl <;> rcases sane quote rfl with rfl | rfl <;> decide
    exact scan_inside other.1 other.2 stack rest

/-- A line break does nothing, also if an escape takes it with it. -/
theorem scan_break {s : Nesting} (sane : s.Sane) {c : Char} (isBreak : c = '\n' ∨ c = '\r')
    (cs rest : List Char) :
    scan s (cs ++ c :: rest) = scan s cs >>= fun t => scan t rest := by
  fun_induction scan s cs with
  | case1 s => exact scan_break_cons sane isBreak rest
  | case2 stack d cs s opened ih =>
    rw [List.cons_append, scan_outside opened]
    exact ih (.readOutside opened)
  | case3 stack d cs refused =>
    rw [List.cons_append, scan.eq_def]
    simp only [refused]
    rfl
  | case4 stack quote d isEscape =>
    rw [beq_iff_eq.mp isEscape]
    exact scan_escape stack quote c rest
  | case5 stack quote d isEscape taken cs ih =>
    rw [beq_iff_eq.mp isEscape, List.cons_append, List.cons_append, scan_escape]
    exact ih sane
  | case6 stack quote d cs notEscape isClose ih =>
    obtain rfl := beq_iff_eq.mp isClose
    rw [List.cons_append, scan_close (by simpa using notEscape)]
    exact ih nofun
  | case7 stack quote d cs notEscape notClose ih =>
    rw [List.cons_append, scan_inside (by simpa using notEscape) (by simpa using notClose)]
    exact ih sane

theorem scan_finishLine {s : Nesting} (sane : s.Sane) (line : List Char) :
    scan s (finishLine line) = scan s line.reverse := by
  unfold finishLine
  split
  · next rest =>
    rw [List.reverse_cons, scan_break sane (.inr rfl)]
    cases scan s rest.reverse <;> rfl
  · rfl

/-- The lines of a text are read like the text as a whole. -/
theorem scanLines_linesFrom {s t : Nesting} (sane : s.Sane) {line cs : List Char}
    (read : scan s (line.reverse ++ cs) = .ok t) (number : Nat) :
    scanLines number s (linesFrom line cs) = .ok t := by
  fun_induction linesFrom line cs generalizing s number with
  | case1 line isEmpty =>
    rw [List.isEmpty_iff.mp isEmpty] at read
    simp only [List.reverse_nil, List.append_nil, scan] at read
    cases read
    rfl
  | case2 line occupied =>
    rw [List.append_nil] at read
    rw [scanLines, read]
    rfl
  | case3 line rest ih =>
    rw [scan_break sane (.inl rfl)] at read
    rw [scanLines, scan_finishLine sane]
    cases first : scan s line.reverse with
    | error e => rw [first] at read; cases read
    | ok mid =>
      rw [first] at read
      exact ih (sane.scan first) read (number + 1)
  | case4 line c rest notBreak ih =>
    refine ih sane ?_ number
    rwa [List.reverse_cons, List.append_assoc]

/-! ### Balanced texts -/

/-- Reading the text outside of brackets and quotes leaves the nesting behind. -/
def LeavesOpen (text : String) (s : Nesting) : Prop :=
  Reads .outside text.toList s

/-- Reading the text leaves no bracket and no quote open. -/
def Balanced (text : String) : Prop :=
  LeavesOpen text .outside

namespace LeavesOpen

variable {a b : String} {s t : Nesting} {stack : List Char}

theorem ofScan (read : scan .outside a.toList = .ok s)
    (ends : a.toList.getLast? ≠ some backslash) : LeavesOpen a s :=
  reads_of_scan read ends

theorem next (before : LeavesOpen a s) (read : scan s b.toList = .ok t)
    (ends : b.toList.getLast? ≠ some backslash) : LeavesOpen (a ++ b) t := by
  unfold LeavesOpen
  rw [String.toList_append]
  exact Reads.append before (reads_of_scan read ends)

theorem balanced (before : LeavesOpen a ⟨stack, none⟩) (inside : Balanced b) :
    LeavesOpen (a ++ b) ⟨stack, none⟩ := by
  unfold LeavesOpen
  rw [String.toList_append]
  exact Reads.append before (Reads.within inside stack)

end LeavesOpen

theorem Balanced.append {a b : String} (first : Balanced a) (second : Balanced b) :
    Balanced (a ++ b) :=
  LeavesOpen.balanced first second

theorem balanced_intercalate {between : String} {texts : List String} (separates : Balanced between)
    (each : ∀ text ∈ texts, Balanced text) : Balanced (between.intercalate texts) := by
  induction texts with
  | nil => exact reads_nil
  | cons text rest ih =>
    obtain ⟨first, others⟩ := List.forall_mem_cons.mp each
    cases rest with
    | nil => simpa using first
    | cons next rest =>
      rw [String.intercalate_cons_cons]
      exact (first.append separates).append (ih others)

theorem balanced_join {texts : List String} (each : ∀ text ∈ texts, Balanced text) :
    Balanced (String.join texts) := by
  induction texts with
  | nil => exact reads_nil
  | cons text rest ih =>
    obtain ⟨first, others⟩ := List.forall_mem_cons.mp each
    rw [String.join_cons]
    exact first.append (ih others)

theorem imbalance?_of_balanced {text : String} (balanced : Balanced text) :
    imbalance? text = none := by
  have read : scan .outside ([].reverse ++ text.toList) = .ok .outside := by
    have whole : scan .outside (text.toList ++ []) = scan .outside [] := balanced [] []
    simpa [scan] using whole
  have sane : Nesting.outside.Sane := nofun
  have lines : scanLines 1 .outside (linesFrom [] text.toList) = .ok .outside :=
    scanLines_linesFrom sane read 1
  unfold imbalance? Text.lines
  rw [← Nesting.outside, lines]
  rfl

/-! ### Plain texts -/

/-- The characters that quotes, escapes and brackets are made of. -/
def special : List Char :=
  [singleQuote, doubleQuote, backslash, '(', ')', '[', ']', '\x7b', '\x7d']

/-- No character is special, as in identifiers. -/
def IsPlain (text : String) : Prop :=
  ∀ c ∈ text.toList, c ∉ special

instance (text : String) : Decidable (IsPlain text) :=
  List.decidableBAll (fun c => c ∉ special) text.toList

theorem readOutside_of_plain {c : Char} (plain : c ∉ special) (stack : List Char) :
    readOutside stack c = some ⟨stack, none⟩ := by
  simp only [special, List.mem_cons, List.not_mem_nil, not_or] at plain
  simp [readOutside, isOpening, opening?, plain]

theorem reads_of_plain {cs : List Char} (plain : ∀ c ∈ cs, c ∉ special) :
    Reads .outside cs .outside := by
  induction cs with
  | nil => exact reads_nil
  | cons c cs ih =>
    obtain ⟨first, others⟩ := List.forall_mem_cons.mp plain
    intro outer rest
    rw [List.cons_append]
    exact (scan_outside (readOutside_of_plain first _) _).trans (ih others outer rest)

theorem balanced_of_isPlain {text : String} (plain : IsPlain text) : Balanced text :=
  reads_of_plain plain

theorem IsPlain.append {a b : String} (first : IsPlain a) (second : IsPlain b) :
    IsPlain (a ++ b) := by
  intro c member
  rw [String.toList_append, List.mem_append] at member
  exact member.elim (first c) (second c)

theorem plain_of_isDigit {c : Char} (digit : c.isDigit = true) : c ∉ special := by
  have none : special.all (fun c => !c.isDigit) = true := by decide
  intro isSpecial
  have noDigit := List.all_eq_true.mp none c isSpecial
  rw [digit] at noDigit
  cases noDigit

theorem isPlain_toString (n : Nat) : IsPlain (toString n) := by
  intro c member
  have isDigit : c ∈ Nat.toDigits 10 n := by rwa [← Nat.toList_repr]
  exact plain_of_isDigit (Nat.isDigit_of_mem_toDigits (by decide) (by decide) isDigit)

theorem isPlain_toString_int (i : Int) : IsPlain (toString i) := by
  cases i with
  | ofNat n => exact isPlain_toString n
  | negSucc n => exact .append (a := "-") (by decide) (isPlain_toString (n + 1))

/-! ### Quotes -/

/-- The characters can stand between single quotes: none of them ends the quotes, and no backslash
stands at the end. -/
def isQuotable : List Char → Bool
  | [] => true
  | c :: rest =>
    if c == backslash then
      match rest with
      | [] => false
      | _ :: rest => isQuotable rest
    else c != singleQuote && isQuotable rest

/-- The text can stand between single quotes as it is. -/
def Quotable (text : String) : Prop :=
  isQuotable text.toList = true

instance (text : String) : Decidable (Quotable text) :=
  inferInstanceAs (Decidable (_ = true))

theorem reads_quotable {cs : List Char} (quotable : isQuotable cs = true) :
    Reads ⟨[], some singleQuote⟩ cs ⟨[], some singleQuote⟩ := by
  intro outer rest
  fun_induction isQuotable cs with
  | case1 => rfl
  | case2 => cases quotable
  | case3 c isEscape taken cs ih =>
    rw [beq_iff_eq.mp isEscape, List.cons_append, List.cons_append, scan_escape]
    exact ih quotable
  | case4 c cs notEscape ih =>
    rw [Bool.and_eq_true, bne_iff_ne] at quotable
    rw [List.cons_append, scan_inside (by simpa using notEscape) quotable.1]
    exact ih quotable.2

theorem isQuotable_of_plain {cs : List Char} (plain : ∀ c ∈ cs, c ∉ special) :
    isQuotable cs = true := by
  induction cs with
  | nil => rfl
  | cons c cs ih =>
    obtain ⟨first, others⟩ := List.forall_mem_cons.mp plain
    simp only [special, List.mem_cons, not_or] at first
    simp [isQuotable.eq_def (c :: cs), first, ih others]

theorem IsPlain.quotable {text : String} (plain : IsPlain text) : Quotable text :=
  isQuotable_of_plain plain

theorem LeavesOpen.quoted {text name : String} {stack : List Char}
    (before : LeavesOpen text ⟨stack, some singleQuote⟩) (quotable : Quotable name) :
    LeavesOpen (text ++ name) ⟨stack, some singleQuote⟩ := by
  unfold LeavesOpen
  rw [String.toList_append]
  exact Reads.append before ((reads_quotable quotable).within stack)

theorem reads_flatMap {α : Type} {s : Nesting} {f : α → List Char} {xs : List α}
    (each : ∀ x ∈ xs, Reads s (f x) s) : Reads s (xs.flatMap f) s := by
  induction xs with
  | nil => exact reads_nil
  | cons x rest ih =>
    obtain ⟨first, others⟩ := List.forall_mem_cons.mp each
    rw [List.flatMap_cons]
    exact first.append (ih others)

theorem reads_escaped (quote c : Char) :
    Reads ⟨[], some quote⟩ [backslash, c] ⟨[], some quote⟩ :=
  fun outer rest => scan_escape outer quote c rest

theorem reads_inside {quote c : Char} (notEscape : c ≠ backslash) (other : c ≠ quote) :
    Reads ⟨[], some quote⟩ [c] ⟨[], some quote⟩ :=
  fun outer rest => scan_inside notEscape other outer rest

/-- What stands between quotes of either kind. -/
theorem reads_enclosed {quote : Char} (isQuote : quote = singleQuote ∨ quote = doubleQuote)
    {cs : List Char} (inside : Reads ⟨[], some quote⟩ cs ⟨[], some quote⟩) :
    Reads .outside (quote :: (cs ++ [quote])) .outside := by
  have opens : Reads .outside [quote] ⟨[], some quote⟩ := by
    rcases isQuote with rfl | rfl <;> exact reads_of_scan rfl (by decide)
  have closes : Reads ⟨[], some quote⟩ [quote] .outside := by
    rcases isQuote with rfl | rfl <;> exact reads_of_scan rfl (by decide)
  exact opens.append (inside.append closes)

theorem quoteFor_cases (cs : List Char) :
    Quoted.quoteFor cs = singleQuote ∨ Quoted.quoteFor cs = doubleQuote := by
  unfold Quoted.quoteFor
  split
  · exact .inr rfl
  · exact .inl rfl

section Literals
variable {quote : Char} (isQuote : quote = singleQuote ∨ quote = doubleQuote)
include isQuote

/-- Hexadecimal digits behind an escape. -/
theorem reads_hexPair {n : Nat} (small : n < 256) :
    Reads ⟨[], some quote⟩ (backslash :: 'x' :: Quoted.hexPair n) ⟨[], some quote⟩ := by
  have digit {d : Nat} (small : d < 16) :
      Reads ⟨[], some quote⟩ [Nat.digitChar d] ⟨[], some quote⟩ := by
    have other : ∀ d < 16, Nat.digitChar d ∉ special := by decide
    have plain := other d small
    simp only [special, List.mem_cons, not_or] at plain
    rcases isQuote with rfl | rfl
    · exact reads_inside plain.2.2.1 plain.1
    · exact reads_inside plain.2.2.1 plain.2.1
  have high := digit (d := n / 16) (by omega)
  have low := digit (d := n % 16) (by omega)
  exact (reads_escaped quote 'x').append (high.append low)

theorem reads_escape (c : Char) :
    Reads ⟨[], some quote⟩ (Quoted.escape quote c) ⟨[], some quote⟩ := by
  unfold Quoted.escape
  split
  · exact reads_escaped quote backslash
  split
  · exact reads_escaped quote 'n'
  split
  · exact reads_escaped quote 'r'
  split
  · exact reads_escaped quote 't'
  split
  · exact reads_escaped quote c
  split
  · next control =>
    refine reads_hexPair isQuote ?_
    simp only [Quoted.isControl, Bool.or_eq_true, Bool.and_eq_true, decide_eq_true_eq] at control
    omega
  · exact reads_inside ‹_› ‹_›

theorem reads_escapeByte (b : UInt8) :
    Reads ⟨[], some quote⟩ (Quoted.escapeByte quote b) ⟨[], some quote⟩ := by
  unfold Quoted.escapeByte
  dsimp only
  split
  · exact reads_escaped quote backslash
  split
  · exact reads_escaped quote 't'
  split
  · exact reads_escaped quote 'n'
  split
  · exact reads_escaped quote 'r'
  split
  · exact reads_escaped quote _
  split
  · exact reads_inside ‹_› ‹_›
  · exact reads_hexPair isQuote b.toNat_lt

end Literals

theorem balanced_ofString (text : String) : Balanced (Quoted.ofString text) := by
  unfold Balanced LeavesOpen Quoted.ofString Quoted.encode
  rw [String.toList_ofList]
  have isQuote := quoteFor_cases text.toList
  exact reads_enclosed isQuote (reads_flatMap fun c _ => reads_escape isQuote c)

theorem balanced_ofBytes (bytes : List UInt8) : Balanced (Quoted.ofBytes bytes) := by
  unfold Balanced LeavesOpen Quoted.ofBytes Quoted.encodeBytes
  rw [String.toList_ofList]
  have isQuote := quoteFor_cases (bytes.map fun b => Char.ofNat b.toNat)
  have letter : Reads .outside ['b'] .outside := reads_of_scan rfl (by decide)
  exact letter.append (reads_enclosed isQuote (reads_flatMap fun b _ => reads_escapeByte isQuote b))

end HintCheck.Text
