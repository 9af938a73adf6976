import Mathlib
import MonkeySource.Text.Quoted

set_option autoImplicit false

/-!
# Quoted text read back

What stands between the quotes can be read back, character by character, up to the closing quote and
no further. All of it is printable.
-/

namespace MonkeySource.Text

/-- The value of a hexadecimal digit in either case. -/
def digitValue (c : Char) : Nat :=
  if c.toNat < 0x3A then c.toNat - 0x30
  else if c.toNat < 0x47 then c.toNat - 0x37
  else c.toNat - 0x57

def hexValue (digits : List Char) : Nat :=
  digits.foldl (fun value digit => value * 16 + digitValue digit) 0

/-- Reads one character from the head of an escaped text. -/
def unescape : List Char → Option (Char × List Char)
  | [] => none
  | '\\' :: kind :: rest =>
      if kind = 'n' then some ('\n', rest)
      else if kind = 'r' then some ('\r', rest)
      else if kind = 't' then some ('\t', rest)
      else if kind = 'x' then some (Char.ofNat (hexValue (rest.take 2)), rest.drop 2)
      else if kind = 'u' then some (Char.ofNat (hexValue (rest.take 4)), rest.drop 4)
      else if kind = 'U' then some (Char.ofNat (hexValue (rest.take 8)), rest.drop 8)
      else some (kind, rest)
  | c :: rest => some (c, rest)

def IsMark (mark : Char) : Prop := mark = '\x27' ∨ mark = '"'

theorem isMark_quoteMark (text : List Char) : IsMark (quoteMark text) := by
  unfold quoteMark
  split
  · exact .inr rfl
  · exact .inl rfl

theorem digitValue_hexDigit (digitCase : DigitCase) {digit : Nat} (small : digit < 16) :
    digitValue (hexDigit digitCase digit) = digit := by
  have all : ∀ digit : Fin 16, digitValue (hexDigit digitCase digit) = digit := by
    cases digitCase <;> decide
  exact all ⟨digit, small⟩

theorem length_hexDigits (digitCase : DigitCase) (width number : Nat) :
    (hexDigits digitCase width number).length = width := by
  induction width generalizing number with
  | zero => rfl
  | succ width ih => rw [hexDigits, List.length_append, ih, List.length_singleton]

theorem hexValue_hexDigits (digitCase : DigitCase) {width number : Nat}
    (fits : number < 16 ^ width) : hexValue (hexDigits digitCase width number) = number := by
  induction width generalizing number with
  | zero =>
      rw [Nat.pow_zero] at fits
      exact (Nat.lt_one_iff.mp fits).symm
  | succ width ih =>
      have fewer : number / 16 < 16 ^ width := by
        rw [Nat.pow_succ] at fits
        omega
      have earlier := ih fewer
      rw [hexValue] at earlier
      rw [hexValue, hexDigits, List.foldl_append, earlier, List.foldl_cons, List.foldl_nil,
        digitValue_hexDigit digitCase (Nat.mod_lt number (by decide))]
      omega

theorem take_hexDigits (digitCase : DigitCase) (width number : Nat) (rest : List Char) :
    (hexDigits digitCase width number ++ rest).take width = hexDigits digitCase width number :=
  List.take_left' (length_hexDigits digitCase width number)

theorem drop_hexDigits (digitCase : DigitCase) (width number : Nat) (rest : List Char) :
    (hexDigits digitCase width number ++ rest).drop width = rest :=
  List.drop_left' (length_hexDigits digitCase width number)

theorem ofNat_hexDigits (width : Nat) (c : Char) (fits : c.toNat < 16 ^ width) :
    Char.ofNat (hexValue (hexDigits .lower width c.toNat)) = c := by
  rw [hexValue_hexDigits .lower fits, Char.ofNat_toNat]

theorem unescape_escape {mark : Char} (isMark : IsMark mark) (c : Char) (rest : List Char) :
    unescape (escape mark c ++ rest) = some (c, rest) := by
  unfold escape
  split_ifs with quoted feed carriage tab printable short middle
  · rcases quoted with rfl | rfl
    · rcases isMark with rfl | rfl <;> rfl
    · rfl
  · rw [feed]; rfl
  · rw [carriage]; rfl
  · rw [tab]; rfl
  · have notSlash : c ≠ '\\' := fun isSlash => quoted (.inr isSlash)
    simp [unescape, notSlash]
  · simp [unescape, take_hexDigits, drop_hexDigits, ofNat_hexDigits 2 c short]
  · simp [unescape, take_hexDigits, drop_hexDigits, ofNat_hexDigits 4 c middle]
  · have long : c.toNat < 16 ^ 8 := Nat.lt_of_lt_of_le c.val.toNat_lt (by decide)
    simp [unescape, take_hexDigits, drop_hexDigits, ofNat_hexDigits 8 c long]

/-- A character stands for itself, and is then not the mark, or is told behind a backslash. -/
theorem escape_cases (mark c : Char) :
    (escape mark c = [c] ∧ c ≠ mark) ∨ ∃ told, escape mark c = '\\' :: told := by
  unfold escape
  split_ifs with quoted
  · exact .inr ⟨_, rfl⟩
  · exact .inr ⟨_, rfl⟩
  · exact .inr ⟨_, rfl⟩
  · exact .inr ⟨_, rfl⟩
  · exact .inl ⟨rfl, fun isMark => quoted (.inl isMark)⟩
  · exact .inr ⟨_, rfl⟩
  · exact .inr ⟨_, rfl⟩
  · exact .inr ⟨_, rfl⟩

/-- No character between the quotes can be taken for the closing one. -/
theorem head_escape_ne {mark : Char} (isMark : IsMark mark) {c d : Char} {rest more : List Char}
    (spelled : escape mark c ++ rest = d :: more) : d ≠ mark := by
  rcases escape_cases mark c with ⟨plain, notMark⟩ | ⟨told, escaped⟩
  · rw [plain] at spelled
    obtain ⟨rfl, _⟩ := List.cons.inj spelled
    exact notMark
  · rw [escaped] at spelled
    obtain ⟨rfl, _⟩ := List.cons.inj spelled
    rcases isMark with rfl | rfl <;> decide

/-- A body ends at the first mark that is not escaped. -/
theorem escaped_inj {mark : Char} (isMark : IsMark mark) {first second x y : List Char}
    (same : first.flatMap (escape mark) ++ mark :: x = second.flatMap (escape mark) ++ mark :: y) :
    first = second ∧ x = y := by
  induction first generalizing second with
  | nil =>
      cases second with
      | nil => exact ⟨rfl, (List.cons.inj same).2⟩
      | cons d second =>
          rw [List.flatMap_cons, List.append_assoc] at same
          exact absurd rfl (head_escape_ne isMark same.symm)
  | cons c first ih =>
      rw [List.flatMap_cons, List.append_assoc] at same
      cases second with
      | nil => exact absurd rfl (head_escape_ne isMark same)
      | cons d second =>
          rw [List.flatMap_cons, List.append_assoc] at same
          -- one reader takes the same text apart in one way, whichever body it came from
          have read := unescape_escape isMark c (first.flatMap (escape mark) ++ mark :: x)
          rw [same, unescape_escape isMark] at read
          obtain ⟨rfl, rests⟩ := Prod.mk.inj (Option.some.inj read)
          obtain ⟨rfl, tails⟩ := ih rests.symm
          exact ⟨rfl, tails⟩

/-- A quoted text shows where it ends and what it quotes, whatever follows it. -/
theorem quoteChars_append_inj {first second x y : List Char}
    (same : quoteChars first ++ x = quoteChars second ++ y) : first = second ∧ x = y := by
  simp only [quoteChars, List.cons_append, List.append_assoc, List.nil_append] at same
  obtain ⟨marks, bodies⟩ := List.cons.inj same
  rw [← marks] at bodies
  exact escaped_inj (isMark_quoteMark first) bodies

theorem quote_injective {first second : String} (same : quote first = quote second) :
    first = second := by
  have texts := congrArg (·.toList ++ []) same
  simp only [toList_quote] at texts
  exact String.toList_inj.mp (quoteChars_append_inj texts).1

/-! ## What is printable -/

/-- Up to the controls behind the tilde, just the space to the tilde are printable. -/
theorem isPrintable_iff_of_le {c : Char} (low : c.toNat ≤ 0xA0) :
    isPrintable c = true ↔ 0x20 ≤ c.toNat ∧ c.toNat < 0x7F := by
  obtain ⟨ranges, split⟩ : ∃ ranges,
      unprintableRanges = (0x0, 0x1F) :: (0x7F, 0xA0) :: ranges := ⟨_, rfl⟩
  rw [isPrintable, split, inRanges, inRanges]
  split_ifs <;> simp <;> omega

theorem isPrintable_of_ascii {c : Char} (low : 0x20 ≤ c.toNat) (high : c.toNat < 0x7F) :
    isPrintable c = true :=
  (isPrintable_iff_of_le (by omega)).mpr ⟨low, high⟩

/-- The characters that move the cursor of a terminal, or ring its bell. -/
def isControl (c : Char) : Bool := decide (c.toNat < 0x20 ∨ 0x7F ≤ c.toNat ∧ c.toNat < 0xA0)

/-- The characters at which some program or other begins a new line. -/
def lineBreaks : List Char :=
  ['\n', '\x0b', '\x0c', '\r', '\x1c', '\x1d', '\x1e', '\x85', '\u2028', '\u2029']

theorem isControl_eq_false {c : Char} (printable : isPrintable c = true) : isControl c = false := by
  cases control : isControl c with
  | false => rfl
  | true =>
      simp only [isControl, decide_eq_true_eq] at control
      have visible := (isPrintable_iff_of_le (by omega)).mp printable
      omega

theorem not_mem_lineBreaks {c : Char} (printable : isPrintable c = true) : c ∉ lineBreaks := by
  intro member
  have hidden : lineBreaks.all (fun d => !isPrintable d) = true := by
    decide +kernel
  have unprintable := List.all_eq_true.mp hidden c member
  rw [printable] at unprintable
  cases unprintable

theorem all_isPrintable_hexDigits (digitCase : DigitCase) (width number : Nat) :
    (hexDigits digitCase width number).all isPrintable = true := by
  induction width generalizing number with
  | zero => rfl
  | succ width ih =>
      have digit : ∀ digit : Fin 16, isPrintable (hexDigit digitCase digit) = true := by
        cases digitCase <;> decide
      have last := digit ⟨number % 16, Nat.mod_lt number (by decide)⟩
      rw [hexDigits, List.all_append, ih, List.all_cons, last, List.all_nil]
      rfl

theorem all_isPrintable_escape {mark : Char} (isMark : IsMark mark) (c : Char) :
    (escape mark c).all isPrintable = true := by
  have numbered {kind : Char} (width : Nat) (printable : isPrintable kind = true) :
      ('\\' :: kind :: hexDigits .lower width c.toNat).all isPrintable = true := by
    rw [List.all_cons, List.all_cons, printable, all_isPrintable_hexDigits]
    decide
  unfold escape
  split_ifs with quoted feed carriage tab printable short middle
  · rcases quoted with rfl | rfl
    · rcases isMark with rfl | rfl <;> decide
    · decide
  · decide
  · decide
  · decide
  · rw [List.all_cons, printable, List.all_nil, Bool.and_true]
  · exact numbered 2 (by decide)
  · exact numbered 4 (by decide)
  · exact numbered 8 (by decide)

theorem isPrintable_of_mem_quoteChars {text : List Char} {c : Char}
    (member : c ∈ quoteChars text) : isPrintable c = true := by
  have isMark := isMark_quoteMark text
  have mark : isPrintable (quoteMark text) = true := by
    rcases isMark with isMark | isMark <;> (rw [isMark]; decide)
  simp only [quoteChars, List.cons_append, List.mem_cons, List.mem_append, List.mem_flatMap,
    List.not_mem_nil, or_false] at member
  rcases member with rfl | ⟨told, _, escaped⟩ | rfl
  · exact mark
  · exact List.all_eq_true.mp (all_isPrintable_escape isMark told) c escaped
  · exact mark

end MonkeySource.Text
