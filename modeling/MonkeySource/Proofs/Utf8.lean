import Mathlib.Data.List.Forall2
import MonkeySource.Text.Utf8

set_option autoImplicit false

/-!
# Well-formed UTF-8

A text has one sequence of bytes for each of its characters. The decoder reads these sequences and
no others, and refuses the rest at the first byte behind them.
-/

namespace MonkeySource.Text.Utf8

/-- The bytes of a text. -/
def encode (text : String) : List UInt8 := text.toUTF8.data.toList

def WellFormed (bytes : List UInt8) : Prop := ∃ text : String, encode text = bytes

/-- The bytes of one sequence and the code point that they stand for. A second byte is kept from
overlong forms, from surrogates and from what lies above the last code point. -/
inductive Spells : List UInt8 → Nat → Prop where
  | one {a} : a.toNat < 0x80 → Spells [a] a.toNat
  | two {a b} : 0xC2 ≤ a.toNat → a.toNat < 0xE0 → 0x80 ≤ b.toNat → b.toNat < 0xC0 →
      Spells [a, b] ((a.toNat - 0xC0) * 64 + b.toNat % 64)
  | three {a b c} : 0xE0 ≤ a.toNat → a.toNat < 0xF0 → 0x80 ≤ b.toNat → b.toNat < 0xC0 →
      0x80 ≤ c.toNat → c.toNat < 0xC0 →
      (a.toNat = 0xE0 → 0xA0 ≤ b.toNat) → (a.toNat = 0xED → b.toNat < 0xA0) →
      Spells [a, b, c] (((a.toNat - 0xE0) * 64 + b.toNat % 64) * 64 + c.toNat % 64)
  | four {a b c d} : 0xF0 ≤ a.toNat → a.toNat < 0xF5 → 0x80 ≤ b.toNat → b.toNat < 0xC0 →
      0x80 ≤ c.toNat → c.toNat < 0xC0 → 0x80 ≤ d.toNat → d.toNat < 0xC0 →
      (a.toNat = 0xF0 → 0x90 ≤ b.toNat) → (a.toNat = 0xF4 → b.toNat < 0x90) →
      Spells [a, b, c, d]
        ((((a.toNat - 0xF0) * 64 + b.toNat % 64) * 64 + c.toNat % 64) * 64 + d.toNat % 64)

namespace Spells

variable {bytes others : List UInt8} {code other : Nat}

theorem isValidChar (spells : Spells bytes code) : code.isValidChar := by
  cases spells with
  | one | two | three | four => unfold Nat.isValidChar; omega

theorem unique (spells : Spells bytes code) (spelled : Spells others code) : bytes = others := by
  generalize same : code = other at spelled
  cases spells <;> cases spelled <;>
    simp only [List.cons.injEq, ← UInt8.toNat_inj, and_true, reduceCtorEq, and_false] <;> omega

/-- The first byte alone tells how many follow. -/
theorem length_eq {a : UInt8} (spells : Spells (a :: bytes) code)
    (spelled : Spells (a :: others) other) : bytes.length = others.length := by
  cases spells <;> cases spelled <;> first | rfl | omega

private theorem of_eq (spells : Spells bytes code) (same : code = other) : Spells bytes other :=
  same ▸ spells

end Spells

theorem spells_utf8EncodeChar (c : Char) : Spells (String.utf8EncodeChar c) c.toNat := by
  have valid : c.val.toNat < 0xD800 ∨ 0xDFFF < c.val.toNat ∧ c.val.toNat < 0x110000 := c.valid
  change Spells (String.utf8EncodeChar c) c.val.toNat
  simp only [String.utf8EncodeChar]
  generalize c.val.toNat = code at valid ⊢
  split
  · refine (Spells.one ?_).of_eq ?_ <;> rw [UInt8.toNat_ofNat'] <;> omega
  · split
    · refine (Spells.two ?_ ?_ ?_ ?_).of_eq ?_ <;> simp only [UInt8.toNat_ofNat'] <;> omega
    · split
      · refine (Spells.three ?_ ?_ ?_ ?_ ?_ ?_ ?_ ?_).of_eq ?_ <;>
          simp only [UInt8.toNat_ofNat'] <;> omega
      · refine (Spells.four ?_ ?_ ?_ ?_ ?_ ?_ ?_ ?_ ?_ ?_).of_eq ?_ <;>
          simp only [UInt8.toNat_ofNat'] <;> omega

theorem Spells.utf8EncodeChar_eq {bytes : List UInt8} {code : Nat}
    (spells : Spells bytes code) : String.utf8EncodeChar (Char.ofNat code) = bytes := by
  have code_eq : (Char.ofNat code).toNat = code := by
    rw [Char.ofNat, dif_pos spells.isValidChar]
    rfl
  have spelled := spells_utf8EncodeChar (Char.ofNat code)
  rw [code_eq] at spelled
  exact spelled.unique spells

abbrev InRanges (ranges : List ByteRange) (bytes : List UInt8) : Prop :=
  List.Forall₂ (fun range byte => range.contains byte = true) ranges bytes

theorem ByteRange.contains_iff {range : ByteRange} {byte : UInt8} :
    range.contains byte = true ↔ range.low.toNat ≤ byte.toNat ∧ byte.toNat ≤ range.high.toNat := by
  simp [contains, UInt8.le_iff_toNat_le]

theorem continuation_contains_iff {byte : UInt8} :
    continuation.contains byte = true ↔ 0x80 ≤ byte.toNat ∧ byte.toNat < 0xC0 := by
  simp only [ByteRange.contains_iff, continuation, UInt8.reduceToNat]
  omega

theorem countMatching_append {ranges : List ByteRange} {bytes : List UInt8}
    (inRanges : InRanges ranges bytes) (rest : List UInt8) :
    countMatching ranges (bytes ++ rest) = ranges.length := by
  induction inRanges with
  | nil => simp [countMatching]
  | cons here _ ih => simp [countMatching, here, ih]

theorem inRanges_of_countMatching {ranges : List ByteRange} {bytes : List UInt8}
    (all : countMatching ranges bytes = ranges.length) :
    InRanges ranges (bytes.take ranges.length) := by
  induction ranges generalizing bytes with
  | nil => simp
  | cons range ranges ih =>
      cases bytes with
      | nil => simp [countMatching] at all
      | cons byte bytes =>
          cases here : range.contains byte with
          | false => simp [countMatching, here] at all
          | true =>
              simp only [countMatching, here, ↓reduceIte] at all
              exact .cons here (ih (Nat.succ.inj all))

/-- The range of a second byte is chosen by its lead byte. -/
private theorem contains_ite_iff {special other : Prop} [Decidable special] [Decidable other]
    {first second third : ByteRange} {byte : UInt8} :
    (if special then first else if other then second else third).contains byte = true ↔
      (special → first.contains byte = true) ∧ (¬ special → other → second.contains byte = true) ∧
        (¬ special → ¬ other → third.contains byte = true) := by
  by_cases special <;> by_cases other <;> simp [*]

/-- A lead byte and followers in their ranges make up a sequence. -/
theorem spells_of_lead {byte : UInt8} {followers : List UInt8} {lead : Lead}
    (leads : lead? byte = some lead) (inRanges : InRanges lead.followers followers) :
    Spells (byte :: followers) (codePoint lead.payload followers) := by
  simp only [lead?] at leads
  split at leads
  · obtain rfl := Option.some.inj leads
    cases inRanges with
    | nil => exact .one ‹_›
  · split at leads
    · cases leads
    · split at leads
      · obtain rfl := Option.some.inj leads
        obtain _ | ⟨second, ⟨⟩⟩ := inRanges
        rw [continuation_contains_iff] at second
        refine .two ?_ ?_ ?_ ?_ <;> omega
      · split at leads
        · obtain rfl := Option.some.inj leads
          obtain _ | ⟨second, _ | ⟨third, ⟨⟩⟩⟩ := inRanges
          rw [continuation_contains_iff] at third
          rw [contains_ite_iff] at second
          simp only [ByteRange.contains_iff, continuation, UInt8.reduceToNat] at second
          refine .three ?_ ?_ ?_ ?_ ?_ ?_ ?_ ?_ <;> omega
        · split at leads
          · obtain rfl := Option.some.inj leads
            obtain _ | ⟨second, _ | ⟨third, _ | ⟨fourth, ⟨⟩⟩⟩⟩ := inRanges
            rw [continuation_contains_iff] at third fourth
            rw [contains_ite_iff] at second
            simp only [ByteRange.contains_iff, continuation, UInt8.reduceToNat] at second
            refine .four ?_ ?_ ?_ ?_ ?_ ?_ ?_ ?_ ?_ ?_ <;> omega
          · cases leads

theorem Spells.exists_lead {byte : UInt8} {followers : List UInt8} {code : Nat}
    (spells : Spells (byte :: followers) code) :
    ∃ lead, lead? byte = some lead ∧ InRanges lead.followers followers ∧
      codePoint lead.payload followers = code := by
  unfold lead?
  cases spells with
  | one ascii => exact ⟨_, if_pos ascii, .nil, rfl⟩
  | two _ _ low high =>
      rw [if_neg (by omega), if_neg (by omega), if_pos (by omega)]
      exact ⟨_, rfl, .cons (continuation_contains_iff.mpr ⟨low, high⟩) .nil, rfl⟩
  | three _ _ _ _ low high =>
      rw [if_neg (by omega), if_neg (by omega), if_neg (by omega), if_pos (by omega)]
      have last := continuation_contains_iff.mpr ⟨low, high⟩
      refine ⟨_, rfl, .cons ?_ (.cons last .nil), rfl⟩
      rw [contains_ite_iff]
      simp only [ByteRange.contains_iff, continuation, UInt8.reduceToNat]
      omega
  | four _ _ _ _ low high lastLow lastHigh =>
      rw [if_neg (by omega), if_neg (by omega), if_neg (by omega), if_neg (by omega),
        if_pos (by omega)]
      have third := continuation_contains_iff.mpr ⟨low, high⟩
      have last := continuation_contains_iff.mpr ⟨lastLow, lastHigh⟩
      refine ⟨_, rfl, .cons ?_ (.cons third (.cons last .nil)), rfl⟩
      rw [contains_ite_iff]
      simp only [ByteRange.contains_iff, continuation, UInt8.reduceToNat]
      omega

/-- A sequence at the head of the bytes is one character of the text. -/
theorem decodeFrom_of_spells {byte : UInt8} {followers : List UInt8} {code : Nat}
    (spells : Spells (byte :: followers) code) (position : Nat) (rest : List UInt8) :
    decodeFrom position (byte :: followers ++ rest) =
      (decodeFrom (position + (byte :: followers).length) rest).map (Char.ofNat code :: ·) := by
  obtain ⟨lead, leads, inRanges, rfl⟩ := spells.exists_lead
  have matching := countMatching_append inRanges rest
  have length := inRanges.length_eq
  rw [List.cons_append, decodeFrom]
  simp only [leads, matching, ↓reduceIte, length, List.drop_left, List.take_left, List.length_cons,
    Nat.add_assoc]
  cases decodeFrom (position + (followers.length + 1)) rest with
  | ok text => rfl
  | error fault => rfl

theorem spells_or_fault (position : Nat) (byte : UInt8) (bytes : List UInt8) :
    (∃ followers rest code, bytes = followers ++ rest ∧ Spells (byte :: followers) code) ∨
      ∃ fault, decodeFrom position (byte :: bytes) = .error fault ∧ fault.position = position := by
  rw [decodeFrom]
  cases leads : lead? byte with
  | none => exact .inr ⟨_, rfl, rfl⟩
  | some lead =>
      by_cases all : countMatching lead.followers bytes = lead.followers.length
      · exact .inl ⟨_, _, _, (List.take_append_drop lead.followers.length bytes).symm,
          spells_of_lead leads (inRanges_of_countMatching all)⟩
      · simp only [all, ↓reduceIte]
        exact .inr ⟨_, rfl, rfl⟩

private theorem decodeFrom_char (c : Char) (position : Nat) (rest : List UInt8) :
    decodeFrom position (String.utf8EncodeChar c ++ rest) =
      (decodeFrom (position + (String.utf8EncodeChar c).length) rest).map (c :: ·) := by
  have spells := spells_utf8EncodeChar c
  cases bytes : String.utf8EncodeChar c with
  | nil =>
      rw [bytes] at spells
      cases spells
  | cons byte followers =>
      rw [bytes] at spells
      have read := decodeFrom_of_spells spells position rest
      rwa [Char.ofNat_toNat] at read

theorem encode_eq_flatMap (text : String) :
    encode text = text.toList.flatMap String.utf8EncodeChar := by
  rw [encode, String.toUTF8_eq_toByteArray, ← String.utf8Encode_toList, List.utf8Encode,
    List.data_toByteArray]

/-- The bytes of a text are read as the text, whatever follows them. -/
theorem decodeFrom_encode_append (text : String) (position : Nat) (rest : List UInt8) :
    decodeFrom position (encode text ++ rest) =
      (decodeFrom (position + (encode text).length) rest).map (text.toList ++ ·) := by
  rw [encode_eq_flatMap]
  induction text.toList generalizing position with
  | nil =>
      change decodeFrom position rest = (decodeFrom position rest).map fun more => more
      cases decodeFrom position rest <;> rfl
  | cons c text ih =>
      rw [List.flatMap_cons, List.append_assoc, decodeFrom_char, ih, List.length_append,
        Nat.add_assoc]
      cases decodeFrom _ rest <;> rfl

theorem decode_encode (text : String) : decode (encode text) = .ok text.toList := by
  have read := decodeFrom_encode_append text 0 []
  rw [List.append_nil] at read
  rw [decode, read, decodeFrom]
  exact congrArg Except.ok (List.append_nil _)

theorem encode_append (front back : String) :
    encode (front ++ back) = encode front ++ encode back := by
  simp only [encode_eq_flatMap, String.toList_append, List.flatMap_append]

theorem Spells.encode_singleton {bytes : List UInt8} {code : Nat} (spells : Spells bytes code) :
    encode (String.singleton (Char.ofNat code)) = bytes := by
  rw [encode_eq_flatMap, String.toList_singleton, List.flatMap_singleton, spells.utf8EncodeChar_eq]

/-- Either all of the bytes are a text, or they are refused right behind the text that they begin
with. -/
theorem decodeFrom_outcome (position : Nat) (bytes : List UInt8) :
    (∃ text, encode text = bytes ∧ decodeFrom position bytes = .ok text.toList) ∨
      ∃ text rest fault, bytes = encode text ++ rest ∧
        decodeFrom position bytes = .error fault ∧
        fault.position = position + (encode text).length := by
  cases bytes with
  | nil => exact .inl ⟨"", rfl, by rw [decodeFrom]; rfl⟩
  | cons byte bytes =>
      rcases spells_or_fault position byte bytes with
        ⟨followers, rest, code, split, spells⟩ | ⟨fault, refused, here⟩
      · have shorter : rest.length < (byte :: bytes).length := by
          rw [split, List.length_cons, List.length_append]
          omega
        have spelled := spells.encode_singleton
        rw [split, ← List.cons_append, decodeFrom_of_spells spells]
        rcases decodeFrom_outcome (position + (byte :: followers).length) rest with
          ⟨text, rfl, decoded⟩ | ⟨text, more, fault, rfl, refused, behind⟩
        · refine .inl ⟨String.singleton (Char.ofNat code) ++ text, ?_, ?_⟩
          · rw [encode_append, spelled]
          · rw [decoded, String.toList_append, String.toList_singleton]
            rfl
        · refine .inr ⟨String.singleton (Char.ofNat code) ++ text, more, fault, ?_, ?_, ?_⟩
          · rw [encode_append, spelled, List.append_assoc]
          · rw [refused]
            rfl
          · rw [behind, encode_append, spelled, List.length_append, Nat.add_assoc]
      · exact .inr ⟨"", byte :: bytes, fault, rfl, refused, here⟩
termination_by bytes.length
decreasing_by exact shorter

/-- The first bytes that are a text, as many as there are. -/
structure LongestText (bytes : List UInt8) (size : Nat) : Prop where
  within : size ≤ bytes.length
  wellFormed : WellFormed (bytes.take size)
  longest : ∀ longer, size < longer → longer ≤ bytes.length → ¬ WellFormed (bytes.take longer)

theorem le_position_of_decodeFrom {position : Nat} {bytes : List UInt8} {fault : Fault}
    (refused : decodeFrom position bytes = .error fault) : position ≤ fault.position := by
  rcases decodeFrom_outcome position bytes with ⟨_, _, decoded⟩ | ⟨_, _, other, _, same, behind⟩
  · rw [decoded] at refused
    cases refused
  · obtain rfl := Except.error.inj (refused.symm.trans same)
    omega

/-- Bytes that are no text are refused where the longest text at their head ends. -/
theorem decode_of_not_wellFormed {bytes : List UInt8} (malformed : ¬ WellFormed bytes) :
    ∃ fault, decode bytes = .error fault ∧ LongestText bytes fault.position := by
  rcases decodeFrom_outcome 0 bytes with
    ⟨text, spelled, _⟩ | ⟨text, rest, fault, split, refused, behind⟩
  · exact absurd ⟨text, spelled⟩ malformed
  · rw [Nat.zero_add] at behind
    refine ⟨fault, refused, ?_, ?_, ?_⟩
    · rw [behind, split, List.length_append]
      exact Nat.le_add_right _ _
    · exact ⟨text, by rw [behind, split, List.take_left]⟩
    · rintro longer beyond within ⟨other, spelled⟩
      -- a longer text would be read whole, and the fault would lie behind it
      have size : (encode other).length = longer := by
        rw [spelled, List.length_take, Nat.min_eq_left within]
      have read := decodeFrom_encode_append other 0 (bytes.drop longer)
      rw [spelled, List.take_append_drop, refused] at read
      cases later : decodeFrom (0 + (bytes.take longer).length) (bytes.drop longer) with
      | ok more =>
          rw [later] at read
          cases read
      | error fault =>
          rw [later] at read
          obtain rfl := Except.error.inj read
          have := le_position_of_decodeFrom later
          rw [← spelled, size] at this
          omega

/-- The bytes that would stand for a number, were every number allowed in every width. -/
def layOut : (width : Nat) → (number : Nat) → List UInt8
  | 2, number => [.ofNat (0xC0 + number / 64), .ofNat (0x80 + number % 64)]
  | 3, number =>
      [.ofNat (0xE0 + number / 4096), .ofNat (0x80 + number / 64 % 64), .ofNat (0x80 + number % 64)]
  | 4, number =>
      [.ofNat (0xF0 + number / 262144), .ofNat (0x80 + number / 4096 % 64),
        .ofNat (0x80 + number / 64 % 64), .ofNat (0x80 + number % 64)]
  | _, number => [.ofNat number]

/-- The numbers that have no sequence of a width: those that need fewer bytes, the surrogates, and
what lies above the last code point. -/
inductive Forbidden : (width : Nat) → (number : Nat) → Prop where
  | overlong2 {number} : number < 0x80 → Forbidden 2 number
  | overlong3 {number} : number < 0x800 → Forbidden 3 number
  | overlong4 {number} : number < 0x10000 → Forbidden 4 number
  | surrogate {number} : 0xD800 ≤ number → number < 0xE000 → Forbidden 3 number
  | tooLarge {number} : 0x110000 ≤ number → number < 0x200000 → Forbidden 4 number

theorem Forbidden.not_spells {width number code : Nat} (forbidden : Forbidden width number)
    {bytes rest more : List UInt8} (spells : Spells bytes code) :
    layOut width number ++ rest ≠ bytes ++ more := by
  intro same
  cases forbidden <;> cases spells <;>
    simp only [layOut, List.cons_append, List.nil_append, List.cons.injEq, ← UInt8.toNat_inj,
      UInt8.toNat_ofNat'] at same <;> omega

/-- What begins with no sequence is refused, behind the text that stands before it. -/
theorem decode_encode_append {rest : List UInt8} (more : rest ≠ [])
    (stuck : ∀ bytes others code, Spells bytes code → rest ≠ bytes ++ others) (front : String) :
    ∃ fault, decode (encode front ++ rest) = .error fault ∧
      fault.position = (encode front).length := by
  obtain ⟨byte, others, rfl⟩ := List.exists_cons_of_ne_nil more
  have read := decodeFrom_encode_append front 0 (byte :: others)
  rw [Nat.zero_add] at read
  rcases spells_or_fault (encode front).length byte others with
    ⟨followers, rest, code, rfl, spells⟩ | ⟨fault, refused, here⟩
  · exact absurd rfl (stuck _ rest code spells)
  · exact ⟨fault, by rw [decode, read, refused]; rfl, here⟩

/-- A sequence that is cut off holds no shorter one. -/
theorem take_encode_not_spells {c : Char} {count code : Nat} {bytes more : List UInt8}
    (short : count < (encode (String.singleton c)).length) (spells : Spells bytes code) :
    (encode (String.singleton c)).take count ≠ bytes ++ more := by
  intro same
  have whole := spells_utf8EncodeChar c
  rw [encode_eq_flatMap, String.toList_singleton, List.flatMap_singleton] at short same
  have split := List.take_append_drop count (String.utf8EncodeChar c)
  rw [same] at split
  cases bytes with
  | nil => cases spells
  | cons byte followers =>
      rw [← split] at whole
      have lengths := whole.length_eq spells
      simp only [List.length_append, List.length_drop, List.append_eq] at lengths
      omega

end MonkeySource.Text.Utf8
