import MonkeySource.Proofs.LocationText
import MonkeySource.Proofs.Quotation
import MonkeySource.Token.Basic

set_option autoImplicit false

/-!
# Tokens as text

Both text forms of a token are sequences of parts, and each part shows where it ends: a name or a
number stops at its separator, and a quoted text at its closing quote. So a form is read back from
the front. Whatever a token holds, its forms are printable.
-/

namespace MonkeySource

/-! ## Kinds -/

namespace TokenKind

/-- The table of names leads back to every kind. -/
theorem ofName_name (kind : TokenKind) : ofName kind.name = .ok kind := by
  rcases kind with _ | _ | _ | _ | _ | (op | mark) | word
  case symbol.operator => cases op <;> rfl
  case symbol.delimiter => cases mark <;> rfl
  case keyword => cases word <;> rfl
  all_goals rfl

theorem name_injective {first second : TokenKind} (same : first.name = second.name) :
    first = second := by
  have found := ofName_name first
  rw [same, ofName_name] at found
  exact (Except.ok.inj found).symm

def isNameChar (c : Char) : Bool := c.isUpper || c == '_'

theorem all_isNameChar_name (kind : TokenKind) : kind.name.toList.all isNameChar = true := by
  rcases kind with _ | _ | _ | _ | _ | (op | mark) | word
  case symbol.operator => cases op <;> decide
  case symbol.delimiter => cases mark <;> decide
  case keyword => cases word <;> decide
  all_goals decide

/-- A name is read up to the first character that no name holds. -/
theorem name_append_cons_inj {first second : TokenKind} {separator : Char} {x y : List Char}
    (foreign : isNameChar separator = false)
    (same : first.name.toList ++ separator :: x = second.name.toList ++ separator :: y) :
    first = second ∧ x = y := by
  have absent (kind : TokenKind) : separator ∉ kind.name.toList := by
    intro member
    have named := List.all_eq_true.mp (all_isNameChar_name kind) separator member
    rw [foreign] at named
    cases named
  obtain ⟨names, _, rests⟩ := append_cons_inj_of_not_mem_front (absent _) (absent _) same
  exact ⟨name_injective (String.toList_inj.mp names), rests⟩

end TokenKind

/-! ## Locations -/

def partSeparator : List Char := [',', ' ']

theorem toList_partSeparator : ", ".toList = partSeparator := by decide

/-- A number is read up to the separator behind it. -/
theorem repr_append_separator_inj {first second : Int} {x y : List Char}
    (same : first.repr.toList ++ (partSeparator ++ x) =
      second.repr.toList ++ (partSeparator ++ y)) : first = second ∧ x = y := by
  have absent (value : Int) : ',' ∉ value.repr.toList :=
    not_mem_repr (by decide) (by decide) value
  obtain ⟨numbers, _, rests⟩ :=
    append_cons_inj_of_not_mem_front (absent first) (absent second) same
  exact ⟨Int.repr_injective (String.toList_inj.mp numbers), (List.cons.inj rests).2⟩

namespace Location

theorem toList_detail (location : Location) :
    location.detail.toList = "SourceLocation(".toList ++
      (Text.quoteChars location.filename.toList ++ (partSeparator ++
        (location.line.repr.toList ++ (partSeparator ++
          (location.column.repr.toList ++ (partSeparator ++
            (location.offset.repr.toList ++ ")".toList))))))) := by
  unfold detail
  simp only [String.toList_append, Text.toList_quote, toList_partSeparator, List.append_assoc]

theorem detail_injective {first second : Location} (same : first.detail = second.detail) :
    first = second := by
  have texts := congrArg String.toList same
  rw [toList_detail, toList_detail] at texts
  obtain ⟨filenames, numbers⟩ := Text.quoteChars_append_inj (List.append_cancel_left texts)
  obtain ⟨lines, numbers⟩ := repr_append_separator_inj (List.append_cancel_left numbers)
  obtain ⟨columns, numbers⟩ := repr_append_separator_inj numbers
  have offsets := List.append_cancel_right numbers
  cases first
  cases second
  rw [mk.injEq]
  exact ⟨String.toList_inj.mp filenames, lines, columns,
    Int.repr_injective (String.toList_inj.mp offsets)⟩

end Location

/-! ## Tokens -/

namespace Token

/-- A location in the full form of a token. -/
def placeDetail : Option Location → String
  | some location => location.detail
  | none => "None"

theorem placeDetail_injective {first second : Option Location}
    (same : placeDetail first = placeDetail second) : first = second := by
  have distinct (location : Location) : location.detail ≠ "None" := by
    intro same
    have opening : "SourceLocation(".toList.head? = some 'S' := by decide
    have heads := congrArg (·.toList.head?) same
    rw [Location.toList_detail, List.head?_append, opening, Option.some_or] at heads
    exact absurd heads (by decide)
  cases first with
  | none =>
      cases second with
      | none => rfl
      | some second => exact absurd same.symm (distinct second)
  | some first =>
      cases second with
      | none => exact absurd same (distinct first)
      | some second => rw [Location.detail_injective same]

theorem toList_text (token : Token) :
    token.text.toList = token.kind.name.toList ++ '(' ::
      (Text.quoteChars token.literal.toList ++ [')']) := by
  have opening : "(".toList = ['('] := by decide
  have closing : ")".toList = [')'] := by decide
  unfold text
  simp only [String.toList_append, Text.toList_quote, opening, closing, List.append_assoc,
    List.cons_append, List.nil_append]

theorem toList_detail (token : Token) :
    token.detail.toList = "Token(".toList ++ (token.kind.name.toList ++ (partSeparator ++
      (Text.quoteChars token.literal.toList ++ (partSeparator ++
        ((placeDetail token.location).toList ++ ")".toList))))) := by
  unfold detail
  cases token.location <;>
    simp only [placeDetail, String.toList_append, Text.toList_quote, toList_partSeparator,
      List.append_assoc]

theorem text_eq_text_iff {first second : Token} : first.text = second.text ↔ first.Same second := by
  constructor
  · intro same
    have texts := congrArg String.toList same
    rw [toList_text, toList_text] at texts
    obtain ⟨kinds, literals⟩ := TokenKind.name_append_cons_inj (by decide) texts
    exact ⟨kinds, String.toList_inj.mp (Text.quoteChars_append_inj literals).1⟩
  · rintro ⟨kinds, literals⟩
    unfold text
    rw [kinds, literals]

theorem detail_eq_detail_iff {first second : Token} :
    first.detail = second.detail ↔ first.Same second ∧ first.location = second.location := by
  constructor
  · intro same
    have texts := congrArg String.toList same
    rw [toList_detail, toList_detail] at texts
    obtain ⟨kinds, rest⟩ :=
      TokenKind.name_append_cons_inj (by decide) (List.append_cancel_left texts)
    -- a literal may hold separators, and still ends only at its closing quote
    obtain ⟨literals, places⟩ := Text.quoteChars_append_inj (List.cons.inj rest).2
    have places := List.append_cancel_right (List.append_cancel_left places)
    exact ⟨⟨kinds, String.toList_inj.mp literals⟩,
      placeDetail_injective (String.toList_inj.mp places)⟩
  · rintro ⟨⟨kinds, literals⟩, places⟩
    unfold detail
    rw [kinds, literals, places]

end Token

/-! ## What is shown -/

section Printable

open Text (isPrintable)

theorem isPrintable_of_isDigit {c : Char} (digit : c.isDigit = true) : isPrintable c = true := by
  simp only [Char.isDigit, Bool.and_eq_true, decide_eq_true_eq, ge_iff_le,
    UInt32.le_iff_toNat_le] at digit
  exact Text.isPrintable_of_ascii (Nat.le_trans (by decide) digit.1)
    (Nat.lt_of_le_of_lt digit.2 (by decide))

theorem isPrintable_of_isUpper {c : Char} (upper : c.isUpper = true) : isPrintable c = true := by
  simp only [Char.isUpper, decide_eq_true_eq, ge_iff_le, UInt32.le_iff_toNat_le] at upper
  exact Text.isPrintable_of_ascii (Nat.le_trans (by decide) upper.1)
    (Nat.lt_of_le_of_lt upper.2 (by decide))

theorem all_isPrintable_repr (value : Int) : value.repr.toList.all isPrintable = true := by
  refine List.all_eq_true.mpr fun c member => ?_
  rcases mem_repr member with rfl | digit
  · decide
  · exact isPrintable_of_isDigit digit

theorem all_isPrintable_quoteChars (text : List Char) :
    (Text.quoteChars text).all isPrintable = true :=
  List.all_eq_true.mpr fun _ member => Text.isPrintable_of_mem_quoteChars member

theorem all_isPrintable_partSeparator : partSeparator.all isPrintable = true := by decide

theorem TokenKind.all_isPrintable_name (kind : TokenKind) :
    kind.name.toList.all isPrintable = true := by
  refine List.all_eq_true.mpr fun c member => ?_
  have named := List.all_eq_true.mp kind.all_isNameChar_name c member
  rcases Bool.or_eq_true_iff.mp named with upper | underscore
  · exact isPrintable_of_isUpper upper
  · rw [beq_iff_eq.mp underscore]
    decide

theorem Location.all_isPrintable_detail (location : Location) :
    location.detail.toList.all isPrintable = true := by
  have opening : "SourceLocation(".toList.all isPrintable = true := by decide
  have closing : ")".toList.all isPrintable = true := by decide
  simp only [toList_detail, List.all_append, opening, closing, all_isPrintable_quoteChars,
    all_isPrintable_partSeparator, all_isPrintable_repr, Bool.and_self]

theorem Token.all_isPrintable_text (token : Token) :
    token.text.toList.all isPrintable = true := by
  have opening : isPrintable '(' = true := by decide
  have closing : [')'].all isPrintable = true := by decide
  simp only [toList_text, List.all_append, List.all_cons, TokenKind.all_isPrintable_name, opening,
    closing, all_isPrintable_quoteChars, Bool.and_self]

theorem Token.all_isPrintable_detail (token : Token) :
    token.detail.toList.all isPrintable = true := by
  have opening : "Token(".toList.all isPrintable = true := by decide
  have closing : ")".toList.all isPrintable = true := by decide
  have place : (placeDetail token.location).toList.all isPrintable = true := by
    cases token.location with
    | none => decide
    | some location => exact location.all_isPrintable_detail
  simp only [toList_detail, List.all_append, opening, closing, TokenKind.all_isPrintable_name,
    all_isPrintable_quoteChars, all_isPrintable_partSeparator, place, Bool.and_self]

end Printable

/-- The short forms of two tokens agree just if the tokens are the same, and the full forms just if
the tokens moreover stand in the same place or both nowhere. Both forms stay on one line and hold
nothing that a terminal would act on. -/
theorem Token.text_forms_faithful (first second : Token) :
    (first.text = second.text ↔ first.Same second) ∧
    (first.detail = second.detail ↔ first.Same second ∧ first.location = second.location) ∧
    ∀ c ∈ first.text.toList ++ first.detail.toList,
      Text.isPrintable c = true ∧ Text.isControl c = false ∧ c ∉ Text.lineBreaks := by
  refine ⟨text_eq_text_iff, detail_eq_detail_iff, fun c member => ?_⟩
  have printable : Text.isPrintable c = true := by
    rcases List.mem_append.mp member with inText | inDetail
    · exact List.all_eq_true.mp first.all_isPrintable_text c inText
    · exact List.all_eq_true.mp first.all_isPrintable_detail c inDetail
  exact ⟨printable, Text.isControl_eq_false printable, Text.not_mem_lineBreaks printable⟩

end MonkeySource
