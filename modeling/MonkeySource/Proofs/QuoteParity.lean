import MonkeySource.Proofs.Layout

set_option autoImplicit false

/-!
# Findings by the parity of quotes

Whether a character is inside a string can be told from the number of double quotes before it. So
the findings of a source can be listed without scanning it.
-/

namespace MonkeySource

/-- The characters that mean something outside a string. -/
def inAlphabet (c : Char) : Bool :=
  isBlank c || c == '"' || isWordPart c || (Symbol.ofChar? c).isSome

def outsideStrings (source : List Char) (index : Nat) : Bool :=
  (source.take index).count '"' % 2 == 0

def isStray (source : List Char) (place : Char × Nat) : Bool :=
  !inAlphabet place.1 && outsideStrings source place.2

def strays (source : List Char) : List (Char × Nat) := source.zipIdx.filter (isStray source)

/-- The index of the last double quote, if the number of double quotes is odd. Indices are counted
from the one that the text starts with. -/
def openQuote? (text : List Char) (index : Nat) : Option Nat :=
  if text.count '"' % 2 = 1 then
    ((text.zipIdx index).filter fun place => place.1 == '"').getLast?.map Prod.snd
  else none

theorem exists_last_quote {text : List Char} (index : Nat) (present : '"' ∈ text) :
    ∃ place, ((text.zipIdx index).filter fun place => place.1 == '"').getLast? = some place := by
  obtain ⟨inside, found⟩ := List.mem_iff_getElem?.mp present
  have member : ('"', index + inside) ∈ text.zipIdx index :=
    List.mk_add_mem_zipIdx_iff_getElem?.mpr found
  have kept : ('"', index + inside) ∈ (text.zipIdx index).filter fun place => place.1 == '"' :=
    List.mem_filter.mpr ⟨member, rfl⟩
  exact ⟨_, List.getLast?_eq_some_getLast (List.ne_nil_of_mem kept)⟩

theorem quote_mem_of_odd {text : List Char} (odd : text.count '"' % 2 = 1) : '"' ∈ text :=
  List.count_pos_iff.mp (by omega)

private theorem openQuote?_append {front rest : List Char} {index : Nat}
    (even : front.count '"' % 2 = 0) :
    openQuote? (front ++ rest) index = openQuote? rest (index + front.length) := by
  have parity : (front ++ rest).count '"' % 2 = rest.count '"' % 2 := by
    rw [List.count_append]
    omega
  unfold openQuote?
  rw [parity]
  split
  · next odd =>
      obtain ⟨place, last⟩ := exists_last_quote (index + front.length) (quote_mem_of_odd odd)
      rw [List.zipIdx_append, List.filter_append, List.getLast?_append, last]
      rfl
  · rfl

private theorem openQuote?_of_not_mem {text : List Char} {index : Nat} (free : '"' ∉ text) :
    openQuote? text index = none := by
  simp [openQuote?, List.count_eq_zero.mpr free]

private theorem openQuote?_open {body : List Char} {index : Nat} (free : '"' ∉ body) :
    openQuote? ('"' :: body) index = some index := by
  have later : ((body.zipIdx (index + 1)).filter fun place => place.1 == '"') = [] := by
    rw [List.filter_eq_nil_iff]
    intro place member
    have inBody := List.fst_mem_of_mem_zipIdx member
    simp only [beq_iff_eq]
    intro isQuote
    exact free (isQuote ▸ inBody)
  simp [openQuote?, List.count_eq_zero.mpr free, later]

theorem inAlphabet_of_blank {gap : List Char} (blank : ∀ c ∈ gap, isBlank c = true) :
    ∀ c ∈ gap, inAlphabet c = true := by
  intro c member
  simp [inAlphabet, blank c member]

theorem quote_not_mem_of_blank {gap : List Char} (blank : ∀ c ∈ gap, isBlank c = true) :
    '"' ∉ gap := by
  intro member
  have isBlank := blank '"' member
  rw [isBlank_quote] at isBlank
  cases isBlank

namespace Lexeme

theorem Valid.quote_not_mem {lexeme : Lexeme} (valid : lexeme.Valid)
    (notString : lexeme.kind ≠ .string) : '"' ∉ lexeme.text := by
  intro member
  cases lexeme with
  | symbol fixed => exact (Symbol.class_of_mem_spelling member).2.2.2 rfl
  | word letters =>
      obtain ⟨c, rest, rfl, letter, parts⟩ := valid
      rcases List.mem_cons.mp member with rfl | member
      · exact absurd letter (by decide)
      · exact absurd (parts '"' member) (by decide)
  | number digits => exact absurd (valid.2 '"' member) (by decide)
  | quoted body closed => exact notString rfl
  | stray c => exact valid.2.1 (List.mem_singleton.mp member).symm

theorem Valid.count_quote {lexeme : Lexeme} (valid : lexeme.Valid)
    (closed : ∀ body, lexeme ≠ .quoted body false) :
    lexeme.text.count '"' = if lexeme.kind = .string then 2 else 0 := by
  by_cases isString : lexeme.kind = .string
  · obtain ⟨body, isClosed, rfl⟩ := eq_quoted_of_kind isString
    cases isClosed with
    | false => exact absurd rfl (closed body)
    | true => simp [text, kind, List.count_eq_zero.mpr valid]
  · rw [if_neg isString, List.count_eq_zero]
    exact valid.quote_not_mem isString

theorem Valid.inAlphabet_text {lexeme : Lexeme} (valid : lexeme.Valid)
    (notString : lexeme.shape ≠ .quoted) (notStray : lexeme.shape ≠ .stray) :
    ∀ c ∈ lexeme.text, inAlphabet c = true := by
  intro d member
  have ofPart {c : Char} (part : isWordPart c = true) : inAlphabet c = true := by
    simp [inAlphabet, part]
  cases lexeme with
  | symbol fixed => simp [inAlphabet, (Symbol.class_of_mem_spelling member).1]
  | word letters =>
      obtain ⟨c, rest, rfl, letter, parts⟩ := valid
      rcases List.mem_cons.mp member with rfl | member
      · exact ofPart (isWordPart_of_isLetter letter)
      · exact ofPart (parts d member)
  | number digits => exact ofPart (isWordPart_of_isDigit (valid.2 d member))
  | quoted body closed => exact False.elim (notString rfl)
  | stray c => exact False.elim (notStray rfl)

end Lexeme

private theorem strays_of_inAlphabet {source text : List Char} {index : Nat}
    (known : ∀ c ∈ text, inAlphabet c = true) : (text.zipIdx index).filter (isStray source) = [] := by
  rw [List.filter_eq_nil_iff]
  intro place member
  simp [isStray, known place.1 (List.fst_mem_of_mem_zipIdx member)]

/-- Behind an odd number of quotes, text without quotes stays inside the string. -/
theorem strays_of_open {source body rest : List Char} {index : Nat}
    (odd : (source.take index).count '"' % 2 = 1) (free : '"' ∉ body)
    (here : source.drop index = body ++ rest) :
    (body.zipIdx index).filter (isStray source) = [] := by
  rw [List.filter_eq_nil_iff]
  rintro ⟨c, position⟩ member
  obtain ⟨behind, within, _⟩ := List.mem_zipIdx member
  obtain ⟨inside, rfl⟩ := Nat.exists_eq_add_of_le behind
  have quotes : '"' ∉ body.take inside := fun found => free (List.mem_of_mem_take found)
  have count : (source.take (index + inside)).count '"' = (source.take index).count '"' := by
    rw [List.take_add, here, List.take_append_of_le_length (by omega), List.count_append,
      List.count_eq_zero.mpr quotes, Nat.add_zero]
  simp [isStray, outsideStrings, count, odd]

private theorem strays_of_body {source body rest : List Char} {index : Nat}
    (outside : outsideStrings source index = true) (free : '"' ∉ body)
    (here : source.drop index = '"' :: (body ++ rest)) :
    (body.zipIdx (index + 1)).filter (isStray source) = [] := by
  have opened : source.drop (index + 1) = body ++ rest := by
    rw [← List.drop_drop, here, List.drop_one, List.tail_cons]
  have quote : (source.take (index + 1)).count '"' = (source.take index).count '"' + 1 := by
    rw [List.take_add, here, List.count_append]
    simp
  simp only [outsideStrings, beq_iff_eq] at outside
  exact strays_of_open (by omega) free opened

theorem Stands.strays {source : List Char} {place : Cursor × Lexeme} (stands : Stands source place)
    (outside : outsideStrings source place.1.offset = true) :
    (place.2.text.zipIdx place.1.offset).filter (isStray source) =
      match place.2 with
      | .stray c => [(c, place.1.offset)]
      | _ => [] := by
  obtain ⟨cursor, lexeme⟩ := place
  obtain ⟨rest, here, _⟩ := stands.ends
  have valid := stands.valid
  cases lexeme with
  | symbol _ | word _ | number _ =>
      exact strays_of_inAlphabet (valid.inAlphabet_text (by simp [Lexeme.shape])
        (by simp [Lexeme.shape]))
  | quoted body closed =>
      have opened : source.drop cursor.offset =
          '"' :: (body ++ ((if closed then ['"'] else []) ++ rest)) := by
        simpa [Lexeme.text] using here
      have bodyStrays := strays_of_body outside valid opened
      have quote : inAlphabet '"' = true := by decide
      cases closed <;> simp [Lexeme.text, List.zipIdx_append, bodyStrays, isStray, quote]
  | stray c =>
      obtain ⟨visible, notQuote, notWord, unknown⟩ := valid
      simp only at outside
      simp [Lexeme.text, isStray, inAlphabet, visible, notQuote, notWord, unknown, outside]

private theorem outside_append {source front rest : List Char} {index : Nat}
    (outside : outsideStrings source index = true) (here : source.drop index = front ++ rest)
    (even : front.count '"' % 2 = 0) : outsideStrings source (index + front.length) = true := by
  simp only [outsideStrings, beq_iff_eq] at outside ⊢
  rw [List.take_add, here, List.take_left, List.count_append]
  omega

private theorem isOpen_or_closed (lexeme : Lexeme) :
    (∃ body, lexeme = .quoted body false) ∨ ∀ body, lexeme ≠ .quoted body false := by
  by_cases isOpen : ∃ body, lexeme = .quoted body false
  · exact .inl isOpen
  · exact .inr fun body same => isOpen ⟨body, same⟩

/-- Every token begins outside strings, so the findings from there on can be told from the parity of
the quotes. -/
theorem Reads.findings_eq {source text tail : List Char} {pieces : List (List Char × Lexeme)}
    (reads : Reads text pieces tail) {index : Nat} (here : source.drop index = text)
    (outside : outsideStrings source index = true) (filename : String) :
    ((Cursor.ofIndex source index).places pieces).flatMap
        (fun place => (place.2.finding? (place.1.location filename)).toList) =
      ((text.zipIdx index).filter (isStray source)).map
          (fun place => .illegalCharacter place.1 (.ofIndex filename source place.2)) ++
        (openQuote? text index).toList.map
          (fun quote => .unterminatedString (.ofIndex filename source quote)) := by
  induction reads generalizing index with
  | done blank =>
      rw [strays_of_inAlphabet (inAlphabet_of_blank blank),
        openQuote?_of_not_mem (quote_not_mem_of_blank blank)]
      rfl
  | @step text gap lexeme rest pieces tail leads reads ih =>
      have gapQuotes : gap.count '"' = 0 :=
        List.count_eq_zero.mpr (quote_not_mem_of_blank leads.blank)
      have stands := leads.stands here
      have outsideHere := outside_append outside (here.trans leads.split) (by omega)
      have lexemeStrays := stands.strays (by simpa using outsideHere)
      have atLexeme : source.drop (index + gap.length) = lexeme.text ++ rest := by
        rw [← List.drop_drop, here, leads.split, List.drop_left]
      simp only [Cursor.offset_ofIndex] at lexemeStrays
      simp only [Cursor.places, Cursor.move_ofIndex, List.flatMap_cons]
      rw [leads.split, List.zipIdx_append, List.zipIdx_append, List.filter_append,
        List.filter_append, strays_of_inAlphabet (inAlphabet_of_blank leads.blank),
        lexemeStrays, openQuote?_append (by omega)]
      rcases isOpen_or_closed lexeme with ⟨body, rfl⟩ | closed
      · -- an open string is the last lexeme, and its quote the last one
        obtain rfl := leads.ends.eq_nil_of_open
        cases reads with
        | done _ =>
            have quote : openQuote? ('"' :: body) (index + gap.length) = some (index + gap.length) :=
              openQuote?_open leads.valid
            simp [Cursor.places, Lexeme.finding?, Lexeme.text, quote]
        | step leads _ => exact absurd leads.length_rest_lt (by simp)
      · have even : lexeme.text.count '"' % 2 = 0 := by
          rw [leads.valid.count_quote closed]
          split <;> rfl
        have later := ih (leads.drop_eq here) (outside_append outsideHere atLexeme even)
        rw [later, openQuote?_append even]
        cases lexeme with
        | symbol _ | word _ | number _ => simp [Lexeme.finding?]
        | quoted body isClosed =>
            cases isClosed with
            | true => simp [Lexeme.finding?]
            | false => exact absurd rfl (closed body)
        | stray c => simp [Lexeme.finding?]

theorem Reads.count_strings {text tail : List Char} {pieces : List (List Char × Lexeme)}
    (reads : Reads text pieces tail) :
    (pieces.map Prod.snd).countP (fun lexeme => lexeme.kind = .string) =
      (text.count '"' + 1) / 2 := by
  induction reads with
  | done blank => simp [List.count_eq_zero.mpr (quote_not_mem_of_blank blank)]
  | @step text gap lexeme rest pieces tail leads reads ih =>
      have gapQuotes : gap.count '"' = 0 :=
        List.count_eq_zero.mpr (quote_not_mem_of_blank leads.blank)
      rw [leads.split, List.count_append, List.count_append, gapQuotes, List.map_cons,
        List.countP_cons, ih]
      rcases isOpen_or_closed lexeme with ⟨body, rfl⟩ | closed
      · obtain rfl := leads.ends.eq_nil_of_open
        simp [Lexeme.kind, Lexeme.text, List.count_eq_zero.mpr leads.valid]
      · rw [leads.valid.count_quote closed]
        by_cases isString : lexeme.kind = .string <;> simp [isString]
        omega

theorem strays_eq_nil_iff {source : List Char} :
    strays source = [] ↔ ∀ index c, source[index]? = some c →
      outsideStrings source index = true → inAlphabet c = true := by
  simp only [strays, List.filter_eq_nil_iff, Prod.forall, List.mk_mem_zipIdx_iff_getElem?, isStray]
  constructor
  · intro nothing index c found outside
    simpa [outside] using nothing c index found
  · intro known c index found stray
    simp only [Bool.and_eq_true, Bool.not_eq_eq_eq_not, Bool.not_true] at stray
    rw [known index c found stray.2] at stray
    cases stray.1

theorem openQuote?_eq_none_iff {text : List Char} {index : Nat} :
    openQuote? text index = none ↔ text.count '"' % 2 = 0 := by
  unfold openQuote?
  split
  · next odd =>
      obtain ⟨place, last⟩ := exists_last_quote index (quote_mem_of_odd odd)
      simp [last, odd]
  · next even =>
      simp only [true_iff]
      omega

/-- The findings about the stray characters of a source. -/
def illegalCharacters (source filename : String) : List Finding :=
  (strays source.toList).map fun place =>
    .illegalCharacter place.1 (.ofIndex filename source.toList place.2)

theorem code_of_mem_illegalCharacters {source filename : String} {finding : Finding}
    (member : finding ∈ illegalCharacters source filename) : finding.code = some "L001" := by
  obtain ⟨place, _, rfl⟩ := List.mem_map.mp member
  rfl

/-- The finding about the last quote of a source, if it opens a string that is not closed. -/
def unterminated (source filename : String) : List Finding :=
  (openQuote? source.toList 0).toList.map fun quote =>
    .unterminatedString (.ofIndex filename source.toList quote)

theorem findings_eq_append (source filename : String) :
    findings source filename =
      illegalCharacters source filename ++ unterminated source filename := by
  obtain ⟨pieces, tail, reads⟩ := exists_reads source.toList
  have start : source.toList.drop 0 = source.toList := rfl
  exact (reads.findings_source filename).trans (reads.findings_eq start rfl filename)

/-- The findings of a source, by the parity of its double quotes: the stray characters outside
strings in their order, and then the last quote, if it opens a string that is not closed. -/
theorem findings_by_parity (source filename : String) :
    findings source filename =
        (strays source.toList).map (fun place =>
          .illegalCharacter place.1 (.ofIndex filename source.toList place.2)) ++
        (openQuote? source.toList 0).toList.map (fun quote =>
          .unterminatedString (.ofIndex filename source.toList quote)) ∧
      (tokenize source filename).countP (fun token => token.kind = .string) =
        (source.toList.count '"' + 1) / 2 ∧
      ((∃ tokens, tokenizeText source filename true = .ok tokens) ↔
        source.toList.count '"' % 2 = 0 ∧ ∀ index c, source.toList[index]? = some c →
          outsideStrings source.toList index = true → inAlphabet c = true) := by
  refine ⟨findings_eq_append source filename, ?_, ?_⟩
  · obtain ⟨pieces, tail, reads⟩ := exists_reads source.toList
    rw [reads.tokenize_source, ← reads.count_strings, ← Cursor.map_snd_places (.ofIndex _ 0) pieces,
      List.countP_append, List.countP_map, List.countP_map]
    rfl
  · have nothing : findings source filename = [] ↔
        openQuote? source.toList 0 = none ∧ strays source.toList = [] := by
      rw [findings_eq_append, illegalCharacters, unterminated, List.append_eq_nil_iff,
        List.map_eq_nil_iff, List.map_eq_nil_iff, Option.toList_eq_nil_iff, and_comm]
    rw [← strays_eq_nil_iff, ← openQuote?_eq_none_iff, ← nothing]
    simp only [tokenizeText, ↓reduceIte, tokenizeStrict]
    cases findings source filename with
    | nil => simp
    | cons finding others => simp

end MonkeySource
