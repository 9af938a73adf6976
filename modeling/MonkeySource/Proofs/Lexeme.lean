import Mathlib.Data.List.TakeWhile
import Mathlib.Tactic.SplitIfs
import MonkeySource.Proofs.Alphabet
import MonkeySource.Scanner.Lexeme

set_option autoImplicit false

/-!
# Lexemes as pieces of text

A lexeme is found at the head of a text exactly if it is one that a scan can find, the text begins
with it, and it would not take in the character that follows it.
-/

namespace MonkeySource.Lexeme

/-- Whether a lexeme right before a character would take the character in. Only an open string takes
in everything. -/
def Absorbs : Lexeme → Char → Prop
  | .symbol fixed, c => (fixed = .operator .assign ∨ fixed = .operator .bang) ∧ c = '='
  | .word _, c => isWordPart c = true
  | .number _, c => isDigit c = true
  | .quoted _ closed, _ => closed = false
  | .stray _, _ => False

def Ends (lexeme : Lexeme) (rest : List Char) : Prop :=
  ∀ c ∈ rest.head?, ¬ lexeme.Absorbs c

/-- The lexemes that a scan can find after the blanks. -/
def Valid : Lexeme → Prop
  | .symbol _ => True
  | .word letters => ∃ c rest, letters = c :: rest ∧ isLetter c = true ∧
      ∀ d ∈ rest, isWordPart d = true
  | .number digits => digits ≠ [] ∧ ∀ d ∈ digits, isDigit d = true
  | .quoted body _ => '"' ∉ body
  | .stray c => isBlank c = false ∧ c ≠ '"' ∧ isWordPart c = false ∧ Symbol.ofChar? c = none

inductive Shape where
  | symbol
  | word
  | number
  | quoted
  | stray
  deriving DecidableEq

def shape : Lexeme → Shape
  | .symbol _ => .symbol
  | .word _ => .word
  | .number _ => .number
  | .quoted _ _ => .quoted
  | .stray _ => .stray

def Shape.ofChar (c : Char) : Shape :=
  if (Symbol.ofChar? c).isSome then .symbol
  else if c = '"' then .quoted
  else if isLetter c then .word
  else if isDigit c then .number
  else .stray

private theorem ofChar?_eq_none {c : Char} (other : isWordPart c = true ∨ c = '"') :
    Symbol.ofChar? c = none := by
  cases found : Symbol.ofChar? c with
  | none => rfl
  | some fixed =>
      obtain ⟨_, _, notWord, notQuote⟩ := fixed.head_class (Symbol.ofChar?_eq_some_iff.mp found)
      rcases other with word | quote
      · rw [notWord] at word
        cases word
      · exact False.elim (notQuote quote)

private theorem not_quote_of_isWordPart {c : Char} (part : isWordPart c = true) : c ≠ '"' := by
  intro isQuote
  rw [isQuote, isWordPart_quote] at part
  cases part

theorem Valid.ofChar_eq_shape {lexeme : Lexeme} {c : Char} {rest : List Char}
    (valid : lexeme.Valid) (spelled : lexeme.text = c :: rest) :
    Shape.ofChar c = lexeme.shape := by
  cases lexeme with
  | symbol fixed =>
      have known := (fixed.head_class spelled).1
      simp [Shape.ofChar, known, shape]
  | word letters =>
      obtain ⟨first, more, rfl, letter, _⟩ := valid
      obtain ⟨rfl, _⟩ := List.cons.inj spelled
      have part := isWordPart_of_isLetter letter
      simp [Shape.ofChar, shape, letter, ofChar?_eq_none (.inl part), not_quote_of_isWordPart part]
  | number digits =>
      obtain rfl : digits = c :: rest := spelled
      have digit := valid.2 c List.mem_cons_self
      have part := isWordPart_of_isDigit digit
      have notLetter : isLetter c = false := by
        cases letter : isLetter c with
        | false => rfl
        | true => rw [isDigit_eq_false_of_isLetter letter] at digit; cases digit
      simp [Shape.ofChar, shape, digit, notLetter, ofChar?_eq_none (.inl part),
        not_quote_of_isWordPart part]
  | quoted body closed =>
      obtain ⟨rfl, _⟩ := List.cons.inj spelled
      simp [Shape.ofChar, shape, ofChar?_eq_none (.inr rfl)]
  | stray other =>
      obtain ⟨rfl, _⟩ := List.cons.inj spelled
      obtain ⟨_, notQuote, notWord, unknown⟩ := valid
      have notClass : isLetter other = false ∧ isDigit other = false := by
        simpa [isWordPart] using notWord
      simp [Shape.ofChar, shape, notQuote, unknown, notClass]

theorem Shape.ofChar_eq_word_iff {c : Char} : ofChar c = .word ↔ isLetter c = true := by
  constructor
  · intro class_eq
    unfold ofChar at class_eq
    split_ifs at class_eq with _ _ letter
    exact letter
  · intro letter
    have valid : (Lexeme.word [c]).Valid := ⟨c, [], rfl, letter, by simp⟩
    exact valid.ofChar_eq_shape rfl

theorem Shape.ofChar_eq_number_iff {c : Char} : ofChar c = .number ↔ isDigit c = true := by
  constructor
  · intro class_eq
    unfold ofChar at class_eq
    split_ifs at class_eq with _ _ _ digit
    exact digit
  · intro digit
    have valid : (Lexeme.number [c]).Valid := ⟨by simp, by simpa using digit⟩
    exact valid.ofChar_eq_shape rfl

theorem Valid.text_ne_nil {lexeme : Lexeme} (valid : lexeme.Valid) : lexeme.text ≠ [] := by
  cases lexeme with
  | symbol fixed =>
      rcases Symbol.spelling_cases fixed with ⟨c, spelled⟩ | ⟨c, _, spelled⟩ <;> simp [text, spelled]
  | word letters =>
      obtain ⟨c, rest, rfl, _⟩ := valid
      simp [text]
  | number digits => exact valid.1
  | quoted body closed => simp [text]
  | stray c => simp [text]

/-- Blanks stand between lexemes and in strings, but in no other lexeme. -/
theorem Valid.not_blank_of_mem {lexeme : Lexeme} (valid : lexeme.Valid)
    (notString : lexeme.shape ≠ .quoted) : ∀ c ∈ lexeme.text, isBlank c = false := by
  intro d member
  cases lexeme with
  | symbol fixed => exact (Symbol.class_of_mem_spelling member).2.1
  | word letters =>
      obtain ⟨c, rest, rfl, letter, parts⟩ := valid
      cases member with
      | head => exact isBlank_eq_false_of_isWordPart (isWordPart_of_isLetter letter)
      | tail _ later => exact isBlank_eq_false_of_isWordPart (parts d later)
  | number digits =>
      exact isBlank_eq_false_of_isWordPart (isWordPart_of_isDigit (valid.2 d member))
  | quoted body closed => exact absurd rfl notString
  | stray c =>
      obtain rfl := List.mem_singleton.mp member
      exact valid.1

theorem Valid.head_not_blank {lexeme : Lexeme} {c : Char} {rest : List Char}
    (valid : lexeme.Valid) (spelled : lexeme.text = c :: rest) : isBlank c = false := by
  cases lexeme with
  | quoted body closed =>
      obtain ⟨rfl, _⟩ := List.cons.inj spelled
      exact isBlank_quote
  | symbol _ | word _ | number _ | stray _ =>
      exact valid.not_blank_of_mem (by simp [shape]) c (spelled ▸ List.mem_cons_self)

theorem Absorbs.open_of_isBlank {lexeme : Lexeme} {c : Char} (absorbed : lexeme.Absorbs c)
    (blank : isBlank c = true) : ∃ body, lexeme = .quoted body false := by
  have notWord := isWordPart_eq_false_of_isBlank blank
  cases lexeme with
  | symbol fixed =>
      obtain ⟨_, rfl⟩ := absorbed
      exact absurd blank (by decide)
  | word letters => exact absurd absorbed (by simp [Absorbs, notWord])
  | number digits => exact absurd (isWordPart_of_isDigit absorbed) (by simp [notWord])
  | quoted body closed =>
      obtain rfl : closed = false := absorbed
      exact ⟨body, rfl⟩
  | stray d => exact False.elim absorbed

theorem Ends.eq_nil_of_open {body rest : List Char} (ends : (quoted body false).Ends rest) :
    rest = [] := by
  cases rest with
  | nil => rfl
  | cons c rest => exact False.elim (ends c rfl rfl)

theorem eq_quoted_of_kind {lexeme : Lexeme} (isString : lexeme.kind = .string) :
    ∃ body closed, lexeme = .quoted body closed := by
  cases lexeme with
  | quoted body closed => exact ⟨body, closed, rfl⟩
  | word letters =>
      rcases TokenKind.ofWord_cases (String.ofList letters) with ⟨_, _, found⟩ | ⟨_, found⟩ <;>
        simp [kind, found] at isString
  | symbol _ | number _ | stray _ => simp [kind] at isString

theorem text_eq_literal {lexeme : Lexeme} (notString : lexeme.kind ≠ .string) :
    lexeme.text = lexeme.literal.toList := by
  cases lexeme with
  | quoted body closed => exact False.elim (notString rfl)
  | symbol _ | word _ | number _ | stray _ => simp [literal]

theorem valid_spelling (keyword : Keyword) : (word keyword.spelling.toList).Valid := by
  cases keyword <;> exact ⟨_, _, rfl, by decide, List.all_eq_true.mp (by decide)⟩

private theorem same_shape {first second : Lexeme} {rest : List Char} (firstValid : first.Valid)
    (secondValid : second.Valid) (longer : second.text = first.text ++ rest) :
    second.shape = first.shape := by
  obtain ⟨c, more, spelled⟩ := List.exists_cons_of_ne_nil firstValid.text_ne_nil
  rw [spelled, List.cons_append] at longer
  rw [← secondValid.ofChar_eq_shape longer, firstValid.ofChar_eq_shape spelled]

/-- A valid lexeme is the beginning of a longer one only if it takes in the next character. -/
theorem Valid.absorbs_of_text_append {first second : Lexeme} {c : Char} {rest : List Char}
    (firstValid : first.Valid) (secondValid : second.Valid)
    (longer : second.text = first.text ++ c :: rest) : first.Absorbs c := by
  have alike := same_shape firstValid secondValid longer
  cases first with
  | symbol fixed =>
      cases second with
      | symbol other =>
          change other.spelling.toList = fixed.spelling.toList ++ c :: rest at longer
          rcases Symbol.spelling_cases fixed with ⟨d, spelled⟩ | ⟨d, _, spelled⟩ <;>
            rcases Symbol.spelling_cases other with ⟨e, long⟩ | ⟨e, starts, long⟩ <;>
            simp only [spelled, long, List.cons_append, List.nil_append, List.cons.injEq,
              reduceCtorEq, and_false] at longer
          obtain ⟨rfl, rfl, _⟩ := longer
          refine ⟨?_, rfl⟩
          have found := Symbol.ofChar?_eq_some_iff.mpr spelled
          rcases starts with rfl | rfl
          · exact .inl (Option.some.inj found).symm
          · exact .inr (Option.some.inj found).symm
      | word _ | number _ | quoted _ _ | stray _ => simp [shape] at alike
  | word letters =>
      cases second with
      | word others =>
          obtain ⟨d, more, rfl, _⟩ := firstValid
          obtain ⟨e, most, rfl, _, parts⟩ := secondValid
          obtain ⟨rfl, rfl⟩ := List.cons.inj longer
          exact parts c (by simp)
      | symbol _ | number _ | quoted _ _ | stray _ => simp [shape] at alike
  | number digits =>
      cases second with
      | number others =>
          obtain rfl : others = digits ++ c :: rest := longer
          exact secondValid.2 c (by simp)
      | symbol _ | word _ | quoted _ _ | stray _ => simp [shape] at alike
  | quoted body closed =>
      cases second with
      | quoted other otherClosed =>
          cases closed with
          | false => rfl
          | true =>
              -- the closing quote stands in the other body, which has none
              have bodies : other ++ (if otherClosed then ['"'] else []) = body ++ '"' :: c :: rest := by
                simpa [text] using longer
              rcases List.append_eq_append_iff.mp bodies with ⟨more, rfl, split⟩ | ⟨more, rfl, split⟩
              · cases otherClosed <;> cases more <;> simp at split
              · cases more with
                | nil => cases otherClosed <;> simp at split
                | cons d more =>
                    obtain ⟨rfl, _⟩ := List.cons.inj split
                    exact False.elim (secondValid (by simp))
      | symbol _ | word _ | number _ | stray _ => simp [shape] at alike
  | stray d =>
      cases second with
      | stray e => simp [text] at longer
      | symbol _ | word _ | number _ | quoted _ _ => simp [shape] at alike

theorem Valid.eq_of_text_eq {first second : Lexeme} (firstValid : first.Valid)
    (secondValid : second.Valid) (same : first.text = second.text) : first = second := by
  have longer : second.text = first.text ++ [] := by rw [List.append_nil, same]
  have alike := same_shape firstValid secondValid longer
  cases first with
  | symbol fixed =>
      cases second with
      | symbol other => rw [Symbol.spelling_injective (String.toList_inj.mp same)]
      | word _ | number _ | quoted _ _ | stray _ => simp [shape] at alike
  | word letters =>
      cases second with
      | word others => exact congrArg Lexeme.word same
      | symbol _ | number _ | quoted _ _ | stray _ => simp [shape] at alike
  | number digits =>
      cases second with
      | number others => exact congrArg Lexeme.number same
      | symbol _ | word _ | quoted _ _ | stray _ => simp [shape] at alike
  | quoted body closed =>
      cases second with
      | quoted other otherClosed =>
          simp only [text, List.cons.injEq, true_and] at same
          cases closed <;> cases otherClosed <;> simp at same
          · rw [same]
          · exact False.elim (firstValid (by simp [same]))
          · exact False.elim (secondValid (by simp [← same]))
          · rw [same]
      | symbol _ | word _ | number _ | stray _ => simp [shape] at alike
  | stray c =>
      cases second with
      | stray d => simpa [text] using same
      | symbol _ | word _ | number _ | quoted _ _ => simp [shape] at alike

private theorem eq_of_shorter {first second : Lexeme} {more firstRest secondRest : List Char}
    (firstValid : first.Valid) (secondValid : second.Valid) (firstEnds : first.Ends firstRest)
    (longer : second.text = first.text ++ more) (split : firstRest = more ++ secondRest) :
    first = second ∧ firstRest = secondRest := by
  cases more with
  | nil => exact ⟨firstValid.eq_of_text_eq secondValid (by simpa using longer.symm), split⟩
  | cons c more =>
      exact False.elim (firstEnds c (by simp [split])
        (firstValid.absorbs_of_text_append secondValid longer))

/-- A text begins with one valid lexeme that can end there, and with no other. -/
theorem Valid.unique {first second : Lexeme} {firstRest secondRest : List Char}
    (firstValid : first.Valid) (secondValid : second.Valid) (firstEnds : first.Ends firstRest)
    (secondEnds : second.Ends secondRest)
    (same : first.text ++ firstRest = second.text ++ secondRest) :
    first = second ∧ firstRest = secondRest := by
  rcases List.append_eq_append_iff.mp same with ⟨more, longer, split⟩ | ⟨more, longer, split⟩
  · exact eq_of_shorter firstValid secondValid firstEnds longer split
  · obtain ⟨lexemes, rests⟩ := eq_of_shorter secondValid firstValid secondEnds longer split
    exact ⟨lexemes.symm, rests.symm⟩

private theorem not_of_head_dropWhile {test : Char → Bool} {text : List Char} {c : Char}
    (head : c ∈ (text.dropWhile test).head?) : test c = false := by
  have stopped := List.head?_dropWhile_not test text
  rw [Option.mem_def.mp head] at stopped
  exact stopped

private theorem ends_dropWhile {lexeme : Lexeme} {test : Char → Bool}
    (passes : ∀ c, lexeme.Absorbs c → test c = true) (text : List Char) :
    lexeme.Ends (text.dropWhile test) := by
  intro c head absorbed
  have failed := not_of_head_dropWhile head
  rw [passes c absorbed] at failed
  cases failed

private theorem symbol_first?_sound {source : List Char} {fixed : Symbol}
    (found : Symbol.first? source = some fixed) :
    ∃ rest, source = (symbol fixed).text ++ rest ∧ (symbol fixed).Ends rest := by
  match source, found with
  | [c], found =>
      refine ⟨[], ?_, by simp [Ends]⟩
      simp [text, Symbol.ofChar?_eq_some_iff.mp found]
  | c :: d :: rest, found =>
      simp only [Symbol.first?] at found
      cases pair : Symbol.ofPair? c d with
      | some fixed =>
          obtain rfl : fixed = _ := by simpa [pair] using found
          have spelled := Symbol.ofPair?_eq_some_iff.mp pair
          refine ⟨rest, by simp [text, spelled], ?_⟩
          intro e _ absorbed
          rcases absorbed.1 with rfl | rfl <;> simp [Symbol.spelling] at spelled
      | none =>
          have spelled := Symbol.ofChar?_eq_some_iff.mp (by simpa [pair] using found)
          refine ⟨d :: rest, by simp [text, spelled], ?_⟩
          intro e head absorbed
          obtain ⟨single, rfl⟩ := absorbed
          obtain rfl : d = '=' := by simpa using head
          rcases single with rfl | rfl <;>
            (obtain ⟨rfl, _⟩ := List.cons.inj spelled; revert pair; decide)

private theorem ofChar?_eq_none_of_first? {c : Char} {rest : List Char}
    (missing : Symbol.first? (c :: rest) = none) : Symbol.ofChar? c = none := by
  cases rest with
  | nil => exact missing
  | cons d rest => exact (Option.or_eq_none_iff.mp missing).2

theorem takeWhile_ne_of_not_mem {mark : Char} {text : List Char} (absent : mark ∉ text) :
    text.takeWhile (· ≠ mark) = text :=
  List.takeWhile_eq_self_iff.mpr fun _ member =>
    decide_eq_true fun isMark => absent (isMark ▸ member)

private theorem quoted_body_split (rest : List Char) :
    ∃ after, rest = rest.takeWhile (· ≠ '"') ++ (if decide ('"' ∈ rest) then ['"'] else []) ++ after ∧
      ('"' ∉ rest → after = []) := by
  have split := List.takeWhile_append_dropWhile (p := (· ≠ '"')) (l := rest)
  by_cases closed : '"' ∈ rest
  · cases stopped : rest.dropWhile (· ≠ '"') with
    | nil => exact False.elim (by simpa using List.dropWhile_eq_nil_iff.mp stopped '"' closed)
    | cons c after =>
        have isQuote := not_of_head_dropWhile (c := c) (by rw [stopped]; rfl)
        obtain rfl : c = '"' := Decidable.not_not.mp (of_decide_eq_false isQuote)
        rw [stopped] at split
        exact ⟨after, by simpa [closed] using split.symm, fun missing => absurd closed missing⟩
  · exact ⟨[], by rw [takeWhile_ne_of_not_mem closed]; simp [closed], fun _ => rfl⟩

theorem first?_sound {source : List Char} {lexeme : Lexeme} (found : first? source = some lexeme)
    (visible : ∀ c ∈ source.head?, isBlank c = false) :
    lexeme.Valid ∧ ∃ rest, source = lexeme.text ++ rest ∧ lexeme.Ends rest := by
  cases source with
  | nil => simp [first?] at found
  | cons c rest =>
      simp only [first?] at found
      cases known : Symbol.first? (c :: rest) with
      | some fixed =>
          obtain rfl : symbol fixed = lexeme := by simpa [known] using found
          exact ⟨trivial, symbol_first?_sound known⟩
      | none =>
          simp only [known] at found
          split at found
          · next isQuote =>
              obtain rfl := Option.some.inj found
              obtain rfl := isQuote
              obtain ⟨after, split, whole⟩ := quoted_body_split rest
              refine ⟨fun member => by simpa using List.mem_takeWhile_imp member, after, ?_, ?_⟩
              · rw [text, List.cons_append, ← split]
              · intro d head absorbed
                rw [whole (by simpa [Absorbs] using absorbed)] at head
                cases head
          · split at found
            · next letter =>
                obtain rfl := Option.some.inj found
                refine ⟨⟨c, _, rfl, letter, fun d member => List.mem_takeWhile_imp member⟩,
                  rest.dropWhile isWordPart, by simp [text], ?_⟩
                refine ends_dropWhile ?_ rest
                exact fun d absorbed => absorbed
            · split at found
              · next digit =>
                  obtain rfl := Option.some.inj found
                  refine ⟨⟨by simp, ?_⟩, rest.dropWhile isDigit, by simp [text], ?_⟩
                  · intro d member
                    rcases List.mem_cons.mp member with rfl | member
                    · exact digit
                    · exact List.mem_takeWhile_imp member
                  · refine ends_dropWhile ?_ rest
                    exact fun d absorbed => absorbed
              · next notQuote notLetter notDigit =>
                  obtain rfl := Option.some.inj found
                  refine ⟨⟨visible c rfl, notQuote, ?_, ofChar?_eq_none_of_first? known⟩,
                    rest, rfl, fun d _ absorbed => absorbed⟩
                  simp [isWordPart, notLetter, notDigit]

theorem location_of_finding? {lexeme : Lexeme} {location : Location} {finding : Finding}
    (found : lexeme.finding? location = some finding) : finding.location = location := by
  cases lexeme with
  | quoted body closed =>
      cases closed with
      | true => cases found
      | false =>
          obtain rfl := Option.some.inj found
          rfl
  | stray c =>
      obtain rfl := Option.some.inj found
      rfl
  | symbol _ | word _ | number _ => cases found

theorem first?_eq_some_iff {source : List Char} {lexeme : Lexeme}
    (visible : ∀ c ∈ source.head?, isBlank c = false) :
    first? source = some lexeme ↔
      lexeme.Valid ∧ ∃ rest, source = lexeme.text ++ rest ∧ lexeme.Ends rest := by
  refine ⟨fun found => first?_sound found visible, fun stands => ?_⟩
  obtain ⟨valid, rest, rfl, ends⟩ := stands
  cases found : first? (lexeme.text ++ rest) with
  | none =>
      rw [first?_eq_none_iff, List.append_eq_nil_iff] at found
      exact False.elim (valid.text_ne_nil found.1)
  | some other =>
      obtain ⟨otherValid, otherRest, same, otherEnds⟩ := first?_sound found visible
      rw [(valid.unique otherValid ends otherEnds same).1]

end MonkeySource.Lexeme
