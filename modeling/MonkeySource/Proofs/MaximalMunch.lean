import MonkeySource.Proofs.Reachable

set_option autoImplicit false

/-!
# Maximal munch

The set of lexemes is given as a grammar. From every reachable state the next token is the one that
the longest lexeme at the head of the unread source stands for.
-/

namespace MonkeySource

/-- The texts that are lexemes. -/
inductive IsLexeme : List Char → Prop where
  | digits {run} : run ≠ [] → (∀ c ∈ run, isDigit c = true) → IsLexeme run
  | word {c rest} : isLetter c = true → (∀ d ∈ rest, isWordPart d = true) → IsLexeme (c :: rest)
  | openString {body} : '"' ∉ body → IsLexeme ('"' :: body)
  | closedString {body} : '"' ∉ body → IsLexeme ('"' :: (body ++ ['"']))
  | single {c fixed} : (c, fixed) ∈ singleSymbols → IsLexeme [c]
  | pair {first second fixed} :
      ((first, second), fixed) ∈ pairSymbols → IsLexeme [first, second]

/-- The kind and the literal of the token that a lexeme stands for. A string stands for what is
between its quotes, and every other lexeme for itself. -/
inductive Denotes : List Char → TokenKind → String → Prop where
  | digits {run} : run ≠ [] → (∀ c ∈ run, isDigit c = true) →
      Denotes run .integer (String.ofList run)
  | reserved {word} {keyword : Keyword} : keyword.spelling = String.ofList word →
      Denotes word (.keyword keyword) (String.ofList word)
  | name {c rest} : isLetter c = true → (∀ d ∈ rest, isWordPart d = true) →
      (∀ keyword : Keyword, keyword.spelling ≠ String.ofList (c :: rest)) →
      Denotes (c :: rest) .identifier (String.ofList (c :: rest))
  | openString {body} : '"' ∉ body → Denotes ('"' :: body) .string (String.ofList body)
  | closedString {body} : '"' ∉ body →
      Denotes ('"' :: (body ++ ['"'])) .string (String.ofList body)
  | single {c fixed} : (c, fixed) ∈ singleSymbols → Denotes [c] (.symbol fixed) (String.ofList [c])
  | pair {first second fixed} : ((first, second), fixed) ∈ pairSymbols →
      Denotes [first, second] (.symbol fixed) (String.ofList [first, second])

def Longest (text lexeme : List Char) : Prop :=
  IsLexeme lexeme ∧ lexeme <+: text ∧
    ∀ other, IsLexeme other → other <+: text → other.length ≤ lexeme.length

/-- The token at the head of a text without leading blanks, and how many characters it takes up. A
character that begins no lexeme is a token by itself. -/
inductive Munch : List Char → TokenKind → String → Nat → Prop where
  | endOfInput : Munch [] .endOfInput "" 0
  | lexeme {text lexeme kind literal} : Longest text lexeme → Denotes lexeme kind literal →
      Munch text kind literal lexeme.length
  | stray {c rest} : (∀ lexeme, lexeme <+: c :: rest → ¬ IsLexeme lexeme) →
      Munch (c :: rest) .illegal (String.ofList [c]) 1

theorem denotes_iff {text : List Char} {kind : TokenKind} {literal : String} :
    Denotes text kind literal ↔ ∃ lexeme : Lexeme, lexeme.Valid ∧ lexeme.shape ≠ .stray ∧
      lexeme.text = text ∧ lexeme.kind = kind ∧ lexeme.literal = literal := by
  constructor
  · intro denoted
    cases denoted with
    | digits some_digit digits =>
        exact ⟨.number text, ⟨some_digit, digits⟩, by simp [Lexeme.shape], rfl, rfl, rfl⟩
    | @reserved _ keyword spelled =>
        obtain rfl : keyword.spelling.toList = text := by simp [spelled]
        refine ⟨.word _, Lexeme.valid_spelling keyword, by simp [Lexeme.shape], rfl, ?_, rfl⟩
        simp [Lexeme.kind, TokenKind.ofWord_spelling]
    | name letter parts free =>
        refine ⟨.word _, ⟨_, _, rfl, letter, parts⟩, by simp [Lexeme.shape], rfl, ?_, rfl⟩
        exact TokenKind.ofWord_eq_identifier_iff.mpr free
    | @openString body free =>
        exact ⟨.quoted body false, free, by simp [Lexeme.shape], by simp [Lexeme.text], rfl, rfl⟩
    | @closedString body free =>
        exact ⟨.quoted body true, free, by simp [Lexeme.shape], by simp [Lexeme.text], rfl, rfl⟩
    | @single c fixed listed =>
        have spelled := Symbol.mem_singleSymbols_iff.mp listed
        refine ⟨.symbol fixed, trivial, by simp [Lexeme.shape], spelled, rfl, ?_⟩
        rw [← spelled]
        rfl
    | @pair first second fixed listed =>
        have spelled := Symbol.mem_pairSymbols_iff.mp listed
        refine ⟨.symbol fixed, trivial, by simp [Lexeme.shape], spelled, rfl, ?_⟩
        rw [← spelled]
        rfl
  · intro stands
    obtain ⟨lexeme, valid, notStray, rfl, rfl, rfl⟩ := stands
    cases lexeme with
    | symbol fixed =>
        rcases Symbol.spelling_cases fixed with ⟨c, spelled⟩ | ⟨c, _, spelled⟩
        · have denoted := Denotes.single (Symbol.mem_singleSymbols_iff.mpr spelled)
          rwa [← spelled] at denoted
        · have denoted := Denotes.pair (Symbol.mem_pairSymbols_iff.mpr spelled)
          rwa [← spelled] at denoted
    | word letters =>
        obtain ⟨c, rest, rfl, letter, parts⟩ := valid
        simp only [Lexeme.text, Lexeme.kind, Lexeme.literal]
        rcases TokenKind.ofWord_cases (String.ofList (c :: rest)) with
          ⟨keyword, spelled, kind⟩ | ⟨free, kind⟩
        · rw [kind]
          exact .reserved spelled
        · rw [kind]
          exact .name letter parts free
    | number digits => exact .digits valid.1 valid.2
    | quoted body closed =>
        cases closed with
        | false =>
            have spelled : (Lexeme.quoted body false).text = '"' :: body := by simp [Lexeme.text]
            rw [spelled]
            exact .openString valid
        | true => exact .closedString valid
    | stray c => exact False.elim (notStray rfl)

theorem isLexeme_iff {text : List Char} :
    IsLexeme text ↔
      ∃ lexeme : Lexeme, lexeme.Valid ∧ lexeme.shape ≠ .stray ∧ lexeme.text = text := by
  constructor
  · intro grammatical
    have denoted : ∃ kind literal, Denotes text kind literal := by
      cases grammatical with
      | digits some_digit digits => exact ⟨_, _, .digits some_digit digits⟩
      | @word c rest letter parts =>
          have denoted := denotes_iff.mpr ⟨.word (c :: rest), ⟨c, rest, rfl, letter, parts⟩,
            by simp [Lexeme.shape], rfl, rfl, rfl⟩
          exact ⟨_, _, denoted⟩
      | openString free => exact ⟨_, _, .openString free⟩
      | closedString free => exact ⟨_, _, .closedString free⟩
      | single listed => exact ⟨_, _, .single listed⟩
      | pair listed => exact ⟨_, _, .pair listed⟩
    obtain ⟨kind, literal, denoted⟩ := denoted
    obtain ⟨lexeme, valid, notStray, spelled, _⟩ := denotes_iff.mp denoted
    exact ⟨lexeme, valid, notStray, spelled⟩
  · intro stands
    obtain ⟨lexeme, valid, notStray, rfl⟩ := stands
    have denoted := denotes_iff.mpr ⟨lexeme, valid, notStray, rfl, rfl, rfl⟩
    generalize lexeme.text = text, lexeme.kind = kind, lexeme.literal = literal at denoted
    cases denoted with
    | digits some_digit digits => exact .digits some_digit digits
    | @reserved _ keyword spelled =>
        obtain rfl : keyword.spelling.toList = text := by simp [spelled]
        obtain ⟨c, rest, split, letter, parts⟩ := Lexeme.valid_spelling keyword
        rw [split]
        exact .word letter parts
    | name letter parts _ => exact .word letter parts
    | openString free => exact .openString free
    | closedString free => exact .closedString free
    | single listed => exact .single listed
    | pair listed => exact .pair listed

theorem IsLexeme.ne_nil {text : List Char} (grammatical : IsLexeme text) : text ≠ [] := by
  obtain ⟨lexeme, valid, _, rfl⟩ := isLexeme_iff.mp grammatical
  exact valid.text_ne_nil

private theorem Longest.unique {text first second : List Char} (firstLongest : Longest text first)
    (secondLongest : Longest text second) : first = second := by
  obtain ⟨firstLexeme, firstPrefix, firstBound⟩ := firstLongest
  obtain ⟨secondLexeme, secondPrefix, secondBound⟩ := secondLongest
  have shorter := secondBound first firstLexeme firstPrefix
  have longer := firstBound second secondLexeme secondPrefix
  have inside := List.prefix_of_prefix_length_le firstPrefix secondPrefix shorter
  exact inside.eq_of_length_le longer

private theorem Denotes.unique {text : List Char} {kind otherKind : TokenKind}
    {literal otherLiteral : String} (denoted : Denotes text kind literal)
    (other : Denotes text otherKind otherLiteral) : otherKind = kind ∧ otherLiteral = literal := by
  obtain ⟨first, firstValid, _, spelled, rfl, rfl⟩ := denotes_iff.mp denoted
  obtain ⟨second, secondValid, _, rfl, rfl, rfl⟩ := denotes_iff.mp other
  rw [firstValid.eq_of_text_eq secondValid spelled]
  exact ⟨rfl, rfl⟩

theorem Munch.unique {text : List Char} {kind otherKind : TokenKind}
    {literal otherLiteral : String} {length otherLength : Nat}
    (munch : Munch text kind literal length) (other : Munch text otherKind otherLiteral otherLength) :
    otherKind = kind ∧ otherLiteral = literal ∧ otherLength = length := by
  cases munch with
  | endOfInput =>
      cases other with
      | endOfInput => exact ⟨rfl, rfl, rfl⟩
      | lexeme longest _ =>
          exact False.elim (longest.1.ne_nil (List.prefix_nil.mp longest.2.1))
  | lexeme longest denoted =>
      cases other with
      | endOfInput => exact False.elim (longest.1.ne_nil (List.prefix_nil.mp longest.2.1))
      | lexeme otherLongest otherDenoted =>
          obtain rfl := longest.unique otherLongest
          obtain ⟨rfl, rfl⟩ := denoted.unique otherDenoted
          exact ⟨rfl, rfl, rfl⟩
      | stray none_fits => exact False.elim (none_fits _ longest.2.1 longest.1)
  | stray none_fits =>
      cases other with
      | lexeme longest _ => exact False.elim (none_fits _ longest.2.1 longest.1)
      | stray _ => exact ⟨rfl, rfl, rfl⟩

/-- A valid lexeme that ends is the longest one there, unless it is a stray character; then there is
none. -/
theorem Lexeme.Valid.munch {lexeme : Lexeme} {rest : List Char} (valid : lexeme.Valid)
    (ends : lexeme.Ends rest) :
    Munch (lexeme.text ++ rest) lexeme.kind lexeme.literal lexeme.text.length := by
  by_cases stray : lexeme.shape = .stray
  · cases lexeme with
    | stray c =>
        refine .stray fun text fits grammatical => ?_
        obtain ⟨other, otherValid, notStray, rfl⟩ := isLexeme_iff.mp grammatical
        obtain ⟨d, more, spelled⟩ := List.exists_cons_of_ne_nil otherValid.text_ne_nil
        rw [spelled, List.cons_prefix_cons] at fits
        obtain ⟨rfl, _⟩ := fits
        rw [← otherValid.ofChar_eq_shape spelled, valid.ofChar_eq_shape rfl] at notStray
        exact notStray rfl
    | symbol _ | word _ | number _ | quoted _ _ => simp [Lexeme.shape] at stray
  · refine .lexeme ⟨isLexeme_iff.mpr ⟨lexeme, valid, stray, rfl⟩, List.prefix_append _ _, ?_⟩
      (denotes_iff.mpr ⟨lexeme, valid, stray, rfl, rfl, rfl⟩)
    intro text grammatical fits
    obtain ⟨other, otherValid, _, rfl⟩ := isLexeme_iff.mp grammatical
    obtain ⟨after, split⟩ := fits
    -- a longer lexeme would go on with a character that this one refuses
    rcases List.append_eq_append_iff.mp split with ⟨more, longer, _⟩ | ⟨more, longer, tail⟩
    · rw [longer, List.length_append]
      omega
    · cases more with
      | nil => rw [longer, List.append_nil]
      | cons c more =>
          exact False.elim (ends c (by simp [tail])
            (valid.absorbs_of_text_append otherValid longer))

theorem Scanner.next_munch (scanner : Scanner) :
    ∃ length, Munch (scanner.cursor.rest.dropWhile isBlank) scanner.next.1.kind
        scanner.next.1.literal length ∧
      scanner.next.1.location =
        some ((scanner.cursor.skipWhile isBlank).location scanner.filename) ∧
      scanner.next.2.cursor = (scanner.cursor.skipWhile isBlank).move length := by
  rcases blank_or_leads scanner.cursor.rest with blank | ⟨gap, lexeme, rest, leads⟩
  · rw [next_of_blank blank, List.dropWhile_eq_nil_iff.mpr blank, Cursor.skipWhile,
      List.takeWhile_eq_self_iff.mpr blank]
    exact ⟨0, .endOfInput, rfl, rfl⟩
  · rw [next_of_leads leads, leads.dropWhile_eq, Cursor.skipWhile, leads.takeWhile_eq]
    exact ⟨_, leads.valid.munch leads.ends, rfl, rfl⟩

/-- From every state that any steps lead to, the next token is the one token that the unread source
begins with after its blanks; it is placed there, and the cursor moves exactly behind it. -/
theorem Session.next_after_munch (source filename : String) (steps : List Step) :
    let scanner := ((Session.ofSource source filename).after steps).scanner
    let unread := source.toList.drop scanner.cursor.offset
    let start := scanner.cursor.offset + (unread.takeWhile isBlank).length
    let token := scanner.next.1
    let following := scanner.next.2
    ∃ length, Munch (unread.dropWhile isBlank) token.kind token.literal length ∧
      token.location = some (.ofIndex scanner.filename source.toList start) ∧
      following.cursor = Cursor.ofIndex source.toList (start + length) ∧
      ∀ kind literal size, Munch (unread.dropWhile isBlank) kind literal size →
        kind = token.kind ∧ literal = token.literal ∧ size = length := by
  intro scanner unread start token following
  have here : scanner.cursor = .ofIndex source.toList scanner.cursor.offset :=
    cursor_after_ofSource source filename steps
  have remaining : scanner.cursor.rest = unread := by
    rw [here, Cursor.rest_ofIndex]
  have skipped : scanner.cursor.skipWhile isBlank = .ofIndex source.toList start := by
    rw [Cursor.skipWhile, remaining, here, Cursor.move_ofIndex]
  obtain ⟨length, munch, placed, moved⟩ := scanner.next_munch
  rw [remaining] at munch
  rw [skipped] at placed moved
  rw [Cursor.location_ofIndex] at placed
  refine ⟨length, munch, placed, ?_, fun kind literal size other => munch.unique other⟩
  rw [← Cursor.move_ofIndex]
  exact moved

end MonkeySource
