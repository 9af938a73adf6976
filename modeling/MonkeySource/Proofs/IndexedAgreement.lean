import MonkeySource.Proofs.IndexedScan
import MonkeySource.Proofs.SharedStream
import MonkeySource.Proofs.StrictReading

set_option autoImplicit false

/-!
# The machine agrees with the scanner

On the states that a scanner can be in, every look-up of the machine finds what it asks for and
every loop ends, and each operation leaves the machine where the scanner's own leaves the scanner.
-/

namespace MonkeySource

/-- An attempt that ends hands its result on. -/
theorem Attempt.bind_eq {α β : Type} {attempt : Attempt α} {result : α}
    (ends : attempt = pure result) (further : α → Attempt β) :
    attempt >>= further = further result := by
  rw [ends, pure_bind]

/-- The cursor is one of this input: what is left is the input from its offset on. -/
def Cursor.PointsInto (input : List Char) (cursor : Cursor) : Prop :=
  cursor.rest = input.drop cursor.offset

theorem Cursor.PointsInto.onward {input : List Char} {earlier later : Cursor}
    (here : earlier.PointsInto input) (onward : earlier.Onward later) : later.PointsInto input := by
  obtain ⟨count, rfl⟩ := onward
  rw [PointsInto, rest_move, offset_move, here, List.drop_drop]

namespace Cursor.PointsInto

variable {input : List Char} {cursor : Cursor}

theorem current? (here : cursor.PointsInto input) : cursor.current? = input[cursor.offset]? := by
  rw [Cursor.current?, here, List.head?_drop]

theorem peek? (here : cursor.PointsInto input) : cursor.peek? = input[cursor.offset + 1]? := by
  rw [Cursor.peek?, here, List.tail_drop, List.head?_drop]

end Cursor.PointsInto

namespace IndexedScanner

variable {input : List Char} {scanner : Scanner}

/-- The test before it keeps the look-up inside the input, in whatever state. -/
theorem peek_eq (machine : IndexedScanner) :
    machine.peek = pure machine.input[machine.readPosition]? := by
  by_cases outside : machine.input.length ≤ machine.readPosition
  · rw [peek, if_pos outside, List.getElem?_eq_none outside]
  · have found := List.getElem?_eq_getElem (Nat.lt_of_not_le outside)
    rw [peek, if_neg outside, charAt, found, map_pure]

theorem current_indexed (here : scanner.cursor.PointsInto input) :
    (scanner.indexed input).current = scanner.cursor.current? :=
  here.current?.symm

theorem advance_indexed (here : scanner.cursor.PointsInto input) :
    (scanner.indexed input).advance = pure (scanner.advance.indexed input) := by
  rw [advance, peek_eq, pure_bind]
  simp only [Scanner.indexed, Scanner.advance, Cursor.advance, here.current?]
  rfl

/-- A loop ends where the scanner's own step does, because every round leaves less of the input. -/
theorem advanceWhile_indexed (test : Char → Bool) (here : scanner.cursor.PointsInto input) :
    (scanner.indexed input).advanceWhile test =
      pure ((scanner.readWhile test).2.indexed input) := by
  -- the machine counts nothing down, so the induction is on what its cursor has yet to pass
  induction unread : scanner.cursor.rest generalizing scanner with
  | nil =>
      have current : (scanner.indexed input).current = none := by
        rw [current_indexed here, Cursor.current?, unread, List.head?_nil]
      rw [advanceWhile, current]
      simp [Scanner.readWhile, Cursor.skipWhile, unread, Cursor.move]
  | cons c rest ih =>
      have current : (scanner.indexed input).current = some c := by
        rw [current_indexed here, Cursor.current?, unread, List.head?_cons]
      rw [advanceWhile, current]
      by_cases passes : test c = true
      · have moved : scanner.advance.cursor.PointsInto input :=
          here.onward scanner.cursor.onward_advance
        have left : scanner.advance.cursor.rest = rest := by
          rw [Scanner.advance, Cursor.advance, unread, List.tail_cons]
        have later := ih moved left
        simp only [passes, if_true, advance_indexed here, pure_bind, later]
        simp [Scanner.readWhile, Scanner.advance, Cursor.skipWhile, Cursor.advance, unread, passes,
          Cursor.move]
      · simp [passes, Scanner.readWhile, Cursor.skipWhile, unread, Cursor.move]

/-- The machine cuts out of the input what the scanner takes off what is left. -/
theorem slice_indexed (here : scanner.cursor.PointsInto input) {later : Scanner} {count : Nat}
    (moved : later.cursor = scanner.cursor.move count) :
    (later.indexed input).slice scanner.cursor.offset =
      String.ofList (scanner.cursor.rest.take count) := by
  rw [slice, Scanner.indexed, moved, Cursor.offset_move, here, List.drop_take,
    Nat.add_sub_cancel_left]

theorem slice_readWhile (test : Char → Bool) (here : scanner.cursor.PointsInto input) :
    ((scanner.readWhile test).2.indexed input).slice scanner.cursor.offset =
      (scanner.readWhile test).1 := by
  have whole := List.prefix_iff_eq_take.mp (List.takeWhile_prefix (l := scanner.cursor.rest) test)
  have moved : (scanner.readWhile test).2.cursor =
      scanner.cursor.move (scanner.cursor.rest.takeWhile test).length := rfl
  rw [slice_indexed here moved, ← whole, Scanner.readWhile]

theorem readWhile_indexed (test : Char → Bool) (here : scanner.cursor.PointsInto input) :
    (scanner.indexed input).readWhile test =
      pure ((scanner.readWhile test).1, (scanner.readWhile test).2.indexed input) := by
  rw [readWhile, advanceWhile_indexed test here, pure_bind, ← slice_readWhile test here]
  rfl

theorem readQuoted_indexed (here : scanner.cursor.PointsInto input) :
    (scanner.indexed input).readQuoted scanner.location =
      pure (scanner.readQuoted.1, scanner.readQuoted.2.indexed input) := by
  have opened : scanner.advance.cursor.PointsInto input :=
    here.onward scanner.cursor.onward_advance
  have stopped : (scanner.advance.readWhile (· ≠ '"')).2.cursor.PointsInto input :=
    opened.onward (scanner.advance.cursor.onward_skipWhile _)
  have position : (scanner.advance.indexed input).position = scanner.advance.cursor.offset := rfl
  have head : (scanner.advance.readWhile (· ≠ '"')).2.cursor.current? =
      (scanner.cursor.advance.skipWhile (· ≠ '"')).rest.head? := rfl
  rw [readQuoted, advance_indexed here, pure_bind, advanceWhile_indexed _ opened, pure_bind,
    position, slice_readWhile _ opened, current_indexed stopped, head, Scanner.readQuoted]
  cases (scanner.cursor.advance.skipWhile (· ≠ '"')).rest with
  | nil => rfl
  | cons c rest =>
      simp only [List.head?_cons, advance_indexed stopped, pure_bind]
      rfl

theorem isSome_ofPair?_iff {first second : Char} :
    (Symbol.ofPair? first second).isSome = true ↔ (first = '=' ∨ first = '!') ∧ second = '=' := by
  constructor
  · intro listed
    obtain ⟨fixed, found⟩ := Option.isSome_iff_exists.mp listed
    have spelled := Symbol.ofPair?_eq_some_iff.mp found
    rcases fixed.spelling_cases with ⟨c, single⟩ | ⟨c, begins, pair⟩
    · simp [single] at spelled
    · rw [spelled] at pair
      simp only [List.cons.injEq, and_true] at pair
      exact ⟨pair.1 ▸ begins, pair.2⟩
  · rintro ⟨rfl | rfl, rfl⟩ <;> decide

def pairAt? (c : Char) (rest : List Char) : Option Symbol := rest.head?.bind (Symbol.ofPair? c)

theorem first?_cons (c : Char) (rest : List Char) :
    Symbol.first? (c :: rest) = (pairAt? c rest).or (Symbol.ofChar? c) := by
  cases rest with
  | nil => rfl
  | cons second rest => rfl

/-- The test before the table is as strict as the table. -/
theorem beginsPair_indexed (here : scanner.cursor.PointsInto input) {c : Char} {rest : List Char}
    (unread : scanner.cursor.rest = c :: rest) :
    (scanner.indexed input).beginsPair c = pure (pairAt? c rest).isSome := by
  have upcoming : (scanner.indexed input).peek = pure rest.head? := by
    rw [peek_eq, Scanner.indexed, ← here.peek?, Cursor.peek?, unread, List.tail_cons]
  have listed : (pairAt? c rest).isSome =
      decide ((c = '=' ∨ c = '!') ∧ rest.head? = some '=') := by
    rw [Bool.eq_iff_iff, decide_eq_true_iff, pairAt?]
    cases rest.head? with
    | none => simp
    | some second => simp [isSome_ofPair?_iff]
  rw [beginsPair, upcoming, listed]
  by_cases starts : c = '=' ∨ c = '!'
  · simp [starts]
  · simp [starts]

end IndexedScanner

/-- On a text of one character the maker gives the finding about that character. -/
def FindingMaker.MakesOne (make : FindingMaker) : Prop :=
  ∀ text location, text.length = 1 → make text location = Finding.illegalText text location

theorem FindingMaker.MakesOne.singleton {make : FindingMaker} (makesOne : make.MakesOne) (c : Char)
    (location : Location) :
    make (String.singleton c) location = .ok (.illegalCharacter c location) := by
  rw [makesOne (String.singleton c) location (by simp), Finding.illegalText_singleton]

namespace Scanner

theorem readLexeme_of_first? {scanner : Scanner} {lexeme : Lexeme}
    (found : Lexeme.first? scanner.cursor.rest = some lexeme) :
    scanner.readLexeme =
      (lexeme.token scanner.location,
        { scanner with
          cursor := scanner.cursor.move lexeme.text.length
          warnings := scanner.warnings ++ (lexeme.finding? scanner.location).toList }) := by
  rw [readLexeme, found]

theorem readLexeme_of_silent {scanner : Scanner} {lexeme : Lexeme}
    (found : Lexeme.first? scanner.cursor.rest = some lexeme)
    (silent : lexeme.finding? scanner.location = none) :
    scanner.readLexeme =
      (lexeme.token scanner.location,
        { scanner with cursor := scanner.cursor.move lexeme.text.length }) := by
  rw [readLexeme_of_first? found, silent, Option.toList_none, List.append_nil]

theorem readLexeme_eq_readWhile {scanner : Scanner} {test : Char → Bool} {lexeme : Lexeme}
    (found : Lexeme.first? scanner.cursor.rest = some lexeme)
    (text : lexeme.text = scanner.cursor.rest.takeWhile test)
    (literal : lexeme.literal = String.ofList lexeme.text)
    (silent : lexeme.finding? scanner.location = none) :
    scanner.readLexeme =
      (⟨lexeme.kind, (scanner.readWhile test).1, some scanner.location⟩,
        (scanner.readWhile test).2) := by
  rw [readLexeme_of_silent found silent, Lexeme.token, literal, text, readWhile, Cursor.skipWhile]

/-- With a quote ahead the body ends before it, and the cursor moves over both quotes. -/
theorem readQuoted_of_closed {scanner : Scanner} (closed : '"' ∈ scanner.cursor.rest.tail) :
    scanner.readQuoted =
      (String.ofList (scanner.cursor.rest.tail.takeWhile (· ≠ '"')),
        { scanner with
          cursor := scanner.cursor.move
            ((scanner.cursor.rest.tail.takeWhile (· ≠ '"')).length + 2) }) := by
  have stopped : ∃ c after,
      (scanner.cursor.advance.skipWhile (· ≠ '"')).rest = c :: after := by
    rw [Cursor.rest_skipWhile]
    refine List.exists_cons_of_ne_nil fun nothing => ?_
    simpa using List.dropWhile_eq_nil_iff.mp nothing '"' closed
  obtain ⟨c, after, stopped⟩ := stopped
  have pastBoth (count : Nat) :
      (scanner.cursor.advance.move count).advance = scanner.cursor.move (count + 2) :=
    (scanner.cursor.advance.move_add count 1).symm
  simp only [readQuoted, stopped]
  rw [Cursor.skipWhile, pastBoth]
  rfl

theorem readQuoted_of_open {scanner : Scanner} (isOpen : '"' ∉ scanner.cursor.rest.tail) :
    scanner.readQuoted =
      (String.ofList scanner.cursor.rest.tail,
        { scanner with
          cursor := scanner.cursor.move (scanner.cursor.rest.tail.length + 1)
          warnings := scanner.warnings ++ [.unterminatedString scanner.location] }) := by
  have body : scanner.cursor.advance.rest.takeWhile (· ≠ '"') = scanner.cursor.rest.tail :=
    Lexeme.takeWhile_ne_of_not_mem isOpen
  have stopped : (scanner.cursor.advance.skipWhile (· ≠ '"')).rest = [] := by
    rw [Cursor.skipWhile, body, Cursor.rest_move]
    exact List.drop_length
  simp only [readQuoted, stopped]
  rw [Cursor.skipWhile, body]
  rfl

/-- A quote at the cursor opens the string that the scanner reads as one lexeme. -/
theorem readLexeme_eq_readQuoted {scanner : Scanner} {rest : List Char}
    (unread : scanner.cursor.rest = '"' :: rest)
    (noSymbol : Symbol.first? ('"' :: rest) = none) :
    scanner.readLexeme =
      (⟨.string, scanner.readQuoted.1, some scanner.location⟩, scanner.readQuoted.2) := by
  have found : Lexeme.first? scanner.cursor.rest =
      some (.quoted (rest.takeWhile (· ≠ '"')) (decide ('"' ∈ rest))) := by
    rw [unread, Lexeme.first?, noSymbol]
    exact if_pos rfl
  have tail : scanner.cursor.rest.tail = rest := by rw [unread, List.tail_cons]
  rw [readLexeme_of_first? found]
  by_cases closed : '"' ∈ rest
  · rw [readQuoted_of_closed (tail ▸ closed), tail]
    simp [closed, Lexeme.token, Lexeme.kind, Lexeme.literal, Lexeme.finding?, Lexeme.text]
  · rw [readQuoted_of_open (tail ▸ closed), tail, Lexeme.takeWhile_ne_of_not_mem closed]
    simp [closed, Lexeme.token, Lexeme.kind, Lexeme.literal, Lexeme.finding?, Lexeme.text]

end Scanner

namespace IndexedScanner

variable {input : List Char} {scanner : Scanner} {make : FindingMaker} {c : Char}
  {rest : List Char}

theorem readPair_indexed (here : scanner.cursor.PointsInto input) {fixed : Symbol}
    (unread : scanner.cursor.rest = c :: rest) (pair : pairAt? c rest = some fixed) :
    (scanner.indexed input).readPair c =
      pure (scanner.readLexeme.1, scanner.readLexeme.2.indexed input) := by
  have moved : scanner.advance.cursor.PointsInto input :=
    here.onward scanner.cursor.onward_advance
  obtain ⟨second, _, listed⟩ := Option.bind_eq_some_iff.mp pair
  obtain ⟨_, rfl⟩ := isSome_ofPair?_iff.mp (Option.isSome_iff_exists.mpr ⟨fixed, listed⟩)
  have looked : symbolOfPair c '=' = pure fixed := by rw [symbolOfPair, listed]
  have spelled := Symbol.ofPair?_eq_some_iff.mp listed
  have found : Lexeme.first? scanner.cursor.rest = some (.symbol fixed) := by
    rw [unread, Lexeme.first?, first?_cons, pair, Option.some_or]
  have literal : (Lexeme.symbol fixed).literal = String.ofList [c, '='] :=
    congrArg String.ofList spelled
  have length : (Lexeme.symbol fixed).text.length = 2 := by
    rw [Lexeme.text, spelled]
    rfl
  rw [readPair, advance_indexed here, pure_bind, advance_indexed moved, pure_bind, looked,
    pure_bind, Scanner.readLexeme_of_silent found rfl, Lexeme.token, literal, length]
  rfl

theorem readSingle_indexed (here : scanner.cursor.PointsInto input) {fixed : Symbol}
    (unread : scanner.cursor.rest = c :: rest) (noPair : pairAt? c rest = none)
    (listed : Symbol.ofChar? c = some fixed) :
    (scanner.indexed input).readSingle c fixed =
      pure (scanner.readLexeme.1, scanner.readLexeme.2.indexed input) := by
  have spelled := Symbol.ofChar?_eq_some_iff.mp listed
  have found : Lexeme.first? scanner.cursor.rest = some (.symbol fixed) := by
    rw [unread, Lexeme.first?, first?_cons, noPair, Option.none_or, listed]
  have literal : (Lexeme.symbol fixed).literal = String.singleton c := by
    rw [String.singleton_eq_ofList]
    exact congrArg String.ofList spelled
  have length : (Lexeme.symbol fixed).text.length = 1 := by
    rw [Lexeme.text, spelled]
    rfl
  rw [readSingle, advance_indexed here, pure_bind, Scanner.readLexeme_of_silent found rfl,
    Lexeme.token, literal, length]
  rfl

theorem readStray_indexed (makesOne : make.MakesOne) (here : scanner.cursor.PointsInto input)
    (found : Lexeme.first? scanner.cursor.rest = some (.stray c)) :
    (scanner.indexed input).readStray make c =
      pure (scanner.readLexeme.1, scanner.readLexeme.2.indexed input) := by
  have location : (scanner.indexed input).location = scanner.location := rfl
  have advanced := @advance_indexed input { scanner with
    warnings := scanner.warnings ++ [.illegalCharacter c scanner.location] } here
  rw [readStray, makesOne.singleton, Scanner.readLexeme_of_first? found]
  simp only [location]
  exact Attempt.bind_eq advanced _

theorem readClass_indexed (makesOne : make.MakesOne) (here : scanner.cursor.PointsInto input)
    (unread : scanner.cursor.rest = c :: rest) (noSymbol : Symbol.first? (c :: rest) = none) :
    (scanner.indexed input).readClass make c =
      pure (scanner.readLexeme.1, scanner.readLexeme.2.indexed input) := by
  have location : (scanner.indexed input).location = scanner.location := rfl
  have first : Lexeme.first? scanner.cursor.rest =
      if c = '"' then some (.quoted (rest.takeWhile (· ≠ '"')) (decide ('"' ∈ rest)))
      else if isLetter c then some (.word (c :: rest.takeWhile isWordPart))
      else if isDigit c then some (.number (c :: rest.takeWhile isDigit))
      else some (.stray c) := by
    rw [unread, Lexeme.first?, noSymbol]
  rw [readClass]
  by_cases isQuote : c = '"'
  · subst isQuote
    rw [if_pos rfl, location, readQuoted_indexed here, pure_bind,
      Scanner.readLexeme_eq_readQuoted unread noSymbol]
  · rw [if_neg isQuote] at first ⊢
    by_cases letter : isLetter c = true
    · rw [if_pos letter] at first ⊢
      have text : (Lexeme.word (c :: rest.takeWhile isWordPart)).text =
          scanner.cursor.rest.takeWhile isWordPart := by
        simp [unread, Lexeme.text, isWordPart_of_isLetter letter]
      have word : (scanner.readWhile isWordPart).1 =
          String.ofList (c :: rest.takeWhile isWordPart) := congrArg String.ofList text.symm
      rw [readWhile_indexed isWordPart here, pure_bind,
        Scanner.readLexeme_eq_readWhile first text rfl rfl, Lexeme.kind, location, word]
    · rw [if_neg letter] at first ⊢
      by_cases digit : isDigit c = true
      · rw [if_pos digit] at first ⊢
        have text : (Lexeme.number (c :: rest.takeWhile isDigit)).text =
            scanner.cursor.rest.takeWhile isDigit := by simp [unread, Lexeme.text, digit]
        rw [readWhile_indexed isDigit here, pure_bind,
          Scanner.readLexeme_eq_readWhile first text rfl rfl, Lexeme.kind, location]
      · rw [if_neg digit] at first ⊢
        exact readStray_indexed makesOne here first

theorem readToken_indexed (makesOne : make.MakesOne) (here : scanner.cursor.PointsInto input)
    (unread : scanner.cursor.rest = c :: rest) :
    (scanner.indexed input).readToken make c =
      pure (scanner.readLexeme.1, scanner.readLexeme.2.indexed input) := by
  rw [readToken, beginsPair_indexed here unread, pure_bind]
  cases pair : pairAt? c rest with
  | some fixed => exact readPair_indexed here unread pair
  | none =>
      cases single : Symbol.ofChar? c with
      | some fixed => exact readSingle_indexed here unread pair single
      | none =>
          refine readClass_indexed makesOne here unread ?_
          rw [first?_cons, pair, single, Option.none_or]

theorem next_indexed (makesOne : make.MakesOne) (here : scanner.cursor.PointsInto input) :
    (scanner.indexed input).next make =
      pure (scanner.next.1, scanner.next.2.indexed input) := by
  have skipped : scanner.skipBlanks.cursor.PointsInto input :=
    here.onward (scanner.cursor.onward_skipWhile isBlank)
  have start : (scanner.indexed input).advanceWhile isBlank =
      pure (scanner.skipBlanks.indexed input) := advanceWhile_indexed isBlank here
  rw [next, start, pure_bind, current_indexed skipped, Cursor.current?, Scanner.next]
  cases unread : scanner.skipBlanks.cursor.rest with
  | nil =>
      rw [Scanner.readLexeme, unread]
      rfl
  | cons c rest => exact readToken_indexed makesOne skipped unread

theorem tokenize_indexed (makesOne : make.MakesOne) (here : scanner.cursor.PointsInto input) :
    (scanner.indexed input).tokenize make =
      pure (scanner.tokenize.1, scanner.tokenize.2.indexed input) := by
  induction scanner using Scanner.next_induction with
  | ended scanner ended =>
      rw [tokenize, next_indexed makesOne here, pure_bind, Scanner.tokenize_of_ended ended]
      exact if_pos ended
  | more scanner more ih =>
      have later := ih (here.onward scanner.next_inward.onward)
      rw [tokenize, next_indexed makesOne here, pure_bind, Scanner.tokenize_of_more more]
      simp only [later, pure_bind]
      exact if_neg more

theorem take_indexed (makesOne : make.MakesOne) (here : scanner.cursor.PointsInto input)
    (count : Nat) :
    take make count (scanner.indexed input) =
      pure ((scanner.take count).1, (scanner.take count).2.indexed input) := by
  induction count generalizing scanner with
  | zero => rfl
  | succ count ih =>
      have later := ih (here.onward scanner.next_inward.onward)
      rw [take, next_indexed makesOne here, pure_bind, Scanner.take_succ]
      simp only [later, pure_bind]
      split <;> rfl

theorem ofSource_eq (source filename : String) :
    ofSource source filename = pure ((Scanner.ofSource source filename).indexed source.toList) := by
  rw [ofSource, advance, peek_eq, pure_bind]
  rfl

end IndexedScanner

namespace IndexedSession

variable {input : List Char} {session : Session} {make : FindingMaker}

theorem pull_indexed (makesOne : make.MakesOne) (here : session.scanner.cursor.PointsInto input)
    (id : ReaderId) :
    (session.indexed input).pull make id =
      pure ((session.pull id).1, (session.pull id).2.indexed input) := by
  have scanner : (session.indexed input).scanner = session.scanner.indexed input := rfl
  have ended : (session.indexed input).ended = session.ended := rfl
  rw [pull, scanner, ended, IndexedScanner.next_indexed makesOne here, pure_bind]
  by_cases stopped : id ∈ session.ended
  · rw [if_pos stopped, Session.pull_of_ended stopped]
  · rw [if_neg stopped, Session.pull_of_open stopped]
    rfl

theorem step_indexed (makesOne : make.MakesOne) (here : session.scanner.cursor.PointsInto input)
    (step : Step) :
    (session.indexed input).step make step =
      pure ((session.step step).1, (session.step step).2.indexed input) := by
  cases step with
  | next => exact Attempt.bind_eq (IndexedScanner.next_indexed makesOne here) _
  | tokenize => exact Attempt.bind_eq (IndexedScanner.tokenize_indexed makesOne here) _
  | take count => exact Attempt.bind_eq (IndexedScanner.take_indexed makesOne here count) _
  | pull id => exact pull_indexed makesOne here id
  | advance => exact Attempt.bind_eq (IndexedScanner.advance_indexed here) _
  | skipBlanks => exact Attempt.bind_eq (IndexedScanner.advanceWhile_indexed isBlank here) _
  | readWord => exact Attempt.bind_eq (IndexedScanner.readWhile_indexed isWordPart here) _
  | readNumber => exact Attempt.bind_eq (IndexedScanner.readWhile_indexed isDigit here) _
  | readQuoted => exact Attempt.bind_eq (IndexedScanner.readQuoted_indexed here) _
  | peek =>
      exact Attempt.bind_eq ((IndexedScanner.peek_eq _).trans (congrArg pure here.peek?.symm)) _
  | openReader _ | warnings | copyWarnings | hasWarnings | clearWarnings | clearCopy | rename _
  | location => rfl

theorem run_indexed (makesOne : make.MakesOne) (here : session.scanner.cursor.PointsInto input)
    (steps : List Step) :
    run make (session.indexed input) steps =
      pure ((session.run steps).map fun entry => (entry.1, entry.2.indexed input)) := by
  induction steps generalizing session with
  | nil => rfl
  | cons step steps ih =>
      have later := ih (here.onward (session.step_onward step))
      rw [run, step_indexed makesOne here, pure_bind]
      simp only [later, pure_bind]
      rfl

theorem after_indexed (makesOne : make.MakesOne) (here : session.scanner.cursor.PointsInto input)
    (steps : List Step) :
    (session.indexed input).after make steps = pure ((session.after steps).indexed input) := by
  induction steps generalizing session with
  | nil => rfl
  | cons step steps ih =>
      rw [after, List.foldlM_cons, step_indexed makesOne here, map_pure, pure_bind]
      exact ih (here.onward (session.step_onward step))

theorem ofSource_eq (source filename : String) :
    ofSource source filename = pure ((Session.ofSource source filename).indexed source.toList) := by
  rw [ofSource, IndexedScanner.ofSource_eq, pure_bind]
  rfl

end IndexedSession

end MonkeySource
