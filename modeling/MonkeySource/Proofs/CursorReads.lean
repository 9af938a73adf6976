import MonkeySource.Proofs.IndexedAgreement

set_option autoImplicit false

/-!
# Reads from any cursor

The pieces of a scan can be asked for one by one, wherever the cursor stands: in the middle of a
lexeme, on a character that begins nothing, or behind the end. What each of them reads is told by
the input and the index of the cursor alone.
-/

namespace MonkeySource

/-- The longest run at the head of a text whose characters all pass a test. -/
structure LongestRun (test : Char → Bool) (text run : List Char) : Prop where
  atHead : run <+: text
  passes : ∀ c ∈ run, test c = true
  longest : ∀ other, other <+: text → (∀ c ∈ other, test c = true) → other.length ≤ run.length

theorem longestRun_takeWhile (test : Char → Bool) (text : List Char) :
    LongestRun test text (text.takeWhile test) where
  atHead := List.takeWhile_prefix test
  passes := fun _ member => List.mem_takeWhile_imp member
  longest := by
    rintro other ⟨rest, rfl⟩ passes
    rw [List.takeWhile_append_of_pos passes, List.length_append]
    exact Nat.le_add_right _ _

/-- The index of the first quote of an input that does not stand before the start. -/
structure FirstQuote (input : List Char) (start index : Nat) : Prop where
  behind : start ≤ index
  quote : input[index]? = some '"'
  least : ∀ between, start ≤ between → between < index → input[between]? ≠ some '"'

theorem firstQuote_of_split {input body after : List Char} {start : Nat}
    (split : input.drop start = body ++ '"' :: after) (free : '"' ∉ body) :
    FirstQuote input start (start + body.length) := by
  constructor
  case behind => exact Nat.le_add_right _ _
  case quote =>
    rw [← List.getElem?_drop, split]
    simp
  case least =>
    intro between behind before found
    obtain ⟨steps, rfl⟩ := Nat.exists_eq_add_of_le behind
    rw [← List.getElem?_drop, split, List.getElem?_append_left (by omega)] at found
    exact free (List.mem_of_getElem? found)

theorem takeWhile_ne_append {mark : Char} {body : List Char} (free : mark ∉ body)
    (after : List Char) : (body ++ mark :: after).takeWhile (· ≠ mark) = body := by
  have passes : ∀ c ∈ body, decide (c ≠ mark) = true := fun c member =>
    decide_eq_true fun isMark => free (isMark ▸ member)
  rw [List.takeWhile_append_of_pos passes, List.takeWhile_cons_of_neg (by simp), List.append_nil]

/-- A second skip finds nothing to skip. -/
theorem Cursor.skipWhile_skipWhile (cursor : Cursor) (test : Char → Bool) :
    (cursor.skipWhile test).skipWhile test = cursor.skipWhile test := by
  have nothing : (cursor.rest.dropWhile test).takeWhile test = [] := by
    cases stopped : cursor.rest.dropWhile test with
    | nil => rfl
    | cons c after =>
        have fails := List.head?_dropWhile_not test cursor.rest
        rw [stopped] at fails
        exact List.takeWhile_cons_of_neg (by simpa using fails)
  have still : ((cursor.skipWhile test).rest.takeWhile test).length = 0 := by
    rw [rest_skipWhile, nothing, List.length_nil]
  exact congrArg (cursor.skipWhile test).move still

namespace IndexedScanner

variable (machine : IndexedScanner)

/-- A read that takes what passes a test, and notes nothing. -/
structure ReadsRun (test : Char → Bool) (text : String) (later : IndexedScanner) : Prop where
  ends : machine.readWhile test = pure (text, later)
  run : LongestRun test (machine.input.drop machine.position) text.toList
  position : later.position = machine.position + text.length
  silent : later.warnings = machine.warnings

/-- What is skipped is not handed over, and to skip again changes nothing. -/
structure SkipsRun (test : Char → Bool) (later : IndexedScanner) : Prop where
  ends : machine.advanceWhile test = pure later
  position : ∃ run, LongestRun test (machine.input.drop machine.position) run ∧
    later.position = machine.position + run.length
  silent : later.warnings = machine.warnings
  again : later.advanceWhile test = pure later

/-- The character under the cursor counts as the opening quote, whatever it is. Behind it a body
ends at the first quote, or else with the input. -/
structure ReadsBody (body : String) (later : IndexedScanner) : Prop where
  ends : machine.readQuoted machine.location = pure (body, later)
  outcome :
    (∃ index, FirstQuote machine.input (machine.position + 1) index ∧
      body.toList = (machine.input.take index).drop (machine.position + 1) ∧
      later.position = index + 1 ∧ later.warnings = machine.warnings) ∨
    ((∀ index, machine.position + 1 ≤ index → machine.input[index]? ≠ some '"') ∧
      body.toList = machine.input.drop (machine.position + 1) ∧
      later.position = max machine.input.length (machine.position + 1) ∧
      later.warnings = machine.warnings ++ [.unterminatedString machine.location])

/-- The character that is looked at without moving is the one that a move leads to. -/
structure LooksAhead (upcoming : Option Char) (later : IndexedScanner) : Prop where
  peek : machine.peek = pure upcoming
  advance : machine.advance = pure later
  current : later.current = upcoming

variable {input : List Char} {scanner : Scanner}

theorem readsRun_indexed (test : Char → Bool) (here : scanner.cursor.PointsInto input) :
    (scanner.indexed input).ReadsRun test (scanner.readWhile test).1
      ((scanner.readWhile test).2.indexed input) := by
  have text : (scanner.readWhile test).1.toList = scanner.cursor.rest.takeWhile test :=
    String.toList_ofList
  constructor
  case ends => exact readWhile_indexed test here
  case run =>
    rw [text, here]
    exact longestRun_takeWhile test _
  case position =>
    rw [← String.length_toList, text]
    exact Cursor.offset_move _ _
  case silent => rfl

theorem skipsRun_indexed (test : Char → Bool) (here : scanner.cursor.PointsInto input) :
    (scanner.indexed input).SkipsRun test ((scanner.readWhile test).2.indexed input) := by
  have read := readsRun_indexed test here
  have moved : (scanner.readWhile test).2.cursor.PointsInto input :=
    here.onward (scanner.cursor.onward_skipWhile test)
  constructor
  case ends => exact advanceWhile_indexed test here
  case position => exact ⟨_, read.run, by rw [read.position, String.length_toList]⟩
  case silent => rfl
  case again =>
    have same : ((scanner.readWhile test).2.readWhile test).2 = (scanner.readWhile test).2 :=
      congrArg (Scanner.mk scanner.filename · scanner.warnings)
        (scanner.cursor.skipWhile_skipWhile test)
    rw [advanceWhile_indexed test moved, same]

theorem readsBody_indexed (here : scanner.cursor.PointsInto input) :
    (scanner.indexed input).ReadsBody scanner.readQuoted.1
      (scanner.readQuoted.2.indexed input) := by
  have position : (scanner.indexed input).position = scanner.cursor.offset := rfl
  have whole : (scanner.indexed input).input = input := rfl
  have behind : scanner.cursor.rest.tail = input.drop (scanner.cursor.offset + 1) := by
    rw [here, List.tail_drop]
  refine ⟨readQuoted_indexed here, ?_⟩
  rw [position, whole]
  by_cases closed : '"' ∈ scanner.cursor.rest.tail
  · obtain ⟨body, after, split, free⟩ := List.eq_append_cons_of_mem closed
    have taken : scanner.cursor.rest.tail.takeWhile (· ≠ '"') = body := by
      rw [split, takeWhile_ne_append free]
    rw [Scanner.readQuoted_of_closed closed, taken]
    rw [behind] at split
    refine .inl ⟨_, firstQuote_of_split split free, ?_, ?_, rfl⟩
    · rw [String.toList_ofList, List.drop_take, Nat.add_sub_cancel_left, split, List.take_left]
    · apply (Cursor.offset_move _ _).trans
      omega
  · rw [Scanner.readQuoted_of_open closed]
    rw [behind] at closed ⊢
    refine .inr ⟨?_, String.toList_ofList, ?_, rfl⟩
    · intro index after found
      obtain ⟨steps, rfl⟩ := Nat.exists_eq_add_of_le after
      rw [← List.getElem?_drop] at found
      exact closed (List.mem_of_getElem? found)
    · apply (Cursor.offset_move _ _).trans
      rw [List.length_drop]
      omega

theorem looksAhead_indexed (here : scanner.cursor.PointsInto input) :
    (scanner.indexed input).LooksAhead scanner.cursor.peek? (scanner.advance.indexed input) where
  peek := (peek_eq _).trans (congrArg pure here.peek?.symm)
  advance := advance_indexed here
  current := here.peek?.symm

end IndexedScanner

namespace Session

/-- What the pieces of a scan read from the state of a session. -/
structure ReadsPieces (source : List Char) (session : Session) : Prop where
  word : ∃ text later, session.step .readWord = (.text text, later) ∧
    (session.scanner.indexed source).ReadsRun isWordPart text (later.scanner.indexed source)
  number : ∃ text later, session.step .readNumber = (.text text, later) ∧
    (session.scanner.indexed source).ReadsRun isDigit text (later.scanner.indexed source)
  blanks : ∃ later, session.step .skipBlanks = (.done, later) ∧
    (later.step .skipBlanks) = (.done, later) ∧
    (session.scanner.indexed source).SkipsRun isBlank (later.scanner.indexed source)
  quoted : ∃ body later, session.step .readQuoted = (.text body, later) ∧
    (session.scanner.indexed source).ReadsBody body (later.scanner.indexed source)
  upcoming : ∃ c later, session.step .peek = (.character c, session) ∧
    session.step .advance = (.done, later) ∧
    (session.scanner.indexed source).LooksAhead c (later.scanner.indexed source)

/-- In every state that steps lead to, the machine stands where the session stands, and each piece
of a scan reads what the input and the index of the cursor say. -/
theorem reads_pieces (source filename : String) (steps : List Step) :
    let session := (ofSource source filename).after steps
    (IndexedSession.ofSource source filename >>= fun machine =>
      machine.after Finding.illegalText steps) = pure (session.indexed source.toList) ∧
    session.ReadsPieces source.toList := by
  intro session
  have start : (ofSource source filename).scanner.cursor.PointsInto source.toList := rfl
  have here : session.scanner.cursor.PointsInto source.toList :=
    start.onward ((ofSource source filename).after_onward steps)
  constructor
  · rw [IndexedSession.ofSource_eq, pure_bind]
    exact IndexedSession.after_indexed (fun _ _ _ => rfl) start steps
  · constructor
    case word => exact ⟨_, _, rfl, IndexedScanner.readsRun_indexed isWordPart here⟩
    case number => exact ⟨_, _, rfl, IndexedScanner.readsRun_indexed isDigit here⟩
    case blanks =>
      refine ⟨_, rfl, ?_, IndexedScanner.skipsRun_indexed isBlank here⟩
      have same := session.scanner.cursor.skipWhile_skipWhile isBlank
      simp only [step, Scanner.skipBlanks, same]
    case quoted => exact ⟨_, _, rfl, IndexedScanner.readsBody_indexed here⟩
    case upcoming => exact ⟨_, _, rfl, rfl, IndexedScanner.looksAhead_indexed here⟩

end Session

end MonkeySource
