import MonkeySource.Scanner.Session

set_option autoImplicit false

/-!
# Scanning by index

The scan as a machine over the whole input. It finds characters by their index and pairs of
characters in a table, and both can fail; its loops go on for as long as the character under the
cursor lets them, which may be for ever. On a scanner's own states it does what the scanner does.
-/

namespace MonkeySource

inductive ScanFault where
  | noCharacter (index : Nat)
  | noSymbol (spelling : String)
  | notOneCharacter (error : Finding.NotOneCharacter)
  deriving DecidableEq, Repr

/-- A computation that may fail, and that may have no result at all because it never ends. -/
abbrev Attempt (α : Type) : Type := ExceptT ScanFault Option α

/-- How a text that starts no token is turned into a finding. -/
abbrev FindingMaker : Type := String → Location → Except Finding.NotOneCharacter Finding

/-- The state of a machine: besides the index of the cursor it keeps the next one and the character
at the cursor, and nothing ties the three together. -/
structure IndexedScanner where
  input : List Char
  filename : String
  position : Nat
  readPosition : Nat
  current : Option Char
  line : Nat
  column : Nat
  warnings : List Finding := []
  deriving DecidableEq, Repr

namespace IndexedScanner

variable (machine : IndexedScanner)

def location : Location := ⟨machine.filename, machine.line, machine.column, machine.position⟩

def charAt (index : Nat) : Attempt Char :=
  match machine.input[index]? with
  | some c => pure c
  | none => throw (.noCharacter index)

/-- The character at the next index, looked up only if the input goes that far. -/
def peek : Attempt (Option Char) :=
  if machine.input.length ≤ machine.readPosition then pure none
  else some <$> machine.charAt machine.readPosition

def advance : Attempt IndexedScanner := do
  let upcoming ← machine.peek
  return { machine with
    position := machine.readPosition
    readPosition := machine.readPosition + 1
    current := upcoming
    line := if machine.current = some '\n' then machine.line + 1 else machine.line
    column := if machine.current = some '\n' then 1 else machine.column + 1 }

def advanceWhile (test : Char → Bool) (machine : IndexedScanner) : Attempt IndexedScanner :=
  match machine.current with
  | none => pure machine
  | some c =>
      if test c then do
        let moved ← machine.advance
        moved |>.advanceWhile test
      else pure machine
partial_fixpoint

/-- The input from an index up to the cursor. -/
def slice (start : Nat) : String := String.ofList ((machine.input.take machine.position).drop start)

def readWhile (test : Char → Bool) : Attempt (String × IndexedScanner) := do
  let stopped ← machine.advanceWhile test
  return (stopped.slice machine.position, stopped)

def note (finding : Finding) : IndexedScanner :=
  { machine with warnings := machine.warnings ++ [finding] }

def readQuoted (location : Location) : Attempt (String × IndexedScanner) := do
  let opened ← machine.advance
  let stopped ← opened.advanceWhile (· ≠ '"')
  let body := stopped.slice opened.position
  match stopped.current with
  | none => return (body, stopped.note (.unterminatedString location))
  | some _ => return (body, ← stopped.advance)

/-- The symbol of two characters, which the table may lack. -/
def symbolOfPair (first second : Char) : Attempt Symbol :=
  match Symbol.ofPair? first second with
  | some fixed => pure fixed
  | none => throw (.noSymbol (String.ofList [first, second]))

/-- Whether a symbol of two characters begins with this one. The character after it is looked up
only where it matters. -/
def beginsPair (c : Char) : Attempt Bool :=
  if c = '=' ∨ c = '!' then (fun upcoming => decide (upcoming = some '=')) <$> machine.peek
  else pure false

def readPair (c : Char) : Attempt (Token × IndexedScanner) := do
  let second ← machine.advance
  let after ← second.advance
  let fixed ← symbolOfPair c '='
  return (⟨.symbol fixed, String.ofList [c, '='], some machine.location⟩, after)

def readSingle (c : Char) (fixed : Symbol) : Attempt (Token × IndexedScanner) := do
  return (⟨.symbol fixed, String.singleton c, some machine.location⟩, ← machine.advance)

def readStray (make : FindingMaker) (c : Char) : Attempt (Token × IndexedScanner) :=
  match make (String.singleton c) machine.location with
  | .error error => throw (.notOneCharacter error)
  | .ok finding => do
      let after ← (machine.note finding).advance
      return (⟨.illegal, String.singleton c, some machine.location⟩, after)

/-- Reads the token that begins with a character which belongs to no symbol. -/
def readClass (make : FindingMaker) (c : Char) : Attempt (Token × IndexedScanner) :=
  if c = '"' then do
    let (body, after) ← machine.readQuoted machine.location
    return (⟨.string, body, some machine.location⟩, after)
  else if isLetter c then do
    let (word, after) ← machine.readWhile isWordPart
    return (⟨.ofWord word, word, some machine.location⟩, after)
  else if isDigit c then do
    let (digits, after) ← machine.readWhile isDigit
    return (⟨.integer, digits, some machine.location⟩, after)
  else machine.readStray make c

def readToken (make : FindingMaker) (c : Char) : Attempt (Token × IndexedScanner) := do
  if ← machine.beginsPair c then machine.readPair c
  else match Symbol.ofChar? c with
    | some fixed => machine.readSingle c fixed
    | none => machine.readClass make c

def next (make : FindingMaker) : Attempt (Token × IndexedScanner) := do
  let start ← machine.advanceWhile isBlank
  match start.current with
  | none => return (⟨.endOfInput, "", some start.location⟩, start)
  | some c => start.readToken make c

def tokenize (make : FindingMaker) (machine : IndexedScanner) :
    Attempt (List Token × IndexedScanner) := do
  let (token, after) ← machine.next make
  if token.kind = .endOfInput then return ([token], after)
  else
    let (tokens, last) ← after |>.tokenize make
    return (token :: tokens, last)
partial_fixpoint

/-- Reads at most a number of tokens, and none after an end of input. -/
def take (make : FindingMaker) : Nat → IndexedScanner → Attempt (List Token × IndexedScanner)
  | 0, machine => pure ([], machine)
  | count + 1, machine => do
      let (token, after) ← machine.next make
      if token.kind = .endOfInput then return ([token], after)
      else
        let (tokens, last) ← take make count after
        return (token :: tokens, last)

/-- A machine is started before the first character and moved onto it. -/
def ofSource (source filename : String) : Attempt IndexedScanner :=
  advance
    { input := source.toList, filename, position := 0, readPosition := 0, current := none
      line := 1, column := 0 }

end IndexedScanner

/-- A machine that is driven step by step, and the labels of the readers that have ended. -/
structure IndexedSession where
  scanner : IndexedScanner
  ended : List ReaderId := []
  deriving DecidableEq, Repr

namespace IndexedSession

variable (make : FindingMaker) (session : IndexedSession)

def ofSource (source filename : String) : Attempt IndexedSession := do
  return ⟨← IndexedScanner.ofSource source filename, []⟩

def pull (id : ReaderId) : Attempt (Reply × IndexedSession) :=
  if id ∈ session.ended then pure (.stopped, session)
  else do
    let (token, after) ← session.scanner.next make
    return (.token token,
      { scanner := after
        ended := if token.kind = .endOfInput then id :: session.ended else session.ended })

def step : Step → Attempt (Reply × IndexedSession)
  | .next => do
      let (token, after) ← session.scanner.next make
      return (.token token, { session with scanner := after })
  | .tokenize => do
      let (tokens, after) ← session.scanner.tokenize make
      return (.tokens tokens, { session with scanner := after })
  | .take count => do
      let (tokens, after) ← IndexedScanner.take make count session.scanner
      return (.tokens tokens, { session with scanner := after })
  | .openReader id =>
      pure (.done, { session with ended := session.ended.filter (· ≠ id) })
  | .pull id => session.pull make id
  | .warnings => pure (.findings session.scanner.warnings, session)
  | .copyWarnings => pure (.findings (Lists.copyOf session.scanner.warnings), session)
  | .hasWarnings => pure (.flag (!session.scanner.warnings.isEmpty), session)
  | .clearWarnings =>
      pure (.done, { session with scanner := { session.scanner with warnings := [] } })
  | .clearCopy =>
      let kept := Lists.afterCopyChange session.scanner.warnings fun _ => []
      pure (.done, { session with scanner := { session.scanner with warnings := kept } })
  | .rename filename =>
      pure (.done, { session with scanner := { session.scanner with filename := filename } })
  | .location => pure (.location session.scanner.location, session)
  | .peek => do return (.character (← session.scanner.peek), session)
  | .advance => do return (.done, { session with scanner := ← session.scanner.advance })
  | .skipBlanks => do
      return (.done, { session with scanner := ← session.scanner.advanceWhile isBlank })
  | .readWord => do
      let (text, after) ← session.scanner.readWhile isWordPart
      return (.text text, { session with scanner := after })
  | .readNumber => do
      let (text, after) ← session.scanner.readWhile isDigit
      return (.text text, { session with scanner := after })
  | .readQuoted => do
      let (text, after) ← session.scanner.readQuoted session.scanner.location
      return (.text text, { session with scanner := after })

/-- The replies to steps in order, each with the session after it. One step that fails, or never
ends, takes the whole run with it. -/
def run (make : FindingMaker) : IndexedSession → List Step → Attempt (List (Reply × IndexedSession))
  | _, [] => pure []
  | session, step :: steps => do
      let (reply, after) ← session.step make step
      return (reply, after) :: (← run make after steps)

def after (steps : List Step) : Attempt IndexedSession :=
  steps.foldlM (fun current step => Prod.snd <$> current.step make step) session

end IndexedSession

/-- The machine that stands where a scanner stands. -/
def Scanner.indexed (scanner : Scanner) (input : List Char) : IndexedScanner where
  input := input
  filename := scanner.filename
  position := scanner.cursor.offset
  readPosition := scanner.cursor.offset + 1
  current := input[scanner.cursor.offset]?
  line := scanner.cursor.line
  column := scanner.cursor.column
  warnings := scanner.warnings

def Session.indexed (session : Session) (input : List Char) : IndexedSession :=
  ⟨session.scanner.indexed input, session.ended⟩

end MonkeySource
