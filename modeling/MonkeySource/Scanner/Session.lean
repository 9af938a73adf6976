import MonkeySource.Scanner.Basic

set_option autoImplicit false

/-!
# Scanner sessions

A scanner driven step by step, by several readers at once. Readers share the one cursor; a reader
only remembers whether it has met the end of input, and gives no token after that.
-/

namespace MonkeySource

/-- The label under which a reader is kept. -/
abbrev ReaderId := String

/-- What can be asked of a scanner in a session. -/
inductive Step where
  | next
  | tokenize
  /-- At most `count` tokens, by a reader that is used for nothing else. -/
  | take (count : Nat)
  /-- A new reader, in place of an older one of the same label. It reads nothing yet. -/
  | openReader (id : ReaderId)
  | pull (id : ReaderId)
  /-- The recorded warnings themselves. -/
  | warnings
  /-- A copy of the recorded warnings. -/
  | copyWarnings
  | hasWarnings
  | clearWarnings
  /-- Empties a copy of the warnings, which leaves the recorded ones alone. -/
  | clearCopy
  | rename (filename : String)
  | location
  | peek
  | advance
  | skipBlanks
  | readWord
  | readNumber
  | readQuoted
  deriving DecidableEq, Repr

inductive Reply where
  | done
  | token (token : Token)
  | tokens (tokens : List Token)
  /-- The reader had ended before. -/
  | stopped
  | findings (findings : List Finding)
  | flag (value : Bool)
  | location (location : Location)
  | character (c : Option Char)
  | text (text : String)
  deriving DecidableEq, Repr

/-- A scanner and the labels of the readers that have ended. A label that was never opened stands
for a reader that has not ended. -/
structure Session where
  scanner : Scanner
  ended : List ReaderId := []
  deriving DecidableEq, Repr

namespace Session

def ofSource (source filename : String) : Session := ⟨.ofSource source filename, []⟩

/-- A reader gives tokens up to and including an end of input of its own. -/
def pull (session : Session) (id : ReaderId) : Reply × Session :=
  if id ∈ session.ended then (.stopped, session)
  else
    let (token, scanner) := session.scanner.next
    (.token token,
      { scanner := scanner
        ended := if token.kind = .endOfInput then id :: session.ended else session.ended })

def step (session : Session) : Step → Reply × Session
  | .next =>
      let (token, scanner) := session.scanner.next
      (.token token, { session with scanner := scanner })
  | .tokenize =>
      let (tokens, scanner) := session.scanner.tokenize
      (.tokens tokens, { session with scanner := scanner })
  | .take count =>
      let (tokens, scanner) := session.scanner.take count
      (.tokens tokens, { session with scanner := scanner })
  | .openReader id => (.done, { session with ended := session.ended.filter (· ≠ id) })
  | .pull id => session.pull id
  | .warnings => (.findings session.scanner.warnings, session)
  | .copyWarnings => (.findings (Lists.copyOf session.scanner.warnings), session)
  | .hasWarnings => (.flag session.scanner.hasWarnings, session)
  | .clearWarnings => (.done, { session with scanner := session.scanner.clearWarnings })
  | .clearCopy => (.done, { session with scanner := session.scanner.clearCopy })
  | .rename filename => (.done, { session with scanner := session.scanner.rename filename })
  | .location => (.location session.scanner.location, session)
  | .peek => (.character session.scanner.cursor.peek?, session)
  | .advance => (.done, { session with scanner := session.scanner.advance })
  | .skipBlanks => (.done, { session with scanner := session.scanner.skipBlanks })
  | .readWord =>
      let (text, scanner) := session.scanner.readWord
      (.text text, { session with scanner := scanner })
  | .readNumber =>
      let (text, scanner) := session.scanner.readNumber
      (.text text, { session with scanner := scanner })
  | .readQuoted =>
      let (text, scanner) := session.scanner.readQuoted
      (.text text, { session with scanner := scanner })

/-- The replies to steps in order, each with the session after it. -/
def run (session : Session) : List Step → List (Reply × Session)
  | [] => []
  | step :: steps =>
      let (reply, after) := session.step step
      (reply, after) :: after.run steps

end Session

end MonkeySource
