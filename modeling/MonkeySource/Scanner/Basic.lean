import MonkeySource.Lists
import MonkeySource.Scanner.Cursor
import MonkeySource.Scanner.Lexeme

set_option autoImplicit false

/-!
# Scanners

A scanner reads tokens one at a time and records what it notices. It never fails: what it does not
understand becomes an illegal token and a warning, and at the end it gives the end of input as
often as it is asked.

A source is a text of Unicode scalar values. Code points that are surrogates cannot stand in it, so
a text with a surrogate that is not one of a pair has no counterpart here.
-/

namespace MonkeySource

/-- A cursor in a named source and the warnings so far. The name goes into locations and nowhere
else. -/
structure Scanner where
  filename : String
  cursor : Cursor
  warnings : List Finding := []
  deriving DecidableEq, Repr

namespace Scanner

/-- The name of a source that was not given one. -/
def unnamed : String := "<unknown>"

def ofSource (source filename : String) : Scanner where
  filename := filename
  cursor := { rest := source.toList }

def location (scanner : Scanner) : Location := scanner.cursor.location scanner.filename

def hasWarnings (scanner : Scanner) : Bool := !scanner.warnings.isEmpty

def clearWarnings (scanner : Scanner) : Scanner := { scanner with warnings := [] }

/-- Empties a copy of the warnings, which is a list of its own. -/
def clearCopy (scanner : Scanner) : Scanner :=
  { scanner with warnings := Lists.afterCopyChange scanner.warnings fun _ => [] }

/-- Gives the source another name. Locations that were handed out keep the name they have. -/
def rename (scanner : Scanner) (filename : String) : Scanner :=
  { scanner with filename := filename }

def advance (scanner : Scanner) : Scanner := { scanner with cursor := scanner.cursor.advance }

def skipBlanks (scanner : Scanner) : Scanner :=
  { scanner with cursor := scanner.cursor.skipWhile isBlank }

/-- Reads characters as long as they pass the test, whatever lexeme the cursor stands in. -/
def readWhile (scanner : Scanner) (test : Char → Bool) : String × Scanner :=
  (String.ofList (scanner.cursor.rest.takeWhile test),
    { scanner with cursor := scanner.cursor.skipWhile test })

/-- Reads word characters. The first one may be a digit. -/
def readWord (scanner : Scanner) : String × Scanner := scanner.readWhile isWordPart

def readNumber (scanner : Scanner) : String × Scanner := scanner.readWhile isDigit

/-- Takes the character under the cursor for an opening quote, whatever it is, and reads up to the
closing one, which is skipped. Without a closing quote the rest of the source is the body, and a
warning is recorded at the place of the call. -/
def readQuoted (scanner : Scanner) : String × Scanner :=
  let opened := scanner.cursor.advance
  let body := opened.rest.takeWhile (· ≠ '"')
  let stopped := opened.skipWhile (· ≠ '"')
  match stopped.rest with
  | [] =>
      (String.ofList body,
        { scanner with
          cursor := stopped
          warnings := scanner.warnings ++ [.unterminatedString scanner.location] })
  | _ :: _ => (String.ofList body, { scanner with cursor := stopped.advance })

def readLexeme (scanner : Scanner) : Token × Scanner :=
  match Lexeme.first? scanner.cursor.rest with
  | none => (⟨.endOfInput, "", some scanner.location⟩, scanner)
  | some lexeme =>
      (lexeme.token scanner.location,
        { scanner with
          cursor := scanner.cursor.move lexeme.text.length
          warnings := scanner.warnings ++ (lexeme.finding? scanner.location).toList })

/-- Reads the next token. At the end it moves no further. -/
def next (scanner : Scanner) : Token × Scanner := scanner.skipBlanks.readLexeme

/-- Every token but the end of input uses up some of the source. -/
theorem length_rest_next_lt (scanner : Scanner)
    (more : scanner.next.1.kind ≠ .endOfInput) :
    scanner.next.2.cursor.rest.length < scanner.cursor.rest.length := by
  have skipped : scanner.skipBlanks.cursor.rest.length ≤ scanner.cursor.rest.length := by
    simp only [skipBlanks, Cursor.rest_skipWhile]
    exact (List.dropWhile_suffix isBlank).length_le
  unfold next readLexeme at more ⊢
  split at more
  · exact absurd rfl more
  · next lexeme found =>
      have some_text := List.length_pos_iff.mpr (Lexeme.text_ne_nil_of_first? found)
      have some_rest : scanner.skipBlanks.cursor.rest ≠ [] := by
        intro none_left
        rw [none_left] at found
        simp [Lexeme.first?] at found
      have := List.length_pos_iff.mpr some_rest
      simp only [Cursor.rest_move, List.length_drop]
      omega

/-- Reads all that is left, up to and including one end of input. -/
def tokenize (scanner : Scanner) : List Token × Scanner :=
  match _read : scanner.next with
  | (token, after) =>
      if _ended : token.kind = .endOfInput then ([token], after)
      else
        let (tokens, last) := after.tokenize
        (token :: tokens, last)
termination_by scanner.cursor.rest.length
decreasing_by
  have shorter := length_rest_next_lt scanner (by rw [_read]; exact _ended)
  rwa [_read] at shorter

theorem tokenize_eq (scanner : Scanner) :
    scanner.tokenize =
      if scanner.next.1.kind = .endOfInput then ([scanner.next.1], scanner.next.2)
      else (scanner.next.1 :: scanner.next.2.tokenize.1, scanner.next.2.tokenize.2) := by
  rw [tokenize]
  split
  next token after read => rw [read]; rfl

/-- Reads at most a number of tokens, and none after an end of input. -/
def take : (count : Nat) → Scanner → List Token × Scanner
  | 0, scanner => ([], scanner)
  | count + 1, scanner =>
      let (token, after) := scanner.next
      if token.kind = .endOfInput then ([token], after)
      else
        let (tokens, last) := take count after
        (token :: tokens, last)

end Scanner

end MonkeySource
