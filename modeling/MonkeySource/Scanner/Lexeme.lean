import MonkeySource.Diagnostic.Lexical
import MonkeySource.Scanner.Alphabet
import MonkeySource.Token.Basic
import MonkeySource.Token.Spelling

set_option autoImplicit false

/-!
# Lexemes

The piece of source that one token stands for. A lexeme knows its exact text, so the source is the
texts of its lexemes with blanks between them.
-/

namespace MonkeySource

/-- The symbol at the head of a text, the longer one where two fit. -/
def Symbol.first? : List Char → Option Symbol
  | [] => none
  | [c] => ofChar? c
  | first :: second :: _ => (ofPair? first second).or (ofChar? first)

/-- One lexeme. A string that is not closed runs to the end of the source. -/
inductive Lexeme where
  | symbol (fixed : Symbol)
  | word (letters : List Char)
  | number (digits : List Char)
  | quoted (body : List Char) (closed : Bool)
  | stray (c : Char)
  deriving DecidableEq, Repr

namespace Lexeme

/-- The lexeme at the head of a text. Only the empty text has none; blanks are not skipped, and a
blank at the head is a stray character. -/
def first? : List Char → Option Lexeme
  | [] => none
  | c :: rest =>
      match Symbol.first? (c :: rest) with
      | some fixed => some (.symbol fixed)
      | none =>
          if c = '"' then some (.quoted (rest.takeWhile (· ≠ '"')) (decide ('"' ∈ rest)))
          else if isLetter c then some (.word (c :: rest.takeWhile isWordPart))
          else if isDigit c then some (.number (c :: rest.takeWhile isDigit))
          else some (.stray c)

/-- The exact source text, quotes included. -/
def text : Lexeme → List Char
  | .symbol fixed => fixed.spelling.toList
  | .word letters => letters
  | .number digits => digits
  | .quoted body closed => '"' :: (body ++ if closed then ['"'] else [])
  | .stray c => [c]

/-- The text that the token keeps: for a string only what stands between the quotes. -/
def literal : Lexeme → String
  | .quoted body _ => String.ofList body
  | lexeme => String.ofList lexeme.text

def kind : Lexeme → TokenKind
  | .symbol fixed => .symbol fixed
  | .word letters => .ofWord (String.ofList letters)
  | .number _ => .integer
  | .quoted _ _ => .string
  | .stray _ => .illegal

def token (lexeme : Lexeme) (location : Location) : Token :=
  ⟨lexeme.kind, lexeme.literal, some location⟩

/-- What a scan notices about a lexeme that starts at the location. -/
def finding? (lexeme : Lexeme) (location : Location) : Option Finding :=
  match lexeme with
  | .stray c => some (.illegalCharacter c location)
  | .quoted _ false => some (.unterminatedString location)
  | _ => none

theorem first?_eq_none_iff {text : List Char} : first? text = none ↔ text = [] := by
  cases text with
  | nil => simp [first?]
  | cons c rest =>
      simp only [first?]
      split
      · simp
      · split <;> (try split) <;> (try split) <;> simp

private theorem spelling_ne_nil (fixed : Symbol) : fixed.spelling.toList ≠ [] := by
  cases fixed with
  | operator op => cases op <;> decide
  | delimiter mark => cases mark <;> decide

/-- No lexeme is empty, so a scan that finds one moves on. -/
theorem text_ne_nil_of_first? {text : List Char} {lexeme : Lexeme}
    (found : first? text = some lexeme) : lexeme.text ≠ [] := by
  cases text with
  | nil => simp [first?] at found
  | cons c rest =>
      simp only [first?] at found
      split at found
      · obtain rfl := Option.some.inj found
        exact spelling_ne_nil _
      · split at found
        · obtain rfl := Option.some.inj found
          simp [Lexeme.text]
        · split at found
          · obtain rfl := Option.some.inj found
            simp [Lexeme.text]
          · split at found <;>
              · obtain rfl := Option.some.inj found
                simp [Lexeme.text]

end Lexeme

end MonkeySource
