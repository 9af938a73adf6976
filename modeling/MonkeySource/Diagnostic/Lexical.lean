import MonkeySource.Diagnostic.Basic

set_option autoImplicit false

/-!
# Lexical findings

The two things a scan can notice: a character that starts no token, and a string that is still
open where the source ends.
-/

namespace MonkeySource

/-- What the codes of lexical findings stand for. -/
def lexicalCodes : List (String × String) :=
  [("L001", "Illegal character"), ("L002", "Unterminated string literal")]

namespace Finding

/-- The finding for a text that starts no token, with a given help. -/
def illegal (text help : String) (location : Location) : Finding where
  message := "Illegal character: " ++ Text.quote text
  location := location
  code := some "L001"
  help := some help

def printableHelp (text : String) : String :=
  "The character '" ++ text ++ "' is not valid in Monkey source code."

/-- The help for an unprintable character names its code point. -/
def unprintableHelp (c : Char) : String :=
  "Non-printable character (Unicode: " ++ Text.codePointName c ++ ") is not allowed."

def illegalCharacter (c : Char) (location : Location) : Finding :=
  let text := String.singleton c
  illegal text (if Text.isPrintable c then printableHelp text else unprintableHelp c) location

def unterminatedString (location : Location) : Finding where
  message := "Unterminated string literal"
  location := location
  code := some "L002"
  help := some "The string runs to the end of the input."
  suggestions := some ["Add a closing \" quote"]

/-- A text was to be named by its code point but is not one character. -/
structure NotOneCharacter where
  length : Nat
  deriving DecidableEq, Repr

def NotOneCharacter.message (error : NotOneCharacter) : String :=
  "ord() expected a character, but string of length " ++ error.length.repr ++ " found"

/-- The finding for a text of any length in place of a single character. A printable text is shown
whatever its length; an unprintable one has to be one character, because only its code point can
be named. -/
def illegalText (text : String) (location : Location) : Except NotOneCharacter Finding :=
  if Text.isPrintableText text then .ok (illegal text (printableHelp text) location)
  else match text.toList with
    | [c] => .ok (illegal text (unprintableHelp c) location)
    | characters => .error ⟨characters.length⟩

end Finding

end MonkeySource
