set_option autoImplicit false

/-!
# The scanner's alphabet

Letters and digits are those of ASCII. No other character class takes part in scanning.
-/

namespace MonkeySource

def isLetter (c : Char) : Bool :=
  decide ('a' ≤ c ∧ c ≤ 'z' ∨ 'A' ≤ c ∧ c ≤ 'Z' ∨ c = '_')

def isDigit (c : Char) : Bool := decide ('0' ≤ c ∧ c ≤ '9')

def isWordPart (c : Char) : Bool := isLetter c || isDigit c

/-- The characters between lexemes, in the order of their code points. -/
def blanks : List Char := ['\t', '\n', '\r', ' ']

def isBlank (c : Char) : Bool := decide (c ∈ blanks)

end MonkeySource
