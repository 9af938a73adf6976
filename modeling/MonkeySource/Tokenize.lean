import MonkeySource.Scanner.Basic

set_option autoImplicit false

/-!
# Tokens of a whole source

The lenient reading of a source always succeeds. The strict one gives the same tokens, unless the
scan noticed something; then the first finding is the error.
-/

namespace MonkeySource

def unnamedText : String := "<string>"

def tokenize (source filename : String) : List Token :=
  (Scanner.ofSource source filename).tokenize.1

/-- The findings of a source, in the order of their places. -/
def findings (source filename : String) : List Finding :=
  (Scanner.ofSource source filename).tokenize.2.warnings

/-- The tokens of a source in which nothing is wrong. -/
def tokenizeStrict (source filename : String) : Except LexicalError (List Token) :=
  match findings source filename with
  | [] => .ok (tokenize source filename)
  | finding :: _ => .error ⟨finding⟩

def tokenizeText (source filename : String) (strict : Bool) : Except LexicalError (List Token) :=
  if strict then tokenizeStrict source filename else .ok (tokenize source filename)

end MonkeySource
