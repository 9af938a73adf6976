import MonkeySource.Location
import MonkeySource.Token.Kind

set_option autoImplicit false

/-!
# Tokens
-/

namespace MonkeySource

/-- A token: its kind, its text in the source (for a string, without the quotes), and where it
starts, if that is known. -/
structure Token where
  kind : TokenKind
  literal : String
  location : Option Location := none
  deriving DecidableEq, Repr

namespace Token

/-- Sameness of tokens. Kind and literal decide; where the tokens stand does not. -/
def Same (first second : Token) : Prop :=
  first.kind = second.kind ∧ first.literal = second.literal

instance (first second : Token) : Decidable (Same first second) :=
  inferInstanceAs (Decidable (_ ∧ _))

/-- The short form, which leaves the location out. -/
def text (token : Token) : String :=
  token.kind.name ++ "(" ++ Text.quote token.literal ++ ")"

/-- The full form, which also tells a token without a location from one that has one. -/
def detail (token : Token) : String :=
  let place := match token.location with
    | some location => location.detail
    | none => "None"
  "Token(" ++ token.kind.name ++ ", " ++ Text.quote token.literal ++ ", " ++ place ++ ")"

def isLiteral (token : Token) : Bool := token.kind.isLiteral

def isKeyword (token : Token) : Bool := token.kind.isKeyword

def isOperator (token : Token) : Bool := token.kind.isOperator

def isIdentifier (token : Token) : Bool := token.kind == .identifier

end Token

end MonkeySource
