import MonkeySource.Diagnostic.Basic
import MonkeySource.Token.Basic

set_option autoImplicit false

/-!
# Comparison tables

Lists compared with themselves, element by element. Tokens are compared by sameness, which ignores
locations, or by location alone; diagnostics by everything they hold.
-/

namespace MonkeySource

/-- One row for each element, with the test of it against every element. -/
def comparisonTable {α : Type} (test : α → α → Bool) (items : List α) : List (List Bool) :=
  items.map fun row => items.map fun column => test row column

namespace Token

def sameTable (tokens : List Token) : List (List Bool) :=
  comparisonTable (fun first second => decide (Same first second)) tokens

/-- Two tokens without a location agree; with one and without one they do not. -/
def locationTable (tokens : List Token) : List (List Bool) :=
  comparisonTable (fun first second => decide (first.location = second.location)) tokens

def firstSame (tokens : List Token) : List Nat :=
  tokens.map fun token => tokens.findIdx fun other => decide (Same other token)

def countDistinct (tokens : List Token) : Nat :=
  (tokens.map fun token => (token.kind, token.literal)).eraseDups.length

/-- How many different locations there are. No location counts as one of them. -/
def countLocations (tokens : List Token) : Nat :=
  (tokens.map fun token => token.location).eraseDups.length

end Token

/-- An absent field differs from an empty one, although both are rendered alike. -/
def Diagnostic.equalTable (diagnostics : List Diagnostic) : List (List Bool) :=
  comparisonTable (fun first second => decide (first = second)) diagnostics

end MonkeySource
