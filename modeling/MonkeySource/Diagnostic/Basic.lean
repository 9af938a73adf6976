import MonkeySource.Location

set_option autoImplicit false

/-!
# Diagnostics

A finding says what was noticed and where; a diagnostic adds how severe it is. Raising a finding
from a warning to an error therefore changes nothing but the severity.
-/

namespace MonkeySource

/-- What was noticed. An absent code, help or list of suggestions differs from an empty one,
although neither is shown. -/
structure Finding where
  message : String
  location : Location
  code : Option String := none
  help : Option String := none
  suggestions : Option (List String) := none
  deriving DecidableEq, Repr

structure Diagnostic extends Finding where
  severity : String
  deriving DecidableEq, Repr

def Finding.asWarning (finding : Finding) : Diagnostic := { finding with severity := "warning" }

def Finding.asError (finding : Finding) : Diagnostic := { finding with severity := "error" }

namespace Diagnostic

/-- The severity in capitals, and the code if there is one to show. -/
def heading (diagnostic : Diagnostic) : String :=
  let severity := String.ofList (diagnostic.severity.toList.map Char.toUpper)
  match diagnostic.code with
  | none | some "" => severity
  | some code => severity ++ "[" ++ code ++ "]"

def helpLines (diagnostic : Diagnostic) : List String :=
  match diagnostic.help with
  | none | some "" => []
  | some help => ["  help: " ++ help]

def suggestionLines (diagnostic : Diagnostic) : List String :=
  match diagnostic.suggestions with
  | none | some [] => []
  | some suggestions => "  suggestions:" :: suggestions.map ("    - " ++ ·)

/-- The lines of the rendered form, without their line feeds. A text field that itself holds line
feeds stands here as one line. -/
def lines (diagnostic : Diagnostic) : List String :=
  (diagnostic.heading ++ ": " ++ diagnostic.message)
    :: ("  --> " ++ diagnostic.location.text)
    :: (diagnostic.helpLines ++ diagnostic.suggestionLines)

/-- The rendered form: every line ends with a line feed. Only severities in ASCII are put into
capitals. -/
def render (diagnostic : Diagnostic) : String :=
  diagnostic.lines.foldr (fun line text => line ++ "\n" ++ text) ""

end Diagnostic

/-- A finding that a caller treats as fatal. -/
structure LexicalError where
  finding : Finding
  deriving DecidableEq, Repr

namespace LexicalError

def diagnostic (error : LexicalError) : Diagnostic := error.finding.asError

/-- The message is all that a raised error is given besides its diagnostic. -/
def arguments (error : LexicalError) : List String := [error.finding.message]

def text (error : LexicalError) : String := error.diagnostic.render

end LexicalError

end MonkeySource
