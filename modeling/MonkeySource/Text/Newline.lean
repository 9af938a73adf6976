set_option autoImplicit false

/-!
# Line ends

Text files end their lines in three ways. Inside the library a line ends with a line feed alone.
-/

namespace MonkeySource.Text

/-- Replaces every carriage return, together with a line feed right after it, by one line feed. -/
def normalizeNewlines : List Char → List Char
  | [] => []
  | '\r' :: '\n' :: rest => '\n' :: normalizeNewlines rest
  | c :: rest => (if c = '\r' then '\n' else c) :: normalizeNewlines rest

end MonkeySource.Text
