import MonkeySource.Text.Quoted

set_option autoImplicit false

/-!
# Source locations
-/

namespace MonkeySource

/-- A place in a named source. Lines and columns count from one and offsets from zero, in
characters; a location by itself promises none of this, so any integers are allowed. -/
structure Location where
  filename : String
  line : Int
  column : Int
  offset : Int
  deriving DecidableEq, Repr

namespace Location

/-- The short form, which leaves the offset out. -/
def text (location : Location) : String :=
  location.filename ++ ":" ++ location.line.repr ++ ":" ++ location.column.repr

/-- The full form, with the filename quoted. -/
def detail (location : Location) : String :=
  "SourceLocation(" ++ Text.quote location.filename ++ ", " ++ location.line.repr ++ ", "
    ++ location.column.repr ++ ", " ++ location.offset.repr ++ ")"

end Location

end MonkeySource
