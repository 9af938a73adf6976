import MonkeySource.Text.Hexadecimal
import MonkeySource.Text.Printable

set_option autoImplicit false

/-!
# Quoted text

The quoted form of a text: on one line, printable throughout, and between quotes that need as few
escapes as possible.
-/

namespace MonkeySource.Text

/-- The quote around a text: the single one, unless the text holds single quotes and no double
one. -/
def quoteMark (text : List Char) : Char :=
  if '\x27' ∈ text ∧ '"' ∉ text then '"' else '\x27'

/-- A character as it stands between quotes. The quote and the backslash take a backslash, the
three common controls have letters, and any other unprintable character is given by its code in
the shortest of three widths. -/
def escape (mark c : Char) : List Char :=
  if c = mark ∨ c = '\\' then ['\\', c]
  else if c = '\n' then ['\\', 'n']
  else if c = '\r' then ['\\', 'r']
  else if c = '\t' then ['\\', 't']
  else if isPrintable c then [c]
  else if c.toNat < 0x100 then '\\' :: 'x' :: hexDigits .lower 2 c.toNat
  else if c.toNat < 0x10000 then '\\' :: 'u' :: hexDigits .lower 4 c.toNat
  else '\\' :: 'U' :: hexDigits .lower 8 c.toNat

def quoteChars (text : List Char) : List Char :=
  quoteMark text :: text.flatMap (escape (quoteMark text)) ++ [quoteMark text]

def quote (text : String) : String := String.ofList (quoteChars text.toList)

@[simp] theorem toList_quote (text : String) : (quote text).toList = quoteChars text.toList := by
  simp [quote]

end MonkeySource.Text
