set_option autoImplicit false

/-!
# Hexadecimal digits

Fixed-width hexadecimal numbers, as escapes and code point names use them. The width is always
exact: a number too large for it loses its leading digits.
-/

namespace MonkeySource.Text

/-- The case of the digits above nine. -/
inductive DigitCase where
  | lower
  | upper
  deriving DecidableEq, Repr

/-- The character of one digit below sixteen. -/
def hexDigit (digitCase : DigitCase) (digit : Nat) : Char :=
  if digit < 10 then Char.ofNat (0x30 + digit)
  else match digitCase with
    | .lower => Char.ofNat (0x57 + digit)
    | .upper => Char.ofNat (0x37 + digit)

/-- The last `width` hexadecimal digits of a number, leading zeros included. -/
def hexDigits (digitCase : DigitCase) : (width : Nat) → (number : Nat) → List Char
  | 0, _ => []
  | width + 1, number =>
      hexDigits digitCase width (number / 16) ++ [hexDigit digitCase (number % 16)]

/-- The name of a code point: `U+` and its digits in upper case, at least four of them. -/
def codePointName (c : Char) : String :=
  let code := c.toNat
  let width := if code < 0x10000 then 4 else if code < 0x100000 then 5 else 6
  "U+" ++ String.ofList (hexDigits .upper width code)

end MonkeySource.Text
