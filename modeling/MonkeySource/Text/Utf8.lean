import MonkeySource.Text.Hexadecimal

set_option autoImplicit false

/-!
# Strict UTF-8

Decodes well-formed UTF-8 and nothing else: a lead byte fixes how many bytes follow and, for the
first of them, a range that leaves out overlong forms, surrogates and code points above the last
one. A refusal names the longest part of a sequence that was still in order.
-/

namespace MonkeySource.Text.Utf8

structure ByteRange where
  low : UInt8
  high : UInt8
  deriving DecidableEq, Repr

def ByteRange.contains (range : ByteRange) (byte : UInt8) : Bool :=
  decide (range.low ≤ byte) && decide (byte ≤ range.high)

/-- The bytes that continue a sequence where its lead byte sets no narrower range. -/
def continuation : ByteRange := ⟨0x80, 0xBF⟩

/-- What a lead byte announces: its own share of the code point, and a range for each byte that
has to follow. -/
structure Lead where
  payload : Nat
  followers : List ByteRange
  deriving DecidableEq, Repr

/-- Continuation bytes lead nothing, nor do the bytes that could only begin an overlong form or a
code point out of range. -/
def lead? (byte : UInt8) : Option Lead :=
  let value := byte.toNat
  if value < 0x80 then some ⟨value, []⟩
  else if value < 0xC2 then none
  else if value < 0xE0 then some ⟨value - 0xC0, [continuation]⟩
  else if value < 0xF0 then
    let second : ByteRange :=
      if value = 0xE0 then ⟨0xA0, 0xBF⟩
      else if value = 0xED then ⟨0x80, 0x9F⟩
      else continuation
    some ⟨value - 0xE0, [second, continuation]⟩
  else if value < 0xF5 then
    let second : ByteRange :=
      if value = 0xF0 then ⟨0x90, 0xBF⟩
      else if value = 0xF4 then ⟨0x80, 0x8F⟩
      else continuation
    some ⟨value - 0xF0, [second, continuation, continuation]⟩
  else none

/-- How many bytes, from the first on, lie in the ranges asked of them. -/
def countMatching : List ByteRange → List UInt8 → Nat
  | range :: ranges, byte :: bytes =>
      if range.contains byte then countMatching ranges bytes + 1 else 0
  | _, _ => 0

def codePoint (payload : Nat) (followers : List UInt8) : Nat :=
  followers.foldl (fun code byte => code * 64 + byte.toNat % 64) payload

inductive Reason where
  | invalidStart
  | truncated
  | invalidContinuation
  deriving DecidableEq, Repr

def Reason.text : Reason → String
  | .invalidStart => "invalid start byte"
  | .truncated => "unexpected end of data"
  | .invalidContinuation => "invalid continuation byte"

/-- The first sequence that is not well formed: where it starts, its first byte, and how many of
its bytes were in order. A byte that leads nothing counts as one. -/
structure Fault where
  position : Nat
  byte : UInt8
  length : Nat
  reason : Reason
  deriving DecidableEq, Repr

/-- A fault of one byte shows the byte; a longer one shows its first and last position. -/
def Fault.message (fault : Fault) : String :=
  let place :=
    if fault.length = 1 then
      "byte 0x" ++ String.ofList (hexDigits .lower 2 fault.byte.toNat) ++ " in position "
        ++ fault.position.repr
    else
      "bytes in position " ++ fault.position.repr ++ "-"
        ++ (fault.position + fault.length - 1).repr
  "'utf-8' codec can't decode " ++ place ++ ": " ++ fault.reason.text

private theorem length_drop_lt (byte : UInt8) (bytes : List UInt8) (count : Nat) :
    (bytes.drop count).length < (byte :: bytes).length := by
  rw [List.length_drop, List.length_cons]
  omega

/-- Decodes bytes that start at a position of the whole. The first fault ends the decoding, and
nothing of what stands before it is returned. -/
def decodeFrom (position : Nat) : List UInt8 → Except Fault (List Char)
  | [] => .ok []
  | byte :: bytes =>
      match lead? byte with
      | none => .error ⟨position, byte, 1, .invalidStart⟩
      | some lead =>
          let matching := countMatching lead.followers bytes
          if matching = lead.followers.length then
            match decodeFrom (position + matching + 1) (bytes.drop matching) with
            | .ok text =>
                .ok (Char.ofNat (codePoint lead.payload (bytes.take matching)) :: text)
            | .error fault => .error fault
          else
            .error ⟨position, byte, matching + 1,
              if matching = bytes.length then .truncated else .invalidContinuation⟩
termination_by bytes => bytes.length
decreasing_by exact length_drop_lt byte bytes matching

/-- Decodes a whole file. A byte order mark is an ordinary character. -/
def decode (bytes : List UInt8) : Except Fault (List Char) := decodeFrom 0 bytes

end MonkeySource.Text.Utf8
