import MonkeySource.Location

set_option autoImplicit false

/-!
# Cursors

A cursor is what is left of a source together with the place where it starts. It can be moved past
the end, where it goes on counting as if along an endless last line.
-/

namespace MonkeySource

structure Cursor where
  rest : List Char
  offset : Nat := 0
  line : Nat := 1
  column : Nat := 1
  deriving DecidableEq, Repr

namespace Cursor

def location (cursor : Cursor) (filename : String) : Location :=
  ⟨filename, cursor.line, cursor.column, cursor.offset⟩

def current? (cursor : Cursor) : Option Char := cursor.rest.head?

/-- The character after the one under the cursor. -/
def peek? (cursor : Cursor) : Option Char := cursor.rest.tail.head?

/-- Moves one place on. A line ends with its line feed, so the next line starts after it. -/
def advance (cursor : Cursor) : Cursor where
  rest := cursor.rest.tail
  offset := cursor.offset + 1
  line := if cursor.current? = some '\n' then cursor.line + 1 else cursor.line
  column := if cursor.current? = some '\n' then 1 else cursor.column + 1

def move (cursor : Cursor) : (count : Nat) → Cursor
  | 0 => cursor
  | count + 1 => cursor.advance.move count

/-- Moves to the first character that fails the test, or to the end. -/
def skipWhile (cursor : Cursor) (test : Char → Bool) : Cursor :=
  cursor.move (cursor.rest.takeWhile test).length

@[simp] theorem rest_move (cursor : Cursor) (count : Nat) :
    (cursor.move count).rest = cursor.rest.drop count := by
  induction count generalizing cursor with
  | zero => rfl
  | succ count ih => rw [move, ih, advance, List.drop_tail]

@[simp] theorem offset_move (cursor : Cursor) (count : Nat) :
    (cursor.move count).offset = cursor.offset + count := by
  induction count generalizing cursor with
  | zero => rfl
  | succ count ih => simp only [move, ih, advance]; omega

theorem move_add (cursor : Cursor) (first second : Nat) :
    cursor.move (first + second) = (cursor.move first).move second := by
  induction first generalizing cursor with
  | zero => rw [Nat.zero_add]; rfl
  | succ first ih => rw [Nat.succ_add]; exact ih cursor.advance

@[simp] theorem rest_skipWhile (cursor : Cursor) (test : Char → Bool) :
    (cursor.skipWhile test).rest = cursor.rest.dropWhile test := by
  rw [skipWhile, rest_move]
  induction cursor.rest with
  | nil => rfl
  | cons c rest ih => by_cases passes : test c <;> simp [passes, ih]

end Cursor

end MonkeySource
