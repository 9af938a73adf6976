import Mathlib.Data.List.Induction
import MonkeySource.Scanner.Cursor

set_option autoImplicit false

/-!
# Positions in a source

The cursor and the location that belong to an index of a source, also beyond its end.
-/

namespace MonkeySource

def Cursor.ofIndex (source : List Char) (index : Nat) : Cursor :=
  Cursor.move { rest := source } index

/-- Where the line of an index begins: behind the last line feed before it. -/
def lineStart (source : List Char) (index : Nat) : Nat :=
  (source.take index).length - ((source.take index).reverse.takeWhile (· ≠ '\n')).length

/-- The index of the last line feed of a text, and -1 if there is none. -/
def lastFeed (text : List Char) : Int :=
  ((text.zipIdx.filter fun place => place.1 == '\n').getLast?.map
    fun place => (place.2 : Int)).getD (-1)

def Location.ofIndex (filename : String) (source : List Char) (index : Nat) : Location where
  filename := filename
  line := 1 + (source.take index).count '\n'
  column := index + 1 - lineStart source index
  offset := index

namespace Cursor

@[simp] theorem rest_ofIndex (source : List Char) (index : Nat) :
    (ofIndex source index).rest = source.drop index := by
  simp [ofIndex]

@[simp] theorem offset_ofIndex (source : List Char) (index : Nat) :
    (ofIndex source index).offset = index := by
  simp [ofIndex]

@[simp] theorem move_ofIndex (source : List Char) (index count : Nat) :
    (ofIndex source index).move count = ofIndex source (index + count) :=
  (move_add _ index count).symm

theorem ofIndex_succ (source : List Char) (index : Nat) :
    ofIndex source (index + 1) = (ofIndex source index).advance :=
  move_add _ index 1

theorem current?_ofIndex (source : List Char) (index : Nat) :
    (ofIndex source index).current? = source[index]? := by
  rw [current?, rest_ofIndex, List.head?_drop]

theorem line_ofIndex (source : List Char) (index : Nat) :
    (ofIndex source index).line = 1 + (source.take index).count '\n' := by
  induction index with
  | zero => rfl
  | succ index ih =>
      rw [ofIndex_succ, advance, current?_ofIndex, ih, List.take_add_one, List.count_append]
      cases source[index]? with
      | none => rfl
      | some c => by_cases feed : c = '\n' <;> simp [feed, Nat.add_assoc]

end Cursor

theorem lineStart_le (source : List Char) (index : Nat) : lineStart source index ≤ index := by
  have := List.length_take_le index source
  unfold lineStart
  omega

theorem lineStart_succ (source : List Char) (index : Nat) :
    lineStart source (index + 1) =
      if source[index]? = some '\n' then index + 1 else lineStart source index := by
  unfold lineStart
  rw [List.take_add_one]
  cases found : source[index]? with
  | none => simp
  | some c =>
      have within := (List.getElem?_eq_some_iff.mp found).1
      by_cases feed : c = '\n'
      · simp [feed, Nat.le_of_lt within]
      · simp [feed]

theorem lastFeed_append_singleton (text : List Char) (c : Char) :
    lastFeed (text ++ [c]) = if c = '\n' then (text.length : Int) else lastFeed text := by
  unfold lastFeed
  rw [List.zipIdx_append, List.filter_append]
  by_cases feed : c = '\n' <;> simp [feed]

theorem lastFeed_append (front back : List Char) :
    lastFeed (front ++ back) =
      if '\n' ∈ back then front.length + lastFeed back else lastFeed front := by
  induction back using List.reverseRecOn with
  | nil => simp
  | append_singleton back c ih =>
      rw [← List.append_assoc, lastFeed_append_singleton, lastFeed_append_singleton, ih]
      by_cases feed : c = '\n'
      · simp [feed]
      · simp [feed, Ne.symm feed]

theorem lastFeed_of_not_mem {text : List Char} (noFeed : '\n' ∉ text) : lastFeed text = -1 := by
  have line := lastFeed_append [] text
  rw [if_neg noFeed] at line
  exact line

theorem lastFeed_take (source : List Char) (index : Nat) :
    lastFeed (source.take index) = lineStart source index - 1 := by
  induction index with
  | zero => rfl
  | succ index ih =>
      rw [List.take_add_one, lineStart_succ]
      cases found : source[index]? with
      | none => simp [ih]
      | some c =>
          have within := (List.getElem?_eq_some_iff.mp found).1
          rw [Option.toList_some, lastFeed_append_singleton, ih, List.length_take,
            Nat.min_eq_left (Nat.le_of_lt within)]
          by_cases feed : c = '\n'
          · simp [feed]
          · simp [feed]

theorem Cursor.column_ofIndex (source : List Char) (index : Nat) :
    (ofIndex source index).column = index + 1 - lineStart source index := by
  induction index with
  | zero => rfl
  | succ index ih =>
      have := lineStart_le source index
      rw [ofIndex_succ, advance, current?_ofIndex, lineStart_succ]
      simp only [ih]
      split <;> omega

/-- Counting along the way gives the location that the line feeds before an index give. -/
@[simp] theorem Cursor.location_ofIndex (filename : String) (source : List Char) (index : Nat) :
    (ofIndex source index).location filename = .ofIndex filename source index := by
  have := lineStart_le source index
  have column : ((index + 1 - lineStart source index : Nat) : Int) =
      index + 1 - lineStart source index := by
    omega
  simp only [location, Location.ofIndex, line_ofIndex, column_ofIndex, offset_ofIndex, column]
  rfl

end MonkeySource
