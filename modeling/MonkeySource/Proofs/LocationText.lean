import Mathlib
import MonkeySource.Location

set_option autoImplicit false

/-!
# Locations as text

A number as text holds no separator. So the short form of a location can be read from its end, and a
filename may hold whatever it likes.
-/

namespace MonkeySource

/-- A number is written with digits, behind a minus sign if it is negative. -/
theorem mem_repr {value : Int} {c : Char} (member : c ∈ value.repr.toList) :
    c = '-' ∨ c.isDigit = true := by
  have digits (size : Nat) (found : c ∈ size.repr.toList) : c.isDigit = true := by
    rw [Nat.repr_eq_ofList_toDigits, String.toList_ofList] at found
    exact Nat.isDigit_of_mem_toDigits (by decide) (by decide) found
  rw [Int.repr_eq_if] at member
  split at member
  · exact .inr (digits _ member)
  · rw [String.toList_append, List.mem_append] at member
    rcases member with minus | inDigits
    · exact .inl (List.mem_singleton.mp minus)
    · exact .inr (digits _ inDigits)

/-- So whatever is neither a digit nor a minus sign can stand behind a number. -/
theorem not_mem_repr {separator : Char} (notMinus : separator ≠ '-')
    (notDigit : separator.isDigit = false) (value : Int) : separator ∉ value.repr.toList := by
  intro member
  rcases mem_repr member with minus | digit
  · exact notMinus minus
  · rw [notDigit] at digit
    cases digit

theorem colon_not_mem_repr (value : Int) : ':' ∉ value.repr.toList :=
  not_mem_repr (by decide) (by decide) value

/-- A text is cut in one way at the first of its separators. -/
theorem append_cons_inj_of_not_mem_front {separator mark : Char} {front other back more : List Char}
    (frontFree : mark ∉ front) (otherFree : separator ∉ other)
    (same : front ++ separator :: back = other ++ mark :: more) :
    front = other ∧ separator = mark ∧ back = more := by
  rcases List.append_eq_append_iff.mp same with ⟨between, split, rest⟩ | ⟨between, split, rest⟩
  · cases between with
    | nil => exact ⟨by rw [split, List.append_nil], List.cons.inj rest⟩
    | cons c between =>
        obtain ⟨rfl, _⟩ := List.cons.inj rest
        exact absurd (split ▸ List.mem_append_right front List.mem_cons_self) otherFree
  · cases between with
    | nil =>
        obtain ⟨marks, backs⟩ := List.cons.inj rest
        exact ⟨by rw [split, List.append_nil], marks.symm, backs.symm⟩
    | cons c between =>
        obtain ⟨rfl, _⟩ := List.cons.inj rest
        exact absurd (split ▸ List.mem_append_right other List.mem_cons_self) frontFree

/-- Read backwards, the last separator is the first. -/
theorem append_cons_inj_of_not_mem {separator : Char} {front other back more : List Char}
    (backFree : separator ∉ back) (moreFree : separator ∉ more)
    (same : front ++ separator :: back = other ++ separator :: more) :
    front = other ∧ back = more := by
  have backwards := congrArg List.reverse same
  simp only [List.reverse_append, List.reverse_cons, List.append_assoc, List.cons_append,
    List.nil_append] at backwards
  obtain ⟨backs, _, fronts⟩ := append_cons_inj_of_not_mem_front (mt List.mem_reverse.mp backFree)
    (mt List.mem_reverse.mp moreFree) backwards
  exact ⟨List.reverse_injective fronts, List.reverse_injective backs⟩

namespace Location

theorem toList_text (location : Location) :
    location.text.toList = (location.filename.toList ++ ':' :: location.line.repr.toList) ++
      ':' :: location.column.repr.toList := by
  have colon : ":".toList = [':'] := by decide
  simp only [text, String.toList_append, colon, List.append_assoc, List.cons_append,
    List.nil_append]

theorem text_eq_text_iff {first second : Location} :
    first.text = second.text ↔
      first.filename = second.filename ∧ first.line = second.line ∧
        first.column = second.column := by
  constructor
  · intro same
    have texts := congrArg String.toList same
    rw [toList_text, toList_text] at texts
    obtain ⟨fronts, columns⟩ :=
      append_cons_inj_of_not_mem (colon_not_mem_repr _) (colon_not_mem_repr _) texts
    obtain ⟨filenames, lines⟩ :=
      append_cons_inj_of_not_mem (colon_not_mem_repr _) (colon_not_mem_repr _) fronts
    exact ⟨String.toList_inj.mp filenames, Int.repr_injective (String.toList_inj.mp lines),
      Int.repr_injective (String.toList_inj.mp columns)⟩
  · rintro ⟨filenames, lines, columns⟩
    rw [text, text, filenames, lines, columns]

end Location

end MonkeySource
