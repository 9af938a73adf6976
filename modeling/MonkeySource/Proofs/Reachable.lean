import MonkeySource.Proofs.Layout
import MonkeySource.Scanner.Session

set_option autoImplicit false

/-!
# Reachable cursors

Whatever is asked of a scanner, its cursor only moves on. So every cursor of a session is the one
that belongs to its offset, in the middle of a lexeme and beyond the end as well.
-/

namespace MonkeySource

namespace Cursor

def Onward (earlier later : Cursor) : Prop := ∃ count, later = earlier.move count

/-- Moved on, but not out of the source. -/
def Inward (earlier later : Cursor) : Prop :=
  ∃ count ≤ earlier.rest.length, later = earlier.move count

theorem Onward.refl (cursor : Cursor) : cursor.Onward cursor := ⟨0, rfl⟩

theorem Onward.trans {first second third : Cursor} (start : first.Onward second)
    (finish : second.Onward third) : first.Onward third := by
  obtain ⟨count, rfl⟩ := start
  obtain ⟨more, rfl⟩ := finish
  exact ⟨count + more, (move_add first count more).symm⟩

theorem Onward.offset_le {earlier later : Cursor} (onward : earlier.Onward later) :
    earlier.offset ≤ later.offset := by
  obtain ⟨count, rfl⟩ := onward
  rw [offset_move]
  exact Nat.le_add_right _ _

theorem onward_advance (cursor : Cursor) : cursor.Onward cursor.advance := ⟨1, rfl⟩

theorem onward_skipWhile (cursor : Cursor) (test : Char → Bool) :
    cursor.Onward (cursor.skipWhile test) := ⟨_, rfl⟩

theorem Inward.refl (cursor : Cursor) : cursor.Inward cursor := ⟨0, Nat.zero_le _, rfl⟩

theorem Inward.trans {first second third : Cursor} (start : first.Inward second)
    (finish : second.Inward third) : first.Inward third := by
  obtain ⟨count, within, rfl⟩ := start
  obtain ⟨more, left, rfl⟩ := finish
  rw [rest_move, List.length_drop] at left
  exact ⟨count + more, by omega, (move_add first count more).symm⟩

theorem Inward.onward {earlier later : Cursor} (inward : earlier.Inward later) :
    earlier.Onward later := by
  obtain ⟨count, _, moved⟩ := inward
  exact ⟨count, moved⟩

theorem inward_skipWhile (cursor : Cursor) (test : Char → Bool) :
    cursor.Inward (cursor.skipWhile test) :=
  ⟨_, (List.takeWhile_prefix test).length_le, rfl⟩

end Cursor

namespace Scanner

theorem next_inward (scanner : Scanner) : scanner.cursor.Inward scanner.next.2.cursor := by
  rcases blank_or_leads scanner.cursor.rest with blank | ⟨gap, lexeme, rest, leads⟩
  · rw [next_of_blank blank]
    exact ⟨_, Nat.le_refl _, rfl⟩
  · rw [next_of_leads leads]
    refine ⟨_, ?_, (Cursor.move_add _ _ _).symm⟩
    rw [leads.split, List.length_append, List.length_append]
    omega

theorem tokenize_inward (scanner : Scanner) :
    scanner.cursor.Inward scanner.tokenize.2.cursor := by
  obtain ⟨pieces, tail, reads⟩ := exists_reads scanner.cursor.rest
  rw [reads.tokenize_eq rfl]
  exact ⟨_, Nat.le_refl _, rfl⟩

theorem take_inward (count : Nat) (scanner : Scanner) :
    scanner.cursor.Inward (scanner.take count).2.cursor := by
  induction count generalizing scanner with
  | zero => exact .refl _
  | succ count ih =>
      simp only [take]
      split
      · exact scanner.next_inward
      · exact scanner.next_inward.trans (ih scanner.next.2)

theorem readQuoted_onward (scanner : Scanner) :
    scanner.cursor.Onward scanner.readQuoted.2.cursor := by
  have stopped := scanner.cursor.onward_advance.trans
    (scanner.cursor.advance.onward_skipWhile (· ≠ '"'))
  simp only [readQuoted]
  split
  · exact stopped
  · exact stopped.trans (Cursor.onward_advance _)

end Scanner

namespace Session

def after (session : Session) (steps : List Step) : Session :=
  steps.foldl (fun current step => (current.step step).2) session

theorem pull_inward (session : Session) (id : ReaderId) :
    session.scanner.cursor.Inward (session.pull id).2.scanner.cursor := by
  simp only [pull]
  split
  · exact .refl _
  · exact session.scanner.next_inward

/-- Only two steps move past the end: the one that always moves by one, and the one that takes any
character for an opening quote. -/
theorem step_inward (session : Session) {step : Step} (notAdvance : step ≠ .advance)
    (notQuoted : step ≠ .readQuoted) :
    session.scanner.cursor.Inward (session.step step).2.scanner.cursor := by
  cases step with
  | next => exact session.scanner.next_inward
  | tokenize => exact session.scanner.tokenize_inward
  | take count => exact session.scanner.take_inward count
  | pull id => exact session.pull_inward id
  | advance => exact absurd rfl notAdvance
  | skipBlanks => exact session.scanner.cursor.inward_skipWhile isBlank
  | readWord => exact session.scanner.cursor.inward_skipWhile isWordPart
  | readNumber => exact session.scanner.cursor.inward_skipWhile isDigit
  | readQuoted => exact absurd rfl notQuoted
  | openReader _ | warnings | copyWarnings | hasWarnings | clearWarnings | clearCopy | rename _
  | location | peek => exact .refl _

theorem step_onward (session : Session) (step : Step) :
    session.scanner.cursor.Onward (session.step step).2.scanner.cursor := by
  by_cases advances : step = .advance
  · subst advances
    exact session.scanner.cursor.onward_advance
  · by_cases quoted : step = .readQuoted
    · subst quoted
      exact session.scanner.readQuoted_onward
    · exact (session.step_inward advances quoted).onward

theorem after_onward (session : Session) (steps : List Step) :
    session.scanner.cursor.Onward (session.after steps).scanner.cursor := by
  induction steps generalizing session with
  | nil => exact .refl _
  | cons step steps ih => exact (session.step_onward step).trans (ih (session.step step).2)

theorem after_inward (session : Session) {steps : List Step}
    (stays : ∀ step ∈ steps, step ≠ .advance ∧ step ≠ .readQuoted) :
    session.scanner.cursor.Inward (session.after steps).scanner.cursor := by
  induction steps generalizing session with
  | nil => exact .refl _
  | cons step steps ih =>
      obtain ⟨notAdvance, notQuoted⟩ := stays step List.mem_cons_self
      exact (session.step_inward notAdvance notQuoted).trans
        (ih (session.step step).2 fun other member => stays other (List.mem_cons_of_mem _ member))

/-- Every reachable cursor is the one of its own offset in the source. -/
theorem cursor_after_ofSource (source filename : String) (steps : List Step) :
    ((ofSource source filename).after steps).scanner.cursor =
      .ofIndex source.toList ((ofSource source filename).after steps).scanner.cursor.offset := by
  obtain ⟨count, moved⟩ := (ofSource source filename).after_onward steps
  have index : ((ofSource source filename).after steps).scanner.cursor =
      .ofIndex source.toList count := moved
  rw [index, Cursor.offset_ofIndex]

end Session

end MonkeySource
