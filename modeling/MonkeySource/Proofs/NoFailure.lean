import MonkeySource.Proofs.IndexedAgreement

set_option autoImplicit false

/-!
# No step fails

A machine that looks characters up by index, symbols up in a table and findings up by text takes
every step of every session without a fault. Only a text that no step asks about has no finding.
-/

namespace MonkeySource

/-- A text has no finding exactly if it would have to be named by its one code point and has not
one. -/
theorem Finding.illegalText_eq_error_iff {text : String} {location : Location}
    {error : NotOneCharacter} :
    illegalText text location = .error error ↔
      ((∃ c ∈ text.toList, Text.isPrintable c = false) ∧ text.length ≠ 1) ∧
        error = ⟨text.length⟩ := by
  have hidden : Text.isPrintableText text = false ↔
      ∃ c ∈ text.toList, Text.isPrintable c = false := by
    simp [Text.isPrintableText]
  rw [← hidden, ← String.length_toList, illegalText]
  cases printable : Text.isPrintableText text with
  | true => simp
  | false =>
      rcases text.toList with _ | ⟨c, _ | ⟨d, rest⟩⟩
      · simp [eq_comm]
      · simp
      · simp [eq_comm]

/-- The machine replies to all steps as the scanner does, and is left where the scanner is left,
with any maker of findings that can be trusted on texts of one character: it is asked about no
others. A text has no finding exactly if it holds an unprintable character and is not that
character alone. -/
theorem Session.never_fails :
    (∀ (source filename : String) (steps : List Step) (make : FindingMaker), make.MakesOne →
      (IndexedSession.ofSource source filename >>= fun machine => machine.run make steps) =
        pure (((ofSource source filename).run steps).map
          fun entry => (entry.1, entry.2.indexed source.toList))) ∧
    ∀ text location error, Finding.illegalText text location = .error error ↔
      ((∃ c ∈ text.toList, Text.isPrintable c = false) ∧ text.length ≠ 1) ∧
        error = ⟨text.length⟩ := by
  refine ⟨fun source filename steps make makesOne => ?_,
    fun _ _ _ => Finding.illegalText_eq_error_iff⟩
  have start : (ofSource source filename).scanner.cursor.PointsInto source.toList := rfl
  rw [IndexedSession.ofSource_eq, pure_bind]
  exact IndexedSession.run_indexed makesOne start steps

/-- Steps behind the end of the input, and a character without a printed form, do no harm. -/
theorem Session.never_fails_behind_end :
    FindingMaker.MakesOne Finding.illegalText ∧
      (IndexedSession.ofSource "\x00!" "main" >>= fun machine =>
        machine.run Finding.illegalText [.next, .peek, .advance, .advance, .readQuoted, .next]) =
        pure (((ofSource "\x00!" "main").run
          [.next, .peek, .advance, .advance, .readQuoted, .next]).map
            fun entry => (entry.1, entry.2.indexed "\x00!".toList)) := by
  have makesOne : FindingMaker.MakesOne Finding.illegalText := fun _ _ _ => rfl
  exact ⟨makesOne, never_fails.1 _ _ _ _ makesOne⟩

end MonkeySource
