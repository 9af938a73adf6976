import MonkeySource.Proofs.IndexedAgreement

set_option autoImplicit false

/-!
# The closed form of a machine

Line and column are counted along the way, from the character that is being left. The source and the
position alone give back everything about the cursor that a machine keeps, wherever steps have taken
it.
-/

namespace MonkeySource

theorem Cursor.PointsInto.offset_le_of_inward {source : List Char} {earlier later : Cursor}
    (here : earlier.PointsInto source) (inward : earlier.Inward later) :
    later.offset ≤ max earlier.offset source.length := by
  obtain ⟨count, within, rfl⟩ := inward
  rw [here, List.length_drop] at within
  rw [offset_move]
  omega

namespace IndexedScanner

/-- What a machine keeps, told by its source and its position. Behind the end of the source there is
no character, but the position and the column go on. -/
structure Represents (source : List Char) (machine : IndexedScanner) : Prop where
  input : machine.input = source
  readPosition : machine.readPosition = machine.position + 1
  current : machine.current = source[machine.position]?
  line : machine.line = 1 + (source.take machine.position).count '\n'
  column : (machine.column : Int) = machine.position - lastFeed (source.take machine.position)

theorem represents_indexed {source : List Char} {scanner : Scanner} {index : Nat}
    (stands : scanner.cursor = .ofIndex source index) :
    (scanner.indexed source).Represents source := by
  have position : (scanner.indexed source).position = index :=
    (congrArg Cursor.offset stands).trans (Cursor.offset_ofIndex source index)
  have line : (scanner.indexed source).line = (Cursor.ofIndex source index).line :=
    congrArg Cursor.line stands
  have column : (scanner.indexed source).column = (Cursor.ofIndex source index).column :=
    congrArg Cursor.column stands
  constructor
  case input => rfl
  case readPosition => rfl
  case current => rfl
  case line => rw [line, position, Cursor.line_ofIndex]
  case column =>
    have behind := lineStart_le source index
    rw [column, position, Cursor.column_ofIndex, lastFeed_take]
    omega

end IndexedScanner

namespace IndexedSession

/-- A machine is started before its source and moved onto it. Whatever steps follow, it keeps its
closed form. No step takes it back, and only the two that move without looking at the character
under the cursor take it out of the source. -/
theorem after_represents (source filename : String) (steps : List Step) :
    ∃ session : IndexedSession,
      (ofSource source filename >>= fun fresh => fresh.after Finding.illegalText steps) =
        pure session ∧
      session.scanner.Represents source.toList ∧
      (∀ step, ∃ reply later, session.step Finding.illegalText step = pure (reply, later) ∧
        session.scanner.position ≤ later.scanner.position ∧
        (step ≠ .advance → step ≠ .readQuoted →
          later.scanner.position ≤ max session.scanner.position source.length)) ∧
      ((∀ step ∈ steps, step ≠ .advance ∧ step ≠ .readQuoted) →
        session.scanner.position ≤ source.length) := by
  have start : (Session.ofSource source filename).scanner.cursor.PointsInto source.toList := rfl
  have here := start.onward ((Session.ofSource source filename).after_onward steps)
  have reached : (ofSource source filename >>= fun fresh => fresh.after Finding.illegalText steps) =
      pure (((Session.ofSource source filename).after steps).indexed source.toList) := by
    rw [ofSource_eq, pure_bind]
    exact after_indexed (fun _ _ _ => rfl) start steps
  have represents := IndexedScanner.represents_indexed
    (Session.cursor_after_ofSource source filename steps)
  refine ⟨_, reached, represents, fun step => ?_, fun stays => ?_⟩
  · refine ⟨_, _, step_indexed (fun _ _ _ => rfl) here step,
      (Session.step_onward _ step).offset_le, fun notAdvance notQuoted => ?_⟩
    rw [← String.length_toList]
    exact here.offset_le_of_inward (Session.step_inward _ notAdvance notQuoted)
  · have inside := start.offset_le_of_inward (Session.after_inward _ stays)
    have fresh : (Session.ofSource source filename).scanner.cursor.offset = 0 := rfl
    rw [fresh, Nat.zero_max, String.length_toList] at inside
    exact inside

end IndexedSession

end MonkeySource
