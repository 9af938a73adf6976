import MonkeySource.Proofs.IndexedAgreement

set_option autoImplicit false

/-!
# Every scan ends

Each token but the end of input moves the cursor on, and is charged to a character of its own that
is no blank. So no loop of a scan goes on for ever, and the characters left bound the tokens to
come.
-/

namespace MonkeySource

/-- A lexeme begins with a character that is no blank, so every piece of a layout takes one up. -/
theorem Reads.length_le_countP {source tail : List Char} {pieces : List (List Char × Lexeme)}
    (reads : Reads source pieces tail) : pieces.length ≤ source.countP (!isBlank ·) := by
  induction reads with
  | done _ => exact Nat.zero_le _
  | @step source gap lexeme rest pieces tail leads _ ih =>
      obtain ⟨c, more, spelled⟩ := List.exists_cons_of_ne_nil leads.valid.text_ne_nil
      have first : c ∈ lexeme.text := spelled ▸ List.mem_cons_self
      have charged : 0 < lexeme.text.countP (!isBlank ·) :=
        List.countP_pos_iff.mpr ⟨c, first, by simp [leads.valid.head_not_blank spelled]⟩
      rw [leads.split, List.countP_append, List.countP_append, List.length_cons]
      omega

namespace Scanner

theorem offset_next_lt {scanner : Scanner} (more : scanner.next.1.kind ≠ .endOfInput) :
    scanner.cursor.offset < scanner.next.2.cursor.offset := by
  obtain ⟨count, _, moved⟩ := scanner.next_inward
  have shorter := scanner.length_rest_next_lt more
  rw [moved, Cursor.rest_move, List.length_drop] at shorter
  rw [moved, Cursor.offset_move]
  omega

theorem length_tokenize_le (scanner : Scanner) :
    scanner.tokenize.1.length ≤ 1 + scanner.cursor.rest.countP (!isBlank ·) := by
  obtain ⟨pieces, tail, reads⟩ := exists_reads scanner.cursor.rest
  have charged := reads.length_le_countP
  rw [reads.tokenize_eq rfl, List.length_append, List.length_map, Cursor.length_places,
    List.length_singleton]
  omega

/-- How the two ways to read on from a state of a scanner come to their end. -/
structure Finishes (source : List Char) (scanner : Scanner) : Prop where
  /-- The machine, whose loops may go on for ever, comes to the token that the scanner gives. -/
  next : (scanner.indexed source).next Finding.illegalText =
    pure (scanner.next.1, scanner.next.2.indexed source)
  tokenize : (scanner.indexed source).tokenize Finding.illegalText =
    pure (scanner.tokenize.1, scanner.tokenize.2.indexed source)
  progress : scanner.next.1.kind ≠ .endOfInput →
    scanner.cursor.offset < scanner.next.2.cursor.offset
  /-- One end of input, and that at the end. -/
  ended : ∃ tokens last, scanner.tokenize.1 = tokens ++ [last] ∧ last.kind = .endOfInput ∧
    ∀ token ∈ tokens, token.kind ≠ .endOfInput
  bounded : scanner.tokenize.1.length ≤
    1 + (source.drop scanner.cursor.offset).countP (!isBlank ·)

theorem finishes {source : List Char} {scanner : Scanner}
    (here : scanner.cursor.PointsInto source) : scanner.Finishes source where
  next := IndexedScanner.next_indexed (fun _ _ _ => rfl) here
  tokenize := IndexedScanner.tokenize_indexed (fun _ _ _ => rfl) here
  progress := offset_next_lt
  ended := scanner.exists_tokenize_eq_append
  bounded := by
    rw [← here]
    exact scanner.length_tokenize_le

end Scanner

/-- Semicolons need no blanks between them, and each is a lexeme of its own. -/
theorem reads_semicolons (count : Nat) :
    Reads (List.replicate count ';') (List.replicate count ([], .symbol (.delimiter .semicolon)))
      [] := by
  induction count with
  | zero => exact .done (by simp)
  | succ count ih =>
      refine .step ⟨rfl, by simp, trivial, ?_⟩ ih
      intro c _ absorbed
      simp [Lexeme.Absorbs] at absorbed

theorem exists_length_tokenize_eq (count : Nat) :
    ∃ source : String, source.toList.countP (!isBlank ·) = count ∧
      ∀ filename, (tokenize source filename).length = 1 + count := by
  refine ⟨String.ofList (List.replicate count ';'), ?_, fun filename => ?_⟩
  · have visible : (!isBlank ';') = true := by decide
    rw [String.toList_ofList, List.countP_replicate, if_pos visible]
  · have reads := reads_semicolons count
    rw [← String.toList_ofList (l := List.replicate count ';')] at reads
    rw [reads.tokenize_source, List.length_append, List.length_map, Cursor.length_places,
      List.length_replicate, List.length_singleton, Nat.add_comm]

/-- From every state that steps lead to, in the middle of a lexeme or behind the end, a scan comes
to its end, with at most one token for each character left that is no blank, and one more for the
end of input. Some sources need that many. -/
theorem Session.scans_end :
    (∀ (source filename : String) (steps : List Step),
      let session := (ofSource source filename).after steps
      (IndexedSession.ofSource source filename >>= fun machine =>
        machine.after Finding.illegalText steps) = pure (session.indexed source.toList) ∧
      session.scanner.Finishes source.toList) ∧
    ∀ count, ∃ source : String, source.toList.countP (!isBlank ·) = count ∧
      ∀ filename, (tokenize source filename).length = 1 + count := by
  refine ⟨fun source filename steps => ?_, exists_length_tokenize_eq⟩
  have start : (ofSource source filename).scanner.cursor.PointsInto source.toList := rfl
  refine ⟨?_, Scanner.finishes (start.onward ((ofSource source filename).after_onward steps))⟩
  rw [IndexedSession.ofSource_eq, pure_bind]
  exact IndexedSession.after_indexed (fun _ _ _ => rfl) start steps

end MonkeySource
