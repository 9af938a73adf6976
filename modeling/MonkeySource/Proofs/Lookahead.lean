import MonkeySource.Proofs.Concatenation

set_option autoImplicit false

/-!
# One character of lookahead

Whether a lexeme ends is decided by the one character behind it. So what is appended to a source can
only change the tokens that reach its last character.
-/

namespace MonkeySource

variable {front back gap rest : List Char} {lexeme : Lexeme}

theorem Leads.append (leads : Leads front gap lexeme rest) (back : List Char) (more : rest ≠ []) :
    Leads (front ++ back) gap lexeme (rest ++ back) where
  split := by rw [leads.split, List.append_assoc, List.append_assoc]
  blank := leads.blank
  valid := leads.valid
  ends := leads.ends.append fun nothing => absurd nothing more

/-- A lexeme that leaves some of the first text over is also the first one there. -/
theorem Leads.of_append (leads : Leads (front ++ back) gap lexeme rest)
    (before : gap.length + lexeme.text.length < front.length) :
    ∃ kept, kept ≠ [] ∧ Leads front gap lexeme kept := by
  have split := leads.split
  rw [← List.append_assoc] at split
  rcases List.append_eq_append_iff.mp split with ⟨missing, longer, _⟩ | ⟨kept, whole, remaining⟩
  · have lengths := congrArg List.length longer
    rw [List.length_append, List.length_append] at lengths
    omega
  · have some_kept : kept ≠ [] := by
      rintro rfl
      rw [whole, List.append_nil, List.length_append] at before
      omega
    refine ⟨kept, some_kept, by rw [whole, List.append_assoc], leads.blank, leads.valid, ?_⟩
    obtain ⟨c, others, rfl⟩ := List.exists_cons_of_ne_nil some_kept
    rw [remaining] at leads
    exact leads.ends

/-- Whether a lexeme that starts at an index ends before a bound. -/
def endsBefore (bound : Nat) (start : Nat × Lexeme) : Bool :=
  decide (start.1 + start.2.text.length < bound)

theorem le_start_of_mem {start : Nat × Lexeme} {index : Nat} {pieces : List (List Char × Lexeme)}
    (member : start ∈ starts index pieces) : index ≤ start.1 := by
  induction pieces generalizing index with
  | nil => cases member
  | cons piece pieces ih =>
      obtain ⟨gap, lexeme⟩ := piece
      rcases List.mem_cons.mp member with rfl | later
      · exact Nat.le_add_right index gap.length
      · have := ih later
        omega

/-- The lexemes behind one that reaches a bound reach it as well. -/
theorem filter_starts_of_reaches {index bound : Nat} {pieces : List (List Char × Lexeme)}
    (reaches : bound ≤ index + gap.length + lexeme.text.length) :
    (starts index ((gap, lexeme) :: pieces)).filter (endsBefore bound) = [] := by
  rw [List.filter_eq_nil_iff]
  intro start member
  rw [endsBefore, decide_eq_true_eq, Nat.not_lt]
  rcases List.mem_cons.mp member with rfl | later
  · exact reaches
  · have := le_start_of_mem later
    omega

/-- Both layouts go on in the same way up to the first lexeme that reaches the end of the first
text; the one that is scanned further has no other lexeme before that. -/
theorem Reads.filter_starts_append {tail newTail : List Char}
    {pieces newPieces : List (List Char × Lexeme)} (reads : Reads front pieces tail)
    (longer : Reads (front ++ back) newPieces newTail) (index : Nat) :
    (starts index newPieces).filter (endsBefore (index + front.length)) =
      (starts index pieces).filter (endsBefore (index + front.length)) := by
  induction reads generalizing newPieces index with
  | @done front blank =>
      cases longer with
      | done _ => rfl
      | step leads _ =>
          refine filter_starts_of_reaches ?_
          by_contra before
          obtain ⟨_, _, inFront⟩ := leads.of_append (by omega)
          exact inFront.not_blank blank
  | @step front gap lexeme rest pieces tail leads reads ih =>
      cases longer with
      | done blank =>
          exact absurd (fun c member => blank c (List.mem_append_left _ member)) leads.not_blank
      | @step _ newGap newLexeme newRest newPieces _ newLeads newReads =>
          have length : front.length = gap.length + lexeme.text.length + rest.length := by
            rw [leads.split, List.length_append, List.length_append, Nat.add_assoc]
          by_cases last : rest = []
          · subst last
            have reaches : index + front.length ≤ index + gap.length + lexeme.text.length := by
              rw [length, List.length_nil]
              omega
            have newReaches :
                index + front.length ≤ index + newGap.length + newLexeme.text.length := by
              by_contra before
              obtain ⟨kept, some_kept, inFront⟩ := newLeads.of_append (by omega)
              exact some_kept (inFront.unique leads).2.2
            rw [filter_starts_of_reaches reaches, filter_starts_of_reaches newReaches]
          · obtain ⟨rfl, rfl, rfl⟩ := newLeads.unique (leads.append back last)
            have later := ih newReads (index + newGap.length + newLexeme.text.length)
            have bound : index + newGap.length + newLexeme.text.length + rest.length =
                index + front.length := by
              omega
            rw [bound] at later
            rw [starts, starts, List.filter_cons, List.filter_cons, later]

/-- The tokens of a source that end before a bound. -/
def tokensBefore (bound : Nat) (source filename : String) : List Token :=
  (tokenize source filename).filter fun token => token.stop source.length < bound

theorem Reads.tokensBefore_eq {source : String} {tail : List Char}
    {pieces : List (List Char × Lexeme)} (reads : Reads source.toList pieces tail) {bound : Nat}
    (within : bound ≤ source.length) (filename : String) :
    tokensBefore bound source filename = ((starts 0 pieces).filter (endsBefore bound)).map
      fun start => start.2.token (.ofIndex filename source.toList start.1) := by
  have final : ¬ (endOfInput source filename).stop source.length < bound := by
    simpa [endOfInput, Token.stop, Token.start, Token.spanText, Location.ofIndex] using within
  rw [tokensBefore, reads.tokenize_starts, List.filter_append, List.filter_map,
    List.filter_cons_of_neg (by simpa using final), List.filter_nil, List.append_nil]
  congr 1
  refine List.filter_congr fun start member => ?_
  have stop := (reads.stands_start member).stop_token filename
  rw [Cursor.location_ofIndex, Cursor.offset_ofIndex, String.length_toList] at stop
  rw [Function.comp, stop]
  rfl

theorem tokensBefore_append (front back filename : String) :
    tokensBefore front.length (front ++ back) filename =
      tokensBefore front.length front filename := by
  obtain ⟨pieces, tail, reads⟩ := exists_reads front.toList
  obtain ⟨newPieces, newTail, longer⟩ := exists_reads (front ++ back).toList
  have within : front.length ≤ (front ++ back).length := by
    rw [String.length_append]
    exact Nat.le_add_right _ _
  rw [longer.tokensBefore_eq within, reads.tokensBefore_eq (Nat.le_refl _)]
  rw [String.toList_append] at longer
  have same := reads.filter_starts_append longer 0
  rw [Nat.zero_add, String.length_toList] at same
  rw [same]
  refine List.map_congr_left fun start member => ?_
  have before := of_decide_eq_true (List.mem_filter.mp member).2
  rw [String.toList_append, Location.ofIndex_append_of_le filename back.toList]
  rw [String.length_toList]
  omega

/-- Whatever follows, the tokens that end before the last character of a text stay what they are. So
two sources that begin alike have those tokens in common. -/
theorem tokensBefore_common (front back other filename : String) :
    tokensBefore front.length (front ++ back) filename =
        tokensBefore front.length front filename ∧
      tokensBefore front.length (front ++ back) filename =
        tokensBefore front.length (front ++ other) filename := by
  refine ⟨tokensBefore_append front back filename, ?_⟩
  rw [tokensBefore_append, tokensBefore_append]

end MonkeySource
