import MonkeySource.Proofs.Lexeme
import MonkeySource.Proofs.Position
import MonkeySource.Tokenize

set_option autoImplicit false

/-!
# The layout of a source

A source is a sequence of lexemes, each after a gap of blanks, and a tail of blanks. A scan gives
one token for each lexeme, and its findings in the same order.
-/

namespace MonkeySource

/-- The source begins with this gap and this lexeme, which ends there. -/
structure Leads (source gap : List Char) (lexeme : Lexeme) (rest : List Char) : Prop where
  split : source = gap ++ (lexeme.text ++ rest)
  blank : ∀ c ∈ gap, isBlank c = true
  valid : lexeme.Valid
  ends : lexeme.Ends rest

/-- The source consists of these gaps and lexemes, and of the tail. -/
inductive Reads : List Char → List (List Char × Lexeme) → List Char → Prop where
  | done {tail} : (∀ c ∈ tail, isBlank c = true) → Reads tail [] tail
  | step {source gap lexeme rest pieces tail} :
      Leads source gap lexeme rest → Reads rest pieces tail →
      Reads source ((gap, lexeme) :: pieces) tail

namespace Lexeme.Valid

variable {lexeme : Lexeme} {gap rest : List Char}

private theorem visible (valid : lexeme.Valid) :
    ∀ c ∈ (lexeme.text ++ rest).head?, isBlank c = false := by
  obtain ⟨c, more, spelled⟩ := List.exists_cons_of_ne_nil valid.text_ne_nil
  intro d head
  rw [spelled] at head
  obtain rfl : c = d := by simpa using head
  exact valid.head_not_blank spelled

theorem takeWhile_gap (valid : lexeme.Valid) (blank : ∀ c ∈ gap, isBlank c = true) :
    (gap ++ (lexeme.text ++ rest)).takeWhile isBlank = gap := by
  obtain ⟨c, more, spelled⟩ := List.exists_cons_of_ne_nil valid.text_ne_nil
  rw [List.takeWhile_append_of_pos blank, spelled, List.cons_append,
    List.takeWhile_cons_of_neg (by simp [valid.head_not_blank spelled]), List.append_nil]

theorem dropWhile_gap (valid : lexeme.Valid) (blank : ∀ c ∈ gap, isBlank c = true) :
    (gap ++ (lexeme.text ++ rest)).dropWhile isBlank = lexeme.text ++ rest := by
  obtain ⟨c, more, spelled⟩ := List.exists_cons_of_ne_nil valid.text_ne_nil
  rw [List.dropWhile_append_of_pos blank, spelled, List.cons_append,
    List.dropWhile_cons_of_neg (by simp [valid.head_not_blank spelled])]

end Lexeme.Valid

theorem Leads.takeWhile_eq {source gap rest : List Char} {lexeme : Lexeme}
    (leads : Leads source gap lexeme rest) : source.takeWhile isBlank = gap := by
  rw [leads.split, leads.valid.takeWhile_gap leads.blank]

theorem Leads.dropWhile_eq {source gap rest : List Char} {lexeme : Lexeme}
    (leads : Leads source gap lexeme rest) : source.dropWhile isBlank = lexeme.text ++ rest := by
  rw [leads.split, leads.valid.dropWhile_gap leads.blank]

theorem Leads.first?_eq {source gap rest : List Char} {lexeme : Lexeme}
    (leads : Leads source gap lexeme rest) : Lexeme.first? (lexeme.text ++ rest) = some lexeme := by
  rw [Lexeme.first?_eq_some_iff leads.valid.visible]
  exact ⟨leads.valid, rest, rfl, leads.ends⟩

theorem Leads.unique {source gap otherGap rest otherRest : List Char} {lexeme other : Lexeme}
    (leads : Leads source gap lexeme rest) (otherLeads : Leads source otherGap other otherRest) :
    gap = otherGap ∧ lexeme = other ∧ rest = otherRest := by
  refine ⟨leads.takeWhile_eq.symm.trans otherLeads.takeWhile_eq, ?_⟩
  exact leads.valid.unique otherLeads.valid leads.ends otherLeads.ends
    (leads.dropWhile_eq.symm.trans otherLeads.dropWhile_eq)

theorem Leads.length_rest_lt {source gap rest : List Char} {lexeme : Lexeme}
    (leads : Leads source gap lexeme rest) : rest.length < source.length := by
  have some_text := List.length_pos_iff.mpr leads.valid.text_ne_nil
  rw [leads.split, List.length_append, List.length_append]
  omega

theorem blank_or_leads (source : List Char) :
    (∀ c ∈ source, isBlank c = true) ∨ ∃ gap lexeme rest, Leads source gap lexeme rest := by
  cases found : Lexeme.first? (source.dropWhile isBlank) with
  | none =>
      rw [Lexeme.first?_eq_none_iff] at found
      exact .inl (List.dropWhile_eq_nil_iff.mp found)
  | some lexeme =>
      have visible : ∀ c ∈ (source.dropWhile isBlank).head?, isBlank c = false := by
        intro c head
        have stopped := List.head?_dropWhile_not isBlank source
        rwa [Option.mem_def.mp head] at stopped
      obtain ⟨valid, rest, split, ends⟩ := Lexeme.first?_sound found visible
      refine .inr ⟨source.takeWhile isBlank, lexeme, rest, ?_, ?_, valid, ends⟩
      · rw [← split, List.takeWhile_append_dropWhile]
      · exact fun c member => List.mem_takeWhile_imp member

theorem Leads.not_blank {source gap rest : List Char} {lexeme : Lexeme}
    (leads : Leads source gap lexeme rest) : ¬ ∀ c ∈ source, isBlank c = true := by
  intro blank
  have nothing := leads.dropWhile_eq.symm.trans (List.dropWhile_eq_nil_iff.mpr blank)
  exact leads.valid.text_ne_nil (List.append_eq_nil_iff.mp nothing).1

theorem exists_reads (source : List Char) : ∃ pieces tail, Reads source pieces tail := by
  rcases blank_or_leads source with blank | ⟨gap, lexeme, rest, leads⟩
  · exact ⟨[], source, .done blank⟩
  · obtain ⟨pieces, tail, reads⟩ := exists_reads rest
    exact ⟨(gap, lexeme) :: pieces, tail, .step leads reads⟩
termination_by source.length
decreasing_by exact leads.length_rest_lt

namespace Scanner

theorem next_of_blank {scanner : Scanner} (blank : ∀ c ∈ scanner.cursor.rest, isBlank c = true) :
    scanner.next =
      (⟨.endOfInput, "",
        some ((scanner.cursor.move scanner.cursor.rest.length).location scanner.filename)⟩,
      { scanner with cursor := scanner.cursor.move scanner.cursor.rest.length }) := by
  have all : scanner.cursor.rest.takeWhile isBlank = scanner.cursor.rest :=
    List.takeWhile_eq_self_iff.mpr blank
  simp [next, readLexeme, skipBlanks, Lexeme.first?, location, Cursor.skipWhile, all]

/-- What one step does at a lexeme: it gives the token that stands there, moves behind it, and
records the finding, if there is one. -/
theorem next_of_leads {scanner : Scanner} {gap rest : List Char} {lexeme : Lexeme}
    (leads : Leads scanner.cursor.rest gap lexeme rest) :
    scanner.next =
      (lexeme.token ((scanner.cursor.move gap.length).location scanner.filename),
      { scanner with
        cursor := (scanner.cursor.move gap.length).move lexeme.text.length
        warnings := scanner.warnings ++
          (lexeme.finding?
            ((scanner.cursor.move gap.length).location scanner.filename)).toList }) := by
  have skipped : scanner.skipBlanks =
      { scanner with cursor := scanner.cursor.move gap.length } := by
    rw [skipBlanks, Cursor.skipWhile, leads.takeWhile_eq]
  have found : Lexeme.first? (scanner.cursor.move gap.length).rest = some lexeme := by
    rw [Cursor.rest_move, leads.split, List.drop_left, leads.first?_eq]
  rw [next, skipped, readLexeme, found]
  rfl

end Scanner

def Cursor.places (cursor : Cursor) : List (List Char × Lexeme) → List (Cursor × Lexeme)
  | [] => []
  | (gap, lexeme) :: pieces =>
      (cursor.move gap.length, lexeme)
        :: ((cursor.move gap.length).move lexeme.text.length).places pieces

theorem Cursor.length_places (cursor : Cursor) (pieces : List (List Char × Lexeme)) :
    (cursor.places pieces).length = pieces.length := by
  induction pieces generalizing cursor with
  | nil => rfl
  | cons piece pieces ih => rw [places, List.length_cons, List.length_cons, ih]

theorem Cursor.map_snd_places (cursor : Cursor) (pieces : List (List Char × Lexeme)) :
    (cursor.places pieces).map Prod.snd = pieces.map Prod.snd := by
  induction pieces generalizing cursor with
  | nil => rfl
  | cons piece pieces ih => rw [places, List.map_cons, List.map_cons, ih]

theorem Lexeme.kind_ne_endOfInput (lexeme : Lexeme) : lexeme.kind ≠ .endOfInput := by
  cases lexeme with
  | word letters =>
      rcases TokenKind.ofWord_cases (String.ofList letters) with ⟨_, _, found⟩ | ⟨_, found⟩ <;>
        simp [kind, found]
  | symbol _ | number _ | quoted _ _ | stray _ => simp [kind]

/-- What a scan of a whole layout gives, from any cursor. -/
theorem Reads.tokenize_eq {source tail : List Char} {pieces : List (List Char × Lexeme)}
    (reads : Reads source pieces tail) {scanner : Scanner} (here : scanner.cursor.rest = source) :
    scanner.tokenize =
      ((scanner.cursor.places pieces).map
          (fun place => place.2.token (place.1.location scanner.filename)) ++
        [⟨.endOfInput, "", some ((scanner.cursor.move source.length).location scanner.filename)⟩],
      { scanner with
        cursor := scanner.cursor.move source.length
        warnings := scanner.warnings ++ (scanner.cursor.places pieces).flatMap
          (fun place => (place.2.finding? (place.1.location scanner.filename)).toList) }) := by
  induction reads generalizing scanner with
  | done blank =>
      subst here
      rw [Scanner.tokenize_eq, Scanner.next_of_blank blank]
      simp [Cursor.places]
  | @step source gap lexeme rest pieces tail leads reads ih =>
      subst here
      have found := Scanner.next_of_leads leads
      have remaining : scanner.next.2.cursor.rest = rest := by
        rw [found]
        simp [leads.split]
      have length : scanner.cursor.rest.length =
          gap.length + lexeme.text.length + rest.length := by
        simp [leads.split, Nat.add_assoc]
      rw [Scanner.tokenize_eq, ih remaining, found]
      simp [Lexeme.token, Lexeme.kind_ne_endOfInput, Cursor.places, length, Cursor.move_add]

structure Stands (source : List Char) (place : Cursor × Lexeme) : Prop where
  cursor : place.1 = .ofIndex source place.1.offset
  valid : place.2.Valid
  ends : ∃ rest, source.drop place.1.offset = place.2.text ++ rest ∧ place.2.Ends rest

theorem Stands.offset_lt {source : List Char} {place : Cursor × Lexeme}
    (stands : Stands source place) : place.1.offset < source.length := by
  obtain ⟨rest, here, _⟩ := stands.ends
  apply Nat.lt_of_not_le
  intro behind
  rw [List.drop_eq_nil_of_le behind] at here
  exact stands.valid.text_ne_nil (List.append_eq_nil_iff.mp here.symm).1

theorem Leads.stands {source text gap rest : List Char} {lexeme : Lexeme}
    (leads : Leads text gap lexeme rest) {index : Nat} (here : source.drop index = text) :
    Stands source (.ofIndex source (index + gap.length), lexeme) := by
  refine ⟨by simp, leads.valid, rest, ?_, leads.ends⟩
  rw [Cursor.offset_ofIndex, ← List.drop_drop, here, leads.split, List.drop_left]

theorem Leads.drop_eq {source text gap rest : List Char} {lexeme : Lexeme}
    (leads : Leads text gap lexeme rest) {index : Nat} (here : source.drop index = text) :
    source.drop (index + gap.length + lexeme.text.length) = rest := by
  rw [Nat.add_assoc, ← List.drop_drop, here, leads.split, ← List.append_assoc,
    ← List.length_append, List.drop_left]

theorem Reads.stands {source text tail : List Char} {pieces : List (List Char × Lexeme)}
    (reads : Reads text pieces tail) {index : Nat} (here : source.drop index = text) :
    ∀ place ∈ (Cursor.ofIndex source index).places pieces, Stands source place := by
  induction reads generalizing index with
  | done blank => simp [Cursor.places]
  | step leads reads ih =>
      intro place member
      simp only [Cursor.places, Cursor.move_ofIndex, List.mem_cons] at member
      rcases member with rfl | member
      · exact leads.stands here
      · exact ih (leads.drop_eq here) place member

def endOfInput (source filename : String) : Token :=
  ⟨.endOfInput, "", some (.ofIndex filename source.toList source.length)⟩

theorem Reads.tokenize_source {source : String} {tail : List Char}
    {pieces : List (List Char × Lexeme)} (reads : Reads source.toList pieces tail)
    (filename : String) :
    tokenize source filename = ((Cursor.ofIndex source.toList 0).places pieces).map
      (fun place => place.2.token (place.1.location filename)) ++ [endOfInput source filename] := by
  rw [tokenize, reads.tokenize_eq rfl, String.length_toList, endOfInput, ← Cursor.location_ofIndex]
  rfl

/-- A token of a source is the one at its end, or that of a lexeme which stands somewhere in it. -/
theorem eq_endOfInput_or_stands {source filename : String} {token : Token}
    (member : token ∈ tokenize source filename) :
    token = endOfInput source filename ∨
      ∃ place, Stands source.toList place ∧ token = place.2.token (place.1.location filename) := by
  obtain ⟨pieces, tail, reads⟩ := exists_reads source.toList
  have start : source.toList.drop 0 = source.toList := rfl
  rw [reads.tokenize_source, List.mem_append] at member
  cases member with
  | inl placed =>
      obtain ⟨place, inSource, rfl⟩ := List.mem_map.mp placed
      exact .inr ⟨place, reads.stands start place inSource, rfl⟩
  | inr final => exact .inl (List.mem_singleton.mp final)

theorem Reads.findings_source {source : String} {tail : List Char}
    {pieces : List (List Char × Lexeme)} (reads : Reads source.toList pieces tail)
    (filename : String) :
    findings source filename = ((Cursor.ofIndex source.toList 0).places pieces).flatMap
      (fun place => (place.2.finding? (place.1.location filename)).toList) := by
  rw [findings, reads.tokenize_eq rfl]
  rfl

end MonkeySource
