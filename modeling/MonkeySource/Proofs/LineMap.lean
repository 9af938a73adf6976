import Mathlib
import MonkeySource.Proofs.Concatenation
import MonkeySource.Proofs.LocationText
import MonkeySource.Proofs.StrictReading

set_option autoImplicit false

/-!
# Locations and lines

Line and column are counted along the way, without looking at lines. They are the ones that the
source has if it is cut at its line feeds first, and no two tokens share them.
-/

namespace MonkeySource

/-- The lines of a source. One that ends with a line feed has an empty last line. -/
def linesOf (source : List Char) : List (List Char) := source.splitOn '\n'

/-- How many characters lines take up, each with the line feed that ends it. -/
def extent (lines : List (List Char)) : Nat := (lines.map fun line => line.length + 1).sum

/-- The location is on this one of the lines, at most right behind its last character. -/
structure Location.OnLine (lines : List (List Char)) (location : Location) (line : List Char) :
    Prop where
  number : 1 ≤ location.line ∧ location.line ≤ lines.length
  found : lines[(location.line - 1).toNat]? = some line
  column : 1 ≤ location.column ∧ location.column ≤ line.length + 1
  offset : location.offset =
    extent (lines.take (location.line - 1).toNat) + location.column - 1

theorem feed_not_mem_of_mem_linesOf {source line : List Char} (member : line ∈ linesOf source) :
    '\n' ∉ line := by
  induction source generalizing line with
  | nil =>
      rw [linesOf, List.splitOn_nil, List.mem_singleton] at member
      rw [member]
      exact List.not_mem_nil
  | cons c source ih =>
      rw [linesOf, List.splitOn_cons_eq_if_modifyHead] at member
      obtain ⟨first, others, split⟩ := List.exists_cons_of_ne_nil (List.splitOn_ne_nil '\n' source)
      have known : ∀ other ∈ first :: others, '\n' ∉ other := fun other isLine =>
        ih (show other ∈ source.splitOn '\n' from split ▸ isLine)
      rw [split] at member
      by_cases feed : c = '\n'
      · simp only [feed, beq_self_eq_true, ↓reduceIte, List.mem_cons] at member
        rcases member with rfl | isLine
        · exact List.not_mem_nil
        · exact known line (List.mem_cons.mpr isLine)
      · simp only [beq_iff_eq, feed, ↓reduceIte, List.modifyHead_cons, List.mem_cons] at member
        rcases member with rfl | isLine
        · rw [List.mem_cons, not_or]
          exact ⟨Ne.symm feed, known first List.mem_cons_self⟩
        · exact known line (List.mem_cons_of_mem _ isLine)

private theorem intercalate_cons_left (c : Char) (left : List Char) (after : List (List Char)) :
    ['\n'].intercalate ((c :: left) :: after) = c :: ['\n'].intercalate (left :: after) := by
  cases after with
  | nil => rw [List.intercalate_singleton, List.intercalate_singleton]
  | cons next after =>
      rw [List.intercalate_cons_cons, List.intercalate_cons_cons]
      rfl

private theorem intercalate_nil_left (next : List Char) (after : List (List Char)) :
    ['\n'].intercalate ([] :: next :: after) = '\n' :: ['\n'].intercalate (next :: after) := by
  rw [List.intercalate_cons_cons]
  rfl

namespace Cursor

/-- Where a cursor stands among lines: behind some of them and behind the first part of one. What is
left of that line, and the lines after it, are what is left of the source. -/
structure Among (lines : List (List Char)) (cursor : Cursor) (before : List (List Char))
    (passed left : List Char) (after : List (List Char)) : Prop where
  split : lines = before ++ (passed ++ left) :: after
  line : cursor.line = before.length + 1
  column : cursor.column = passed.length + 1
  offset : cursor.offset = extent before + passed.length
  rest : cursor.rest = ['\n'].intercalate (left :: after)

variable {lines before after : List (List Char)} {cursor : Cursor} {passed left : List Char}

theorem Among.advance (among : cursor.Among lines before passed left after)
    (feedless : ∀ line ∈ lines, '\n' ∉ line) (more : cursor.rest ≠ []) :
    ∃ newBefore newPassed newLeft newAfter,
      cursor.advance.Among lines newBefore newPassed newLeft newAfter := by
  cases left with
  | nil =>
      cases after with
      | nil => exact absurd among.rest more
      | cons next after =>
          -- the line is used up, so the character under the cursor is its line feed
          have feed := among.rest.trans (intercalate_nil_left next after)
          have current : cursor.current? = some '\n' := by rw [current?, feed, List.head?_cons]
          refine ⟨before ++ [passed], [], next, after, ?_, ?_, ?_, ?_, ?_⟩
          · rw [among.split, List.append_nil, List.append_assoc]
            rfl
          · simp only [Cursor.advance, current, ↓reduceIte, among.line, List.length_append,
              List.length_singleton]
          · simp only [Cursor.advance, current, ↓reduceIte, List.length_nil]
          · rw [Cursor.advance, among.offset]
            simp [extent, Nat.add_assoc]
          · rw [Cursor.advance, feed, List.tail_cons]
  | cons c left =>
      have onLine := among.rest.trans (intercalate_cons_left c left after)
      have notFeed : cursor.current? ≠ some '\n' := by
        have free := feedless (passed ++ c :: left) (by simp [among.split])
        intro feed
        rw [current?, onLine, List.head?_cons, Option.some.injEq] at feed
        exact free (by simp [feed])
      refine ⟨before, passed ++ [c], left, after, ?_, ?_, ?_, ?_, ?_⟩
      · rw [among.split, List.append_assoc]
        rfl
      · simp only [Cursor.advance, notFeed, ↓reduceIte, among.line]
      · simp only [Cursor.advance, notFeed, ↓reduceIte, among.column, List.length_append,
          List.length_singleton]
      · rw [Cursor.advance, among.offset, List.length_append, Nat.add_assoc]
        rfl
      · rw [Cursor.advance, onLine, List.tail_cons]

theorem Among.move (among : cursor.Among lines before passed left after)
    (feedless : ∀ line ∈ lines, '\n' ∉ line) {count : Nat} (within : count ≤ cursor.rest.length) :
    ∃ newBefore newPassed newLeft newAfter,
      (cursor.move count).Among lines newBefore newPassed newLeft newAfter := by
  induction count generalizing cursor before passed left after with
  | zero => exact ⟨before, passed, left, after, among⟩
  | succ count ih =>
      have more : cursor.rest ≠ [] := by
        rintro nothing
        rw [nothing] at within
        exact Nat.not_succ_le_zero count within
      obtain ⟨newBefore, newPassed, newLeft, newAfter, moved⟩ := among.advance feedless more
      refine ih moved ?_
      rw [Cursor.advance, List.length_tail]
      omega

theorem among_linesOf {source : List Char} {index : Nat} (within : index ≤ source.length) :
    ∃ before passed left after,
      (ofIndex source index).Among (linesOf source) before passed left after := by
  obtain ⟨first, others, split⟩ := List.exists_cons_of_ne_nil (List.splitOn_ne_nil '\n' source)
  have start : ({ rest := source } : Cursor).Among (linesOf source) [] [] first others := by
    refine ⟨split, rfl, rfl, rfl, ?_⟩
    rw [← split, List.intercalate_splitOn]
  exact start.move (fun line member => feed_not_mem_of_mem_linesOf member) within

/-- The character under a cursor is on the line, unless it is the line feed that ends it. -/
theorem Among.getElem?_passed (among : cursor.Among lines before passed left after) {c : Char}
    (current : cursor.current? = some c) (notFeed : c ≠ '\n') :
    (passed ++ left)[passed.length]? = some c := by
  rw [current?, among.rest] at current
  cases left with
  | nil =>
      cases after with
      | nil => cases current
      | cons next after =>
          rw [intercalate_nil_left, List.head?_cons, Option.some.injEq] at current
          exact absurd current.symm notFeed
  | cons d left =>
      rw [intercalate_cons_left, List.head?_cons] at current
      rw [List.getElem?_append_right (Nat.le_refl _), Nat.sub_self, List.getElem?_cons_zero, current]

theorem Among.onLine (among : cursor.Among lines before passed left after) (filename : String) :
    (cursor.location filename).OnLine lines (passed ++ left) := by
  have index : ((cursor.location filename).line - 1).toNat = before.length := by
    simp only [location, among.line]
    omega
  refine ⟨?_, ?_, ?_, ?_⟩
  · simp only [location, among.line, among.split, List.length_append, List.length_cons]
    omega
  · rw [index, among.split, List.getElem?_append_right (Nat.le_refl _), Nat.sub_self,
      List.getElem?_cons_zero]
  · simp only [location, among.column, List.length_append]
    omega
  · rw [index, among.split, List.take_left]
    simp only [location, among.offset, among.column]
    omega

end Cursor

namespace Location

/-- Every index of a source, and the one behind it, is on one of its lines, where the character at
the index stands at its column. -/
theorem ofIndex_onLine (filename : String) {source : List Char} {index : Nat}
    (within : index ≤ source.length) :
    ∃ row, (ofIndex filename source index).OnLine (linesOf source) row ∧
      ∀ c, source[index]? = some c → c ≠ '\n' →
        row[((ofIndex filename source index).column - 1).toNat]? = some c := by
  obtain ⟨before, passed, left, after, among⟩ := Cursor.among_linesOf within
  have onLine := among.onLine filename
  rw [Cursor.location_ofIndex] at onLine
  refine ⟨passed ++ left, onLine, fun c found notFeed => ?_⟩
  have column : ((ofIndex filename source index).column - 1).toNat = passed.length := by
    rw [← Cursor.location_ofIndex]
    simp only [Cursor.location, among.column]
    omega
  rw [column]
  exact among.getElem?_passed ((Cursor.current?_ofIndex source index).trans found) notFeed

theorem OnLine.offset_eq {lines : List (List Char)} {first second : Location}
    {line other : List Char} (onLine : first.OnLine lines line)
    (otherOnLine : second.OnLine lines other) (sameLine : first.line = second.line)
    (sameColumn : first.column = second.column) : first.offset = second.offset := by
  rw [onLine.offset, otherOnLine.offset, sameLine, sameColumn]

/-- On an earlier line, or further left on the same one. -/
def Before (first second : Location) : Prop :=
  first.line < second.line ∨ first.line = second.line ∧ first.column < second.column

theorem Before.trans {first second third : Location} (start : first.Before second)
    (finish : second.Before third) : first.Before third := by
  unfold Before at start finish ⊢
  omega

theorem Before.text_ne {first second : Location} (before : first.Before second) :
    first.text ≠ second.text := by
  intro same
  obtain ⟨_, lines, columns⟩ := text_eq_text_iff.mp same
  unfold Before at before
  omega

end Location

namespace Cursor

theorem before_advance (cursor : Cursor) (filename : String) :
    (cursor.location filename).Before (cursor.advance.location filename) := by
  by_cases feed : cursor.current? = some '\n'
  · left
    simp only [location, advance, feed, ↓reduceIte]
    omega
  · right
    simp only [location, advance, feed, ↓reduceIte]
    exact ⟨trivial, by omega⟩

theorem before_move (cursor : Cursor) (filename : String) (count : Nat) :
    (cursor.location filename).Before ((cursor.move (count + 1)).location filename) := by
  induction count generalizing cursor with
  | zero => exact cursor.before_advance filename
  | succ count ih => exact (cursor.before_advance filename).trans (ih cursor.advance)

end Cursor

theorem Location.before_ofIndex (filename : String) (source : List Char) {first second : Nat}
    (lt : first < second) :
    (ofIndex filename source first).Before (ofIndex filename source second) := by
  obtain ⟨count, rfl⟩ := Nat.exists_eq_add_of_lt lt
  have moved := (Cursor.ofIndex source first).before_move filename count
  rwa [Cursor.move_ofIndex, Cursor.location_ofIndex, Cursor.location_ofIndex] at moved

theorem start_endOfInput (source filename : String) :
    (endOfInput source filename).start = source.length := rfl

theorem tokenize_pairwise_start (source filename : String) :
    (tokenize source filename).Pairwise fun earlier later => earlier.start < later.start := by
  obtain ⟨pieces, tail, reads⟩ := exists_reads source.toList
  have begins : source.toList.drop 0 = source.toList := rfl
  have tiles := reads.tiles begins filename
  rw [reads.tokenize_source, List.pairwise_append]
  refine ⟨tiles.ordered.imp And.left, List.pairwise_singleton _ _, ?_⟩
  intro token member last isLast
  obtain ⟨place, inSource, rfl⟩ := List.mem_map.mp member
  rw [List.mem_singleton.mp isLast, Lexeme.start_token, start_endOfInput, ← String.length_toList]
  exact (reads.stands begins place inSource).offset_lt

/-- The first character that a token takes up stands at its start, and is no line feed. -/
theorem head?_spanText {source filename : String} {token : Token}
    (member : token ∈ tokenize source filename) (more : token.kind ≠ .endOfInput) :
    ∃ c, (token.spanText source.length).head? = some c ∧
      source.toList[token.start]? = some c ∧ c ≠ '\n' := by
  rcases eq_endOfInput_or_stands member with rfl | ⟨⟨cursor, lexeme⟩, stands, rfl⟩
  · exact absurd rfl more
  · obtain ⟨rest, unread, _⟩ := stands.ends
    obtain ⟨c, letters, spelled⟩ := List.exists_cons_of_ne_nil stands.valid.text_ne_nil
    have span := stands.spanText_token filename
    rw [String.length_toList] at span
    refine ⟨c, by rw [span, spelled, List.head?_cons], ?_, ?_⟩
    · rw [lexeme.start_token, ← List.head?_drop, unread, spelled, List.cons_append, List.head?_cons]
    · rintro rfl
      have visible := stands.valid.head_not_blank spelled
      exact absurd visible (by decide)

/-- The places of a source, as its lines give them. -/
structure PlacedByLines (source filename : String) : Prop where
  tokens : ∀ token ∈ tokenize source filename, ∃ location row,
    token.location = some location ∧ location.OnLine (linesOf source.toList) row ∧
      (token.kind ≠ .endOfInput → ∃ c, row[(location.column - 1).toNat]? = some c ∧
        (token.spanText source.length).head? = some c)
  findings : ∀ finding ∈ findings source filename, ∃ row,
    finding.location.OnLine (linesOf source.toList) row
  ordered : (tokenize source filename).Pairwise fun earlier later => ∃ first second,
    earlier.location = some first ∧ later.location = some second ∧
      first.offset < second.offset ∧ first.Before second ∧ first.text ≠ second.text
  /-- Among the tokens of one source even the short form of a location gives the offset. -/
  determined : ∀ token ∈ tokenize source filename, ∀ other ∈ tokenize source filename,
    ∀ first second, token.location = some first → other.location = some second →
      first.text = second.text → first.offset = second.offset

/-- The locations of a source are exact: they are those of its lines, they come in order, and their
short form, which in general tells all but the offset, tells them apart. -/
theorem placedByLines (source filename : String) :
    PlacedByLines source filename ∧
      ∀ first second : Location, first.text = second.text ↔
        first.filename = second.filename ∧ first.line = second.line ∧
          first.column = second.column := by
  have placed {token : Token} (member : token ∈ tokenize source filename) :
      ∃ row, (Location.ofIndex filename source.toList token.start).OnLine
          (linesOf source.toList) row ∧
        ∀ c, source.toList[token.start]? = some c → c ≠ '\n' →
          row[((Location.ofIndex filename source.toList token.start).column - 1).toNat]? =
            some c := by
    refine Location.ofIndex_onLine filename ?_
    rw [String.length_toList]
    exact (location_of_mem_tokenize member).2
  refine ⟨⟨?_, ?_, ?_, ?_⟩, fun first second => Location.text_eq_text_iff⟩
  · intro token member
    obtain ⟨row, onLine, stands⟩ := placed member
    refine ⟨_, row, (location_of_mem_tokenize member).1, onLine, fun more => ?_⟩
    obtain ⟨c, head, here, notFeed⟩ := head?_spanText member more
    exact ⟨c, stands c here notFeed, head⟩
  · intro finding recorded
    rw [findings_eq_filterMap] at recorded
    obtain ⟨token, member, about⟩ := List.mem_filterMap.mp recorded
    obtain ⟨row, onLine, _⟩ := placed member
    have same := Token.location_of_finding? about
    rw [(location_of_mem_tokenize member).1, Option.some.injEq] at same
    exact ⟨row, same ▸ onLine⟩
  · refine (tokenize_pairwise_start source filename).imp_of_mem ?_
    intro earlier later member laterMember lt
    have before := Location.before_ofIndex filename source.toList lt
    exact ⟨_, _, (location_of_mem_tokenize member).1, (location_of_mem_tokenize laterMember).1,
      Int.ofNat_lt.mpr lt, before, before.text_ne⟩
  · intro token member other otherMember first second location otherLocation same
    obtain ⟨row, onLine, _⟩ := placed member
    obtain ⟨otherRow, otherOnLine, _⟩ := placed otherMember
    rw [(location_of_mem_tokenize member).1, Option.some.injEq] at location
    rw [(location_of_mem_tokenize otherMember).1, Option.some.injEq] at otherLocation
    rw [location] at onLine
    rw [otherLocation] at otherOnLine
    obtain ⟨_, lines, columns⟩ := Location.text_eq_text_iff.mp same
    exact onLine.offset_eq otherOnLine lines columns

end MonkeySource
