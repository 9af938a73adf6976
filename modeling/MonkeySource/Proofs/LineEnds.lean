import Mathlib.Data.List.Forall2
import MonkeySource.Proofs.Concatenation
import MonkeySource.Proofs.StrictReading
import MonkeySource.Text.Newline

set_option autoImplicit false

/-!
# Uniform line ends

A carriage return is a blank and can only stand between lexemes or inside a string. So making the
line ends of a source uniform leaves its lexemes, and where every return belongs to a line feed also
their lines and columns.
-/

namespace MonkeySource

namespace Text

/-- The text with a line feed in place of every other line end. -/
def uniform (text : String) : String := String.ofList (normalizeNewlines text.toList)

theorem normalizeNewlines_cons {c : Char} (notReturn : c ≠ '\r') (rest : List Char) :
    normalizeNewlines (c :: rest) = c :: normalizeNewlines rest := by
  rw [normalizeNewlines, if_neg notReturn]
  rintro _ rfl
  exact absurd rfl notReturn

theorem normalizeNewlines_return {rest : List Char} (lone : rest.head? ≠ some '\n') :
    normalizeNewlines ('\r' :: rest) = '\n' :: normalizeNewlines rest := by
  rw [normalizeNewlines, if_pos rfl]
  rintro _ _ rfl
  exact absurd rfl lone

/-- Along the line ends: a return with its line feed, a return alone, or any other character. -/
@[elab_as_elim]
theorem lineEnd_induction {motive : List Char → Prop} (nil : motive [])
    (pair : ∀ rest, motive rest → motive ('\r' :: '\n' :: rest))
    (lone : ∀ rest, rest.head? ≠ some '\n' → motive rest → motive ('\r' :: rest))
    (other : ∀ c rest, c ≠ '\r' → motive rest → motive (c :: rest)) (text : List Char) :
    motive text := by
  induction text using normalizeNewlines.induct with
  | case1 => exact nil
  | case2 rest ih => exact pair rest ih
  | case3 c rest notPair ih =>
      by_cases isReturn : c = '\r'
      · subst isReturn
        refine lone rest (fun feed => ?_) ih
        obtain ⟨more, rfl⟩ := List.head?_eq_some_iff.mp feed
        exact notPair more rfl rfl
      · exact other c rest isReturn ih

/-- No line end of two characters stands across the cut between two texts. -/
def Apart (front back : List Char) : Prop :=
  front.getLast? = some '\r' → back.head? ≠ some '\n'

theorem Apart.of_cons {c : Char} {front back : List Char} (apart : Apart (c :: front) back) :
    Apart front back := by
  intro last
  exact apart (by rw [List.getLast?_cons, last]; rfl)

theorem Apart.of_append {front middle back : List Char} (apart : Apart front (middle ++ back)) :
    Apart front middle := by
  cases middle with
  | nil => exact fun _ => by simp
  | cons c middle => exact apart

theorem Apart.append {middle back : List Char} (apart : Apart middle back) (more : middle ≠ [])
    (front : List Char) : Apart (front ++ middle) back := by
  intro last
  rw [List.getLast?_append_of_ne_nil _ more] at last
  exact apart last

theorem normalizeNewlines_append {front back : List Char} (apart : Apart front back) :
    normalizeNewlines (front ++ back) = normalizeNewlines front ++ normalizeNewlines back := by
  induction front using lineEnd_induction with
  | nil => rfl
  | pair rest ih => exact congrArg ('\n' :: ·) (ih apart.of_cons.of_cons)
  | lone rest noFeed ih =>
      have stillLone : (rest ++ back).head? ≠ some '\n' := by
        cases rest with
        | nil => exact apart rfl
        | cons d rest => exact noFeed
      rw [List.cons_append, normalizeNewlines_return stillLone, normalizeNewlines_return noFeed,
        ih apart.of_cons, List.cons_append]
  | other c rest notReturn ih =>
      rw [List.cons_append, normalizeNewlines_cons notReturn, normalizeNewlines_cons notReturn,
        ih apart.of_cons, List.cons_append]

theorem normalizeNewlines_of_not_mem {text : List Char} (free : '\r' ∉ text) :
    normalizeNewlines text = text := by
  induction text with
  | nil => rfl
  | cons c text ih =>
      rw [List.mem_cons, not_or] at free
      rw [normalizeNewlines_cons (Ne.symm free.1), ih free.2]

theorem mem_of_mem_normalizeNewlines {text : List Char} {c : Char}
    (member : c ∈ normalizeNewlines text) : c ∈ text ∨ c = '\n' := by
  induction text using lineEnd_induction with
  | nil => cases member
  | pair rest ih =>
      rcases List.mem_cons.mp member with rfl | later
      · exact .inr rfl
      · exact (ih later).imp_left fun inRest => by simp [inRest]
  | lone rest noFeed ih =>
      rw [normalizeNewlines_return noFeed] at member
      rcases List.mem_cons.mp member with rfl | later
      · exact .inr rfl
      · exact (ih later).imp_left (List.mem_cons_of_mem _)
  | other d rest notReturn ih =>
      rw [normalizeNewlines_cons notReturn] at member
      rcases List.mem_cons.mp member with rfl | later
      · exact .inl List.mem_cons_self
      · exact (ih later).imp_left (List.mem_cons_of_mem _)

theorem head?_normalizeNewlines (text : List Char) :
    (normalizeNewlines text).head? = text.head?.map fun c => if c = '\r' then '\n' else c := by
  induction text using lineEnd_induction with
  | nil => rfl
  | pair rest _ => rfl
  | lone rest noFeed _ => rw [normalizeNewlines_return noFeed]; rfl
  | other c rest notReturn _ => simp [normalizeNewlines_cons notReturn, notReturn]

/-- Every carriage return is the first half of a line end. -/
def Paired (text : List Char) : Prop :=
  ∀ index, text[index]? = some '\r' → text[index + 1]? = some '\n'

theorem Paired.of_cons {c : Char} {text : List Char} (paired : Paired (c :: text)) : Paired text :=
  fun index isReturn => paired (index + 1) isReturn

theorem Paired.not_lone {rest : List Char} (paired : Paired ('\r' :: rest)) :
    rest.head? = some '\n' := by
  rw [List.head?_eq_getElem?]
  exact paired 0 rfl

theorem Paired.take {text : List Char} (paired : Paired text) {index : Nat}
    (apart : Apart (text.take index) (text.drop index)) : Paired (text.take index) := by
  intro inside isReturn
  rw [List.getElem?_take] at isReturn ⊢
  split at isReturn
  · next within =>
      have feed := paired inside isReturn
      rcases Nat.lt_or_eq_of_le within with before | rfl
      · rw [if_pos before, feed]
      · -- then the cut would go through this line end
        rw [List.getElem?_eq_some_iff] at isReturn
        have last : (text.take (inside + 1)).getLast? = some '\r' := by
          rw [List.take_succ_eq_append_getElem isReturn.1, List.getLast?_concat, isReturn.2]
        exact absurd (List.head?_drop.trans feed) (apart last)
  · cases isReturn

/-- The column of the place right behind a text. -/
def columnBehind (text : List Char) : Int := text.length - lastFeed text

theorem columnBehind_cons (c : Char) (text : List Char) :
    columnBehind (c :: text) =
      if c = '\n' ∨ '\n' ∈ text then columnBehind text else columnBehind text + 1 := by
  have split : lastFeed (c :: text) = if '\n' ∈ text then 1 + lastFeed text else lastFeed [c] :=
    lastFeed_append [c] text
  have single : lastFeed [c] = if c = '\n' then 0 else -1 := lastFeed_append_singleton [] c
  unfold columnBehind
  rw [split, single, List.length_cons]
  by_cases later : '\n' ∈ text
  · simp only [later, or_true, ↓reduceIte]
    omega
  · rw [lastFeed_of_not_mem later]
    by_cases feed : c = '\n' <;> simp only [feed, later, or_false, ↓reduceIte] <;> omega

/-- No line feed is lost, and behind the last one there is no return. So a place keeps its line and
its column. -/
theorem Paired.counts {text : List Char} (paired : Paired text) :
    (normalizeNewlines text).length + text.count '\r' = text.length ∧
      (normalizeNewlines text).count '\n' = text.count '\n' ∧
      columnBehind (normalizeNewlines text) = columnBehind text := by
  induction text using lineEnd_induction with
  | nil => exact ⟨rfl, rfl, rfl⟩
  | pair rest ih =>
      obtain ⟨length, feeds, column⟩ := ih paired.of_cons.of_cons
      rw [normalizeNewlines]
      refine ⟨?_, ?_, ?_⟩
      · simp
        omega
      · simp [feeds]
      · simp [columnBehind_cons, column]
  | lone rest noFeed _ => exact absurd paired.not_lone noFeed
  | other c rest notReturn ih =>
      obtain ⟨length, feeds, column⟩ := ih paired.of_cons
      have stays : '\n' ∈ normalizeNewlines rest ↔ '\n' ∈ rest := by
        rw [← List.count_pos_iff, feeds, List.count_pos_iff]
      rw [normalizeNewlines_cons notReturn]
      refine ⟨?_, ?_, ?_⟩
      · rw [List.count_cons_of_ne notReturn, List.length_cons, List.length_cons]
        omega
      · rw [List.count_cons, List.count_cons, feeds]
      · rw [columnBehind_cons, columnBehind_cons, column]
        simp only [stays]

end Text

open Text

namespace Lexeme

/-- The lexeme that stands for another once line ends are uniform. Only strings hold any. -/
def uniform : Lexeme → Lexeme
  | .quoted body closed => .quoted (normalizeNewlines body) closed
  | lexeme => lexeme

theorem kind_uniform (lexeme : Lexeme) : lexeme.uniform.kind = lexeme.kind := by
  cases lexeme <;> rfl

theorem Valid.return_not_mem {lexeme : Lexeme} (valid : lexeme.Valid)
    (notString : lexeme.shape ≠ .quoted) : '\r' ∉ lexeme.text := by
  intro member
  have visible := valid.not_blank_of_mem notString '\r' member
  exact absurd visible (by decide)

theorem Valid.uniform {lexeme : Lexeme} (valid : lexeme.Valid) : lexeme.uniform.Valid := by
  cases lexeme with
  | quoted body closed =>
      intro quote
      rcases mem_of_mem_normalizeNewlines quote with inBody | isFeed
      · exact valid inBody
      · exact absurd isFeed (by decide)
  | symbol _ | word _ | number _ | stray _ => exact valid

theorem Valid.text_uniform {lexeme : Lexeme} (valid : lexeme.Valid) :
    lexeme.uniform.text = normalizeNewlines lexeme.text := by
  cases lexeme with
  | quoted body closed =>
      have apart : Apart body (if closed then ['"'] else []) := by
        intro _
        cases closed <;> decide
      have quotes : normalizeNewlines (if closed then ['"'] else []) =
          if closed then ['"'] else [] := by
        cases closed <;> rfl
      rw [text, normalizeNewlines_cons (by decide), normalizeNewlines_append apart, quotes]
      rfl
  | symbol _ | word _ | number _ | stray _ =>
      exact (normalizeNewlines_of_not_mem (valid.return_not_mem (by simp [shape]))).symm

theorem Valid.literal_uniform {lexeme : Lexeme} (valid : lexeme.Valid) :
    lexeme.uniform.literal = Text.uniform lexeme.literal := by
  cases lexeme with
  | quoted body closed => simp [Lexeme.uniform, literal, Text.uniform]
  | symbol _ | word _ | number _ | stray _ =>
      have same := valid.text_uniform
      simp only [Text.uniform, literal, Lexeme.uniform, String.toList_ofList] at same ⊢
      rw [← same]

theorem absorbs_uniform_iff {lexeme : Lexeme} {c : Char} :
    lexeme.uniform.Absorbs c ↔ lexeme.Absorbs c := by
  cases lexeme <;> exact Iff.rfl

theorem Ends.uniform {lexeme : Lexeme} {rest : List Char} (ends : lexeme.Ends rest) :
    lexeme.uniform.Ends (normalizeNewlines rest) := by
  intro c head absorbed
  rw [absorbs_uniform_iff] at absorbed
  rw [head?_normalizeNewlines] at head
  obtain ⟨d, first, rfl⟩ := Option.map_eq_some_iff.mp head
  by_cases isReturn : d = '\r'
  · -- a line feed in place of a return is taken in by an open string only, which leaves no rest
    rw [if_pos isReturn] at absorbed
    obtain ⟨body, rfl⟩ := absorbed.open_of_isBlank (by decide)
    rw [ends.eq_nil_of_open] at first
    cases first
  · rw [if_neg isReturn] at absorbed
    exact ends d first absorbed

/-- Only an open string can end with a return, and there is nothing behind it. -/
theorem Valid.apart {lexeme : Lexeme} {rest : List Char} (valid : lexeme.Valid)
    (ends : lexeme.Ends rest) : Apart lexeme.text rest := by
  intro last
  cases lexeme with
  | quoted body closed =>
      cases closed with
      | false =>
          rw [ends.eq_nil_of_open]
          decide
      | true =>
          rw [text, ← List.cons_append, if_pos rfl, List.getLast?_concat] at last
          exact absurd last (by decide)
  | symbol _ | word _ | number _ | stray _ =>
      exact absurd (List.mem_of_getLast? last) (valid.return_not_mem (by simp [shape]))

/-- No line feed comes first in a lexeme, so a line end before it is whole. -/
theorem Valid.apart_front {lexeme : Lexeme} (valid : lexeme.Valid) (front rest : List Char) :
    Apart front (lexeme.text ++ rest) := by
  obtain ⟨c, more, spelled⟩ := List.exists_cons_of_ne_nil valid.text_ne_nil
  have visible := valid.head_not_blank spelled
  intro _ feed
  rw [spelled, List.cons_append, List.head?_cons, Option.some.injEq] at feed
  rw [feed] at visible
  exact absurd visible (by decide)

end Lexeme

theorem isBlank_of_mem_normalizeNewlines {gap : List Char} (blank : ∀ c ∈ gap, isBlank c = true) :
    ∀ c ∈ normalizeNewlines gap, isBlank c = true := by
  intro c member
  rcases mem_of_mem_normalizeNewlines member with inGap | rfl
  · exact blank c inGap
  · decide

theorem Leads.uniform {source gap rest : List Char} {lexeme : Lexeme}
    (leads : Leads source gap lexeme rest) :
    Leads (normalizeNewlines source) (normalizeNewlines gap) lexeme.uniform
      (normalizeNewlines rest) where
  split := by
    rw [leads.split, normalizeNewlines_append (leads.valid.apart_front gap rest),
      normalizeNewlines_append (leads.valid.apart leads.ends), leads.valid.text_uniform]
  blank := isBlank_of_mem_normalizeNewlines leads.blank
  valid := leads.valid.uniform
  ends := leads.ends.uniform

def uniformPiece (piece : List Char × Lexeme) : List Char × Lexeme :=
  (normalizeNewlines piece.1, piece.2.uniform)

theorem Reads.uniform {source tail : List Char} {pieces : List (List Char × Lexeme)}
    (reads : Reads source pieces tail) :
    Reads (normalizeNewlines source) (pieces.map uniformPiece) (normalizeNewlines tail) := by
  induction reads with
  | done blank => exact .done (isBlank_of_mem_normalizeNewlines blank)
  | step leads _ ih => exact .step leads.uniform ih

/-- A lexeme and the one that stands for it, each with its start. What comes before the second is
what comes before the first, with uniform line ends. -/
structure Counterparts (source : List Char) (start other : Nat × Lexeme) : Prop where
  lexeme : other.2 = start.2.uniform
  valid : start.2.Valid
  within : start.1 ≤ source.length
  offset : other.1 = (normalizeNewlines (source.take start.1)).length
  apart : Apart (source.take start.1) (source.drop start.1)

theorem Reads.counterparts {text tail : List Char} {pieces : List (List Char × Lexeme)}
    (reads : Reads text pieces tail) {front : List Char} (apart : Apart front text) :
    List.Forall₂ (Counterparts (front ++ text)) (starts front.length pieces)
      (starts (normalizeNewlines front).length (pieces.map uniformPiece)) := by
  induction reads generalizing front with
  | done _ => exact .nil
  | @step text gap lexeme rest pieces tail leads reads ih =>
      have beforeGap : Apart front gap := by
        rw [leads.split] at apart
        exact apart.of_append
      have beforeRest := leads.valid.apart_front (front ++ gap) rest
      have behind : Apart (front ++ gap ++ lexeme.text) rest :=
        (leads.valid.apart leads.ends).append leads.valid.text_ne_nil _
      have source : front ++ text = front ++ gap ++ lexeme.text ++ rest := by
        rw [leads.split]
        simp only [List.append_assoc]
      have offset : (normalizeNewlines (front ++ gap)).length =
          (normalizeNewlines front).length + (normalizeNewlines gap).length := by
        rw [normalizeNewlines_append beforeGap, List.length_append]
      have further : (normalizeNewlines (front ++ gap ++ lexeme.text)).length =
          (normalizeNewlines front).length + (normalizeNewlines gap).length +
            lexeme.uniform.text.length := by
        rw [normalizeNewlines_append beforeRest.of_append, List.length_append, offset,
          leads.valid.text_uniform]
      have here : Counterparts (front ++ text) (front.length + gap.length, lexeme)
          ((normalizeNewlines front).length + (normalizeNewlines gap).length, lexeme.uniform) := by
        rw [source, List.append_assoc, ← List.length_append]
        refine ⟨rfl, leads.valid, ?_, ?_, ?_⟩
        · exact (List.sublist_append_left _ _).length_le
        · rw [List.take_left, offset]
        · rwa [List.take_left, List.drop_left]
      have later := ih behind
      rw [← source, further, List.length_append, List.length_append] at later
      exact .cons here later

theorem Location.ofIndex_normalizeNewlines (filename : String) {source : List Char} {index : Nat}
    (paired : Paired source) (within : index ≤ source.length)
    (apart : Apart (source.take index) (source.drop index)) :
    let first := ofIndex filename source index
    let second := ofIndex filename (normalizeNewlines source)
      (normalizeNewlines (source.take index)).length
    second.line = first.line ∧ second.column = first.column ∧
      second.offset = first.offset - (source.take index).count '\r' := by
  have before : (normalizeNewlines source).take (normalizeNewlines (source.take index)).length =
      normalizeNewlines (source.take index) := by
    have split := normalizeNewlines_append apart
    rw [List.take_append_drop] at split
    rw [split, List.take_left]
  obtain ⟨length, feeds, column⟩ := (paired.take apart).counts
  rw [List.length_take, Nat.min_eq_left within] at length
  refine ⟨?_, ?_, ?_⟩
  · simp only [ofIndex, before, feeds]
  · rw [column_ofIndex, column_ofIndex, before]
    simp only [columnBehind, List.length_take, Nat.min_eq_left within] at column
    exact column
  · simp only [ofIndex]
    omega

theorem Lexeme.code_finding?_uniform (lexeme : Lexeme) (location other : Location) :
    (lexeme.uniform.finding? other).map Finding.code =
      (lexeme.finding? location).map Finding.code := by
  cases lexeme with
  | quoted body closed => cases closed <;> rfl
  | symbol _ | word _ | number _ | stray _ => rfl

/-- Lists that agree on where there is a finding also agree on where the first one is. -/
private theorem exists_first_finding {α β : Type} {f : α → Option Finding} {g : β → Option Finding}
    {left : List α} {right : List β}
    (agree : List.Forall₂ (fun a b => (g b).map Finding.code = (f a).map Finding.code) left right)
    {finding : Finding} (first : (left.flatMap fun a => (f a).toList).head? = some finding) :
    ∃ (index : Nat) (a : α) (b : β) (other : Finding), left[index]? = some a ∧
      right[index]? = some b ∧ f a = some finding ∧ g b = some other ∧ other.code = finding.code ∧
      (right.flatMap fun b => (g b).toList).head? = some other := by
  induction agree with
  | nil => cases first
  | @cons a b left right here _ ih =>
      cases found : f a with
      | none =>
          have silent : g b = none := by simpa [found] using here
          obtain ⟨index, c, d, other, atIndex, atOther, isFirst, isOther, code, head⟩ :=
            ih (by simpa [found] using first)
          exact ⟨index + 1, c, d, other, atIndex, atOther, isFirst, isOther, code,
            by simpa [silent] using head⟩
      | some noticed =>
          obtain rfl : noticed = finding := by simpa [found] using first
          cases noticedThere : g b with
          | none => simp [found, noticedThere] at here
          | some other =>
              have code : other.code = noticed.code := by simpa [found, noticedThere] using here
              exact ⟨0, a, b, other, rfl, rfl, found, noticedThere, code, by simp [noticedThere]⟩

/-- What a source and the same source with uniform line ends have in common. -/
structure UniformlyScanned (source filename : String) : Prop where
  tokens : List.Forall₂
    (fun token other => other.kind = token.kind ∧ other.literal = Text.uniform token.literal)
    (tokenize source filename) (tokenize (Text.uniform source) filename)
  refused : (∃ error, tokenizeText source filename true = .error error) ↔
    ∃ error, tokenizeText (Text.uniform source) filename true = .error error
  /-- The errors of the two strict readings are about tokens in the same place of their lists. -/
  culprits : ∀ error other, tokenizeText source filename true = .error error →
    tokenizeText (Text.uniform source) filename true = .error other →
    other.diagnostic.code = error.diagnostic.code ∧ ∃ (index : Nat) (token culprit : Token),
      (tokenize source filename)[index]? = some token ∧
      (tokenize (Text.uniform source) filename)[index]? = some culprit ∧
      token.location = some error.diagnostic.location ∧
      culprit.location = some other.diagnostic.location
  places : Paired source.toList → List.Forall₂
    (fun token other => ∃ first second : Location,
      token.location = some first ∧ other.location = some second ∧
      second.line = first.line ∧ second.column = first.column ∧
      second.offset = first.offset - ((source.toList.take first.offset.toNat).count '\r' : Nat))
    (tokenize source filename) (tokenize (Text.uniform source) filename)

theorem toList_uniform (text : String) :
    (Text.uniform text).toList = normalizeNewlines text.toList := String.toList_ofList

theorem Reads.uniform_source {source : String} {pieces : List (List Char × Lexeme)}
    {tail : List Char} (reads : Reads source.toList pieces tail) :
    Reads (Text.uniform source).toList (pieces.map uniformPiece) (normalizeNewlines tail) :=
  toList_uniform source ▸ reads.uniform

theorem counterparts_of_reads {source : String} {pieces : List (List Char × Lexeme)}
    {tail : List Char} (reads : Reads source.toList pieces tail) :
    List.Forall₂ (Counterparts source.toList) (starts 0 pieces)
      (starts 0 (pieces.map uniformPiece)) := by
  have apart : Apart [] source.toList := fun last => by cases last
  exact reads.counterparts apart

theorem forall₂_tokenize_uniform {source filename : String} {related : Token → Token → Prop}
    (lexemes : ∀ start other, Counterparts source.toList start other →
      related (start.2.token (.ofIndex filename source.toList start.1))
        (other.2.token (.ofIndex filename (Text.uniform source).toList other.1)))
    (final : related (endOfInput source filename) (endOfInput (Text.uniform source) filename)) :
    List.Forall₂ related (tokenize source filename) (tokenize (Text.uniform source) filename) := by
  obtain ⟨pieces, tail, reads⟩ := exists_reads source.toList
  have others := reads.uniform_source
  rw [reads.tokenize_starts, others.tokenize_starts]
  rw [forall₂_append_singleton, List.forall₂_map_left_iff, List.forall₂_map_right_iff]
  exact ⟨(counterparts_of_reads reads).imp lexemes, final⟩

/-- The findings of both sources, one list in step with the other. -/
theorem forall₂_codes {source : String} {pieces : List (List Char × Lexeme)} {tail : List Char}
    (reads : Reads source.toList pieces tail) (filename : String) :
    List.Forall₂
      (fun start other =>
        (other.2.finding? (.ofIndex filename (Text.uniform source).toList other.1)).map
            Finding.code =
          (start.2.finding? (.ofIndex filename source.toList start.1)).map Finding.code)
      (starts 0 pieces) (starts 0 (pieces.map uniformPiece)) := by
  refine (counterparts_of_reads reads).imp fun start other counterparts => ?_
  rw [counterparts.lexeme]
  exact start.2.code_finding?_uniform _ _

theorem Reads.getElem?_tokenize {source : String} {pieces : List (List Char × Lexeme)}
    {tail : List Char} (reads : Reads source.toList pieces tail) (filename : String) {index : Nat}
    {start : Nat × Lexeme} (found : (starts 0 pieces)[index]? = some start) :
    (tokenize source filename)[index]? =
      some (start.2.token (.ofIndex filename source.toList start.1)) := by
  have within := (List.getElem?_eq_some_iff.mp found).1
  rw [reads.tokenize_starts, List.getElem?_append_left (by rwa [List.length_map]),
    List.getElem?_map, found]
  rfl

theorem exists_culprit {source filename : String} {error : LexicalError}
    (failed : tokenizeText source filename true = .error error) :
    ∃ (other : LexicalError) (index : Nat) (token culprit : Token),
      tokenizeText (Text.uniform source) filename true = .error other ∧
      other.diagnostic.code = error.diagnostic.code ∧
      (tokenize source filename)[index]? = some token ∧
      (tokenize (Text.uniform source) filename)[index]? = some culprit ∧
      token.location = some error.diagnostic.location ∧
      culprit.location = some other.diagnostic.location := by
  obtain ⟨pieces, tail, reads⟩ := exists_reads source.toList
  have others := reads.uniform_source
  rw [tokenizeText_eq_error_iff, reads.findings_starts] at failed
  obtain ⟨index, start, other, finding, atIndex, atOther, isFirst, isOther, code, head⟩ :=
    exists_first_finding (forall₂_codes reads filename) failed
  refine ⟨⟨finding⟩, index, start.2.token _, other.2.token _, ?_, code,
    reads.getElem?_tokenize filename atIndex, others.getElem?_tokenize filename atOther, ?_, ?_⟩
  · rw [tokenizeText_eq_error_iff, others.findings_starts]
    exact head
  · exact congrArg some (Lexeme.location_of_finding? isFirst).symm
  · exact congrArg some (Lexeme.location_of_finding? isOther).symm

theorem exists_error_of_uniform {source filename : String} {other : LexicalError}
    (failed : tokenizeText (Text.uniform source) filename true = .error other) :
    ∃ error, tokenizeText source filename true = .error error := by
  obtain ⟨pieces, tail, reads⟩ := exists_reads source.toList
  have others := reads.uniform_source
  rw [tokenizeText_eq_error_iff, others.findings_starts] at failed
  have agree := (forall₂_codes reads filename).flip.imp fun _ _ same => Eq.symm same
  obtain ⟨_, _, _, finding, _, _, _, _, _, head⟩ := exists_first_finding agree failed
  refine ⟨⟨finding⟩, ?_⟩
  rw [tokenizeText_eq_error_iff, reads.findings_starts]
  exact head

/-- A source with its line ends made uniform has the same tokens but for their literals, and the
strict reading stops at the same one. If no carriage return stands alone, every token also keeps its
line and column. -/
theorem uniformlyScanned (source filename : String) : UniformlyScanned source filename := by
  constructor
  case tokens =>
    refine forall₂_tokenize_uniform (fun start other counterparts => ?_) ⟨rfl, rfl⟩
    rw [counterparts.lexeme]
    exact ⟨start.2.kind_uniform, counterparts.valid.literal_uniform⟩
  case refused =>
    constructor
    · rintro ⟨error, failed⟩
      obtain ⟨other, _, _, _, alsoFailed, _⟩ := exists_culprit failed
      exact ⟨other, alsoFailed⟩
    · rintro ⟨other, failed⟩
      exact exists_error_of_uniform failed
  case culprits =>
    intro error other failed alsoFailed
    obtain ⟨error', index, token, culprit, same, code, places⟩ := exists_culprit failed
    obtain rfl := Except.error.inj (alsoFailed.symm.trans same)
    exact ⟨code, index, token, culprit, places⟩
  case places =>
    intro paired
    refine forall₂_tokenize_uniform (fun start other counterparts => ?_) ?_
    · refine ⟨_, _, rfl, rfl, ?_⟩
      rw [counterparts.offset, toList_uniform]
      exact Location.ofIndex_normalizeNewlines filename paired counterparts.within
        counterparts.apart
    · refine ⟨_, _, rfl, rfl, ?_⟩
      have atEnd : Apart (source.toList.take source.length) (source.toList.drop source.length) := by
        rw [← String.length_toList, List.drop_length]
        exact fun _ => by simp
      have sizes : (Text.uniform source).length =
          (normalizeNewlines (source.toList.take source.length)).length := by
        rw [← String.length_toList, ← String.length_toList, toList_uniform, List.take_length]
      rw [sizes, toList_uniform]
      exact Location.ofIndex_normalizeNewlines filename paired
        (Nat.le_of_eq String.length_toList.symm) atEnd

end MonkeySource
