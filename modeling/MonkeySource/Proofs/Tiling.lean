import MonkeySource.Proofs.Reachable

set_option autoImplicit false

/-!
# Tokens tile their source

A token takes up a span of the source, which is its literal, for a string with its quotes. The spans
of all tokens follow one another with nothing but blanks between them.
-/

namespace MonkeySource

namespace Token

def start (token : Token) : Nat :=
  (token.location.map fun location => location.offset.toNat).getD 0

/-- The text that a token takes up in a source of this size. A string without a closing quote is
one whose literal ends with the source. -/
def spanText (size : Nat) (token : Token) : List Char :=
  if token.kind = .string then
    '"' :: (token.literal.toList ++
      if token.start + 1 + token.literal.length = size then [] else ['"'])
  else token.literal.toList

def stop (size : Nat) (token : Token) : Nat := token.start + (token.spanText size).length

end Token

/-- The source from an index on, put together from the spans of the tokens and the gaps before them. -/
def refill (source : List Char) : Nat → List Token → List Char
  | index, [] => source.drop index
  | index, token :: tokens =>
      (source.drop index).take (token.start - index) ++
        (token.spanText source.length ++ refill source (token.stop source.length) tokens)

/-- The spans of the tokens cover the source from an index on, blanks apart. -/
structure Tiles (source : List Char) (index : Nat) (tokens : List Token) : Prop where
  located : ∀ token ∈ tokens, ∃ location,
    token.location = some location ∧ location.offset = token.start
  nonempty : ∀ token ∈ tokens, token.start < token.stop source.length
  inside : ∀ token ∈ tokens, index ≤ token.start ∧ token.stop source.length ≤ source.length
  ordered : tokens.Pairwise fun earlier later =>
    earlier.start < later.start ∧ earlier.stop source.length ≤ later.start
  text : ∀ token ∈ tokens,
    (source.drop token.start).take (token.stop source.length - token.start) =
      token.spanText source.length
  blank : ∀ place c, index ≤ place → source[place]? = some c →
    (∀ token ∈ tokens, place < token.start ∨ token.stop source.length ≤ place) → isBlank c = true
  refilled : refill source index tokens = source.drop index

private theorem getElem?_drop_sub {source : List Char} {index place : Nat}
    (behind : index ≤ place) : (source.drop index)[place - index]? = source[place]? := by
  rw [List.getElem?_drop, Nat.add_sub_cancel' behind]

theorem Tiles.nil {source : List Char} {index : Nat}
    (blank : ∀ c ∈ source.drop index, isBlank c = true) : Tiles source index [] where
  located := by simp
  nonempty := by simp
  inside := by simp
  ordered := .nil
  text := by simp
  blank := by
    intro place c behind found _
    refine blank c (List.mem_iff_getElem?.mpr ⟨place - index, ?_⟩)
    rw [getElem?_drop_sub behind, found]
  refilled := rfl

theorem Tiles.cons {source gap : List Char} {index : Nat} {token : Token} {tokens : List Token}
    (located : ∃ location, token.location = some location ∧ location.offset = token.start)
    (nonempty : token.spanText source.length ≠ [])
    (follows : token.start = index + gap.length)
    (blank : ∀ c ∈ gap, isBlank c = true)
    (split : source.drop index = gap ++ (token.spanText source.length ++
      source.drop (token.stop source.length)))
    (more : Tiles source (token.stop source.length) tokens) :
    Tiles source index (token :: tokens) := by
  have width : 0 < (token.spanText source.length).length := List.length_pos_iff.mpr nonempty
  have stop : token.stop source.length =
      token.start + (token.spanText source.length).length := rfl
  have here : source.drop token.start =
      token.spanText source.length ++ source.drop (token.stop source.length) := by
    rw [follows, ← List.drop_drop, split, List.drop_left]
  have room : token.stop source.length ≤ source.length := by
    have lengths := congrArg List.length here
    simp only [List.length_drop, List.length_append] at lengths
    omega
  constructor
  case located =>
    intro other member
    rcases List.mem_cons.mp member with rfl | member
    · exact located
    · exact more.located other member
  case nonempty =>
    intro other member
    rcases List.mem_cons.mp member with rfl | member
    · omega
    · exact more.nonempty other member
  case inside =>
    intro other member
    rcases List.mem_cons.mp member with rfl | member
    · exact ⟨by omega, room⟩
    · have later := more.inside other member
      exact ⟨by omega, later.2⟩
  case ordered =>
    refine List.pairwise_cons.mpr ⟨fun other member => ?_, more.ordered⟩
    have later := (more.inside other member).1
    exact ⟨by omega, later⟩
  case text =>
    intro other member
    rcases List.mem_cons.mp member with rfl | member
    · rw [stop, Nat.add_sub_cancel_left, here, List.take_left]
    · exact more.text other member
  case blank =>
    intro place c behind found outside
    rcases outside token List.mem_cons_self with before | after
    · -- a place before the span lies in the gap
      have inGap := (getElem?_drop_sub behind).trans found
      rw [split, List.getElem?_append_left (by omega)] at inGap
      exact blank c (List.mem_of_getElem? inGap)
    · exact more.blank place c after found
        (fun other member => outside other (List.mem_cons_of_mem _ member))
  case refilled =>
    rw [refill, more.refilled, split, follows, Nat.add_sub_cancel_left, List.take_left]

theorem Lexeme.start_token (lexeme : Lexeme) (filename : String) (cursor : Cursor) :
    (lexeme.token (cursor.location filename)).start = cursor.offset := by
  simp [Token.start, token, Cursor.location]

private theorem Lexeme.located_token (lexeme : Lexeme) (filename : String) (cursor : Cursor) :
    ∃ location, (lexeme.token (cursor.location filename)).location = some location ∧
      location.offset = (lexeme.token (cursor.location filename)).start := by
  rw [lexeme.start_token]
  exact ⟨_, rfl, rfl⟩

/-- Every token has a location, the one that its index in the source gives it. -/
theorem location_of_mem_tokenize {source filename : String} {token : Token}
    (member : token ∈ tokenize source filename) :
    token.location = some (.ofIndex filename source.toList token.start) ∧
      token.start ≤ source.length := by
  rcases eq_endOfInput_or_stands member with rfl | ⟨⟨cursor, lexeme⟩, stands, rfl⟩
  · exact ⟨rfl, Nat.le_refl _⟩
  · rw [lexeme.start_token, ← Cursor.location_ofIndex, ← stands.cursor, ← String.length_toList]
    exact ⟨rfl, Nat.le_of_lt stands.offset_lt⟩

/-- A string body reaches the end of the source exactly if the string is not closed. -/
theorem Stands.body_reaches_end_iff {source body : List Char} {cursor : Cursor} {closed : Bool}
    (stands : Stands source (cursor, .quoted body closed)) :
    cursor.offset + 1 + body.length = source.length ↔ closed = false := by
  obtain ⟨rest, here, ends⟩ := stands.ends
  have lengths := congrArg List.length here
  cases closed with
  | true =>
      simp only [Lexeme.text, ↓reduceIte, List.length_drop, List.length_append,
        List.length_cons, List.length_nil] at lengths
      simp only [Bool.true_eq_false, iff_false]
      omega
  | false =>
      simp only [ends.eq_nil_of_open, Lexeme.text, List.length_drop, List.length_append,
        List.length_cons, List.length_nil, Bool.false_eq_true, ↓reduceIte] at lengths
      simp only [iff_true]
      omega

theorem Stands.spanText_token {source : List Char} {place : Cursor × Lexeme}
    (stands : Stands source place) (filename : String) :
    (place.2.token (place.1.location filename)).spanText source.length = place.2.text := by
  obtain ⟨cursor, lexeme⟩ := place
  rw [Token.spanText, lexeme.start_token]
  by_cases isString : lexeme.kind = .string
  · obtain ⟨body, closed, rfl⟩ := Lexeme.eq_quoted_of_kind isString
    have reaches := stands.body_reaches_end_iff
    cases closed <;>
      simp [Lexeme.token, Lexeme.kind, Lexeme.literal, Lexeme.text, reaches]
  · simp [Lexeme.token, isString, Lexeme.text_eq_literal isString]

theorem Stands.stop_token {source : List Char} {place : Cursor × Lexeme}
    (stands : Stands source place) (filename : String) :
    (place.2.token (place.1.location filename)).stop source.length =
      place.1.offset + place.2.text.length := by
  rw [Token.stop, stands.spanText_token, Lexeme.start_token]

theorem Reads.tiles {source text tail : List Char} {pieces : List (List Char × Lexeme)}
    (reads : Reads text pieces tail) {index : Nat} (here : source.drop index = text)
    (filename : String) :
    Tiles source index (((Cursor.ofIndex source index).places pieces).map
      fun place => place.2.token (place.1.location filename)) := by
  induction reads generalizing index with
  | done blank => exact .nil (here ▸ blank)
  | @step text gap lexeme rest pieces tail leads reads ih =>
      have stands := leads.stands here
      have stop := stands.stop_token filename
      have span := stands.spanText_token filename
      simp only [Cursor.offset_ofIndex] at stop
      simp only [Cursor.places, List.map_cons, Cursor.move_ofIndex]
      refine .cons (lexeme.located_token filename _) ?_ ?_ leads.blank ?_ ?_
      · rw [span]
        exact leads.valid.text_ne_nil
      · rw [lexeme.start_token, Cursor.offset_ofIndex]
      · rw [stop, span, leads.drop_eq here, here, leads.split]
      · rw [stop]
        exact ih (leads.drop_eq here)

private theorem run_next_cons (session : Session) (count : Nat) :
    session.run (List.replicate (count + 1) .next) =
      (.token session.scanner.next.1, { session with scanner := session.scanner.next.2 }) ::
        ({ session with scanner := session.scanner.next.2 } : Session).run
          (List.replicate count .next) := rfl

/-- Read one by one, the tokens of a layout leave the cursor behind their lexemes. -/
theorem Reads.run_next {text tail : List Char} {pieces : List (List Char × Lexeme)}
    (reads : Reads text pieces tail) {session : Session}
    (here : session.scanner.cursor.rest = text) :
    (session.run (List.replicate (pieces.length + 1) .next)).map
        (fun entry => (entry.1, entry.2.scanner.cursor)) =
      (session.scanner.cursor.places pieces).map (fun place =>
        (.token (place.2.token (place.1.location session.scanner.filename)),
          place.1.move place.2.text.length)) ++
      [(.token ⟨.endOfInput, "",
          some ((session.scanner.cursor.move text.length).location session.scanner.filename)⟩,
        session.scanner.cursor.move text.length)] := by
  induction reads generalizing session with
  | done blank =>
      subst here
      rw [List.length_nil, run_next_cons, Scanner.next_of_blank blank]
      rfl
  | @step text gap lexeme rest pieces tail leads reads ih =>
      subst here
      have length : session.scanner.cursor.rest.length =
          gap.length + lexeme.text.length + rest.length := by
        simp [leads.split, Nat.add_assoc]
      have remaining :
          ({ session with scanner := session.scanner.next.2 } : Session).scanner.cursor.rest = rest := by
        rw [Scanner.next_of_leads leads]
        simp [leads.split]
      have continued := ih remaining
      rw [List.length_cons, run_next_cons, List.map_cons, continued, Scanner.next_of_leads leads]
      simp [Cursor.places, length, Cursor.move_add]

/-- The tokens of a source tile it, the end of input stands at its end, and every step of the run
leaves the scanner exactly behind the span of the token that it gave. -/
theorem tokenize_tiles (source filename : String) :
    ∃ tokens finish, tokenize source filename = tokens ++ [finish] ∧
      Tiles source.toList 0 tokens ∧ (∀ token ∈ tokens, token.kind ≠ .endOfInput) ∧
      finish.kind = .endOfInput ∧
      (∃ location, finish.location = some location ∧ location.offset = (source.length : Int)) ∧
      ((Session.ofSource source filename).run (List.replicate (tokens.length + 1) .next)).map
          (fun entry => (entry.1, entry.2.scanner.cursor.offset)) =
        tokens.map (fun token => (.token token, token.stop source.length)) ++
          [(.token finish, source.length)] := by
  obtain ⟨pieces, tail, reads⟩ := exists_reads source.toList
  have start : source.toList.drop 0 = source.toList := rfl
  have here : (Session.ofSource source filename).scanner.cursor.rest = source.toList := rfl
  refine ⟨_, endOfInput source filename, reads.tokenize_source filename, reads.tiles start filename,
    ?_, rfl, ⟨_, rfl, rfl⟩, ?_⟩
  · intro token member
    obtain ⟨place, _, rfl⟩ := List.mem_map.mp member
    exact place.2.kind_ne_endOfInput
  · have ran := congrArg (List.map fun entry => (entry.1, entry.2.offset))
      (reads.run_next here)
    rw [List.map_map, List.map_append, List.map_map] at ran
    rw [List.length_map, Cursor.length_places]
    refine ran.trans (congrArg₂ _ ?_ ?_)
    · rw [List.map_map]
      refine List.map_congr_left fun place member => ?_
      have stands := reads.stands start place member
      have stop := stands.stop_token filename
      rw [String.length_toList] at stop
      simp only [Function.comp, stop, Cursor.offset_move]
      rfl
    · rw [String.length_toList, endOfInput, ← Cursor.location_ofIndex]
      simp [Session.ofSource, Scanner.ofSource, Cursor.ofIndex]

end MonkeySource
