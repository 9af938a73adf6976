import MonkeySource.Proofs.RoundTrip
import MonkeySource.Proofs.Tiling

set_option autoImplicit false

/-!
# Sources put together

Two sources are scanned one behind the other as they are scanned apart, unless the last token of the
first takes in what the second begins with. The places in the second one move.
-/

namespace MonkeySource

/-- The lexemes of a layout that starts at an index, each with the index at which it starts. -/
def starts (index : Nat) : List (List Char × Lexeme) → List (Nat × Lexeme)
  | [] => []
  | (gap, lexeme) :: pieces =>
      (index + gap.length, lexeme)
        :: starts (index + gap.length + lexeme.text.length) pieces

def width : List (List Char × Lexeme) → Nat
  | [] => 0
  | (gap, lexeme) :: pieces => gap.length + lexeme.text.length + width pieces

def addGap (gap : List Char) : List (List Char × Lexeme) → List (List Char × Lexeme)
  | [] => []
  | (first, lexeme) :: pieces => (gap ++ first, lexeme) :: pieces

theorem Cursor.places_ofIndex (source : List Char) (index : Nat)
    (pieces : List (List Char × Lexeme)) :
    (ofIndex source index).places pieces =
      (starts index pieces).map fun start => (ofIndex source start.1, start.2) := by
  induction pieces generalizing index with
  | nil => rfl
  | cons piece pieces ih =>
      obtain ⟨gap, lexeme⟩ := piece
      rw [places, move_ofIndex, move_ofIndex, ih]
      rfl

theorem starts_add (shift index : Nat) (pieces : List (List Char × Lexeme)) :
    starts (shift + index) pieces =
      (starts index pieces).map fun start => (shift + start.1, start.2) := by
  induction pieces generalizing index with
  | nil => rfl
  | cons piece pieces ih =>
      obtain ⟨gap, lexeme⟩ := piece
      rw [starts, Nat.add_assoc, Nat.add_assoc, ih]
      rfl

theorem starts_append (index : Nat) (pieces more : List (List Char × Lexeme)) :
    starts index (pieces ++ more) = starts index pieces ++ starts (index + width pieces) more := by
  induction pieces generalizing index with
  | nil => rfl
  | cons piece pieces ih =>
      obtain ⟨gap, lexeme⟩ := piece
      have further : index + width ((gap, lexeme) :: pieces) =
          index + gap.length + lexeme.text.length + width pieces := by
        rw [width]
        omega
      rw [List.cons_append, starts, ih, further]
      rfl

theorem starts_addGap (index : Nat) (gap : List Char) (pieces : List (List Char × Lexeme)) :
    starts index (addGap gap pieces) = starts (index + gap.length) pieces := by
  cases pieces with
  | nil => rfl
  | cons piece pieces =>
      simp only [addGap, starts, List.length_append, Nat.add_assoc]

theorem Reads.length_eq {source tail : List Char} {pieces : List (List Char × Lexeme)}
    (reads : Reads source pieces tail) : source.length = width pieces + tail.length := by
  induction reads with
  | done _ => rw [width, Nat.zero_add]
  | step leads _ ih =>
      rw [leads.split, List.length_append, List.length_append, ih, width]
      omega

theorem start_le_width {start : Nat × Lexeme} {index : Nat} {pieces : List (List Char × Lexeme)}
    (member : start ∈ starts index pieces) : start.1 ≤ index + width pieces := by
  induction pieces generalizing index with
  | nil => cases member
  | cons piece pieces ih =>
      obtain ⟨gap, lexeme⟩ := piece
      rw [width]
      rcases List.mem_cons.mp member with rfl | later
      · simp only
        omega
      · have := ih later
        omega

theorem Reads.addGap {source tail gap : List Char} {pieces : List (List Char × Lexeme)}
    (reads : Reads source pieces tail) (blank : ∀ c ∈ gap, isBlank c = true) :
    ∃ newTail, Reads (gap ++ source) (addGap gap pieces) newTail := by
  cases reads with
  | done others =>
      refine ⟨gap ++ source, .done fun c member => ?_⟩
      exact (List.mem_append.mp member).elim (blank c) (others c)
  | @step _ first lexeme rest pieces _ leads reads =>
      refine ⟨tail, .step ⟨?_, fun c member => ?_, leads.valid, leads.ends⟩ reads⟩
      · rw [leads.split, List.append_assoc]
      · exact (List.mem_append.mp member).elim (blank c) (leads.blank c)

theorem Reads.nil_inv {pieces : List (List Char × Lexeme)} {tail : List Char}
    (reads : Reads [] pieces tail) : pieces = [] ∧ tail = [] := by
  cases reads with
  | done _ => exact ⟨rfl, rfl⟩
  | step leads _ => exact absurd leads.length_rest_lt (Nat.not_lt_zero _)

theorem Lexeme.Ends.append {lexeme : Lexeme} {rest back : List Char} (ends : lexeme.Ends rest)
    (junction : rest = [] → lexeme.Ends back) : lexeme.Ends (rest ++ back) := by
  cases rest with
  | nil => exact junction rfl
  | cons c rest => exact ends

/-- Layouts are put together by taking the tail of the first into the first gap of the second. Only
a last lexeme right at the junction can see what follows. -/
theorem Reads.append {front back tail backTail : List Char}
    {pieces backPieces : List (List Char × Lexeme)} (reads : Reads front pieces tail)
    (others : Reads back backPieces backTail)
    (junction : ∀ last ∈ pieces.getLast?, tail = [] → last.2.Ends back) :
    ∃ newTail, Reads (front ++ back) (pieces ++ MonkeySource.addGap tail backPieces) newTail := by
  induction reads with
  | done blank => exact others.addGap blank
  | @step source gap lexeme rest pieces tail leads reads ih =>
      -- With nothing left behind it this lexeme is the last one and stands at the junction.
      have ends : lexeme.Ends (rest ++ back) := by
        refine leads.ends.append fun nothing => ?_
        subst nothing
        obtain ⟨rfl, rfl⟩ := reads.nil_inv
        exact junction (gap, lexeme) rfl rfl
      obtain ⟨newTail, longer⟩ := ih fun last member =>
        junction last (List.mem_getLast?_cons member)
      refine ⟨newTail, .step ⟨?_, leads.blank, leads.valid, ends⟩ longer⟩
      rw [leads.split, List.append_assoc, List.append_assoc]

/-- Where a location in a text comes to stand if the text is put behind another one. Only what is on
its first line shares a line with the other text. -/
def Location.behind (front : List Char) (location : Location) : Location where
  filename := location.filename
  line := location.line + front.count '\n'
  column := if location.line = 1 then location.column + (front.length - 1 - lastFeed front)
    else location.column
  offset := location.offset + front.length

def Token.behind (front : List Char) (token : Token) : Token :=
  { token with location := token.location.map (·.behind front) }

def Finding.behind (front : List Char) (finding : Finding) : Finding :=
  { finding with location := finding.location.behind front }

namespace Location

theorem ofIndex_append_of_le (filename : String) {front : List Char} (back : List Char)
    {index : Nat} (within : index ≤ front.length) :
    ofIndex filename (front ++ back) index = ofIndex filename front index := by
  simp only [ofIndex, lineStart, List.take_append_of_le_length within]

theorem column_ofIndex (filename : String) (source : List Char) (index : Nat) :
    (ofIndex filename source index).column = index - lastFeed (source.take index) := by
  rw [lastFeed_take]
  simp only [ofIndex]
  omega

theorem line_ofIndex_eq_one_iff (filename : String) (source : List Char) (index : Nat) :
    (ofIndex filename source index).line = 1 ↔ '\n' ∉ source.take index := by
  rw [← List.count_eq_zero]
  simp only [ofIndex]
  omega

theorem ofIndex_append_add (filename : String) (front back : List Char) (index : Nat) :
    ofIndex filename (front ++ back) (front.length + index) =
      (ofIndex filename back index).behind front := by
  have before : (front ++ back).take (front.length + index) = front ++ back.take index := by
    rw [List.take_append, List.take_of_length_le (Nat.le_add_right _ _), Nat.add_sub_cancel_left]
  have line : (ofIndex filename (front ++ back) (front.length + index)).line =
      ((ofIndex filename back index).behind front).line := by
    simp only [ofIndex, behind, before, List.count_append]
    omega
  have column : (ofIndex filename (front ++ back) (front.length + index)).column =
      ((ofIndex filename back index).behind front).column := by
    simp only [behind, line_ofIndex_eq_one_iff, column_ofIndex, before, lastFeed_append]
    -- Behind a line feed of `back` the column no longer depends on `front`.
    by_cases feed : '\n' ∈ back.take index
    · simp only [feed, not_true_eq_false, ↓reduceIte]
      omega
    · simp only [feed, not_false_eq_true, ↓reduceIte, lastFeed_of_not_mem feed]
      omega
  have offset : (ofIndex filename (front ++ back) (front.length + index)).offset =
      ((ofIndex filename back index).behind front).offset := by
    simp only [ofIndex, behind]
    omega
  exact (Location.mk.injEq ..).mpr ⟨rfl, line, column, offset⟩

end Location

theorem Reads.tokenize_starts {source : String} {tail : List Char}
    {pieces : List (List Char × Lexeme)} (reads : Reads source.toList pieces tail)
    (filename : String) :
    tokenize source filename = (starts 0 pieces).map
        (fun start => start.2.token (.ofIndex filename source.toList start.1)) ++
      [endOfInput source filename] := by
  rw [reads.tokenize_source, Cursor.places_ofIndex, List.map_map]
  simp only [Function.comp_def, Cursor.location_ofIndex]

theorem Reads.findings_starts {source : String} {tail : List Char}
    {pieces : List (List Char × Lexeme)} (reads : Reads source.toList pieces tail)
    (filename : String) :
    findings source filename = (starts 0 pieces).flatMap
      (fun start => (start.2.finding? (.ofIndex filename source.toList start.1)).toList) := by
  rw [reads.findings_source, Cursor.places_ofIndex, List.flatMap_map]
  simp only [Cursor.location_ofIndex]

theorem Lexeme.finding?_behind (lexeme : Lexeme) (front : List Char) (location : Location) :
    lexeme.finding? (location.behind front) =
      (lexeme.finding? location).map (Finding.behind front) := by
  cases lexeme with
  | quoted body closed => cases closed <;> rfl
  | symbol _ | word _ | number _ | stray _ => rfl

theorem starts_joined {front tail : List Char} {pieces : List (List Char × Lexeme)}
    (reads : Reads front pieces tail) (backPieces : List (List Char × Lexeme)) :
    starts 0 (pieces ++ addGap tail backPieces) = starts 0 pieces ++
      (starts 0 backPieces).map fun start => (front.length + start.1, start.2) := by
  rw [starts_append, starts_addGap, Nat.zero_add, ← reads.length_eq, ← starts_add, Nat.add_zero]

def Token.TakesIn (token : Token) (c : Char) : Prop :=
  token.IsWord ∧ isWordPart c = true ∨ token.kind = .integer ∧ isDigit c = true ∨
    (token.kind = .operator .assign ∨ token.kind = .operator .bang) ∧ c = '='

/-- The last token of the first source ends with it and takes in what the second begins with. -/
def JunctionGlues (front back filename : String) : Prop :=
  ∃ token c, (tokenize front filename).dropLast.getLast? = some token ∧
    token.stop front.length = front.length ∧ back.toList.head? = some c ∧ token.TakesIn c

theorem Lexeme.Absorbs.open_or_takesIn {lexeme : Lexeme} {c : Char} (absorbed : lexeme.Absorbs c)
    (location : Location) :
    (∃ body, lexeme = .quoted body false) ∨ (lexeme.token location).TakesIn c := by
  cases lexeme with
  | symbol fixed =>
      obtain ⟨rfl | rfl, rfl⟩ := absorbed
      · exact .inr (.inr (.inr ⟨.inl rfl, rfl⟩))
      · exact .inr (.inr (.inr ⟨.inr rfl, rfl⟩))
  | word letters =>
      refine .inr (.inl ⟨?_, absorbed⟩)
      rcases TokenKind.ofWord_cases (String.ofList letters) with ⟨keyword, _, kind⟩ | ⟨_, kind⟩
      · right
        simp [token, Lexeme.kind, kind, Token.isKeyword, TokenKind.isKeyword]
      · exact .inl kind
  | number digits => exact .inr (.inr (.inl ⟨rfl, absorbed⟩))
  | quoted body closed =>
      obtain rfl : closed = false := absorbed
      exact .inl ⟨body, rfl⟩
  | stray d => exact False.elim absorbed

theorem starts_concat (index : Nat) (init : List (List Char × Lexeme)) (gap : List Char)
    (lexeme : Lexeme) :
    starts index (init ++ [(gap, lexeme)]) =
      starts index init ++ [(index + width init + gap.length, lexeme)] := by
  rw [starts_append]
  rfl

theorem width_concat (init : List (List Char × Lexeme)) (gap : List Char) (lexeme : Lexeme) :
    width (init ++ [(gap, lexeme)]) = width init + gap.length + lexeme.text.length := by
  induction init with
  | nil => simp [width]
  | cons piece init ih =>
      rw [List.cons_append, width, ih, width]
      omega

theorem Reads.stands_start {source tail : List Char} {pieces : List (List Char × Lexeme)}
    (reads : Reads source pieces tail) {start : Nat × Lexeme} (member : start ∈ starts 0 pieces) :
    Stands source (.ofIndex source start.1, start.2) := by
  have here : source.drop 0 = source := rfl
  refine reads.stands here _ ?_
  rw [Cursor.places_ofIndex]
  exact List.mem_map_of_mem member

theorem Reads.ends_of_not_glues {front back filename : String} {tail : List Char}
    {pieces : List (List Char × Lexeme)} (reads : Reads front.toList pieces tail)
    (closed : ∀ finding ∈ findings front filename, finding.code ≠ some "L002")
    (apart : ¬ JunctionGlues front back filename) :
    ∀ last ∈ pieces.getLast?, tail = [] → last.2.Ends back.toList := by
  intro last isLast atEnd c head absorbed
  -- A last lexeme that takes in the next character is an open string, which was recorded, or glues.
  obtain ⟨gap, lexeme⟩ := last
  obtain ⟨init, rfl⟩ := List.getLast?_eq_some_iff.mp isLast
  have split := starts_concat 0 init gap lexeme
  rcases absorbed.open_or_takesIn
      (.ofIndex filename front.toList (0 + width init + gap.length)) with ⟨body, rfl⟩ | takesIn
  · have found : .unterminatedString
        (.ofIndex filename front.toList (0 + width init + gap.length)) ∈
          findings front filename := by
      rw [reads.findings_starts, split]
      simp [Lexeme.finding?]
    exact closed _ found rfl
  · refine apart ⟨_, c, ?_, ?_, head, takesIn⟩
    · rw [reads.tokenize_starts, List.dropLast_concat, split, List.map_append]
      exact List.getLast?_concat
    · have member : (0 + width init + gap.length, lexeme) ∈
          starts 0 (init ++ [(gap, lexeme)]) := by
        rw [split]
        exact List.mem_append_right _ List.mem_cons_self
      have stop := (reads.stands_start member).stop_token filename
      have length := reads.length_eq
      rw [atEnd, width_concat, String.length_toList] at length
      rw [Cursor.location_ofIndex, Cursor.offset_ofIndex, String.length_toList] at stop
      rw [stop, length, List.length_nil, Nat.zero_add, Nat.add_zero]

/-- The tokens and the findings of two sources put together are those of the first, without its end
of input, and then those of the second, moved behind the first. -/
theorem tokenize_append {front back filename : String}
    (closed : ∀ finding ∈ findings front filename, finding.code ≠ some "L002")
    (apart : ¬ JunctionGlues front back filename) :
    tokenize (front ++ back) filename =
        (tokenize front filename).dropLast ++
          (tokenize back filename).map (Token.behind front.toList) ∧
      findings (front ++ back) filename =
        findings front filename ++ (findings back filename).map (Finding.behind front.toList) := by
  obtain ⟨pieces, tail, reads⟩ := exists_reads front.toList
  obtain ⟨backPieces, backTail, backReads⟩ := exists_reads back.toList
  obtain ⟨newTail, joined⟩ := reads.append backReads (reads.ends_of_not_glues closed apart)
  rw [← String.toList_append] at joined
  have first : ∀ start ∈ starts 0 pieces,
      Location.ofIndex filename (front ++ back).toList start.1 =
        .ofIndex filename front.toList start.1 := by
    intro start member
    have within := start_le_width member
    have length := reads.length_eq
    rw [String.toList_append, Location.ofIndex_append_of_le filename back.toList (by omega)]
  have second (index : Nat) : Location.ofIndex filename (front ++ back).toList
      (front.toList.length + index) =
        (Location.ofIndex filename back.toList index).behind front.toList := by
    rw [String.toList_append, Location.ofIndex_append_add]
  constructor
  · have final : endOfInput (front ++ back) filename =
        (endOfInput back filename).behind front.toList := by
      rw [endOfInput, String.length_append, ← String.length_toList, second]
      rfl
    rw [joined.tokenize_starts, reads.tokenize_starts, backReads.tokenize_starts,
      starts_joined reads, List.dropLast_concat, List.map_append, List.map_append, List.map_map,
      List.map_map, List.append_assoc, final]
    congr 1
    · exact List.map_congr_left fun start member => by rw [first start member]
    · congr 1
      refine List.map_congr_left fun start _ => ?_
      simp only [Function.comp, second]
      rfl
  · rw [joined.findings_starts, reads.findings_starts, backReads.findings_starts,
      starts_joined reads, List.flatMap_append, List.flatMap_map, List.map_flatMap]
    congr 1
    · exact List.flatMap_congr fun start member => by rw [first start member]
    · refine List.flatMap_congr fun start _ => ?_
      rw [second, start.2.finding?_behind, Option.toList_map]

/-- An `=` behind `!=` is a token of its own; behind `!` it would not be. -/
theorem tokenize_append_not_equal :
    (∀ finding ∈ findings "\"a\nb\" !=" "main", finding.code ≠ some "L002") ∧
      ¬ JunctionGlues "\"a\nb\" !=" "= 1\n@" "main" ∧
      tokenize ("\"a\nb\" !=" ++ "= 1\n@") "main" =
        (tokenize "\"a\nb\" !=" "main").dropLast ++
          (tokenize "= 1\n@" "main").map (Token.behind "\"a\nb\" !=".toList) ∧
      findings ("\"a\nb\" !=" ++ "= 1\n@") "main" =
        findings "\"a\nb\" !=" "main" ++
          (findings "= 1\n@" "main").map (Finding.behind "\"a\nb\" !=".toList) := by
  have reads : Reads "\"a\nb\" !=".toList
      [([], .quoted "a\nb".toList true), ([' '], .symbol (.operator .notEqual))] [] := by
    refine .step ⟨rfl, ?_, ?_, ?_⟩ (.step ⟨rfl, ?_, ?_, ?_⟩ (.done ?_))
    all_goals simp [Lexeme.Valid, Lexeme.Ends, Lexeme.Absorbs, isBlank, blanks]
  have closed : ∀ finding ∈ findings "\"a\nb\" !=" "main", finding.code ≠ some "L002" := by
    rw [reads.findings_starts]
    simp [starts, Lexeme.finding?]
  have apart : ¬ JunctionGlues "\"a\nb\" !=" "= 1\n@" "main" := by
    rintro ⟨token, c, isLast, _, _, takesIn⟩
    rw [reads.tokenize_starts, List.dropLast_concat] at isLast
    obtain rfl : (Lexeme.symbol (.operator .notEqual)).token
        (.ofIndex "main" "\"a\nb\" !=".toList 6) = token := Option.some.inj isLast
    simp [Token.TakesIn, Token.IsWord, Token.isKeyword, TokenKind.isKeyword, Lexeme.token,
      Lexeme.kind] at takesIn
  exact ⟨closed, apart, tokenize_append closed apart⟩

end MonkeySource
