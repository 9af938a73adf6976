import Mathlib.Data.List.Chain
import Mathlib.Data.List.Forall2
import MonkeySource.Proofs.Layout

set_option autoImplicit false

/-!
# Tokens written out and read again

Tokens are written with blanks between them. Reading gives the same tokens back exactly if no two
neighbours without a blank between them glue together.
-/

namespace MonkeySource

/-- The tokens that have a written form: the literal is one that the kind allows. -/
inductive Token.WellFormed : Token → Prop where
  | symbol {fixed : Symbol} {location} : WellFormed ⟨.symbol fixed, fixed.spelling, location⟩
  | keyword {keyword : Keyword} {location} :
      WellFormed ⟨.keyword keyword, keyword.spelling, location⟩
  | identifier {c rest location} : isLetter c = true → (∀ d ∈ rest, isWordPart d = true) →
      (∀ keyword : Keyword, keyword.spelling ≠ String.ofList (c :: rest)) →
      WellFormed ⟨.identifier, String.ofList (c :: rest), location⟩
  | integer {digits location} : digits ≠ [] → (∀ d ∈ digits, isDigit d = true) →
      WellFormed ⟨.integer, String.ofList digits, location⟩
  | string {body location} : '"' ∉ body → WellFormed ⟨.string, String.ofList body, location⟩
  | illegal {c location} : isBlank c = false → c ≠ '"' → isWordPart c = false →
      (∀ fixed, (c, fixed) ∉ singleSymbols) → WellFormed ⟨.illegal, String.ofList [c], location⟩

def Token.written (token : Token) : List Char :=
  if token.kind = .string then '"' :: (token.literal.toList ++ ['"']) else token.literal.toList

/-- Blanks, and tokens each with the blanks after it. -/
def written (lead : List Char) : List (Token × List Char) → List Char
  | [] => lead
  | (token, gap) :: items => lead ++ (token.written ++ written gap items)

def Token.IsWord (token : Token) : Prop := token.kind = .identifier ∨ token.isKeyword = true

def Glues (first second : Token) : Prop :=
  first.IsWord ∧ (second.IsWord ∨ second.kind = .integer) ∨
  first.kind = .integer ∧ second.kind = .integer ∨
  (first.kind = .operator .assign ∨ first.kind = .operator .bang) ∧
    (second.kind = .operator .assign ∨ second.kind = .operator .equal)

def Token.lexeme (token : Token) : Lexeme :=
  match token.kind with
  | .symbol fixed => .symbol fixed
  | .keyword _ | .identifier => .word token.literal.toList
  | .integer => .number token.literal.toList
  | .string => .quoted token.literal.toList true
  | .illegal | .endOfInput => .stray (token.literal.toList.headD ' ')

namespace Token.WellFormed

variable {token second : Token}

theorem lexeme_spec (wellFormed : token.WellFormed) :
    token.lexeme.Valid ∧ token.lexeme.text = token.written ∧ token.lexeme.kind = token.kind ∧
      token.lexeme.literal = token.literal := by
  cases wellFormed with
  | symbol => exact ⟨trivial, rfl, rfl, String.ofList_toList⟩
  | @keyword keyword =>
      refine ⟨Lexeme.valid_spelling keyword, rfl, ?_, String.ofList_toList⟩
      simp [lexeme, Lexeme.kind, TokenKind.ofWord_spelling]
  | @identifier c rest _ letter parts free =>
      have spelled : (String.ofList (c :: rest)).toList = c :: rest := String.toList_ofList
      simp only [lexeme, spelled]
      exact ⟨⟨c, rest, rfl, letter, parts⟩, spelled.symm,
        TokenKind.ofWord_eq_identifier_iff.mpr free, rfl⟩
  | integer some_digit digits =>
      simp only [lexeme, String.toList_ofList]
      exact ⟨⟨some_digit, digits⟩, String.toList_ofList.symm, rfl, rfl⟩
  | string free =>
      simp only [lexeme, String.toList_ofList]
      exact ⟨free, by simp [Lexeme.text, written], rfl, rfl⟩
  | @illegal c _ visible notQuote notWord unknown =>
      have missing : Symbol.ofChar? c = none := by
        cases found : Symbol.ofChar? c with
        | none => rfl
        | some fixed =>
            exact absurd (Symbol.mem_singleSymbols_iff.mpr (Symbol.ofChar?_eq_some_iff.mp found))
              (unknown fixed)
      simp only [lexeme, String.toList_ofList]
      exact ⟨⟨visible, notQuote, notWord, missing⟩, String.toList_ofList.symm, rfl, rfl⟩

theorem written_ne_nil (wellFormed : token.WellFormed) : token.written ≠ [] := by
  obtain ⟨valid, spelled, _⟩ := wellFormed.lexeme_spec
  rw [← spelled]
  exact valid.text_ne_nil

/-- The first written character tells words, integers and what begins with `=` from other tokens. -/
theorem head_written (wellFormed : token.WellFormed) {c : Char} {rest : List Char}
    (spelled : token.written = c :: rest) :
    (isLetter c = true ↔ token.IsWord) ∧ (isDigit c = true ↔ token.kind = .integer) ∧
      (c = '=' ↔ token.kind = .operator .assign ∨ token.kind = .operator .equal) := by
  obtain ⟨valid, text, _⟩ := wellFormed.lexeme_spec
  have shape := valid.ofChar_eq_shape (text.trans spelled)
  rw [← Lexeme.Shape.ofChar_eq_word_iff, ← Lexeme.Shape.ofChar_eq_number_iff, shape]
  have equals : c = '=' → token.lexeme.shape = .symbol := by
    intro isEquals
    rw [← shape, isEquals]
    decide
  cases wellFormed with
  | @symbol fixed =>
      refine ⟨by simp [lexeme, Lexeme.shape, IsWord, isKeyword, TokenKind.isKeyword],
        by simp [lexeme, Lexeme.shape], ?_⟩
      change fixed.spelling.toList = c :: rest at spelled
      constructor
      · intro isEquals
        rw [isEquals] at spelled
        cases fixed with
        | operator op => cases op <;> simp [Symbol.spelling] at spelled <;> simp
        | delimiter mark => cases mark <;> simp [Symbol.spelling] at spelled
      · simp only [TokenKind.symbol.injEq]
        intro known
        rcases known with rfl | rfl <;> exact (List.cons.inj spelled).1.symm
  | keyword | identifier | integer | string | illegal =>
      simp_all [lexeme, Lexeme.shape, IsWord, isKeyword, TokenKind.isKeyword]

/-- Two tokens glue if the lexeme of the first takes in what the second begins with. -/
theorem glues_iff (wellFormed : token.WellFormed) (secondWellFormed : second.WellFormed) :
    Glues token second ↔ ∃ c ∈ second.written.head?, token.lexeme.Absorbs c := by
  obtain ⟨c, rest, spelled⟩ := List.exists_cons_of_ne_nil secondWellFormed.written_ne_nil
  obtain ⟨word, integer, equals⟩ := secondWellFormed.head_written spelled
  have part : isWordPart c = true ↔ second.IsWord ∨ second.kind = .integer := by
    rw [← word, ← integer]
    simp [isWordPart]
  rw [Glues, ← part, ← integer, ← equals]
  simp only [spelled, List.head?_cons, Option.mem_def, Option.some.injEq, exists_eq_left']
  cases wellFormed <;>
    simp [IsWord, isKeyword, TokenKind.isKeyword, lexeme, Lexeme.Absorbs]

end Token.WellFormed

private theorem Token.WellFormed.not_open {token : Token} (wellFormed : token.WellFormed)
    (body : List Char) : token.lexeme ≠ .quoted body false := by
  cases wellFormed <;> simp [Token.lexeme]

theorem ends_written_iff {token : Token} {gap : List Char} {items : List (Token × List Char)}
    (wellFormed : token.WellFormed) (blank : ∀ c ∈ gap, isBlank c = true)
    (others : ∀ item ∈ items, item.1.WellFormed) :
    token.lexeme.Ends (written gap items) ↔
      ∀ next ∈ items.head?, gap = [] → ¬ Glues token next.1 := by
  cases items with
  | nil =>
      simp only [List.head?_nil, Option.not_mem_none, false_implies, implies_true, iff_true]
      intro c head absorbed
      obtain ⟨body, isOpen⟩ := absorbed.open_of_isBlank (blank c (List.mem_of_mem_head? head))
      exact wellFormed.not_open body isOpen
  | cons item items =>
      obtain ⟨next, after⟩ := item
      have nextWellFormed : next.WellFormed := others (next, after) List.mem_cons_self
      cases gap with
      | nil =>
          obtain ⟨c, rest, spelled⟩ := List.exists_cons_of_ne_nil nextWellFormed.written_ne_nil
          simp [Lexeme.Ends, written, wellFormed.glues_iff nextWellFormed, spelled]
      | cons d gap =>
          simp only [List.head?_cons, Option.mem_def, Option.some.injEq, reduceCtorEq,
            false_implies, implies_true, iff_true]
          intro c head absorbed
          obtain rfl : d = c := by simpa [written] using head
          obtain ⟨body, isOpen⟩ := absorbed.open_of_isBlank (blank d List.mem_cons_self)
          exact wellFormed.not_open body isOpen

theorem Token.WellFormed.leads {token : Token} {lead after : List Char}
    (wellFormed : token.WellFormed) (blank : ∀ c ∈ lead, isBlank c = true)
    (ends : token.lexeme.Ends after) :
    Leads (lead ++ (token.written ++ after)) lead token.lexeme after := by
  obtain ⟨valid, spelled, _⟩ := wellFormed.lexeme_spec
  exact ⟨by rw [spelled], blank, valid, ends⟩

theorem matches_iff_ends {token : Token} {lead gap after rest : List Char} {lexeme : Lexeme}
    (wellFormed : token.WellFormed) (blank : ∀ c ∈ lead, isBlank c = true)
    (leads : Leads (lead ++ (token.written ++ after)) gap lexeme rest) :
    (lexeme.kind = token.kind ∧ lexeme.literal = token.literal) ↔ token.lexeme.Ends after := by
  obtain ⟨valid, spelled, kind, literal⟩ := wellFormed.lexeme_spec
  constructor
  · intro same
    obtain ⟨sameKind, sameLiteral⟩ := same
    have here : token.lexeme.text ++ after = lexeme.text ++ rest := by
      rw [← leads.dropWhile_eq, ← spelled, valid.dropWhile_gap blank]
    have sameText : token.lexeme.text = lexeme.text := by
      by_cases isString : lexeme.kind = .string
      · obtain ⟨body, closed, rfl⟩ := Lexeme.eq_quoted_of_kind isString
        have closedText : token.lexeme.text = '"' :: (body ++ ['"']) := by
          rw [spelled, Token.written, if_pos (sameKind.symm.trans isString), ← sameLiteral]
          simp [Lexeme.literal]
        cases closed with
        | true => rw [closedText]; rfl
        | false =>
            rw [closedText, leads.ends.eq_nil_of_open] at here
            have lengths := congrArg List.length here
            simp [Lexeme.text] at lengths
      · have notString : token.kind ≠ .string := sameKind ▸ isString
        rw [spelled, Token.written, if_neg notString, Lexeme.text_eq_literal isString, sameLiteral]
    obtain rfl := valid.eq_of_text_eq leads.valid sameText
    rw [List.append_cancel_left here]
    exact leads.ends
  · intro ends
    obtain ⟨_, rfl, _⟩ := (wellFormed.leads blank ends).unique leads
    exact ⟨kind, literal⟩

theorem Reads.matches_iff {lead tail : List Char} {items : List (Token × List Char)}
    {pieces : List (List Char × Lexeme)} (reads : Reads (written lead items) pieces tail)
    (wellFormed : ∀ item ∈ items, item.1.WellFormed) (leadBlank : ∀ c ∈ lead, isBlank c = true)
    (gapsBlank : ∀ item ∈ items, ∀ c ∈ item.2, isBlank c = true) :
    List.Forall₂ (fun lexeme item => lexeme.kind = item.1.kind ∧ lexeme.literal = item.1.literal)
        (pieces.map Prod.snd) items ↔
      items.IsChain fun first second => first.2 = [] → ¬ Glues first.1 second.1 := by
  induction items generalizing lead pieces with
  | nil =>
      cases reads with
      | done _ => simp
      | step leads _ => exact False.elim (leads.not_blank leadBlank)
  | cons item items ih =>
      obtain ⟨token, gap⟩ := item
      have tokenWellFormed : token.WellFormed := wellFormed (token, gap) List.mem_cons_self
      have gapBlank : ∀ c ∈ gap, isBlank c = true := gapsBlank (token, gap) List.mem_cons_self
      have others : ∀ item ∈ items, item.1.WellFormed :=
        fun item member => wellFormed item (List.mem_cons_of_mem _ member)
      have otherGaps : ∀ item ∈ items, ∀ c ∈ item.2, isBlank c = true :=
        fun item member => gapsBlank item (List.mem_cons_of_mem _ member)
      cases reads with
      | done blank =>
          obtain ⟨valid, spelled, _⟩ := tokenWellFormed.lexeme_spec
          obtain ⟨c, rest, head⟩ := List.exists_cons_of_ne_nil valid.text_ne_nil
          have isBlank := blank c (by simp [written, ← spelled, head])
          rw [valid.head_not_blank head] at isBlank
          cases isBlank
      | step leads reads =>
          rw [List.map_cons, List.forall₂_cons, List.isChain_cons,
            matches_iff_ends tokenWellFormed leadBlank leads,
            ← ends_written_iff tokenWellFormed gapBlank others]
          refine and_congr_right fun ends => ?_
          obtain ⟨_, _, rfl⟩ := (tokenWellFormed.leads leadBlank ends).unique leads
          exact ih reads others gapBlank otherGaps

theorem forall₂_append_singleton {α β : Type} {relation : α → β → Prop} {left : List α}
    {right : List β} {a : α} {b : β} :
    List.Forall₂ relation (left ++ [a]) (right ++ [b]) ↔
      List.Forall₂ relation left right ∧ relation a b := by
  rw [← List.forall₂_reverse_iff]
  simp [and_comm]

/-- Reading what was written gives the same tokens back, and the end of input, exactly if no two
neighbours with nothing between them glue. -/
theorem tokenize_written_iff {lead : List Char} {items : List (Token × List Char)}
    (wellFormed : ∀ item ∈ items, item.1.WellFormed) (leadBlank : ∀ c ∈ lead, isBlank c = true)
    (gapsBlank : ∀ item ∈ items, ∀ c ∈ item.2, isBlank c = true) (filename : String) :
    List.Forall₂ Token.Same (tokenize (String.ofList (written lead items)) filename)
        (items.map Prod.fst ++ [⟨.endOfInput, "", none⟩]) ↔
      items.IsChain fun first second => first.2 = [] → ¬ Glues first.1 second.1 := by
  obtain ⟨pieces, tail, reads⟩ := exists_reads (written lead items)
  rw [← reads.matches_iff wellFormed leadBlank gapsBlank]
  have source : Reads (String.ofList (written lead items)).toList pieces tail := by
    rwa [String.toList_ofList]
  rw [source.tokenize_source filename, forall₂_append_singleton, List.forall₂_map_left_iff,
    List.forall₂_map_right_iff, ← Cursor.map_snd_places (.ofIndex _ 0) pieces,
    List.forall₂_map_left_iff]
  exact and_iff_left ⟨rfl, rfl⟩

def assignEqual (gap : List Char) : List (Token × List Char) :=
  [(⟨.operator .assign, "=", none⟩, gap), (⟨.operator .equal, "==", none⟩, ['\n'])]

private theorem assignEqual_wellFormed (gap : List Char) :
    ∀ item ∈ assignEqual gap, item.1.WellFormed := by
  simp only [assignEqual, List.mem_cons, List.not_mem_nil, or_false, forall_eq_or_imp, forall_eq]
  exact ⟨.symbol, .symbol⟩

private theorem assignEqual_blank {gap : List Char} (blank : ∀ c ∈ gap, isBlank c = true) :
    ∀ item ∈ assignEqual gap, ∀ c ∈ item.2, isBlank c = true := by
  simp only [assignEqual, List.mem_cons, List.not_mem_nil, or_false, forall_eq_or_imp, forall_eq]
  exact ⟨blank, by decide⟩

/-- The texts `= ==` and `===` are written from the same two tokens; only the first is read as them. -/
theorem tokenize_written_assign_equal :
    List.Forall₂ Token.Same (tokenize (String.ofList (written [' '] (assignEqual [' ']))) "main")
        ((assignEqual [' ']).map Prod.fst ++ [⟨.endOfInput, "", none⟩]) ∧
      ¬ List.Forall₂ Token.Same (tokenize (String.ofList (written [' '] (assignEqual []))) "main")
        ((assignEqual []).map Prod.fst ++ [⟨.endOfInput, "", none⟩]) := by
  have space : ∀ c ∈ [' '], isBlank c = true := List.all_eq_true.mp (by decide)
  constructor
  · refine (tokenize_written_iff (assignEqual_wellFormed [' ']) space (assignEqual_blank space)
      "main").mpr ?_
    simp [assignEqual]
  · intro same
    have separated := (tokenize_written_iff (assignEqual_wellFormed []) space
      (assignEqual_blank (by simp)) "main").mp same
    simp [assignEqual, Glues] at separated

end MonkeySource
