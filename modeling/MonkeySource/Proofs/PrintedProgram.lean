import MonkeySource.Program.Basic
import MonkeySource.Proofs.RoundTrip
import MonkeySource.Proofs.StrictReading

set_option autoImplicit false

/-!
# Programs printed and read again

A program is printed with nothing between its statements. A let and a return end with a semicolon,
but an expression is a name alone, which runs into whatever word comes next.
-/

namespace MonkeySource

/-- A word that is not reserved. -/
def IsName (text : String) : Prop :=
  (∃ c rest, text.toList = c :: rest ∧ isLetter c = true ∧ ∀ d ∈ rest, isWordPart d = true) ∧
    ∀ keyword : Keyword, keyword.spelling ≠ text

/-- What an identifier is called, as a token. -/
def Identifier.nameToken (identifier : Identifier) : Token := ⟨.identifier, identifier.value, none⟩

theorem IsName.wellFormed {identifier : Identifier} (isName : IsName identifier.value) :
    identifier.nameToken.WellFormed := by
  obtain ⟨⟨c, rest, spelled, letter, parts⟩, free⟩ := isName
  have same : identifier.value = String.ofList (c :: rest) := by
    rw [← spelled, String.ofList_toList]
  rw [Identifier.nameToken, same]
  exact .identifier letter parts fun keyword => same ▸ free keyword

namespace Statement

/-- A let and a return keep the token of their keyword, and every identifier is called by a name. An
expression does not print the token it keeps, which may be any. -/
inductive WellFormed : Statement → Prop where
  | letBinding {location name value} : IsName name.value →
      (∀ identifier ∈ value, IsName identifier.value) →
      WellFormed (.letBinding ⟨.keyword .letWord, "let", location⟩ name value)
  | returning {location value} : (∀ identifier ∈ value, IsName identifier.value) →
      WellFormed (.returning ⟨.keyword .returnWord, "return", location⟩ value)
  | expression {token value} : (∀ identifier ∈ value, IsName identifier.value) →
      WellFormed (.expression token value)

def valueTokens : Option Identifier → List Token
  | none => []
  | some value => [value.nameToken]

/-- The tokens that the statement stands for. -/
def tokens : Statement → List Token
  | .letBinding _ name value =>
      ⟨.keyword .letWord, "let", none⟩ :: name.nameToken :: ⟨.operator .assign, "=", none⟩ ::
        (valueTokens value ++ [⟨.delimiter .semicolon, ";", none⟩])
  | .returning _ value =>
      ⟨.keyword .returnWord, "return", none⟩ ::
        (valueTokens value ++ [⟨.delimiter .semicolon, ";", none⟩])
  | .expression _ value => valueTokens value

def isExpression : Statement → Bool
  | .expression _ _ => true
  | _ => false

/-- The statement prints a name, and nothing behind it. -/
def isBareName : Statement → Bool
  | .expression _ (some _) => true
  | _ => false

def isSilent : Statement → Bool
  | .expression _ none => true
  | _ => false

end Statement

namespace Program

def tokens (program : Program) : List Token := program.statements.flatMap Statement.tokens

/-- The text of the program is read as the tokens of its statements. -/
def ReadsBack (program : Program) (filename : String) (strict : Bool) : Prop :=
  ∃ tokens, tokenizeText program.text filename strict = .ok tokens ∧
    List.Forall₂ Token.Same tokens (program.tokens ++ [⟨.endOfInput, "", none⟩])

end Program

/-! ## Printed items -/

theorem written_eq_append (lead : List Char) (items : List (Token × List Char)) :
    written lead items = lead ++ written [] items := by
  cases items with
  | nil => exact (List.append_nil lead).symm
  | cons item items => rfl

theorem written_append (lead : List Char) (items more : List (Token × List Char)) :
    written lead (items ++ more) = written lead items ++ written [] more := by
  induction items generalizing lead with
  | nil => exact written_eq_append lead more
  | cons item items ih =>
      rw [List.cons_append, written, written, ih]
      simp only [List.append_assoc]

namespace Statement

def valueItems (value : Option Identifier) : List (Token × List Char) :=
  (valueTokens value).map fun token => (token, [])

/-- The tokens of a statement, each with the blanks that are printed behind it. -/
def items : Statement → List (Token × List Char)
  | .letBinding _ name value =>
      (⟨.keyword .letWord, "let", none⟩, [' ']) :: (name.nameToken, [' ']) ::
        (⟨.operator .assign, "=", none⟩, [' ']) ::
          (valueItems value ++ [(⟨.delimiter .semicolon, ";", none⟩, [])])
  | .returning _ value =>
      (⟨.keyword .returnWord, "return", none⟩, [' ']) ::
        (valueItems value ++ [(⟨.delimiter .semicolon, ";", none⟩, [])])
  | .expression _ value => valueItems value

theorem map_fst_valueItems (value : Option Identifier) :
    (valueItems value).map Prod.fst = valueTokens value := by
  rw [valueItems, List.map_map]
  exact List.map_id _

theorem map_fst_items (statement : Statement) :
    statement.items.map Prod.fst = statement.tokens := by
  cases statement with
  | letBinding | returning =>
      simp only [items, tokens, List.map_cons, List.map_append, map_fst_valueItems, List.map_nil]
  | expression _ value => exact map_fst_valueItems value

theorem written_valueItems (value : Option Identifier) :
    written [] (valueItems value) = (valueText value).toList := by
  cases value with
  | none => rfl
  | some identifier => exact List.append_nil _

theorem WellFormed.toList_text {statement : Statement} (wellFormed : statement.WellFormed) :
    statement.text.toList = written [] statement.items := by
  cases wellFormed with
  | letBinding | returning =>
      simp [text, items, written, written_append, written_eq_append [' '], written_valueItems,
        Token.written, Identifier.nameToken, Identifier.text]
  | expression => exact (written_valueItems _).symm

/-- A token that can be written, with blanks behind it. -/
structure Writable (item : Token × List Char) : Prop where
  token : item.1.WellFormed
  gap : ∀ c ∈ item.2, isBlank c = true

theorem WellFormed.writable {statement : Statement} (wellFormed : statement.WellFormed) :
    ∀ item ∈ statement.items, Writable item := by
  have space : ∀ c ∈ [' '], isBlank c = true := List.all_eq_true.mp (by decide)
  have tight : ∀ c ∈ [], isBlank c = true := List.forall_mem_nil _
  have values {value : Option Identifier} (names : ∀ identifier ∈ value, IsName identifier.value) :
      ∀ item ∈ valueItems value, Writable item := by
    cases value with
    | none => exact List.forall_mem_nil _
    | some identifier =>
        exact List.forall_mem_singleton.mpr ⟨(names identifier rfl).wellFormed, tight⟩
  cases wellFormed with
  | letBinding isName names =>
      simp only [items, List.forall_mem_cons, List.forall_mem_append]
      exact ⟨⟨.keyword, space⟩, ⟨isName.wellFormed, space⟩, ⟨.symbol, space⟩, values names,
        ⟨.symbol, tight⟩, List.forall_mem_nil _⟩
  | returning names =>
      simp only [items, List.forall_mem_cons, List.forall_mem_append]
      exact ⟨⟨.keyword, space⟩, values names, ⟨.symbol, tight⟩, List.forall_mem_nil _⟩
  | expression names => exact values names

end Statement

namespace Program

/-- The printed items of all statements. -/
def items (program : Program) : List (Token × List Char) :=
  program.statements.flatMap Statement.items

theorem items_cons (statement : Statement) (others : List Statement) :
    (Program.mk (statement :: others)).items = statement.items ++ (Program.mk others).items :=
  List.flatMap_cons

theorem map_fst_items (program : Program) : program.items.map Prod.fst = program.tokens := by
  simp only [items, tokens, List.map_flatMap, Statement.map_fst_items]

theorem toList_text {program : Program} (wellFormed : ∀ statement ∈ program.statements,
    statement.WellFormed) : program.text.toList = written [] program.items := by
  obtain ⟨statements⟩ := program
  induction statements with
  | nil => rfl
  | cons statement others ih =>
      obtain ⟨first, later⟩ := List.forall_mem_cons.mp wellFormed
      have rest := ih later
      have printed : (Program.mk (statement :: others)).text =
          statement.text ++ (Program.mk others).text := rfl
      rw [printed, items_cons, String.toList_append, written_append, first.toList_text, rest]

theorem writable {program : Program} (wellFormed : ∀ statement ∈ program.statements,
    statement.WellFormed) : ∀ item ∈ program.items, Statement.Writable item := by
  intro item member
  obtain ⟨statement, inProgram, inItems⟩ := List.mem_flatMap.mp member
  exact (wellFormed statement inProgram).writable item inItems

end Program

/-! ## Neighbours -/

/-- Unless there is a blank between them, the two tokens do not glue. -/
def Unglued (first second : Token × List Char) : Prop := first.2 = [] → ¬ Glues first.1 second.1

theorem isChain_spaced {token : Token} {items : List (Token × List Char)} :
    ((token, [' ']) :: items).IsChain Unglued ↔ items.IsChain Unglued := by
  rw [List.isChain_cons, and_iff_right]
  exact fun next _ nothing => absurd nothing (List.cons_ne_nil _ _)

theorem not_glues_of_semicolon {first second : Token}
    (closed : first.kind = .delimiter .semicolon ∨ second.kind = .delimiter .semicolon) :
    ¬ Glues first second := by
  intro glued
  rcases closed with closed | closed <;>
    simp [Glues, Token.IsWord, Token.isKeyword, TokenKind.isKeyword, closed] at glued

theorem glues_of_isWord {identifier : Identifier} {second : Token} (isWord : second.IsWord) :
    Glues identifier.nameToken second := .inl ⟨.inl rfl, .inl isWord⟩

namespace Statement

theorem isChain_closed {value : Option Identifier} {items : List (Token × List Char)} :
    (valueItems value ++ (⟨.delimiter .semicolon, ";", none⟩, []) :: items).IsChain Unglued ↔
      items.IsChain Unglued := by
  have behind : ((⟨.delimiter .semicolon, ";", none⟩, []) :: items).IsChain Unglued ↔
      items.IsChain Unglued := by
    rw [List.isChain_cons, and_iff_right]
    exact fun next _ _ => not_glues_of_semicolon (.inl rfl)
  cases value with
  | none => exact behind
  | some identifier =>
      refine List.isChain_cons_cons.trans ((and_iff_right ?_).trans behind)
      exact fun _ => not_glues_of_semicolon (.inr rfl)

/-- What a statement prints keeps apart from what comes next, unless it is a bare name. -/
theorem isChain_items_append {statement : Statement} {items : List (Token × List Char)}
    (word : ∀ next ∈ items.head?, next.1.IsWord) :
    (statement.items ++ items).IsChain Unglued ↔
      (statement.isBareName = true → items = []) ∧ items.IsChain Unglued := by
  cases statement with
  | letBinding | returning =>
      simp only [Statement.items, List.cons_append, List.append_assoc, List.nil_append,
        isChain_spaced, isChain_closed, isBareName, Bool.false_eq_true, false_implies, true_and]
  | expression _ value =>
      cases value with
      | none => simp [Statement.items, valueItems, valueTokens, isBareName]
      | some identifier =>
          cases items with
          | nil => simp [Statement.items, valueItems, valueTokens, isBareName]
          | cons next items =>
              -- whatever comes next begins with a word, and the name takes it in
              have glued : Glues identifier.nameToken next.1 := glues_of_isWord (word next rfl)
              refine iff_of_false (fun chain => ?_) (fun alone => ?_)
              · exact chain.rel rfl glued
              · cases alone.1 rfl

theorem items_eq_nil_iff {statement : Statement} :
    statement.items = [] ↔ statement.isSilent = true := by
  cases statement with
  | letBinding | returning => simp [items, isSilent]
  | expression _ value => cases value <;> simp [items, valueItems, valueTokens, isSilent]

theorem head?_items_isWord {statement : Statement} {item : Token × List Char}
    (first : item ∈ statement.items.head?) : item.1.IsWord := by
  cases statement with
  | letBinding | returning =>
      cases first
      exact .inr rfl
  | expression _ value =>
      cases value with
      | none => cases first
      | some identifier =>
          cases first
          exact .inl rfl

end Statement

namespace Program

theorem head?_items_isWord {program : Program} {item : Token × List Char}
    (first : item ∈ program.items.head?) : item.1.IsWord := by
  obtain ⟨statements⟩ := program
  induction statements with
  | nil => cases first
  | cons statement others ih =>
      rw [items_cons, List.head?_append, Option.mem_def, Option.or_eq_some_iff] at first
      rcases first with own | ⟨_, later⟩
      · exact Statement.head?_items_isWord own
      · exact ih later

/-- What a program prints keeps apart exactly if only silent statements come after a bare name. -/
theorem isChain_items_iff (program : Program) :
    program.items.IsChain Unglued ↔
      program.statements.Pairwise fun earlier later =>
        earlier.isBareName = true → later.isSilent = true := by
  obtain ⟨statements⟩ := program
  induction statements with
  | nil => exact iff_of_true .nil .nil
  | cons statement others ih =>
      have silent : (Program.mk others).items = [] ↔ ∀ later ∈ others, later.isSilent = true := by
        simp only [items, List.flatMap_eq_nil_iff, Statement.items_eq_nil_iff]
      rw [items_cons, Statement.isChain_items_append fun _ first => head?_items_isWord first, ih,
        silent, List.pairwise_cons]
      apply and_congr_left
      intro _
      constructor
      · intro alone later member bare
        exact alone bare later member
      · intro alone bare later member
        exact alone later member bare

theorem tokenize_same_iff {program : Program} (wellFormed : ∀ statement ∈ program.statements,
    statement.WellFormed) (filename : String) :
    List.Forall₂ Token.Same (tokenize program.text filename)
        (program.tokens ++ [⟨.endOfInput, "", none⟩]) ↔
      program.items.IsChain Unglued := by
  obtain ⟨pieces, tail, reads⟩ := exists_reads program.text.toList
  have layout : Reads (written [] program.items) pieces tail := toList_text wellFormed ▸ reads
  have apart := layout.matches_iff (fun item member => (writable wellFormed item member).token)
    (List.forall_mem_nil _) (fun item member => (writable wellFormed item member).gap)
  rw [reads.tokenize_source filename, forall₂_append_singleton, and_iff_left ⟨rfl, rfl⟩,
    ← map_fst_items, List.forall₂_map_left_iff, List.forall₂_map_right_iff]
  rw [← Cursor.map_snd_places (.ofIndex _ 0) pieces, List.forall₂_map_left_iff] at apart
  exact apart

end Program

theorem exists_same_of_mem {tokens expected : List Token}
    (same : List.Forall₂ Token.Same tokens expected) {token : Token} (member : token ∈ tokens) :
    ∃ other ∈ expected, token.Same other := by
  induction same with
  | nil => cases member
  | cons here _ ih =>
      cases member with
      | head => exact ⟨_, List.mem_cons_self, here⟩
      | tail _ later =>
          obtain ⟨other, known, matched⟩ := ih later
          exact ⟨other, List.mem_cons_of_mem _ known, matched⟩

/-- No statement stands for a token that a strict reading could refuse. -/
theorem Statement.kind_of_mem_tokens {statement : Statement} {token : Token}
    (member : token ∈ statement.tokens) : token.kind ≠ .illegal ∧ token.kind ≠ .string := by
  have values {value : Option Identifier} (inValue : token ∈ valueTokens value) :
      token.kind = .identifier := by
    cases value with
    | none => cases inValue
    | some identifier => rw [List.mem_singleton.mp inValue, Identifier.nameToken]
  cases statement with
  | letBinding | returning =>
      simp only [tokens, List.mem_cons, List.mem_append, List.not_mem_nil, or_false] at member
      grind [Identifier.nameToken]
  | expression => simp [values member]

namespace Program

theorem readsBack_iff_same (program : Program) (filename : String) (strict : Bool) :
    program.ReadsBack filename strict ↔
      List.Forall₂ Token.Same (tokenize program.text filename)
        (program.tokens ++ [⟨.endOfInput, "", none⟩]) := by
  constructor
  · rintro ⟨tokens, read, same⟩
    rwa [← eq_tokenize_of_tokenizeText read]
  · intro same
    refine ⟨_, ?_, same⟩
    cases strict with
    | false => rfl
    | true =>
        refine tokenizeText_of_harmless fun token member => ?_
        obtain ⟨other, expected, kind, _⟩ := exists_same_of_mem same member
        rw [Token.Offends, kind]
        rcases List.mem_append.mp expected with printed | final
        · obtain ⟨statement, _, stands⟩ := List.mem_flatMap.mp printed
          obtain ⟨notIllegal, notString⟩ := Statement.kind_of_mem_tokens stands
          simp [notIllegal, notString]
        · simp [List.mem_singleton.mp final]

/-- The text of a program is read as its tokens exactly if behind every expression that has a value
there are only expressions without one. -/
theorem readsBack_iff {program : Program} (wellFormed : ∀ statement ∈ program.statements,
    statement.WellFormed) (filename : String) (strict : Bool) :
    (program.ReadsBack filename strict ↔
      program.statements.Pairwise fun earlier later =>
        earlier.isBareName = true → later.isSilent = true) ∧
    ((∀ statement ∈ program.statements, statement.isExpression = false) →
      program.ReadsBack filename strict) := by
  have law : program.ReadsBack filename strict ↔ _ :=
    (program.readsBack_iff_same filename strict).trans
      ((tokenize_same_iff wellFormed filename).trans program.isChain_items_iff)
  refine ⟨law, fun closed => law.mpr ?_⟩
  refine List.pairwise_of_forall_mem_list fun earlier member _ _ bare => ?_
  have notExpression := closed earlier member
  cases earlier with
  | letBinding | returning => cases bare
  | expression => cases notExpression

def x1 : Identifier := ⟨⟨.identifier, "x1", none⟩, "x1"⟩

def letX1 : Statement := .letBinding ⟨.keyword .letWord, "let", none⟩ x1 (some x1)

def bareReturn : Statement := .returning ⟨.keyword .returnWord, "return", none⟩ none

def bareX1 : Statement := .expression x1.token (some x1)

private theorem x1_isName : IsName x1.value := by
  refine ⟨⟨'x', ['1'], by decide, by decide, List.forall_mem_singleton.mpr (by decide)⟩, ?_⟩
  intro keyword
  cases keyword <;> decide

private theorem bareX1_wellFormed : bareX1.WellFormed :=
  .expression fun _ isX1 => Option.mem_some.mp isX1 ▸ x1_isName

private theorem letX1_wellFormed : letX1.WellFormed :=
  .letBinding x1_isName fun _ isX1 => Option.mem_some.mp isX1 ▸ x1_isName

private theorem bareReturn_wellFormed : bareReturn.WellFormed :=
  .returning fun _ missing => absurd missing (Option.not_mem_none _)

/-- A name at the end is read back. In front of a let it is not, because `x1let` is one word. -/
theorem readsBack_last_name :
    (Program.mk [letX1, bareReturn, bareX1]).ReadsBack "main" true ∧
      (Program.mk [letX1, bareReturn]).ReadsBack "main" false ∧
      ¬ (Program.mk [bareX1, letX1]).ReadsBack "main" false := by
  have ends : ∀ statement ∈ [letX1, bareReturn, bareX1], statement.WellFormed := by
    simp only [List.forall_mem_cons]
    exact ⟨letX1_wellFormed, bareReturn_wellFormed, bareX1_wellFormed, List.forall_mem_nil _⟩
  have closed : ∀ statement ∈ [letX1, bareReturn], statement.WellFormed := by
    simp only [List.forall_mem_cons]
    exact ⟨letX1_wellFormed, bareReturn_wellFormed, List.forall_mem_nil _⟩
  have begins : ∀ statement ∈ [bareX1, letX1], statement.WellFormed := by
    simp only [List.forall_mem_cons]
    exact ⟨bareX1_wellFormed, letX1_wellFormed, List.forall_mem_nil _⟩
  refine ⟨?_, ?_, ?_⟩
  · refine (readsBack_iff ends "main" true).1.mpr ?_
    decide
  · refine (readsBack_iff closed "main" false).2 ?_
    simp [letX1, bareReturn, Statement.isExpression]
  · intro same
    have silent := (readsBack_iff begins "main" false).1.mp same
    simp [bareX1, letX1, Statement.isBareName, Statement.isSilent] at silent

end Program

end MonkeySource
