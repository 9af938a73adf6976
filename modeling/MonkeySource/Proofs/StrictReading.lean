import Mathlib.Data.List.Basic
import MonkeySource.Proofs.Tiling

set_option autoImplicit false

/-!
# The strict reading

What a scan notices can be told from its tokens. So the strict reading refuses a source exactly if a
token of the lenient one offends, and its error is about the first such token.
-/

namespace MonkeySource

namespace Token

/-- An illegal token, or a string that is cut off by the end of a source of this size. -/
def Offends (size : Nat) (token : Token) : Prop :=
  token.kind = .illegal ∨ token.kind = .string ∧ token.start + 1 + token.literal.length = size

instance (size : Nat) : DecidablePred (Offends size) :=
  fun _ => inferInstanceAs (Decidable (_ ∨ _))

/-- The finding about a token in a source of this size. -/
def finding? (size : Nat) (token : Token) : Option Finding :=
  match token.kind, token.location with
  | .illegal, some location => (Finding.illegalText token.literal location).toOption
  | .string, some location =>
      if token.start + 1 + token.literal.length = size then some (.unterminatedString location)
      else none
  | _, _ => none

end Token

theorem Finding.illegalText_singleton (c : Char) (location : Location) :
    illegalText (String.singleton c) location = .ok (illegalCharacter c location) := by
  cases printable : Text.isPrintable c <;>
    simp [illegalText, illegalCharacter, Text.isPrintableText, printable]

theorem Finding.location_of_illegalText {text : String} {location : Location} {finding : Finding}
    (found : illegalText text location = .ok finding) : finding.location = location := by
  unfold illegalText at found
  split at found
  · obtain rfl := Except.ok.inj found
    rfl
  · split at found
    · obtain rfl := Except.ok.inj found
      rfl
    · cases found

/-- A token tells what the scan noticed at its lexeme. -/
theorem Stands.finding?_token {source : List Char} {place : Cursor × Lexeme}
    (stands : Stands source place) (filename : String) :
    (place.2.token (place.1.location filename)).finding? source.length =
      place.2.finding? (place.1.location filename) := by
  obtain ⟨cursor, lexeme⟩ := place
  cases lexeme with
  | symbol fixed => rfl
  | word letters =>
      rcases TokenKind.ofWord_cases (String.ofList letters) with ⟨_, _, kind⟩ | ⟨_, kind⟩ <;>
        simp [Token.finding?, Lexeme.token, Lexeme.kind, Lexeme.finding?, kind]
  | number digits => rfl
  | quoted body closed =>
      have reaches := stands.body_reaches_end_iff
      simp only [Token.finding?, Lexeme.start_token]
      cases closed <;> simp [Lexeme.token, Lexeme.kind, Lexeme.literal, Lexeme.finding?, reaches]
  | stray c =>
      change (Finding.illegalText (String.singleton c) _).toOption = _
      rw [Finding.illegalText_singleton]
      rfl

theorem findings_eq_filterMap (source filename : String) :
    findings source filename =
      (tokenize source filename).filterMap (Token.finding? source.length) := by
  obtain ⟨pieces, tail, reads⟩ := exists_reads source.toList
  have start : source.toList.drop 0 = source.toList := rfl
  have nothing : (endOfInput source filename).finding? source.length = none := rfl
  rw [reads.findings_source, reads.tokenize_source, List.filterMap_append, List.filterMap_map,
    List.filterMap_cons_none nothing, List.filterMap_nil, List.append_nil,
    List.filterMap_eq_flatMap_toList]
  refine List.flatMap_congr fun place member => ?_
  have told := (reads.stands start place member).finding?_token filename
  rw [String.length_toList] at told
  rw [Function.comp, told]

theorem Token.location_of_finding? {token : Token} {size : Nat} {finding : Finding}
    (found : token.finding? size = some finding) : token.location = some finding.location := by
  obtain ⟨kind, literal, location⟩ := token
  cases location with
  | none => cases kind <;> simp [finding?] at found
  | some location =>
      cases kind with
      | illegal =>
          simp only [finding?] at found
          cases made : Finding.illegalText literal location with
          | ok other =>
              rw [made] at found
              obtain rfl := Option.some.inj found
              rw [Finding.location_of_illegalText made]
          | error _ =>
              rw [made] at found
              cases found
      | string =>
          simp only [finding?] at found
          split at found
          · obtain rfl := Option.some.inj found
            rfl
          · cases found
      | endOfInput | identifier | integer | symbol _ | keyword _ => simp [finding?] at found

theorem Stands.offends_token_iff {source : List Char} {place : Cursor × Lexeme}
    (stands : Stands source place) (filename : String) :
    (place.2.token (place.1.location filename)).Offends source.length ↔
      (place.2.finding? (place.1.location filename)).isSome = true := by
  obtain ⟨cursor, lexeme⟩ := place
  simp only [Token.Offends, Lexeme.start_token]
  cases lexeme with
  | symbol _ | number _ | stray _ => simp [Lexeme.token, Lexeme.kind, Lexeme.finding?]
  | word letters =>
      rcases TokenKind.ofWord_cases (String.ofList letters) with ⟨_, _, kind⟩ | ⟨_, kind⟩ <;>
        simp [Lexeme.token, Lexeme.kind, Lexeme.finding?, kind]
  | quoted body closed =>
      have reaches := stands.body_reaches_end_iff
      cases closed <;> simp [Lexeme.token, Lexeme.kind, Lexeme.literal, Lexeme.finding?, reaches]

theorem offends_iff_isSome_finding? {source filename : String} {token : Token}
    (member : token ∈ tokenize source filename) :
    token.Offends source.length ↔ (token.finding? source.length).isSome = true := by
  rcases eq_endOfInput_or_stands member with rfl | ⟨place, stands, rfl⟩
  · simp [Token.Offends, Token.finding?, endOfInput]
  · rw [← String.length_toList, stands.finding?_token]
    exact stands.offends_token_iff filename

theorem Finding.exists_heading_eq (finding : Finding) :
    ∃ suffix, ∀ severity, ({ finding with severity := severity } : Diagnostic).heading =
      String.ofList (severity.toList.map Char.toUpper) ++ suffix := by
  obtain ⟨message, location, code, help, suggestions⟩ := finding
  cases code with
  | none => exact ⟨"", fun severity => String.append_empty.symm⟩
  | some code =>
      by_cases empty : code = ""
      · subst empty
        exact ⟨"", fun severity => String.append_empty.symm⟩
      · refine ⟨"[" ++ code ++ "]", fun severity => ?_⟩
        simp only [Diagnostic.heading, String.append_assoc]

/-- Of a rendered diagnostic only the beginning depends on how severe it is. -/
theorem Finding.exists_render_eq (finding : Finding) :
    ∃ rest, ∀ severity, ({ finding with severity := severity } : Diagnostic).render =
      String.ofList (severity.toList.map Char.toUpper) ++ rest := by
  obtain ⟨suffix, heading⟩ := finding.exists_heading_eq
  refine ⟨suffix ++ (": " ++ (finding.message ++ ("\n" ++
    finding.asWarning.lines.tail.foldr (fun line text => line ++ "\n" ++ text) ""))),
    fun severity => ?_⟩
  simp only [Diagnostic.render, Diagnostic.lines, List.foldr_cons, heading, String.append_assoc]
  rfl

/-- An error that says of a token what a recorded warning says of it. -/
structure LexicalError.Promotes (error : LexicalError) (warning : Diagnostic) (culprit : Token) :
    Prop where
  severity : error.diagnostic.severity = "error"
  location : culprit.location = some error.diagnostic.location
  message : error.diagnostic.message = warning.message
  code : error.diagnostic.code = warning.code
  help : error.diagnostic.help = warning.help
  suggestions : error.diagnostic.suggestions = warning.suggestions
  arguments : error.arguments = [error.diagnostic.message]
  text : ∃ rest, warning.render = "WARNING" ++ rest ∧ error.text = "ERROR" ++ rest

theorem LexicalError.promotes_asWarning {finding : Finding} {culprit : Token}
    (location : culprit.location = some finding.location) :
    (LexicalError.mk finding).Promotes finding.asWarning culprit := by
  obtain ⟨rest, rendered⟩ := finding.exists_render_eq
  have warning : String.ofList ("warning".toList.map Char.toUpper) = "WARNING" := by decide
  have error : String.ofList ("error".toList.map Char.toUpper) = "ERROR" := by decide
  refine ⟨rfl, location, rfl, rfl, rfl, rfl, rfl, rest, ?_, ?_⟩
  · rw [← warning]
    exact rendered "warning"
  · rw [← error]
    exact rendered "error"

/-- Whatever the mode, the tokens that a reading gives are those of the lenient one. -/
theorem eq_tokenize_of_tokenizeText {source filename : String} {strict : Bool} {tokens : List Token}
    (read : tokenizeText source filename strict = .ok tokens) :
    tokens = tokenize source filename := by
  cases strict with
  | false =>
      cases read
      rfl
  | true =>
      simp only [tokenizeText, ↓reduceIte, tokenizeStrict] at read
      split at read
      · cases read
        rfl
      · cases read

theorem tokenizeText_eq_error_iff {source filename : String} {error : LexicalError} :
    tokenizeText source filename true = .error error ↔
      (findings source filename).head? = some error.finding := by
  obtain ⟨finding⟩ := error
  simp only [tokenizeText, ↓reduceIte, tokenizeStrict]
  cases findings source filename with
  | nil => simp
  | cons first others => simp

theorem mem_findings_of_tokenizeText {source filename : String} {strict : Bool}
    {error : LexicalError} (failed : tokenizeText source filename strict = .error error) :
    error.finding ∈ findings source filename := by
  cases strict with
  | false => cases failed
  | true => exact List.mem_of_head? (tokenizeText_eq_error_iff.mp failed)

theorem head?_findings (source filename : String) :
    (findings source filename).head? =
      ((tokenize source filename).find? fun token => token.Offends source.length).bind
        (Token.finding? source.length) := by
  rw [findings_eq_filterMap, List.head?_filterMap]
  have agree : ∀ token ∈ tokenize source filename,
      token.Offends source.length ↔ (token.finding? source.length).isSome = true :=
    fun token member => offends_iff_isSome_finding? member
  -- Nothing but this agreement is known of the tokens from here on.
  generalize tokenize source filename = tokens at agree
  induction tokens with
  | nil => rfl
  | cons token tokens ih =>
      have later := ih fun other member => agree other (List.mem_cons_of_mem _ member)
      have here := agree token List.mem_cons_self
      cases found : token.finding? source.length with
      | none =>
          have harmless : ¬ token.Offends source.length := by simp [here, found]
          rw [List.findSome?_cons_of_isNone (by simp [found]), later,
            List.find?_cons_of_neg (by simp [harmless])]
      | some finding =>
          have offends : token.Offends source.length := by simp [here, found]
          rw [List.findSome?_cons_of_isSome (by simp [found]),
            List.find?_cons_of_pos (by simp [offends]), Option.bind_some]

theorem tokenizeText_of_harmless {source filename : String}
    (harmless : ∀ token ∈ tokenize source filename, ¬ token.Offends source.length) :
    tokenizeText source filename true = .ok (tokenize source filename) := by
  have nothing : findings source filename = [] := by
    rw [findings_eq_filterMap, List.filterMap_eq_nil_iff]
    intro token member
    rw [← Option.not_isSome_iff_eq_none, ← offends_iff_isSome_finding? member]
    exact harmless token member
  simp only [tokenizeText, ↓reduceIte, tokenizeStrict, nothing]

theorem tokenizeText_of_offends {source filename : String} {token : Token}
    (member : token ∈ tokenize source filename) (offends : token.Offends source.length) :
    ∃ culprit finding,
      (tokenize source filename).find? (fun token => token.Offends source.length) = some culprit ∧
      (findings source filename).head? = some finding ∧
      tokenizeText source filename true = .error ⟨finding⟩ ∧
      (LexicalError.mk finding).Promotes finding.asWarning culprit := by
  have found : ((tokenize source filename).find?
      fun token => token.Offends source.length).isSome = true :=
    List.find?_isSome.mpr ⟨token, member, decide_eq_true offends⟩
  obtain ⟨culprit, isFirst⟩ := Option.isSome_iff_exists.mp found
  have firstOffends : culprit.Offends source.length := by simpa using List.find?_some isFirst
  obtain ⟨finding, about⟩ := Option.isSome_iff_exists.mp
    ((offends_iff_isSome_finding? (List.mem_of_find?_eq_some isFirst)).mp firstOffends)
  have head : (findings source filename).head? = some finding := by
    rw [head?_findings, isFirst, Option.bind_some, about]
  obtain ⟨others, recorded⟩ := List.head?_eq_some_iff.mp head
  have promotes := LexicalError.promotes_asWarning (Token.location_of_finding? about)
  refine ⟨culprit, finding, isFirst, head, ?_, promotes⟩
  simp only [tokenizeText, ↓reduceIte, tokenizeStrict, recorded]

/-- The strict reading fails exactly if a token of the lenient one offends, and gives the same
tokens otherwise. Its error is the first warning, made an error, and stands at the first token that
offends. -/
theorem tokenizeText_strict (source filename : String) :
    tokenizeText source filename false = .ok (tokenize source filename) ∧
      ((∃ error, tokenizeText source filename true = .error error) ↔
        ∃ token ∈ tokenize source filename, token.Offends source.length) ∧
      ((∀ token ∈ tokenize source filename, ¬ token.Offends source.length) →
        tokenizeText source filename true = .ok (tokenize source filename)) ∧
      ∀ error, tokenizeText source filename true = .error error →
        ∃ culprit warning,
          (tokenize source filename).find? (fun token => token.Offends source.length) =
            some culprit ∧
          (findings source filename).head? = some warning ∧
          error.Promotes warning.asWarning culprit := by
  have refused {error : LexicalError} (failed : tokenizeText source filename true = .error error) :
      ∃ token ∈ tokenize source filename, token.Offends source.length := by
    by_contra none_offends
    have accepted : tokenizeText source filename true = .ok (tokenize source filename) :=
      tokenizeText_of_harmless fun token member offends => none_offends ⟨token, member, offends⟩
    rw [accepted] at failed
    cases failed
  refine ⟨rfl, ⟨?_, ?_⟩, tokenizeText_of_harmless, ?_⟩
  · rintro ⟨error, failed⟩
    exact refused failed
  · rintro ⟨token, member, offends⟩
    obtain ⟨_, finding, _, _, failed, _⟩ := tokenizeText_of_offends member offends
    exact ⟨⟨finding⟩, failed⟩
  · intro error failed
    obtain ⟨token, member, offends⟩ := refused failed
    obtain ⟨culprit, finding, isFirst, head, same, promotes⟩ :=
      tokenizeText_of_offends member offends
    obtain rfl := Except.error.inj (failed.symm.trans same)
    exact ⟨culprit, finding, isFirst, head, promotes⟩

end MonkeySource
