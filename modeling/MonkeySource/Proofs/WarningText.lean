import MonkeySource.Proofs.Bookkeeping
import MonkeySource.Proofs.DiagnosticText
import MonkeySource.Proofs.StrictReading
import MonkeySource.Proofs.TokenText

set_option autoImplicit false

/-!
# Findings on a terminal

A source may hold any character, but what is shown of a finding about it is printable, line by line.
The character itself is told three times over: quoted in the message, and in the help as it is or by
its code point. Each time it can be told from all others.
-/

namespace MonkeySource

namespace Text

@[simp] theorem isPrintableText_append (first second : String) :
    isPrintableText (first ++ second) = (isPrintableText first && isPrintableText second) := by
  simp only [isPrintableText, String.toList_append, List.all_append]

theorem isPrintableText_quote (text : String) : isPrintableText (quote text) = true := by
  rw [isPrintableText, toList_quote]
  exact all_isPrintable_quoteChars _

theorem isPrintableText_repr (value : Int) : isPrintableText value.repr = true :=
  all_isPrintable_repr value

/-- Behind the marker stand as many digits as the code point needs. -/
theorem exists_codePointName_eq (c : Char) :
    ∃ width, codePointName c = "U+" ++ String.ofList (hexDigits .upper width c.toNat) ∧
      c.toNat < 16 ^ width := by
  have last : c.toNat < 16 ^ 6 := by
    rcases c.valid with low | ⟨_, high⟩
    · exact Nat.lt_trans low (by decide)
    · exact Nat.lt_trans high (by decide)
  by_cases four : c.toNat < 0x10000
  · exact ⟨4, by simp only [codePointName, if_pos four], four⟩
  · by_cases five : c.toNat < 0x100000
    · exact ⟨5, by simp only [codePointName, if_neg four, if_pos five], five⟩
    · exact ⟨6, by simp only [codePointName, if_neg four, if_neg five], last⟩

theorem isPrintableText_codePointName (c : Char) : isPrintableText (codePointName c) = true := by
  obtain ⟨width, named, _⟩ := exists_codePointName_eq c
  have marker : isPrintableText "U+" = true := by decide
  have digits : isPrintableText (String.ofList (hexDigits .upper width c.toNat)) = true := by
    rw [isPrintableText, String.toList_ofList]
    exact all_isPrintable_hexDigits .upper width c.toNat
  rw [named, isPrintableText_append, marker, digits, Bool.and_self]

/-- The number is read back from its digits, however many there are. -/
theorem codePointName_injective {c d : Char} (same : codePointName c = codePointName d) : c = d := by
  obtain ⟨width, named, fits⟩ := exists_codePointName_eq c
  obtain ⟨other, otherNamed, otherFits⟩ := exists_codePointName_eq d
  rw [named, otherNamed, String.append_right_inj, String.ofList_inj] at same
  have values := congrArg hexValue same
  rw [hexValue_hexDigits .upper fits, hexValue_hexDigits .upper otherFits] at values
  exact Char.toNat_inj.mp values

end Text

open Text (isPrintableText)

/-- A text of whole lines, with nothing in them that is not printable. -/
structure Printed (count : Nat) (text : String) : Prop where
  printable : ∀ c ∈ text.toList, Text.isPrintable c = true ∨ c = '\n'
  feeds : text.toList.count '\n' = count
  ended : text.toList.getLast? = some '\n'

theorem oneLine_of_isPrintableText {line : String} (printable : isPrintableText line = true) :
    OneLine line := by
  intro feed
  have shown := List.all_eq_true.mp printable '\n' feed
  exact absurd shown (by decide)

theorem count_feed_joinLines {lines : List String} (whole : ∀ line ∈ lines, OneLine line) :
    (joinLines lines).toList.count '\n' = lines.length := by
  induction lines with
  | nil => rfl
  | cons line lines ih =>
      obtain ⟨here, later⟩ := List.forall_mem_cons.mp whole
      have unbroken : line.toList.count '\n' = 0 := List.count_eq_zero.mpr here
      simp [toList_joinLines_cons, unbroken, ih later]

theorem getLast?_joinLines_cons (line : String) (lines : List String) :
    (joinLines (line :: lines)).toList.getLast? = some '\n' := by
  induction lines generalizing line with
  | nil => simp [joinLines]
  | cons next lines ih =>
      have later := ih next
      simp [toList_joinLines_cons line, List.getLast?_cons, later]

theorem printable_joinLines {lines : List String}
    (printable : ∀ line ∈ lines, isPrintableText line = true) :
    ∀ c ∈ (joinLines lines).toList, Text.isPrintable c = true ∨ c = '\n' := by
  induction lines with
  | nil => simp [joinLines]
  | cons line lines ih =>
      obtain ⟨here, later⟩ := List.forall_mem_cons.mp printable
      intro c member
      rw [toList_joinLines_cons, List.mem_append, List.mem_cons] at member
      rcases member with inLine | feed | behind
      · exact .inl (List.all_eq_true.mp here c inLine)
      · exact .inr feed
      · exact ih later c behind

theorem printed_joinLines {line : String} {lines : List String}
    (printable : ∀ other ∈ line :: lines, isPrintableText other = true) :
    Printed (lines.length + 1) (joinLines (line :: lines)) where
  printable := printable_joinLines printable
  feeds := count_feed_joinLines fun other member =>
    oneLine_of_isPrintableText (printable other member)
  ended := getLast?_joinLines_cons line lines

/-! ## Diagnostics of printable texts -/

namespace Diagnostic

theorem render_eq_joinLines (diagnostic : Diagnostic) :
    diagnostic.render = joinLines diagnostic.lines := rfl

/-- Fields that hold nothing but printable characters. The location need only have such a name. -/
structure Presentable (diagnostic : Diagnostic) : Prop where
  severity : isPrintableText diagnostic.capitals = true
  code : isPrintableText (diagnostic.code.getD "") = true
  message : isPrintableText diagnostic.message = true
  filename : isPrintableText diagnostic.location.filename = true
  help : isPrintableText (diagnostic.help.getD "") = true
  suggestions : ∀ suggestion ∈ diagnostic.suggestions.getD [], isPrintableText suggestion = true

theorem heading_congr {first second : Diagnostic} (severity : first.severity = second.severity)
    (code : first.code = second.code) : first.heading = second.heading := by
  simp only [heading, severity, code]

theorem all_isPrintable_behindCapitals {code message : String}
    (codePrintable : isPrintableText code = true) (messagePrintable : isPrintableText message = true) :
    (behindCapitals code message).all Text.isPrintable = true := by
  have marks : ['[', ']', ':', ' '].all Text.isPrintable = true := by decide
  simp only [List.all_cons, List.all_nil, Bool.and_true, Bool.and_eq_true] at marks
  obtain ⟨opening, closing, colon, space⟩ := marks
  have code := codePrintable
  have message := messagePrintable
  rw [isPrintableText] at code message
  unfold behindCapitals
  split
  · simp only [List.all_cons, colon, space, message, Bool.and_self]
  · simp only [List.all_cons, List.all_append, opening, closing, colon, space, code, message,
      Bool.and_self]

theorem isPrintableText_heading {diagnostic : Diagnostic}
    (severity : isPrintableText diagnostic.capitals = true)
    (code : isPrintableText (diagnostic.code.getD "") = true)
    (message : isPrintableText diagnostic.message = true) :
    isPrintableText (diagnostic.heading ++ ": " ++ diagnostic.message) = true := by
  rw [isPrintableText, toList_heading, List.all_append, Bool.and_eq_true]
  exact ⟨severity, all_isPrintable_behindCapitals code message⟩

theorem message_eq_of_render_eq {first second : Diagnostic} (same : first.render = second.render)
    (severity : first.severity = second.severity) (code : first.code = second.code)
    (printable : isPrintableText (first.heading ++ ": " ++ first.message) = true)
    (printable' : isPrintableText (second.heading ++ ": " ++ second.message) = true) :
    first.message = second.message := by
  have texts := congrArg String.toList same
  rw [render_eq_joinLines, render_eq_joinLines, lines, lines,
    toList_joinLines_cons (first.heading ++ ": " ++ first.message),
    toList_joinLines_cons (second.heading ++ ": " ++ second.message)] at texts
  obtain ⟨firstLines, _⟩ := append_cons_inj_of_not_mem_front
    (oneLine_of_isPrintableText printable) (oneLine_of_isPrintableText printable') texts
  rw [heading_congr severity code, String.toList_inj] at firstLines
  exact (String.append_right_inj _).mp firstLines

namespace Presentable

variable {diagnostic : Diagnostic}

theorem isPrintableText_location (presentable : diagnostic.Presentable) :
    isPrintableText ("  --> " ++ diagnostic.location.text) = true := by
  have arrow : isPrintableText "  --> " = true := by decide
  have colon : isPrintableText ":" = true := by decide
  simp only [Location.text, Text.isPrintableText_append, arrow, colon, presentable.filename,
    Text.isPrintableText_repr, Bool.and_self]

theorem isPrintableText_of_mem_lines (presentable : diagnostic.Presentable) :
    ∀ line ∈ diagnostic.lines, isPrintableText line = true := by
  have heading := isPrintableText_heading presentable.severity presentable.code presentable.message
  have helps : ∀ line ∈ shownHelp (diagnostic.help.getD ""), isPrintableText line = true := by
    have opening : isPrintableText "  help: " = true := by decide
    intro line member
    unfold shownHelp at member
    split at member
    · cases member
    · obtain rfl := List.mem_singleton.mp member
      rw [Text.isPrintableText_append, opening, presentable.help, Bool.and_self]
  have suggestions : ∀ line ∈ shownSuggestions (diagnostic.suggestions.getD []),
      isPrintableText line = true := by
    have bullet : isPrintableText "    - " = true := by decide
    intro line member
    unfold shownSuggestions at member
    split at member
    · cases member
    · rcases List.mem_cons.mp member with rfl | item
      · decide
      · obtain ⟨suggestion, listed, rfl⟩ := List.mem_map.mp item
        rw [Text.isPrintableText_append, bullet, presentable.suggestions suggestion listed,
          Bool.and_self]
  unfold lines
  rw [helpLines_eq, suggestionLines_eq]
  simp only [List.forall_mem_cons, List.forall_mem_append]
  exact ⟨heading, presentable.isPrintableText_location, helps, suggestions⟩

theorem printed (presentable : diagnostic.Presentable) :
    Printed diagnostic.lines.length diagnostic.render :=
  printed_joinLines presentable.isPrintableText_of_mem_lines

end Presentable

end Diagnostic

/-! ## The findings of a scan -/

namespace Finding

/-- What a scan can notice in a source with a printable name. -/
inductive Noticed : Finding → Prop where
  | character (c : Char) {location : Location} : isPrintableText location.filename = true →
      Noticed (illegalCharacter c location)
  | openString {location : Location} : isPrintableText location.filename = true →
      Noticed (unterminatedString location)

-- With these the long literals stay folded, as they do not in the equations of the definitions.
theorem printableHelp_eq (text : String) :
    printableHelp text = "The character '" ++ text ++ "' is not valid in Monkey source code." := rfl

theorem unprintableHelp_eq (c : Char) :
    unprintableHelp c =
      "Non-printable character (Unicode: " ++ Text.codePointName c ++ ") is not allowed." := rfl

/-- The help shows a character as it is only where that can be seen. -/
theorem help_illegalCharacter (c : Char) (location : Location) :
    (Text.isPrintable c = true ∧
      (illegalCharacter c location).help = some (printableHelp (String.singleton c))) ∨
    (Text.isPrintable c = false ∧
      (illegalCharacter c location).help = some (unprintableHelp c)) := by
  have help : (illegalCharacter c location).help =
      some (if Text.isPrintable c then printableHelp (String.singleton c) else unprintableHelp c) :=
    rfl
  cases printable : Text.isPrintable c with
  | true => exact .inl ⟨rfl, by rw [help, if_pos printable]⟩
  | false => exact .inr ⟨rfl, by rw [help, printable, if_neg Bool.false_ne_true]⟩

theorem isPrintableText_help (c : Char) (location : Location) :
    isPrintableText ((illegalCharacter c location).help.getD "") = true := by
  rcases help_illegalCharacter c location with ⟨printable, help⟩ | ⟨_, help⟩
  · have before : isPrintableText "The character '" = true := by decide
    have behind : isPrintableText "' is not valid in Monkey source code." = true := by
      decide +kernel
    have itself : isPrintableText (String.singleton c) = true := by
      simp [isPrintableText, printable]
    rw [help, Option.getD_some, printableHelp_eq, Text.isPrintableText_append,
      Text.isPrintableText_append, before, itself, behind, Bool.and_self, Bool.and_self]
  · have before : isPrintableText "Non-printable character (Unicode: " = true := by
      decide +kernel
    have behind : isPrintableText ") is not allowed." = true := by decide
    simp only [help, Option.getD_some, unprintableHelp_eq, Text.isPrintableText_append, before,
      behind, Text.isPrintableText_codePointName, Bool.and_self]

theorem isPrintableText_message (c : Char) (location : Location) :
    isPrintableText (illegalCharacter c location).message = true := by
  have before : isPrintableText "Illegal character: " = true := by decide
  have message : (illegalCharacter c location).message =
      "Illegal character: " ++ Text.quote (String.singleton c) := rfl
  rw [message, Text.isPrintableText_append, before, Text.isPrintableText_quote, Bool.and_self]

theorem length_lines_illegalCharacter (c : Char) (location : Location) (severity : String) :
    ({ illegalCharacter c location with severity := severity } : Diagnostic).lines.length = 3 := by
  have some_help : (illegalCharacter c location).help.getD "" ≠ "" := by
    rcases help_illegalCharacter c location with ⟨_, help⟩ | ⟨_, help⟩
    · simp [help, printableHelp_eq]
    · simp [help, unprintableHelp_eq]
  have shown := Diagnostic.helpLines_eq { illegalCharacter c location with severity := severity }
  rw [Diagnostic.shownHelp, if_neg some_help] at shown
  rw [Diagnostic.lines, shown]
  rfl

theorem length_lines_unterminatedString (location : Location) (severity : String) :
    ({ unterminatedString location with severity := severity } : Diagnostic).lines.length = 5 :=
  rfl

/-- How a finding is shown to a reader, as a warning or as an error: three lines for a character,
and five for a string that is cut off. -/
def PrintedByCode (finding : Finding) : Prop :=
  ∃ count, (finding.code, count) ∈ [(some "L001", 3), (some "L002", 5)] ∧
    Printed count finding.asWarning.render ∧ Printed count (LexicalError.mk finding).text

theorem Noticed.presentable {finding : Finding} (noticed : finding.Noticed) {severity : String}
    (capitals : isPrintableText (String.ofList (severity.toList.map Char.toUpper)) = true) :
    ({ finding with severity := severity } : Diagnostic).Presentable := by
  cases noticed with
  | character c named =>
      have code : isPrintableText "L001" = true := by decide
      exact ⟨capitals, code, isPrintableText_message c _, named, isPrintableText_help c _,
        List.forall_mem_nil _⟩
  | openString named =>
      have code : isPrintableText "L002" = true := by decide
      have message : isPrintableText "Unterminated string literal" = true := by decide
      have help : isPrintableText "The string runs to the end of the input." = true := by
        decide +kernel
      have suggestion : isPrintableText "Add a closing \" quote" = true := by decide
      exact ⟨capitals, code, message, named, help, List.forall_mem_singleton.mpr suggestion⟩

theorem Noticed.printedByCode {finding : Finding} (noticed : finding.Noticed) :
    finding.PrintedByCode := by
  have capitals : isPrintableText "WARNING" = true ∧ isPrintableText "ERROR" = true := by decide
  have warning := (@Noticed.presentable _ noticed "warning" capitals.1).printed
  have error := (@Noticed.presentable _ noticed "error" capitals.2).printed
  cases noticed with
  | character c named =>
      rw [length_lines_illegalCharacter] at warning error
      exact ⟨3, .head _, warning, error⟩
  | openString named =>
      rw [length_lines_unterminatedString] at warning error
      exact ⟨5, .tail _ (.head _), warning, error⟩

/-! ## Which character it is -/

theorem message_illegalCharacter_injective {c d : Char} {location other : Location}
    (same : (illegalCharacter c location).message = (illegalCharacter d other).message) : c = d := by
  have quotes := Text.quote_injective ((String.append_right_inj _).mp same)
  simpa using congrArg String.toList quotes

/-- The two forms of the help begin with different words. -/
theorem printableHelp_ne_unprintableHelp (text : String) (c : Char) :
    printableHelp text ≠ unprintableHelp c := by
  intro same
  have heads := congrArg (·.toList.head?) same
  simp [printableHelp_eq, unprintableHelp_eq] at heads

theorem help_illegalCharacter_injective {c d : Char} {location other : Location}
    (same : (illegalCharacter c location).help = (illegalCharacter d other).help) : c = d := by
  rcases help_illegalCharacter c location with ⟨_, help⟩ | ⟨_, help⟩
  · rcases help_illegalCharacter d other with ⟨_, otherHelp⟩ | ⟨_, otherHelp⟩
    · rw [help, otherHelp, Option.some_inj, printableHelp_eq, printableHelp_eq, String.append_left_inj,
        String.append_right_inj] at same
      simpa using congrArg String.toList same
    · rw [help, otherHelp, Option.some_inj] at same
      exact absurd same (printableHelp_ne_unprintableHelp _ _)
  · rcases help_illegalCharacter d other with ⟨_, otherHelp⟩ | ⟨_, otherHelp⟩
    · rw [help, otherHelp, Option.some_inj] at same
      exact absurd same.symm (printableHelp_ne_unprintableHelp _ _)
    · rw [help, otherHelp, Option.some_inj, unprintableHelp_eq, unprintableHelp_eq,
        String.append_left_inj, String.append_right_inj] at same
      exact Text.codePointName_injective same

/-- The first line tells it already, whatever stands in the location. -/
theorem render_illegalCharacter_injective {c d : Char} {location other : Location}
    {severity : String}
    (capitals : isPrintableText (String.ofList (severity.toList.map Char.toUpper)) = true)
    (same : ({ illegalCharacter c location with severity := severity } : Diagnostic).render =
      ({ illegalCharacter d other with severity := severity } : Diagnostic).render) : c = d := by
  have code : isPrintableText "L001" = true := by decide
  have messages := Diagnostic.message_eq_of_render_eq same rfl rfl
    (Diagnostic.isPrintableText_heading capitals code (isPrintableText_message c location))
    (Diagnostic.isPrintableText_heading capitals code (isPrintableText_message d other))
  exact @message_illegalCharacter_injective c d location other messages

/-- A finding about one character is not the finding about another, in none of the ways in which a
reader may be told. -/
structure TellsApart (first second : Finding) : Prop where
  message : first.message ≠ second.message
  help : first.help ≠ second.help
  warning : first.asWarning.render ≠ second.asWarning.render
  error : (LexicalError.mk first).text ≠ (LexicalError.mk second).text

theorem tellsApart_illegalCharacter {c d : Char} (different : c ≠ d) (location : Location) :
    TellsApart (illegalCharacter c location) (illegalCharacter d location) where
  message := fun same => different (message_illegalCharacter_injective same)
  help := fun same => different (help_illegalCharacter_injective same)
  warning := fun same => different (render_illegalCharacter_injective (by decide) same)
  error := fun same => different (render_illegalCharacter_injective (by decide) same)

end Finding

/-! ## Whatever a session records -/

theorem Lexeme.noticed_of_finding? {lexeme : Lexeme} {location : Location} {finding : Finding}
    (named : isPrintableText location.filename = true)
    (found : lexeme.finding? location = some finding) : finding.Noticed := by
  cases lexeme with
  | quoted body closed =>
      cases closed with
      | true => cases found
      | false =>
          obtain rfl := Option.some.inj found
          exact .openString named
  | stray c =>
      obtain rfl := Option.some.inj found
      exact .character c named
  | symbol _ | word _ | number _ => cases found

namespace Scanner

/-- A scanner under a printable name, which has recorded nothing but what a scan can notice. -/
structure Presentable (scanner : Scanner) : Prop where
  filename : isPrintableText scanner.filename = true
  warnings : ∀ finding ∈ scanner.warnings, finding.Noticed

theorem Presentable.next {scanner : Scanner} (presentable : scanner.Presentable) :
    scanner.next.2.Presentable := by
  unfold Scanner.next readLexeme
  split
  · exact ⟨presentable.filename, presentable.warnings⟩
  · next lexeme _ =>
      refine ⟨presentable.filename, fun finding member => ?_⟩
      rcases List.mem_append.mp member with before | noticed
      · exact presentable.warnings finding before
      · exact Lexeme.noticed_of_finding? presentable.filename (Option.mem_toList.mp noticed)

theorem Presentable.nexts {scanner : Scanner} (presentable : scanner.Presentable) (count : Nat) :
    (Scanner.nexts count scanner).2.Presentable := by
  induction count generalizing scanner with
  | zero => exact presentable
  | succ count ih => exact ih presentable.next

theorem Presentable.readQuoted {scanner : Scanner} (presentable : scanner.Presentable) :
    scanner.readQuoted.2.Presentable := by
  simp only [Scanner.readQuoted]
  split
  · refine ⟨presentable.filename, fun finding member => ?_⟩
    rcases List.mem_append.mp member with before | noticed
    · exact presentable.warnings finding before
    · obtain rfl := List.mem_singleton.mp noticed
      exact .openString presentable.filename
  · exact ⟨presentable.filename, presentable.warnings⟩

end Scanner

namespace Session

theorem presentable_step_of_pulls {session : Session}
    (presentable : session.scanner.Presentable) {step : Step} (pulls : step.pulls = true) :
    (session.step step).2.scanner.Presentable := by
  have read := presentable.nexts (session.step step).1.delivered.length
  rwa [session.step_eq_nexts pulls] at read

theorem presentable_step {session : Session} (presentable : session.scanner.Presentable) {step : Step}
    (named : ∀ name, step = .rename name → isPrintableText name = true) :
    (session.step step).2.scanner.Presentable := by
  cases step with
  | next | tokenize | take _ | openReader _ | pull _ => exact presentable_step_of_pulls presentable rfl
  | readQuoted => exact presentable.readQuoted
  | clearWarnings => exact ⟨presentable.filename, List.forall_mem_nil _⟩
  | rename name => exact ⟨named name rfl, presentable.warnings⟩
  | warnings | copyWarnings | hasWarnings | clearCopy | location | peek | advance | skipBlanks
  | readWord | readNumber => exact ⟨presentable.filename, presentable.warnings⟩

theorem presentable_after {session : Session} (presentable : session.scanner.Presentable)
    {steps : List Step} (named : ∀ name, .rename name ∈ steps → isPrintableText name = true) :
    (session.after steps).scanner.Presentable := by
  induction steps generalizing session with
  | nil => exact presentable
  | cons step steps ih =>
      have stepped := presentable_step presentable fun name (same : step = .rename name) =>
        named name (same ▸ List.mem_cons_self)
      exact ih stepped fun name member => named name (List.mem_cons_of_mem _ member)

/-- Under printable names nothing of a finding is shown that is not printable, in as many lines as
its code says, and from what is shown the character that it is about can be told. -/
theorem warnings_printed (source : String) {filename : String}
    (printable : isPrintableText filename = true) {steps : List Step}
    (named : ∀ name, .rename name ∈ steps → isPrintableText name = true) :
    (∀ finding ∈ ((ofSource source filename).after steps).scanner.warnings,
      finding.PrintedByCode) ∧
    (∀ error, tokenizeText source filename true = .error error → error.finding.PrintedByCode) ∧
    ∀ (c d : Char) (location : Location), c ≠ d →
      (Finding.illegalCharacter c location).TellsApart (Finding.illegalCharacter d location) := by
  have start : (ofSource source filename).scanner.Presentable :=
    ⟨printable, List.forall_mem_nil _⟩
  refine ⟨fun finding member => ?_, fun error failed => ?_, fun c d location different => ?_⟩
  · exact ((presentable_after start named).warnings finding member).printedByCode
  · have scanned := @presentable_step_of_pulls _ start .tokenize rfl
    exact (scanned.warnings _ (mem_findings_of_tokenizeText failed)).printedByCode
  · exact Finding.tellsApart_illegalCharacter different location

/-- A bell, a character beyond the letters of any language, and a string that is cut off. -/
theorem warnings_printed_bell :
    isPrintableText "main" = true ∧ isPrintableText "été" = true ∧
      ∀ finding ∈ ((ofSource "\x07 \ue000 \"\x1b" "main").after
        [.next, .rename "été", .tokenize]).scanner.warnings, finding.PrintedByCode := by
  have first : isPrintableText "main" = true := by decide
  have second : isPrintableText "été" = true := by decide
  refine ⟨first, second, (warnings_printed _ first fun name member => ?_).1⟩
  obtain rfl : name = "été" := by simpa using member
  exact second

end Session

end MonkeySource
