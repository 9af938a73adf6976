import MonkeySource.Proofs.QuoteParity
import MonkeySource.Proofs.SharedStream
import MonkeySource.Proofs.StrictReading

set_option autoImplicit false

/-!
# Warnings in step with tokens

A scanner records a warning when it hands over the token that the warning is about, and at no other
time. So the warnings can be told from the tokens handed over since they were last cleared.
-/

namespace MonkeySource

theorem Cursor.Onward.exists_ofIndex {source : List Char} {index : Nat} {later : Cursor}
    (onward : (ofIndex source index).Onward later) :
    ∃ further, later = ofIndex source further := by
  obtain ⟨count, rfl⟩ := onward
  exact ⟨index + count, move_ofIndex source index count⟩

namespace Scanner

/-- Scanners that only differ in the warnings recorded so far. No token depends on these. -/
structure Agree (first second : Scanner) : Prop where
  filename : first.filename = second.filename
  cursor : first.cursor = second.cursor

theorem Agree.next {first second : Scanner} (agree : first.Agree second) :
    first.next.1 = second.next.1 ∧ first.next.2.Agree second.next.2 := by
  obtain ⟨filename, cursor, warnings⟩ := first
  obtain ⟨_, _, others⟩ := second
  obtain ⟨rfl, rfl⟩ := agree
  simp only [Scanner.next, readLexeme, skipBlanks, location]
  cases Lexeme.first? (cursor.skipWhile isBlank).rest with
  | none => exact ⟨rfl, rfl, rfl⟩
  | some lexeme => exact ⟨rfl, rfl, rfl⟩

theorem Agree.nexts {first second : Scanner} (agree : first.Agree second) (count : Nat) :
    (Scanner.nexts count first).1 = (Scanner.nexts count second).1 := by
  induction count generalizing first second with
  | zero => rfl
  | succ count ih =>
      obtain ⟨token, after⟩ := agree.next
      rw [Scanner.nexts, Scanner.nexts, token, ih after]

variable {source : List Char} {index : Nat} {scanner : Scanner}

/-- One token at a time: what is recorded is about the token that is handed over. -/
theorem warnings_next (here : scanner.cursor = .ofIndex source index) :
    scanner.next.2.warnings =
      scanner.warnings ++ (scanner.next.1.finding? source.length).toList := by
  rcases blank_or_leads scanner.cursor.rest with blank | ⟨gap, lexeme, rest, leads⟩
  · rw [next_of_blank blank]
    exact (List.append_nil _).symm
  · have unread : source.drop index = scanner.cursor.rest := by rw [here, Cursor.rest_ofIndex]
    have told := (leads.stands unread).finding?_token scanner.filename
    rw [next_of_leads leads, here, Cursor.move_ofIndex, told]

theorem warnings_nexts (here : scanner.cursor = .ofIndex source index) (count : Nat) :
    (nexts count scanner).2.warnings =
      scanner.warnings ++ (nexts count scanner).1.filterMap (Token.finding? source.length) := by
  induction count generalizing scanner index with
  | zero => exact (List.append_nil _).symm
  | succ count ih =>
      obtain ⟨further, moved⟩ := (here ▸ scanner.next_inward.onward).exists_ofIndex
      rw [nexts, ih moved, warnings_next here, List.append_assoc, List.filterMap_cons]
      cases scanner.next.1.finding? source.length with
      | none => rfl
      | some finding => rfl

end Scanner

/-- The steps that ask for tokens, and the one that clears the recorded warnings. -/
def Step.PullsOrClears (step : Step) : Prop := step.pulls = true ∨ step = .clearWarnings

namespace Session

/-- The tokens handed over since the warnings were last cleared, if these were handed over before. -/
def uncleared (session : Session) (before : List Token) : List Step → List Token
  | [] => before
  | step :: steps =>
      (session.step step).2.uncleared
        (if step = .clearWarnings then [] else before ++ (session.step step).1.delivered) steps

/-- All that the steps record, also what is cleared later. -/
def recorded (session : Session) : List Step → List Finding
  | [] => []
  | step :: steps =>
      (session.step step).2.scanner.warnings.drop session.scanner.warnings.length ++
        (session.step step).2.recorded steps

variable {source : List Char} {index : Nat} {session : Session}

theorem step_exists_ofIndex (here : session.scanner.cursor = .ofIndex source index) (step : Step) :
    ∃ further, (session.step step).2.scanner.cursor = .ofIndex source further :=
  (here ▸ session.step_onward step).exists_ofIndex

theorem warnings_step_of_pulls (here : session.scanner.cursor = .ofIndex source index) {step : Step}
    (pulls : step.pulls = true) :
    (session.step step).2.scanner.warnings = session.scanner.warnings ++
      (session.step step).1.delivered.filterMap (Token.finding? source.length) := by
  have read := Scanner.warnings_nexts here (session.step step).1.delivered.length
  rwa [session.step_eq_nexts pulls] at read

theorem warnings_after (here : session.scanner.cursor = .ofIndex source index) {steps : List Step}
    (allowed : ∀ step ∈ steps, step.PullsOrClears) {before : List Token}
    (inStep : session.scanner.warnings = before.filterMap (Token.finding? source.length)) :
    (session.after steps).scanner.warnings =
      (session.uncleared before steps).filterMap (Token.finding? source.length) := by
  induction steps generalizing session before index with
  | nil => exact inStep
  | cons step steps ih =>
      obtain ⟨further, moved⟩ := step_exists_ofIndex here step
      refine ih moved (fun other member => allowed other (List.mem_cons_of_mem _ member)) ?_
      rcases allowed step List.mem_cons_self with pulls | rfl
      · have asks : step ≠ .clearWarnings := by
          rintro rfl
          cases pulls
        rw [if_neg asks, warnings_step_of_pulls here pulls, inStep, List.filterMap_append]
      · rw [if_pos rfl]
        rfl

theorem recorded_eq_filterMap (here : session.scanner.cursor = .ofIndex source index)
    {steps : List Step} (allowed : ∀ step ∈ steps, step.PullsOrClears) :
    session.recorded steps =
      (session.delivered steps).filterMap (Token.finding? source.length) := by
  induction steps generalizing session index with
  | nil => rfl
  | cons step steps ih =>
      obtain ⟨further, moved⟩ := step_exists_ofIndex here step
      have later := ih moved fun other member => allowed other (List.mem_cons_of_mem _ member)
      rw [recorded, later, delivered_cons, List.filterMap_append]
      congr 1
      rcases allowed step List.mem_cons_self with pulls | rfl
      · rw [warnings_step_of_pulls here pulls, List.drop_left]
      · exact List.drop_nil

theorem delivered_eq_nexts (session : Session) {steps : List Step}
    (allowed : ∀ step ∈ steps, step.PullsOrClears) :
    (Scanner.nexts (session.delivered steps).length session.scanner).1 =
      session.delivered steps := by
  induction steps generalizing session with
  | nil => rfl
  | cons step steps ih =>
      have later := ih (session.step step).2
        fun other member => allowed other (List.mem_cons_of_mem _ member)
      rw [delivered_cons]
      rcases allowed step List.mem_cons_self with pulls | rfl
      · rw [List.length_append, Scanner.nexts_add, session.step_eq_nexts pulls, later]
      · have agree : session.scanner.Agree (session.step .clearWarnings).2.scanner := ⟨rfl, rfl⟩
        exact (agree.nexts _).trans later

end Session

/-- A string that is cut off ends the source, so nothing is noticed after it. -/
theorem findings_pairwise (source filename : String) :
    (findings source filename).Pairwise fun earlier _ => earlier.code ≠ some "L002" := by
  have illegal : ∀ finding ∈ illegalCharacters source filename, finding.code ≠ some "L002" := by
    intro finding member
    rw [code_of_mem_illegalCharacters member]
    decide
  rw [findings_eq_append, List.pairwise_append]
  refine ⟨?_, ?_, fun finding member _ _ => illegal finding member⟩
  · exact List.pairwise_of_forall_mem_list fun finding member _ _ => illegal finding member
  · unfold unterminated
    cases openQuote? source.toList 0 with
    | none => exact .nil
    | some quote => exact List.pairwise_singleton _ _

namespace Session

theorem delivered_inOrder_of_clears (source filename : String) {steps : List Step}
    (allowed : ∀ step ∈ steps, step.PullsOrClears) :
    ∃ last copies, last ∈ tokenize source filename ∧ last.kind = .endOfInput ∧
      (ofSource source filename).delivered steps <+:
        tokenize source filename ++ List.replicate copies last := by
  have stream : (ofSource source filename).scanner.tokenize.1 = tokenize source filename := rfl
  obtain ⟨tokens, last, split, final, _⟩ :=
    (ofSource source filename).scanner.exists_tokenize_eq_append
  have ordered := Scanner.nexts_inOrder ((ofSource source filename).delivered steps).length
    (ofSource source filename).scanner (by rw [split]; exact List.getLast?_concat)
  rw [delivered_eq_nexts _ allowed, stream] at ordered
  refine ⟨last, _, ?_, final, ordered⟩
  rw [← stream, split]
  exact List.mem_append_right tokens List.mem_cons_self

/-- How the warnings of a session keep in step with the tokens of its source. -/
structure InStep (start : Session) (size : Nat) (steps : List Step) : Prop where
  /-- A token that offends never goes without its warning, and no other token has one. -/
  offends : ∀ token ∈ start.delivered steps,
    token.Offends size ↔ (token.finding? size).isSome = true
  warnings : ((start.after steps).step .warnings).1 =
    .findings ((start.uncleared [] steps).filterMap (Token.finding? size))
  hasWarnings : ((start.after steps).step .hasWarnings).1 = .flag true ↔
    (start.uncleared [] steps).filterMap (Token.finding? size) ≠ []
  recorded : start.recorded steps = (start.delivered steps).filterMap (Token.finding? size)
  /-- Nothing is recorded after a string that is cut off, in particular no second one. -/
  cutOff : (start.recorded steps).Pairwise fun earlier _ => earlier.code ≠ some "L002"

/-- Whoever asks for tokens, and whenever the warnings are cleared, those that are kept are about
the tokens handed over since then, in the same order. -/
theorem warnings_inStep (source filename : String) {steps : List Step}
    (allowed : ∀ step ∈ steps, step.PullsOrClears) :
    (ofSource source filename).InStep source.length steps := by
  have here : (ofSource source filename).scanner.cursor = .ofIndex source.toList 0 := rfl
  have fresh : (ofSource source filename).scanner.warnings =
      ([] : List Token).filterMap (Token.finding? source.toList.length) := rfl
  have kept := warnings_after here allowed fresh
  have recorded := recorded_eq_filterMap here allowed
  rw [String.length_toList] at kept recorded
  obtain ⟨last, copies, isToken, final, ordered⟩ :=
    delivered_inOrder_of_clears source filename allowed
  constructor
  case offends =>
    intro token member
    have isDelivered : token ∈ tokenize source filename := by
      rcases List.mem_append.mp (ordered.subset member) with inStream | copy
      · exact inStream
      · rw [List.eq_of_mem_replicate copy]
        exact isToken
    exact offends_iff_isSome_finding? isDelivered
  case warnings => exact congrArg Reply.findings kept
  case hasWarnings =>
    rw [← kept]
    simp [step, Scanner.hasWarnings]
  case recorded => exact recorded
  case cutOff =>
    have silent : last.finding? source.length = none := by
      simp only [Token.finding?, final]
    have noCopy : (List.replicate copies last).filterMap (Token.finding? source.length) = [] := by
      rw [List.filterMap_eq_nil_iff]
      intro token copy
      rw [List.eq_of_mem_replicate copy, silent]
    have part := ordered.sublist.filterMap (Token.finding? source.length)
    rw [List.filterMap_append, noCopy, List.append_nil, ← findings_eq_filterMap] at part
    rw [recorded]
    exact (findings_pairwise source filename).sublist part

/-- An illegal character before the warnings are cleared, and two and a string that is cut off after
that, read in four ways. -/
def clearedOnce : List Step :=
  [.openReader "a", .next, .pull "a", .clearWarnings, .take 2, .pull "a", .tokenize, .next]

theorem warnings_inStep_cleared_once :
    (∀ step ∈ clearedOnce, step.PullsOrClears) ∧
      (ofSource "@ x # ~ \"open" "main").InStep "@ x # ~ \"open".length clearedOnce := by
  have allowed : ∀ step ∈ clearedOnce, step.PullsOrClears := by
    simp [clearedOnce, Step.PullsOrClears, Step.pulls]
  exact ⟨allowed, warnings_inStep "@ x # ~ \"open" "main" allowed⟩

end Session

end MonkeySource
