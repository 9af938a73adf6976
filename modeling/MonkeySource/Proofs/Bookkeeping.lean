import MonkeySource.Proofs.SharedStream

set_option autoImplicit false

/-!
# Bookkeeping

To look at a scanner, to rename its source or to clear its warnings leaves the scan alone. A name
shows in the locations that are given out while it is in force, and nowhere else.
-/

namespace MonkeySource

/-- The steps that look at a scanner or change what it keeps records of, and read nothing. -/
def Step.isBookkeeping : Step → Bool
  | .warnings | .copyWarnings | .hasWarnings | .clearWarnings | .clearCopy | .rename _ | .location
  | .peek => true
  | _ => false

def withoutBookkeeping (steps : List Step) : List Step :=
  steps.filter fun step => !step.isBookkeeping

def Token.nameless (token : Token) : Token :=
  { token with location := token.location.map fun location => { location with filename := "" } }

/-- A reply to a step that reads, but for the filename in its tokens. -/
def Reply.nameless : Reply → Reply
  | .token single => .token single.nameless
  | .tokens several => .tokens (several.map Token.nameless)
  | other => other

/-- The replies to all steps but bookkeeping, each with the cursor after it. -/
def Session.scanned (session : Session) (steps : List Step) : List (Reply × Cursor) :=
  ((steps.zip (session.run steps)).filter fun entry => !entry.1.isBookkeeping).map
    fun entry => (entry.2.1.nameless, entry.2.2.scanner.cursor)

/-- The name that is in force after a step. -/
def Step.renames (name : String) : Step → String
  | .rename filename => filename
  | _ => name

def nameInForce (filename : String) (steps : List Step) : String :=
  steps.foldl Step.renames filename

namespace Scanner

variable {first second : Scanner}

theorem next_nameless (same : first.cursor = second.cursor) :
    first.next.1.nameless = second.next.1.nameless ∧
      first.next.2.cursor = second.next.2.cursor := by
  simp only [next, readLexeme, skipBlanks, location, same]
  cases Lexeme.first? (second.cursor.skipWhile isBlank).rest with
  | none => exact ⟨rfl, rfl⟩
  | some lexeme => exact ⟨rfl, rfl⟩

theorem kind_next (same : first.cursor = second.cursor) :
    first.next.1.kind = second.next.1.kind :=
  calc first.next.1.kind
    _ = first.next.1.nameless.kind := rfl
    _ = second.next.1.nameless.kind := by rw [(next_nameless same).1]

theorem tokenize_nameless (same : first.cursor = second.cursor) :
    first.tokenize.1.map Token.nameless = second.tokenize.1.map Token.nameless ∧
      first.tokenize.2.cursor = second.tokenize.2.cursor := by
  induction first using next_induction generalizing second with
  | ended first ended =>
      obtain ⟨token, cursor⟩ := next_nameless same
      rw [tokenize_of_ended ended, tokenize_of_ended (kind_next same ▸ ended)]
      exact ⟨congrArg (fun single => [single]) token, cursor⟩
  | more first more ih =>
      obtain ⟨token, cursor⟩ := next_nameless same
      obtain ⟨tokens, last⟩ := ih cursor
      have alsoMore : second.next.1.kind ≠ .endOfInput := kind_next same ▸ more
      rw [tokenize_of_more more, tokenize_of_more alsoMore]
      exact ⟨congrArg₂ List.cons token tokens, last⟩

theorem take_nameless (same : first.cursor = second.cursor) (count : Nat) :
    (first.take count).1.map Token.nameless = (second.take count).1.map Token.nameless ∧
      (first.take count).2.cursor = (second.take count).2.cursor := by
  induction count generalizing first second with
  | zero => exact ⟨rfl, same⟩
  | succ count ih =>
      obtain ⟨token, cursor⟩ := next_nameless same
      simp only [take_succ, kind_next same]
      split
      · exact ⟨congrArg (fun single => [single]) token, cursor⟩
      · obtain ⟨tokens, last⟩ := ih cursor
        exact ⟨congrArg₂ List.cons token tokens, last⟩

theorem readWhile_same (same : first.cursor = second.cursor) (test : Char → Bool) :
    (first.readWhile test).1 = (second.readWhile test).1 ∧
      (first.readWhile test).2.cursor = (second.readWhile test).2.cursor := by
  simp only [readWhile, same, and_self]

theorem readQuoted_same (same : first.cursor = second.cursor) :
    first.readQuoted.1 = second.readQuoted.1 ∧
      first.readQuoted.2.cursor = second.readQuoted.2.cursor := by
  simp only [readQuoted, same]
  cases (second.cursor.advance.skipWhile (· ≠ '"')).rest with
  | nil => exact ⟨rfl, rfl⟩
  | cons _ _ => exact ⟨rfl, rfl⟩

/-- One scanner has become another that has the same name and has only noted down more under it. -/
structure Notes (before after : Scanner) : Prop where
  filename : after.filename = before.filename
  warnings : ∃ noted, after.warnings = before.warnings ++ noted ∧
    ∀ finding ∈ noted, finding.location.filename = before.filename

theorem Notes.of_eq {before after : Scanner} (filename : after.filename = before.filename)
    (warnings : after.warnings = before.warnings) : before.Notes after :=
  ⟨filename, [], by rw [warnings, List.append_nil], List.forall_mem_nil _⟩

theorem Notes.trans {first second third : Scanner} (start : first.Notes second)
    (finish : second.Notes third) : first.Notes third := by
  obtain ⟨noted, recorded, named⟩ := start.warnings
  obtain ⟨more, added, alsoNamed⟩ := finish.warnings
  refine ⟨finish.filename.trans start.filename, noted ++ more, ?_, ?_⟩
  · rw [added, recorded, List.append_assoc]
  · intro finding member
    rcases List.mem_append.mp member with here | later
    · exact named finding here
    · exact (alsoNamed finding later).trans start.filename

theorem next_notes (scanner : Scanner) : scanner.Notes scanner.next.2 := by
  unfold next readLexeme
  split
  · exact .of_eq rfl rfl
  · next lexeme _ =>
      refine ⟨rfl, _, rfl, fun finding member => ?_⟩
      rw [Lexeme.location_of_finding? (Option.mem_toList.mp member)]
      rfl

theorem next_named (scanner : Scanner) :
    scanner.next.1.location.map Location.filename = some scanner.filename := by
  unfold next readLexeme
  split
  · rfl
  · rfl

theorem nexts_notes (count : Nat) (scanner : Scanner) :
    scanner.Notes (nexts count scanner).2 ∧
      ∀ token ∈ (nexts count scanner).1,
        token.location.map Location.filename = some scanner.filename := by
  induction count generalizing scanner with
  | zero => exact ⟨.of_eq rfl rfl, List.forall_mem_nil _⟩
  | succ count ih =>
      obtain ⟨notes, named⟩ := ih scanner.next.2
      rw [scanner.next_notes.filename] at named
      exact ⟨scanner.next_notes.trans notes, List.forall_mem_cons.mpr ⟨scanner.next_named, named⟩⟩

theorem readQuoted_notes (scanner : Scanner) : scanner.Notes scanner.readQuoted.2 := by
  simp only [readQuoted]
  split
  · exact ⟨rfl, _, rfl, List.forall_mem_singleton.mpr rfl⟩
  · exact .of_eq rfl rfl

end Scanner

namespace Session

/-- Sessions that only differ in their names and warnings. -/
structure SameScan (first second : Session) : Prop where
  cursor : first.scanner.cursor = second.scanner.cursor
  ended : first.ended = second.ended

theorem SameScan.pull {first second : Session} (same : first.SameScan second) (id : ReaderId) :
    (first.pull id).1.nameless = (second.pull id).1.nameless ∧
      (first.pull id).2.SameScan (second.pull id).2 := by
  obtain ⟨token, cursor⟩ := Scanner.next_nameless same.cursor
  simp only [Session.pull, same.ended]
  split
  · exact ⟨rfl, same⟩
  · refine ⟨congrArg Reply.token token, cursor, ?_⟩
    simp only [Scanner.kind_next same.cursor]

/-- A step that reads makes the same of sessions that only differ in names and warnings. -/
theorem SameScan.step {first second : Session} (same : first.SameScan second) {step : Step}
    (reads : step.isBookkeeping = false) :
    (first.step step).1.nameless = (second.step step).1.nameless ∧
      (first.step step).2.SameScan (second.step step).2 := by
  cases step with
  | next =>
      obtain ⟨token, cursor⟩ := Scanner.next_nameless same.cursor
      exact ⟨congrArg Reply.token token, cursor, same.ended⟩
  | tokenize =>
      obtain ⟨tokens, cursor⟩ := Scanner.tokenize_nameless same.cursor
      exact ⟨congrArg Reply.tokens tokens, cursor, same.ended⟩
  | take count =>
      obtain ⟨tokens, cursor⟩ := Scanner.take_nameless same.cursor count
      exact ⟨congrArg Reply.tokens tokens, cursor, same.ended⟩
  | openReader id => exact ⟨rfl, same.cursor, congrArg (List.filter (· ≠ id)) same.ended⟩
  | pull id => exact same.pull id
  | advance => exact ⟨rfl, congrArg Cursor.advance same.cursor, same.ended⟩
  | skipBlanks => exact ⟨rfl, congrArg (Cursor.skipWhile · isBlank) same.cursor, same.ended⟩
  | readWord =>
      obtain ⟨text, cursor⟩ := Scanner.readWhile_same same.cursor isWordPart
      exact ⟨congrArg Reply.text text, cursor, same.ended⟩
  | readNumber =>
      obtain ⟨text, cursor⟩ := Scanner.readWhile_same same.cursor isDigit
      exact ⟨congrArg Reply.text text, cursor, same.ended⟩
  | readQuoted =>
      obtain ⟨text, cursor⟩ := Scanner.readQuoted_same same.cursor
      exact ⟨congrArg Reply.text text, cursor, same.ended⟩
  | warnings | copyWarnings | hasWarnings | clearWarnings | clearCopy | rename _ | location
  | peek => cases reads

theorem SameScan.step_bookkeeping {first second : Session} (same : first.SameScan second)
    {step : Step} (keeps : step.isBookkeeping = true) :
    (first.step step).2.SameScan second := by
  cases step with
  | warnings | copyWarnings | hasWarnings | clearWarnings | clearCopy | rename _ | location
  | peek => exact ⟨same.cursor, same.ended⟩
  | next | tokenize | take _ | openReader _ | pull _ | advance | skipBlanks | readWord | readNumber
  | readQuoted => cases keeps

theorem withoutBookkeeping_cons_of_bookkeeping {step : Step} (keeps : step.isBookkeeping = true)
    (steps : List Step) : withoutBookkeeping (step :: steps) = withoutBookkeeping steps :=
  List.filter_cons_of_neg (by simp [keeps])

theorem withoutBookkeeping_cons_of_reads {step : Step} (reads : step.isBookkeeping = false)
    (steps : List Step) :
    withoutBookkeeping (step :: steps) = step :: withoutBookkeeping steps :=
  List.filter_cons_of_pos (by simp [reads])

theorem scanned_cons_of_bookkeeping (session : Session) {step : Step}
    (keeps : step.isBookkeeping = true) (steps : List Step) :
    session.scanned (step :: steps) = (session.step step).2.scanned steps := by
  simp [scanned, run, keeps]

theorem scanned_cons_of_reads (session : Session) {step : Step}
    (reads : step.isBookkeeping = false) (steps : List Step) :
    session.scanned (step :: steps) =
      ((session.step step).1.nameless, (session.step step).2.scanner.cursor) ::
        (session.step step).2.scanned steps := by
  simp [scanned, run, reads]

/-- Nothing is scanned differently if all bookkeeping is left out. -/
theorem SameScan.scanned {first second : Session} (same : first.SameScan second)
    (steps : List Step) :
    first.scanned steps = second.scanned (withoutBookkeeping steps) := by
  induction steps generalizing first second with
  | nil => rfl
  | cons step steps ih =>
      cases kind : step.isBookkeeping with
      | true =>
          rw [scanned_cons_of_bookkeeping first kind, withoutBookkeeping_cons_of_bookkeeping kind]
          exact ih (same.step_bookkeeping kind)
      | false =>
          obtain ⟨reply, after⟩ := same.step kind
          rw [scanned_cons_of_reads first kind, withoutBookkeeping_cons_of_reads kind,
            scanned_cons_of_reads second kind, reply, after.cursor, ih after]

theorem length_scanned (session : Session) (steps : List Step) :
    (session.scanned steps).length = (withoutBookkeeping steps).length := by
  induction steps generalizing session with
  | nil => rfl
  | cons step steps ih =>
      cases kind : step.isBookkeeping with
      | true =>
          rw [scanned_cons_of_bookkeeping session kind, withoutBookkeeping_cons_of_bookkeeping kind]
          exact ih _
      | false =>
          rw [scanned_cons_of_reads session kind, withoutBookkeeping_cons_of_reads kind,
            List.length_cons, List.length_cons, ih]

/-- The steps that ask for tokens read them one after the other. -/
theorem step_notes_of_pulls (session : Session) {step : Step} (pulls : step.pulls = true) :
    session.scanner.Notes (session.step step).2.scanner ∧
      ∀ token ∈ (session.step step).1.delivered,
        token.location.map Location.filename = some session.scanner.filename := by
  have notes := Scanner.nexts_notes (session.step step).1.delivered.length session.scanner
  rwa [session.step_eq_nexts pulls] at notes

theorem step_notes (session : Session) {step : Step} (keeps : step ≠ .clearWarnings)
    (named : ∀ filename, step ≠ .rename filename) :
    session.scanner.Notes (session.step step).2.scanner := by
  cases step with
  | next | tokenize | take _ | openReader _ | pull _ => exact (session.step_notes_of_pulls rfl).1
  | readQuoted => exact session.scanner.readQuoted_notes
  | clearWarnings => exact absurd rfl keeps
  | rename filename => exact absurd rfl (named filename)
  | warnings | copyWarnings | hasWarnings | clearCopy | location | peek | advance | skipBlanks
  | readWord | readNumber => exact .of_eq rfl rfl

theorem delivered_named (session : Session) (step : Step) :
    ∀ token ∈ (session.step step).1.delivered,
      token.location.map Location.filename = some session.scanner.filename := by
  cases step with
  | next | tokenize | take _ | openReader _ | pull _ => exact (session.step_notes_of_pulls rfl).2
  | warnings | copyWarnings | hasWarnings | clearWarnings | clearCopy | rename _ | location | peek
  | advance | skipBlanks | readWord | readNumber | readQuoted => exact List.forall_mem_nil _

theorem filename_step (session : Session) (step : Step) :
    (session.step step).2.scanner.filename = step.renames session.scanner.filename := by
  cases step with
  | rename _ | clearWarnings => rfl
  | next | tokenize | take _ | openReader _ | pull _ | warnings | copyWarnings | hasWarnings
  | clearCopy | location | peek | advance | skipBlanks | readWord | readNumber | readQuoted =>
      exact (session.step_notes (by simp) (by simp)).filename

theorem filename_after (session : Session) (steps : List Step) :
    (session.after steps).scanner.filename = nameInForce session.scanner.filename steps := by
  induction steps generalizing session with
  | nil => rfl
  | cons step steps ih =>
      calc ((session.step step).2.after steps).scanner.filename
        _ = nameInForce (session.step step).2.scanner.filename steps := ih _
        _ = nameInForce (step.renames session.scanner.filename) steps := by rw [filename_step]

theorem getElem?_run (session : Session) (before : List Step) (step : Step) (later : List Step) :
    (session.run (before ++ step :: later))[before.length]? =
      some ((session.after before).step step) := by
  induction before generalizing session with
  | nil => rfl
  | cons earlier before ih => exact ih (session.step earlier).2

/-- A copy of the warnings reads as they do. -/
theorem step_copyWarnings (session : Session) :
    session.step .copyWarnings = session.step .warnings :=
  congrArg (fun findings => (Reply.findings findings, session)) (Lists.copyOf_eq _)

/-- What a step does to the records of a session while a name is in force. -/
structure Records (session : Session) (name : String) (step : Step) : Prop where
  tokens : ∀ token ∈ (session.step step).1.delivered,
    token.location.map Location.filename = some name
  location : ∀ location, (session.step step).1 = .location location → location.filename = name
  /-- What was recorded before stays as it is, under the name that it was recorded under. -/
  noted : step ≠ .clearWarnings → ∃ noted,
    (session.step step).2.scanner.warnings = session.scanner.warnings ++ noted ∧
      ∀ finding ∈ noted, finding.location.filename = name
  unchanged : step.isBookkeeping = true → step ≠ .clearWarnings →
    (session.step step).2.scanner.warnings = session.scanner.warnings
  cleared : step = .clearWarnings → (session.step step).2.scanner.warnings = []
  copyCleared : step = .clearCopy → (session.step step).2 = session

theorem step_records (session : Session) (step : Step) :
    session.Records session.scanner.filename step := by
  constructor
  case tokens => exact session.delivered_named step
  case location =>
    intro location replied
    cases step with
    | location =>
        obtain rfl := Reply.location.inj replied
        rfl
    | pull id =>
        simp only [Session.step, Session.pull] at replied
        split at replied <;> cases replied
    | next | tokenize | take _ | openReader _ | warnings | copyWarnings | hasWarnings
    | clearWarnings | clearCopy | rename _ | peek | advance | skipBlanks | readWord | readNumber
    | readQuoted => cases replied
  case noted =>
    intro keeps
    by_cases renames : ∃ filename, step = .rename filename
    · obtain ⟨filename, rfl⟩ := renames
      exact ⟨[], (List.append_nil _).symm, List.forall_mem_nil _⟩
    · exact (session.step_notes keeps fun filename same => renames ⟨filename, same⟩).warnings
  case unchanged =>
    intro keeps notCleared
    cases step with
    | clearWarnings => exact absurd rfl notCleared
    | warnings | copyWarnings | hasWarnings | clearCopy | rename _ | location | peek => rfl
    | next | tokenize | take _ | openReader _ | pull _ | advance | skipBlanks | readWord
    | readNumber | readQuoted => cases keeps
  case cleared =>
    rintro rfl
    rfl
  case copyCleared =>
    rintro rfl
    have kept := Lists.afterCopyChange_eq session.scanner.warnings fun _ => []
    simp only [Session.step, Scanner.clearCopy, kept]

/-- How little bookkeeping among these steps matters to a scan of a source. -/
structure Undisturbed (source filename : String) (steps : List Step) : Prop where
  scanned : ∀ otherName others, withoutBookkeeping others = withoutBookkeeping steps →
    (ofSource source otherName).scanned others = (ofSource source filename).scanned steps
  answered : ((ofSource source filename).scanned steps).length = (withoutBookkeeping steps).length
  /-- The steps reply one by one, whatever comes later. -/
  replies : ∀ before step later, steps = before ++ step :: later →
    ((ofSource source filename).run steps)[before.length]? =
      some (((ofSource source filename).after before).step step)
  records : ∀ before step later, steps = before ++ step :: later →
    ((ofSource source filename).after before).Records (nameInForce filename before) step

/-- Whatever bookkeeping is put among the steps of a session or left out of them, and whatever the
source is called, the other steps read the same. A name goes into what is recorded while it is in
force, and stays there. -/
theorem undisturbed (source filename : String) (steps : List Step) :
    Undisturbed source filename steps := by
  constructor
  case scanned =>
    intro otherName others same
    have apart : (ofSource source otherName).SameScan (ofSource source filename) := ⟨rfl, rfl⟩
    have alone : (ofSource source filename).SameScan (ofSource source filename) := ⟨rfl, rfl⟩
    calc (ofSource source otherName).scanned others
      _ = (ofSource source filename).scanned (withoutBookkeeping others) := apart.scanned others
      _ = (ofSource source filename).scanned (withoutBookkeeping steps) := by rw [same]
      _ = (ofSource source filename).scanned steps := (alone.scanned steps).symm
  case answered => exact length_scanned _ steps
  case replies =>
    rintro before step later rfl
    exact getElem?_run _ before step later
  case records =>
    intro before step later _
    have name := (ofSource source filename).filename_after before
    have records := ((ofSource source filename).after before).step_records step
    rwa [name] at records

/-- The token and the warning keep the name that was in force between the two renamings. -/
example :
    ((ofSource "a \"b" "m").run [.next, .rename "n", .next, .rename "o"]).map
        (fun entry => entry.1.delivered.map fun token => token.location.map Location.text) =
      [[some "m:1:1"], [], [some "n:1:3"], []] ∧
    ((ofSource "a \"b" "m").after [.next, .rename "n", .next, .rename "o"]).scanner.warnings.map
        (fun finding => finding.location.text) = ["n:1:3"] := by
  decide

end Session

end MonkeySource
