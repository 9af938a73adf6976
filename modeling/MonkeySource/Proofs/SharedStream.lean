import MonkeySource.Proofs.Reachable

set_option autoImplicit false

/-!
# One stream for all readers

Every way of asking for tokens reads a number of them from the one cursor, one after the other. So
the tokens that are handed over, to whomever, are those of the source in their order.
-/

namespace MonkeySource

namespace Scanner

/-- The next tokens, a number of them, and the end of input again and again where they run out. -/
def nexts : (count : Nat) → Scanner → List Token × Scanner
  | 0, scanner => ([], scanner)
  | count + 1, scanner =>
      (scanner.next.1 :: (nexts count scanner.next.2).1, (nexts count scanner.next.2).2)

theorem nexts_add (first second : Nat) (scanner : Scanner) :
    nexts (first + second) scanner =
      ((nexts first scanner).1 ++ (nexts second (nexts first scanner).2).1,
        (nexts second (nexts first scanner).2).2) := by
  induction first generalizing scanner with
  | zero => rw [Nat.zero_add]; rfl
  | succ first ih => rw [Nat.succ_add, nexts, ih, nexts, List.cons_append]

/-- Token by token, to the end of input: every token before it leaves less of the source. -/
@[elab_as_elim]
theorem next_induction {motive : Scanner → Prop}
    (ended : ∀ scanner : Scanner, scanner.next.1.kind = .endOfInput → motive scanner)
    (more : ∀ scanner : Scanner, scanner.next.1.kind ≠ .endOfInput →
      motive scanner.next.2 → motive scanner)
    (scanner : Scanner) : motive scanner := by
  by_cases last : scanner.next.1.kind = .endOfInput
  · exact ended scanner last
  · exact more scanner last (next_induction ended more scanner.next.2)
termination_by scanner.cursor.rest.length
decreasing_by exact scanner.length_rest_next_lt last

theorem tokenize_of_ended {scanner : Scanner} (ended : scanner.next.1.kind = .endOfInput) :
    scanner.tokenize = ([scanner.next.1], scanner.next.2) := by
  rw [tokenize_eq, if_pos ended]

theorem tokenize_of_more {scanner : Scanner} (more : scanner.next.1.kind ≠ .endOfInput) :
    scanner.tokenize =
      (scanner.next.1 :: scanner.next.2.tokenize.1, scanner.next.2.tokenize.2) := by
  rw [tokenize_eq, if_neg more]

theorem tokenize_ne_nil (scanner : Scanner) : scanner.tokenize.1 ≠ [] := by
  rw [tokenize_eq]
  split <;> exact List.cons_ne_nil _ _

theorem head?_tokenize (scanner : Scanner) : scanner.tokenize.1.head? = some scanner.next.1 := by
  rw [tokenize_eq]
  split <;> rfl

theorem next_next_of_ended {scanner : Scanner} (ended : scanner.next.1.kind = .endOfInput) :
    scanner.next.2.next = scanner.next := by
  rcases blank_or_leads scanner.cursor.rest with blank | ⟨gap, lexeme, rest, leads⟩
  · rw [next_of_blank blank]
    have nothing : (scanner.cursor.move scanner.cursor.rest.length).rest = [] := by
      rw [Cursor.rest_move, List.drop_length]
    rw [next_of_blank (by simp)]
    simp only [nothing]
    rfl
  · rw [next_of_leads leads] at ended
    exact absurd ended lexeme.kind_ne_endOfInput

theorem tokenize_next_of_ended {scanner : Scanner} (ended : scanner.next.1.kind = .endOfInput) :
    scanner.next.2.tokenize = scanner.tokenize := by
  have still : scanner.next.2.next.1.kind = .endOfInput := by rwa [next_next_of_ended ended]
  rw [tokenize_of_ended ended, tokenize_of_ended still, next_next_of_ended ended]

theorem take_succ (count : Nat) (scanner : Scanner) :
    scanner.take (count + 1) =
      if scanner.next.1.kind = .endOfInput then ([scanner.next.1], scanner.next.2)
      else (scanner.next.1 :: (scanner.next.2.take count).1, (scanner.next.2.take count).2) := rfl

theorem exists_tokenize_eq_append (scanner : Scanner) :
    ∃ tokens last, scanner.tokenize.1 = tokens ++ [last] ∧ last.kind = .endOfInput ∧
      ∀ token ∈ tokens, token.kind ≠ .endOfInput := by
  induction scanner using next_induction with
  | ended scanner ended => exact ⟨[], _, by rw [tokenize_of_ended ended]; rfl, ended, by simp⟩
  | more scanner more ih =>
      obtain ⟨tokens, last, split, final, others⟩ := ih
      refine ⟨scanner.next.1 :: tokens, last, ?_, final, ?_⟩
      · rw [tokenize_of_more more, split, List.cons_append]
      · intro token member
        cases member with
        | head => exact more
        | tail _ member => exact others token member

theorem tokenize_eq_nexts (scanner : Scanner) :
    nexts scanner.tokenize.1.length scanner = scanner.tokenize := by
  induction scanner using next_induction with
  | ended scanner ended => rw [tokenize_of_ended ended]; rfl
  | more scanner more ih => rw [tokenize_of_more more, List.length_cons, nexts, ih]

theorem take_eq_nexts (count : Nat) (scanner : Scanner) :
    scanner.take count = nexts (min count scanner.tokenize.1.length) scanner := by
  induction count generalizing scanner with
  | zero => rw [Nat.zero_min]; rfl
  | succ count ih =>
      by_cases ended : scanner.next.1.kind = .endOfInput
      · have one : min (count + 1) scanner.tokenize.1.length = 1 := by
          rw [tokenize_of_ended ended, List.length_singleton]
          omega
        rw [one, take_succ, if_pos ended]
        rfl
      · rw [take_succ, if_neg ended, tokenize_of_more ended, List.length_cons,
          Nat.add_min_add_right, nexts, ih]

theorem take_tokens (count : Nat) (scanner : Scanner) :
    (scanner.take count).1 = scanner.tokenize.1.take count := by
  induction count generalizing scanner with
  | zero => rfl
  | succ count ih =>
      by_cases ended : scanner.next.1.kind = .endOfInput
      · rw [take_succ, if_pos ended, tokenize_of_ended ended, List.take_succ_cons, List.take_nil]
      · rw [take_succ, if_neg ended, tokenize_of_more ended, List.take_succ_cons, ih]

/-- What is left after a number of tokens. The end of input is never used up. -/
theorem tokenize_nexts (count : Nat) (scanner : Scanner) :
    (nexts count scanner).2.tokenize.1 =
      scanner.tokenize.1.drop (min count (scanner.tokenize.1.length - 1)) := by
  induction count generalizing scanner with
  | zero => rw [Nat.zero_min]; rfl
  | succ count ih =>
      rw [nexts, ih]
      by_cases ended : scanner.next.1.kind = .endOfInput
      · rw [tokenize_next_of_ended ended, tokenize_of_ended ended]
        simp
      · have some_left := List.length_pos_iff.mpr scanner.next.2.tokenize_ne_nil
        have index : min (count + 1) (scanner.next.2.tokenize.1.length + 1 - 1) =
            min count (scanner.next.2.tokenize.1.length - 1) + 1 := by
          omega
        rw [tokenize_of_more ended, List.length_cons, index, List.drop_succ_cons]

theorem nexts_inOrder (count : Nat) (scanner : Scanner) {last : Token}
    (final : scanner.tokenize.1.getLast? = some last) :
    (nexts count scanner).1 <+: scanner.tokenize.1 ++ List.replicate count last := by
  induction count generalizing scanner with
  | zero => exact List.nil_prefix
  | succ count ih =>
      by_cases ended : scanner.next.1.kind = .endOfInput
      · have later := ih scanner.next.2 (by rwa [tokenize_next_of_ended ended])
        rw [tokenize_next_of_ended ended] at later
        rw [tokenize_of_ended ended] at final later ⊢
        -- The token just read is the first copy, and the later ones are among the others.
        obtain rfl : scanner.next.1 = last := by simpa using final
        exact (List.prefix_cons_inj _).mpr later
      · rw [tokenize_of_more ended] at final ⊢
        rw [List.getLast?_cons_of_ne_nil scanner.next.2.tokenize_ne_nil] at final
        have longer : List.replicate count last <+: List.replicate (count + 1) last :=
          ⟨[last], List.replicate_succ'.symm⟩
        exact (List.prefix_cons_inj _).mpr
          ((ih scanner.next.2 final).trans ((List.prefix_append_right_inj _).mpr longer))

end Scanner

def Reply.delivered : Reply → List Token
  | .token single => [single]
  | .tokens several => several
  | _ => []

/-- The steps that only ask for tokens, or open a reader that will. -/
def Step.pulls : Step → Bool
  | .next | .tokenize | .take _ | .openReader _ | .pull _ => true
  | _ => false

/-- The replies of one reader: tokens until it has given an end of input of its own, and nothing
after that. -/
inductive ReaderReplies : List Reply → Prop where
  | unfinished : ReaderReplies []
  | token {token replies} : token.kind ≠ .endOfInput → ReaderReplies replies →
      ReaderReplies (.token token :: replies)
  | finished {token stops} : token.kind = .endOfInput →
      ReaderReplies (.token token :: List.replicate stops .stopped)

namespace Session

def delivered (session : Session) (steps : List Step) : List Token :=
  (session.run steps).flatMap fun entry => entry.1.delivered

/-- The replies to the pulls of one reader, among all steps. -/
def repliesOf (session : Session) (id : ReaderId) (steps : List Step) : List Reply :=
  ((steps.zip (session.run steps)).filter fun entry => entry.1 = .pull id).map
    fun entry => entry.2.1

theorem delivered_cons (session : Session) (step : Step) (steps : List Step) :
    session.delivered (step :: steps) =
      (session.step step).1.delivered ++ (session.step step).2.delivered steps := rfl

theorem delivered_append (session : Session) (first second : List Step) :
    session.delivered (first ++ second) =
      session.delivered first ++ (session.after first).delivered second := by
  induction first generalizing session with
  | nil => rfl
  | cons step first ih =>
      rw [List.cons_append, delivered_cons, ih, delivered_cons, List.append_assoc]
      rfl

theorem repliesOf_cons (session : Session) (id : ReaderId) (step : Step) (steps : List Step) :
    session.repliesOf id (step :: steps) =
      (if step = .pull id then [(session.step step).1] else []) ++
        (session.step step).2.repliesOf id steps := by
  by_cases pulled : step = .pull id <;> simp [repliesOf, run, pulled]

theorem pull_of_ended {session : Session} {id : ReaderId} (ended : id ∈ session.ended) :
    session.pull id = (.stopped, session) := by
  rw [pull, if_pos ended]

theorem pull_of_open {session : Session} {id : ReaderId} (isOpen : id ∉ session.ended) :
    session.pull id =
      (.token session.scanner.next.1,
        { scanner := session.scanner.next.2
          ended := if session.scanner.next.1.kind = .endOfInput then id :: session.ended
            else session.ended }) := by
  rw [pull, if_neg isOpen]

/-- Each step that asks for tokens reads as many as it hands over. -/
theorem step_eq_nexts (session : Session) {step : Step} (pulls : step.pulls = true) :
    Scanner.nexts (session.step step).1.delivered.length session.scanner =
      ((session.step step).1.delivered, (session.step step).2.scanner) := by
  cases step with
  | next => rfl
  | tokenize => exact session.scanner.tokenize_eq_nexts
  | take count =>
      have length : (session.scanner.take count).1.length =
          min count session.scanner.tokenize.1.length := by
        rw [Scanner.take_tokens, List.length_take]
      change Scanner.nexts (session.scanner.take count).1.length session.scanner =
        session.scanner.take count
      rw [length, Scanner.take_eq_nexts]
  | openReader id => rfl
  | pull id =>
      change Scanner.nexts (session.pull id).1.delivered.length session.scanner =
        ((session.pull id).1.delivered, (session.pull id).2.scanner)
      by_cases ended : id ∈ session.ended
      · rw [pull_of_ended ended]
        rfl
      · rw [pull_of_open ended]
        rfl
  | warnings | copyWarnings | hasWarnings | clearWarnings | clearCopy | rename _ | location | peek
  | advance | skipBlanks | readWord | readNumber | readQuoted => cases pulls

theorem run_eq_nexts (session : Session) {steps : List Step}
    (pulls : ∀ step ∈ steps, step.pulls = true) :
    Scanner.nexts (session.delivered steps).length session.scanner =
      (session.delivered steps, (session.after steps).scanner) := by
  induction steps generalizing session with
  | nil => rfl
  | cons step steps ih =>
      have first := session.step_eq_nexts (pulls step List.mem_cons_self)
      have later := ih (session.step step).2
        (fun other member => pulls other (List.mem_cons_of_mem _ member))
      rw [delivered_cons, List.length_append, Scanner.nexts_add, first, later]
      rfl

theorem mem_ended_step_iff (session : Session) {step : Step} {id : ReaderId}
    (notOpened : step ≠ .openReader id) (notPulled : step ≠ .pull id) :
    id ∈ (session.step step).2.ended ↔ id ∈ session.ended := by
  cases step with
  | openReader other =>
      have different : id ≠ other := fun same => notOpened (same ▸ rfl)
      simp [step, different]
  | pull other =>
      have different : id ≠ other := fun same => notPulled (same ▸ rfl)
      change id ∈ (session.pull other).2.ended ↔ id ∈ session.ended
      by_cases ended : other ∈ session.ended
      · rw [pull_of_ended ended]
      · rw [pull_of_open ended]
        by_cases last : session.scanner.next.1.kind = .endOfInput <;> simp [last, different]
  | next | tokenize | take _ | warnings | copyWarnings | hasWarnings | clearWarnings | clearCopy
  | rename _ | location | peek | advance | skipBlanks | readWord | readNumber | readQuoted =>
      exact Iff.rfl

theorem repliesOf_of_ended (session : Session) {id : ReaderId} {steps : List Step}
    (notOpened : .openReader id ∉ steps) (ended : id ∈ session.ended) :
    ∃ stops, session.repliesOf id steps = List.replicate stops .stopped := by
  induction steps generalizing session with
  | nil => exact ⟨0, rfl⟩
  | cons step steps ih =>
      have notHere : step ≠ .openReader id := fun same => notOpened (same ▸ List.mem_cons_self)
      have notLater : .openReader id ∉ steps :=
        fun member => notOpened (List.mem_cons_of_mem _ member)
      rw [repliesOf_cons]
      by_cases pulled : step = .pull id
      · subst pulled
        have stopped : session.step (.pull id) = (.stopped, session) := pull_of_ended ended
        obtain ⟨stops, later⟩ := ih session notLater ended
        rw [stopped, later]
        exact ⟨stops + 1, by rw [if_pos rfl]; rfl⟩
      · obtain ⟨stops, later⟩ := ih (session.step step).2 notLater
          ((session.mem_ended_step_iff notHere pulled).mpr ended)
        exact ⟨stops, by rw [later, if_neg pulled]; rfl⟩

theorem repliesOf_of_open (session : Session) {id : ReaderId} {steps : List Step}
    (notOpened : .openReader id ∉ steps) (isOpen : id ∉ session.ended) :
    ReaderReplies (session.repliesOf id steps) := by
  induction steps generalizing session with
  | nil => exact .unfinished
  | cons step steps ih =>
      have notHere : step ≠ .openReader id := fun same => notOpened (same ▸ List.mem_cons_self)
      have notLater : .openReader id ∉ steps :=
        fun member => notOpened (List.mem_cons_of_mem _ member)
      rw [repliesOf_cons]
      by_cases pulled : step = .pull id
      · subst pulled
        have token := pull_of_open isOpen
        rw [if_pos rfl]
        change ReaderReplies ([(session.pull id).1] ++ (session.pull id).2.repliesOf id steps)
        by_cases last : session.scanner.next.1.kind = .endOfInput
        · obtain ⟨stops, later⟩ := repliesOf_of_ended (session.pull id).2 notLater
            (by rw [token]; simp [last])
          rw [later, token]
          exact .finished last
        · have later := ih (session.pull id).2 notLater
            (by rw [token]; simpa [last] using isOpen)
          rw [token] at later ⊢
          exact .token last later
      · rw [if_neg pulled]
        exact ih (session.step step).2 notLater
          (mt (session.mem_ended_step_iff notHere pulled).mp isOpen)

theorem delivered_repliesOf_sublist (session : Session) (id : ReaderId) (steps : List Step) :
    ((session.repliesOf id steps).flatMap Reply.delivered).Sublist (session.delivered steps) := by
  induction steps generalizing session with
  | nil => exact .slnil
  | cons step steps ih =>
      rw [repliesOf_cons, List.flatMap_append, delivered_cons]
      by_cases pulled : step = .pull id
      · rw [if_pos pulled, List.flatMap_singleton]
        exact (List.Sublist.refl _).append (ih _)
      · rw [if_neg pulled]
        exact (List.nil_sublist _).append (ih _)

end Session

theorem ReaderReplies.eq_map_token {replies : List Reply} (reader : ReaderReplies replies)
    (unfinished : ∀ token, .token token ∈ replies → token.kind ≠ .endOfInput) :
    ∃ tokens : List Token, replies = tokens.map .token ∧
      ∀ token ∈ tokens, token.kind ≠ .endOfInput := by
  induction reader with
  | unfinished => exact ⟨[], rfl, by simp⟩
  | @token token replies more _ ih =>
      obtain ⟨tokens, rfl, others⟩ :=
        ih fun other member => unfinished other (List.mem_cons_of_mem _ member)
      refine ⟨token :: tokens, rfl, ?_⟩
      intro other member
      cases member with
      | head => exact more
      | tail _ member => exact others other member
  | @finished token stops last => exact absurd last (unfinished token List.mem_cons_self)

/-- What is left of a stream after a number of its tokens. The last one always is. -/
def leftOf (stream : List Token) (count : Nat) : List Token :=
  stream.drop (min count (stream.length - 1))

namespace Session

theorem after_append (session : Session) (first second : List Step) :
    session.after (first ++ second) = (session.after first).after second :=
  List.foldl_append

theorem delivered_inOrder (session : Session) {steps : List Step} {last : Token}
    (pulls : ∀ step ∈ steps, step.pulls = true)
    (final : session.scanner.tokenize.1.getLast? = some last) :
    session.delivered steps <+:
      session.scanner.tokenize.1 ++ List.replicate (session.delivered steps).length last := by
  have ordered := Scanner.nexts_inOrder (session.delivered steps).length session.scanner final
  rwa [session.run_eq_nexts pulls] at ordered

theorem tokenize_after (session : Session) {steps : List Step}
    (pulls : ∀ step ∈ steps, step.pulls = true) :
    (session.after steps).scanner.tokenize.1 =
      leftOf session.scanner.tokenize.1 (session.delivered steps).length := by
  have left := Scanner.tokenize_nexts (session.delivered steps).length session.scanner
  rwa [session.run_eq_nexts pulls] at left

theorem reader_replies (session : Session) {id : ReaderId} (before : List Step)
    {later : List Step} (notOpened : .openReader id ∉ later) :
    ReaderReplies ((session.after (before ++ [.openReader id])).repliesOf id later) := by
  refine repliesOf_of_open _ notOpened ?_
  rw [after_append]
  simp [after, step]

theorem exists_endOfInput_of_length_lt {session : Session} {id : ReaderId} {steps : List Step}
    {tokens copies : List Token}
    (ordered : (session.delivered steps).Sublist (tokens ++ copies))
    (ends : ∀ token ∈ copies, token.kind = .endOfInput)
    (reader : ReaderReplies (session.repliesOf id steps))
    (often : tokens.length < (session.repliesOf id steps).length) :
    ∃ token, .token token ∈ session.repliesOf id steps ∧ token.kind = .endOfInput := by
  by_contra never
  -- Then all replies are tokens of the stream of other kinds, and `tokens` has too few of these.
  obtain ⟨given, replies, more⟩ := reader.eq_map_token fun token member isEnd =>
    never ⟨token, member, isEnd⟩
  have mine := (session.delivered_repliesOf_sublist id steps).trans ordered
  have same : (given.map Reply.token).flatMap Reply.delivered = given := by
    rw [List.flatMap_map]
    exact List.flatMap_singleton' given
  rw [replies, same] at mine
  have kept := mine.filter fun token => token.kind ≠ .endOfInput
  have all : given.filter (fun token => token.kind ≠ .endOfInput) = given :=
    List.filter_eq_self.mpr fun token member => decide_eq_true (more token member)
  have nothing : copies.filter (fun token => token.kind ≠ .endOfInput) = [] :=
    List.filter_eq_nil_iff.mpr fun token member => by simp [ends token member]
  rw [all, List.filter_append, nothing, List.append_nil] at kept
  have bounded := kept.length_le.trans (List.length_filter_le _ tokens)
  rw [replies, List.length_map] at often
  omega

/-- How the steps of a session share a stream of tokens. -/
structure Shares (start : Session) (stream : List Token) (steps : List Step) : Prop where
  /-- All tokens that are handed over are those of the stream in their order, and then its end of
  input over and over. -/
  delivered : ∃ tokens last copies, stream = tokens ++ [last] ∧ last.kind = .endOfInput ∧
    (∀ token ∈ tokens, token.kind ≠ .endOfInput) ∧
    start.delivered steps <+: stream ++ List.replicate copies last
  next : ∃ token, (leftOf stream (start.delivered steps).length).head? = some token ∧
    ((start.after steps).step .next).1 = .token token
  tokenize : ((start.after steps).step .tokenize).1 =
    .tokens (leftOf stream (start.delivered steps).length)
  take : ∀ count, ((start.after steps).step (.take count)).1 =
    .tokens ((leftOf stream (start.delivered steps).length).take count)
  take_zero : ((start.after steps).step (.take 0)).2 = start.after steps
  /-- A new reader reads nothing yet and leaves the others as they are. -/
  openReader : ∀ id, ((start.after steps).step (.openReader id)).1 = .done ∧
    ((start.after steps).step (.openReader id)).2.scanner = (start.after steps).scanner ∧
    ∀ other ≠ id, other ∈ ((start.after steps).step (.openReader id)).2.ended ↔
      other ∈ (start.after steps).ended
  /-- A reader comes to an end of input if it is pulled often enough, and never to a second one. -/
  reader : ∀ id before later, steps = before ++ .openReader id :: later → .openReader id ∉ later →
    let replies := (start.after (before ++ [.openReader id])).repliesOf id later
    ReaderReplies replies ∧ (stream.length ≤ replies.length →
      ∃ token, .token token ∈ replies ∧ token.kind = .endOfInput)

/-- Whoever asks for tokens, for the next, for all, for a few or through a reader, and in whatever
order, is served from one stream: the tokens of the source, and then its end of input for ever. -/
theorem shares_tokenize (source filename : String) {steps : List Step}
    (pulls : ∀ step ∈ steps, step.pulls = true) :
    (ofSource source filename).Shares (tokenize source filename) steps := by
  have start : (ofSource source filename).scanner.tokenize.1 = tokenize source filename := rfl
  obtain ⟨tokens, last, split, final, others⟩ :=
    (ofSource source filename).scanner.exists_tokenize_eq_append
  have ordered := (ofSource source filename).delivered_inOrder pulls
    (by rw [split]; exact List.getLast?_concat)
  have left := (ofSource source filename).tokenize_after pulls
  rw [start] at split ordered left
  constructor
  case delivered => exact ⟨tokens, last, _, split, final, others, ordered⟩
  case next =>
    rw [← left]
    exact ⟨_, Scanner.head?_tokenize _, rfl⟩
  case tokenize => exact congrArg Reply.tokens left
  case take =>
    intro count
    rw [← left, ← Scanner.take_tokens]
    rfl
  case take_zero => rfl
  case openReader =>
    intro id
    refine ⟨rfl, rfl, fun other different => ?_⟩
    exact mem_ended_step_iff _ (by simpa using different.symm) (by simp)
  case reader =>
    intro id before later steps_eq notOpened
    -- What is handed over since the reader was opened is the last part of all that is.
    have replies := (ofSource source filename).reader_replies before notOpened
    refine ⟨replies, fun often => ?_⟩
    have mine : ((ofSource source filename).after (before ++ [.openReader id])).delivered later <:+
        (ofSource source filename).delivered steps := by
      have split_steps : steps = (before ++ [.openReader id]) ++ later :=
        steps_eq.trans (List.append_cons before _ later)
      rw [split_steps, delivered_append]
      exact List.suffix_append _ _
    have inStream := mine.sublist.trans ordered.sublist
    rw [split, List.append_assoc] at inStream
    rw [split, List.length_append, List.length_singleton] at often
    refine exists_endOfInput_of_length_lt inStream (fun token member => ?_) replies often
    rcases List.mem_append.mp member with here | copy
    · rw [List.mem_singleton.mp here]
      exact final
    · rw [List.eq_of_mem_replicate copy]
      exact final

/-- Two readers that are opened early and outlast the source, among other ways of asking. -/
def twoReaders : List Step :=
  [.openReader "a", .pull "a", .openReader "b", .next, .pull "b", .take 1, .pull "a", .tokenize,
    .pull "b", .pull "a", .take 2, .pull "b"]

theorem shares_tokenize_two_readers :
    (∀ step ∈ twoReaders, step.pulls = true) ∧
      (ofSource "let x\n= 1;" "main").Shares (tokenize "let x\n= 1;" "main") twoReaders := by
  have pulls : ∀ step ∈ twoReaders, step.pulls = true := List.all_eq_true.mp (by decide)
  exact ⟨pulls, shares_tokenize "let x\n= 1;" "main" pulls⟩

end Session

end MonkeySource
