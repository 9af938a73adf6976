import MonkeySource.Diagnostic.Basic
import MonkeySource.Proofs.LocationText

set_option autoImplicit false

/-!
# Rendered diagnostics

The rendered form of a diagnostic is read back line by line, and the lines part by part: the first
from its front, at the bracket or the colon behind the capitals, and the location from its end. So
the texts of a diagnostic may imitate its form; only line feeds and misplaced brackets or colons
would blur it.
-/

namespace MonkeySource

/-! ## Lines -/

def OneLine (text : String) : Prop := '\n' ∉ text.toList

instance (text : String) : Decidable (OneLine text) :=
  inferInstanceAs (Decidable (_ ∉ _))

@[simp] theorem oneLine_append {first second : String} :
    OneLine (first ++ second) ↔ OneLine first ∧ OneLine second := by
  simp only [OneLine, String.toList_append, List.mem_append, not_or]

theorem oneLine_repr (value : Int) : OneLine value.repr :=
  not_mem_repr (by decide) (by decide) value

def joinLines (lines : List String) : String :=
  lines.foldr (fun line text => line ++ "\n" ++ text) ""

theorem toList_joinLines_cons (line : String) (lines : List String) :
    (joinLines (line :: lines)).toList = line.toList ++ '\n' :: (joinLines lines).toList := by
  have feed : "\n".toList = ['\n'] := by decide
  rw [joinLines, List.foldr_cons, String.toList_append, String.toList_append, feed,
    List.append_assoc]
  rfl

/-- Whole lines are told apart by their line feeds. -/
theorem joinLines_injective {first second : List String} (firstWhole : ∀ line ∈ first, OneLine line)
    (secondWhole : ∀ line ∈ second, OneLine line) (same : joinLines first = joinLines second) :
    first = second := by
  have notEmpty (line : String) (lines : List String) : joinLines (line :: lines) ≠ "" := by
    intro empty
    have none := congrArg String.toList empty
    rw [toList_joinLines_cons] at none
    exact List.append_ne_nil_of_right_ne_nil _ (List.cons_ne_nil _ _) none
  induction first generalizing second with
  | nil =>
      cases second with
      | nil => rfl
      | cons line second => exact absurd same.symm (notEmpty line second)
  | cons line first ih =>
      cases second with
      | nil => exact absurd same (notEmpty line first)
      | cons other second =>
          have texts := congrArg String.toList same
          rw [toList_joinLines_cons, toList_joinLines_cons] at texts
          obtain ⟨lines, _, rests⟩ := append_cons_inj_of_not_mem_front
            (firstWhole line List.mem_cons_self) (secondWhole other List.mem_cons_self) texts
          have behind := ih (fun line member => firstWhole line (List.mem_cons_of_mem _ member))
            (fun line member => secondWhole line (List.mem_cons_of_mem _ member))
            (String.toList_inj.mp rests)
          rw [String.toList_inj.mp lines, behind]

namespace Diagnostic

/-! ## What is shown -/

def capitals (diagnostic : Diagnostic) : String :=
  String.ofList (diagnostic.severity.toList.map Char.toUpper)

/-- What follows the capitals on the first line. -/
def behindCapitals (code message : String) : List Char :=
  if code = "" then ':' :: ' ' :: message.toList
  else '[' :: (code.toList ++ ']' :: ':' :: ' ' :: message.toList)

def shownHelp (help : String) : List String :=
  if help = "" then [] else ["  help: " ++ help]

def shownSuggestions (suggestions : List String) : List String :=
  if suggestions = [] then [] else "  suggestions:" :: suggestions.map ("    - " ++ ·)

theorem toList_heading (diagnostic : Diagnostic) :
    (diagnostic.heading ++ ": " ++ diagnostic.message).toList =
      diagnostic.capitals.toList ++
        behindCapitals (diagnostic.code.getD "") diagnostic.message := by
  have opening : "[".toList = ['['] := by decide
  have closing : "]".toList = [']'] := by decide
  have colon : ": ".toList = [':', ' '] := by decide
  unfold heading behindCapitals
  split
  · next absent =>
      rw [absent, Option.getD_none, if_pos rfl, String.toList_append, String.toList_append, colon,
        List.append_assoc]
      rfl
  · next empty =>
      rw [empty, Option.getD_some, if_pos rfl, String.toList_append, String.toList_append, colon,
        List.append_assoc]
      rfl
  · next code shown present =>
      rw [present, Option.getD_some, if_neg shown]
      simp only [String.toList_append, opening, closing, colon, List.append_assoc,
        List.cons_append, List.nil_append]
      rfl

theorem helpLines_eq (diagnostic : Diagnostic) :
    diagnostic.helpLines = shownHelp (diagnostic.help.getD "") := by
  unfold helpLines
  split
  · next absent => rw [absent]; rfl
  · next empty => rw [empty]; rfl
  · next help shown present => rw [present, Option.getD_some, shownHelp, if_neg shown]

theorem suggestionLines_eq (diagnostic : Diagnostic) :
    diagnostic.suggestionLines = shownSuggestions (diagnostic.suggestions.getD []) := by
  unfold suggestionLines
  split
  · next absent => rw [absent]; rfl
  · next empty => rw [empty]; rfl
  · next suggestions shown present =>
      rw [present, Option.getD_some, shownSuggestions, if_neg shown]

/-! ## Reading back -/

theorem behindCapitals_eq_cons (code message : String) :
    ∃ mark rest, mark ∈ ['[', ':'] ∧ behindCapitals code message = mark :: rest := by
  unfold behindCapitals
  split
  · exact ⟨_, _, .tail _ (.head _), rfl⟩
  · exact ⟨_, _, .head _, rfl⟩

theorem behindCapitals_inj {code other message text : String} (codeClosed : ']' ∉ code.toList)
    (otherClosed : ']' ∉ other.toList)
    (same : behindCapitals code message = behindCapitals other text) :
    code = other ∧ message = text := by
  unfold behindCapitals at same
  split at same
  · next absent =>
      split at same
      · next otherAbsent =>
          obtain ⟨_, messages⟩ := List.cons.inj same
          exact ⟨absent.trans otherAbsent.symm, String.toList_inj.mp (List.cons.inj messages).2⟩
      · exact absurd (List.cons.inj same).1 (by decide)
  · split at same
    · exact absurd (List.cons.inj same).1 (by decide)
    · obtain ⟨codes, _, messages⟩ :=
        append_cons_inj_of_not_mem_front codeClosed otherClosed (List.cons.inj same).2
      obtain ⟨_, messages⟩ := List.cons.inj messages
      exact ⟨String.toList_inj.mp codes, String.toList_inj.mp (List.cons.inj messages).2⟩

/-- The words that open the two parts of the tail differ at their third character. -/
theorem shownSuggestions_ne_help (suggestions rest : List String) (help : String) :
    shownSuggestions suggestions ≠ ("  help: " ++ help) :: rest := by
  unfold shownSuggestions
  split
  · exact List.cons_ne_nil _ _ ∘ Eq.symm
  · intro same
    have texts := congrArg (·.toList.take 3) (List.cons.inj same).1
    rw [String.toList_append, List.take_append_of_le_length (by decide)] at texts
    exact absurd texts (by decide)

theorem shownSuggestions_injective {first second : List String}
    (same : shownSuggestions first = shownSuggestions second) : first = second := by
  unfold shownSuggestions at same
  split at same
  · next absent =>
      split at same
      · next otherAbsent => rw [absent, otherAbsent]
      · cases same
  · split at same
    · cases same
    · have items := (List.cons.inj same).2
      exact (List.map_inj_right fun _ _ => (String.append_right_inj _).mp).mp items

theorem tail_inj {help other : String} {suggestions more : List String}
    (same : shownHelp help ++ shownSuggestions suggestions =
      shownHelp other ++ shownSuggestions more) : help = other ∧ suggestions = more := by
  unfold shownHelp at same
  split at same
  · next absent =>
      split at same
      · next otherAbsent => exact ⟨absent.trans otherAbsent.symm, shownSuggestions_injective same⟩
      · exact absurd same (shownSuggestions_ne_help _ _ _)
  · split at same
    · exact absurd same.symm (shownSuggestions_ne_help _ _ _)
    · obtain ⟨helps, rests⟩ := List.cons.inj same
      exact ⟨(String.append_right_inj _).mp helps, shownSuggestions_injective rests⟩

/-! ## Legible diagnostics -/

/-- The characters that would end a severity. -/
def severityEnds : List Char := ['\n', '[', ':']

/-- Fields that keep to the form. The severity is in ASCII, where capitals are settled, and free of
what ends it; a code is free of what ends it; and no text breaks its line. -/
structure Legible (diagnostic : Diagnostic) : Prop where
  severity : ∀ c ∈ diagnostic.severity.toList, c.toNat < 0x80 ∧ c ∉ severityEnds
  code : OneLine (diagnostic.code.getD "") ∧ ']' ∉ (diagnostic.code.getD "").toList
  message : OneLine diagnostic.message
  filename : OneLine diagnostic.location.filename
  help : OneLine (diagnostic.help.getD "")
  suggestions : ∀ suggestion ∈ diagnostic.suggestions.getD [], OneLine suggestion

/-- Agreement in all that is shown. An absent field counts as an empty one, and offsets do not
count. -/
structure ShownAlike (first second : Diagnostic) : Prop where
  severity : first.severity.toList.map Char.toUpper = second.severity.toList.map Char.toUpper
  message : first.message = second.message
  filename : first.location.filename = second.location.filename
  line : first.location.line = second.location.line
  column : first.location.column = second.location.column
  code : first.code.getD "" = second.code.getD ""
  help : first.help.getD "" = second.help.getD ""
  suggestions : first.suggestions.getD [] = second.suggestions.getD []

theorem eq_of_toUpper_eq {c mark : Char} (ascii : c.toNat < 0x80) (ends : mark ∈ severityEnds)
    (capital : c.toUpper = mark) : c = mark := by
  have all : ∀ code : Fin 0x80, (Char.ofNat code).toUpper ∈ severityEnds →
      (Char.ofNat code).toUpper = Char.ofNat code := by
    decide
  have same := all ⟨c.toNat, ascii⟩
  rw [Char.ofNat_toNat, capital] at same
  exact (same ends).symm

namespace Legible

variable {diagnostic : Diagnostic}

theorem not_mem_capitals (legible : diagnostic.Legible) {mark : Char}
    (ends : mark ∈ severityEnds) : mark ∉ diagnostic.capitals.toList := by
  intro member
  rw [capitals, String.toList_ofList] at member
  obtain ⟨c, inSeverity, capital⟩ := List.mem_map.mp member
  obtain ⟨ascii, notMark⟩ := legible.severity c inSeverity
  exact notMark (eq_of_toUpper_eq ascii ends capital ▸ ends)

theorem oneLine_heading (legible : diagnostic.Legible) :
    OneLine (diagnostic.heading ++ ": " ++ diagnostic.message) := by
  have behind : '\n' ∉ behindCapitals (diagnostic.code.getD "") diagnostic.message := by
    have code : '\n' ∉ (diagnostic.code.getD "").toList := legible.code.1
    have message : '\n' ∉ diagnostic.message.toList := legible.message
    unfold behindCapitals
    split
    · simp only [List.mem_cons, message, or_false]
      decide
    · simp only [List.mem_cons, List.mem_append, code, message, or_false, false_or]
      decide
  rw [OneLine, toList_heading, List.mem_append, not_or]
  exact ⟨legible.not_mem_capitals (.head _), behind⟩

theorem oneLine_location (legible : diagnostic.Legible) :
    OneLine ("  --> " ++ diagnostic.location.text) := by
  have arrow : OneLine "  --> " := by decide
  have colon : OneLine ":" := by decide
  simp only [Location.text, oneLine_append, arrow, colon, legible.filename, oneLine_repr, and_self]

theorem oneLine_of_mem_shownHelp (legible : diagnostic.Legible) :
    ∀ line ∈ shownHelp (diagnostic.help.getD ""), OneLine line := by
  have opening : OneLine "  help: " := by decide
  unfold shownHelp
  split
  · exact fun _ member => absurd member List.not_mem_nil
  · rintro line (_ | ⟨_, none⟩)
    · exact oneLine_append.mpr ⟨opening, legible.help⟩
    · cases none

theorem oneLine_of_mem_shownSuggestions (legible : diagnostic.Legible) :
    ∀ line ∈ shownSuggestions (diagnostic.suggestions.getD []), OneLine line := by
  have opening : OneLine "  suggestions:" := by decide
  have bullet : OneLine "    - " := by decide
  unfold shownSuggestions
  split
  · exact fun _ member => absurd member List.not_mem_nil
  · rintro line (_ | ⟨_, item⟩)
    · exact opening
    · obtain ⟨suggestion, member, rfl⟩ := List.mem_map.mp item
      exact oneLine_append.mpr ⟨bullet, legible.suggestions suggestion member⟩

theorem oneLine_of_mem_lines (legible : diagnostic.Legible) :
    ∀ line ∈ diagnostic.lines, OneLine line := by
  unfold lines
  rw [helpLines_eq, suggestionLines_eq]
  simp only [List.forall_mem_cons, List.forall_mem_append]
  exact ⟨legible.oneLine_heading, legible.oneLine_location, legible.oneLine_of_mem_shownHelp,
    legible.oneLine_of_mem_shownSuggestions⟩

end Legible

theorem heading_inj {first second : Diagnostic} (firstLegible : first.Legible)
    (secondLegible : second.Legible)
    (same : first.heading ++ ": " ++ first.message = second.heading ++ ": " ++ second.message) :
    first.capitals = second.capitals ∧ first.code.getD "" = second.code.getD "" ∧
      first.message = second.message := by
  have texts := congrArg String.toList same
  rw [toList_heading, toList_heading] at texts
  obtain ⟨mark, rest, ends, behind⟩ := behindCapitals_eq_cons (first.code.getD "") first.message
  obtain ⟨other, more, otherEnds, otherBehind⟩ :=
    behindCapitals_eq_cons (second.code.getD "") second.message
  rw [behind, otherBehind] at texts
  -- the two marks need not be the same one, but neither stands in either severity
  obtain ⟨capitals, rests⟩ := append_cons_inj_of_not_mem_front
    (firstLegible.not_mem_capitals (.tail _ otherEnds))
    (secondLegible.not_mem_capitals (.tail _ ends)) texts
  have behinds : mark :: rest = other :: more := by rw [rests.1, rests.2]
  rw [← behind, ← otherBehind] at behinds
  exact ⟨String.toList_inj.mp capitals,
    behindCapitals_inj firstLegible.code.2 secondLegible.code.2 behinds⟩

/-- Two legible diagnostics are rendered alike just if they agree in all that is shown. -/
theorem render_eq_render_iff {first second : Diagnostic} (firstLegible : first.Legible)
    (secondLegible : second.Legible) :
    first.render = second.render ↔ ShownAlike first second := by
  constructor
  · intro same
    have lines : first.lines = second.lines :=
      joinLines_injective firstLegible.oneLine_of_mem_lines secondLegible.oneLine_of_mem_lines same
    unfold Diagnostic.lines at lines
    rw [helpLines_eq, helpLines_eq, suggestionLines_eq, suggestionLines_eq] at lines
    obtain ⟨headings, lines⟩ := List.cons.inj lines
    obtain ⟨locations, tails⟩ := List.cons.inj lines
    obtain ⟨capitals, codes, messages⟩ := heading_inj firstLegible secondLegible headings
    obtain ⟨filenames, rows, columns⟩ :=
      Location.text_eq_text_iff.mp ((String.append_right_inj _).mp locations)
    obtain ⟨helps, suggestions⟩ := tail_inj tails
    exact ⟨String.ofList_inj.mp capitals, messages, filenames, rows, columns, codes, helps,
      suggestions⟩
  · intro alike
    have capitals : first.capitals = second.capitals := congrArg String.ofList alike.severity
    have headings : first.heading ++ ": " ++ first.message =
        second.heading ++ ": " ++ second.message := by
      rw [← String.toList_inj, toList_heading, toList_heading, capitals, alike.code, alike.message]
    have locations : first.location.text = second.location.text :=
      Location.text_eq_text_iff.mpr ⟨alike.filename, alike.line, alike.column⟩
    unfold render lines
    rw [headings, locations, helpLines_eq, helpLines_eq, suggestionLines_eq, suggestionLines_eq,
      alike.help, alike.suggestions]

/-- The location and the help of this one look like more of the form than they are. -/
def imitation : Diagnostic where
  message := "odd [L1]: text"
  location := ⟨"help: m:1", 2, 3, 4⟩
  code := some "L[1"
  help := some "suggestions:    - one"
  severity := "Warning"

theorem render_eq_render_iff_imitation :
    imitation.Legible ∧ { imitation with help := none, suggestions := some ["one"] }.Legible ∧
      imitation.render ≠ { imitation with help := none, suggestions := some ["one"] }.render := by
  have marks : imitation.severity.toList.all
      (fun c => c.toNat < 0x80 ∧ c ∉ severityEnds) = true := by
    decide
  have severity := fun c member => of_decide_eq_true (List.all_eq_true.mp marks c member)
  have first : imitation.Legible :=
    ⟨severity, by decide, by decide, by decide, by decide, by decide⟩
  have second : { imitation with help := none, suggestions := some ["one"] }.Legible :=
    ⟨severity, by decide, by decide, by decide, by decide, by decide⟩
  refine ⟨first, second, fun same => ?_⟩
  exact absurd ((render_eq_render_iff first second).mp same).help (by decide)

end Diagnostic

end MonkeySource
