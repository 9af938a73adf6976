import MonkeySource.Proofs.Concatenation
import MonkeySource.Proofs.QuoteParity
import MonkeySource.Proofs.StrictReading

set_option autoImplicit false

/-!
# Strict errors under more input

More input leaves the characters alone that were illegal without it. A string that was not closed is
the one thing that it can mend.
-/

namespace MonkeySource

theorem findings_eq_nil_of_tokenizeText {source filename : String} {tokens : List Token}
    (read : tokenizeText source filename true = .ok tokens) : findings source filename = [] := by
  simp only [tokenizeText, ↓reduceIte, tokenizeStrict] at read
  split at read
  · assumption
  · cases read

theorem outsideStrings_append {front : List Char} (back : List Char) {index : Nat}
    (within : index ≤ front.length) :
    outsideStrings (front ++ back) index = outsideStrings front index := by
  unfold outsideStrings
  rw [List.take_append_of_le_length within]

theorem strays_append (front back : List Char) :
    strays (front ++ back) =
      strays front ++ (back.zipIdx front.length).filter (isStray (front ++ back)) := by
  have same : ∀ place ∈ front.zipIdx, isStray (front ++ back) place = isStray front place := by
    intro place member
    have within := List.snd_lt_of_mem_zipIdx member
    unfold isStray
    rw [outsideStrings_append back (by omega)]
  unfold strays
  rw [List.zipIdx_append, List.filter_append, List.filter_congr same, Nat.zero_add]

theorem openQuote?_append_of_not_mem (front : List Char) {back : List Char} {index : Nat}
    (free : '"' ∉ back) : openQuote? (front ++ back) index = openQuote? front index := by
  have later : ((back.zipIdx (index + front.length)).filter fun place => place.1 == '"') = [] := by
    rw [List.filter_eq_nil_iff]
    intro place member isQuote
    exact free (beq_iff_eq.mp isQuote ▸ List.fst_mem_of_mem_zipIdx member)
  unfold openQuote?
  rw [List.count_append, List.count_eq_zero.mpr free, List.zipIdx_append, List.filter_append, later,
    List.append_nil, Nat.add_zero]

theorem le_of_openQuote?_append {front back : List Char} {index quote : Nat}
    (present : '"' ∈ back) (opens : openQuote? (front ++ back) index = some quote) :
    index + front.length ≤ quote := by
  obtain ⟨place, last⟩ := exists_last_quote (index + front.length) present
  unfold openQuote? at opens
  split at opens
  · rw [List.zipIdx_append, List.filter_append, List.getLast?_append, last] at opens
    obtain rfl := Option.some.inj opens
    exact List.le_snd_of_mem_zipIdx (List.mem_filter.mp (List.mem_of_getLast? last)).1
  · cases opens

theorem lt_length_of_openQuote? {text : List Char} {index quote : Nat}
    (opens : openQuote? text index = some quote) : quote < index + text.length := by
  unfold openQuote? at opens
  split at opens
  · obtain ⟨place, last, rfl⟩ := Option.map_eq_some_iff.mp opens
    exact List.snd_lt_add_of_mem_zipIdx (List.mem_filter.mp (List.mem_of_getLast? last)).1
  · cases opens

theorem illegalCharacters_append (front back filename : String) :
    illegalCharacters (front ++ back) filename = illegalCharacters front filename ++
      ((back.toList.zipIdx front.length).filter (isStray (front.toList ++ back.toList))).map
        fun place => .illegalCharacter place.1
          (.ofIndex filename (front.toList ++ back.toList) place.2) := by
  have same : ∀ place ∈ strays front.toList,
      Location.ofIndex filename (front.toList ++ back.toList) place.2 =
        .ofIndex filename front.toList place.2 := by
    intro place member
    have within := List.snd_lt_of_mem_zipIdx (List.mem_filter.mp member).1
    exact Location.ofIndex_append_of_le filename back.toList (by omega)
  unfold illegalCharacters
  rw [String.toList_append, strays_append, List.map_append, String.length_toList]
  congr 1
  exact List.map_congr_left fun place member => by rw [same place member]

theorem unterminated_append_of_not_mem {front back : String} (free : '"' ∉ back.toList)
    (filename : String) : unterminated (front ++ back) filename = unterminated front filename := by
  unfold unterminated
  rw [String.toList_append, openQuote?_append_of_not_mem front.toList free]
  cases opens : openQuote? front.toList 0 with
  | none => rfl
  | some quote =>
      have within := lt_length_of_openQuote? opens
      have same := Location.ofIndex_append_of_le filename back.toList
        (show quote ≤ front.toList.length by omega)
      simp only [Option.toList_some, List.map_cons, List.map_nil, same]

/-- In longer input the illegal characters that there were before come first. What else is noticed
stands in the new part, unless it is a string that was open and still is. -/
theorem findings_append (front back filename : String) :
    ∃ later, findings (front ++ back) filename = illegalCharacters front filename ++ later ∧
      ∀ finding ∈ later, (front.length : Int) ≤ finding.location.offset ∨
        '"' ∉ back.toList ∧ finding ∈ unterminated front filename := by
  rw [findings_eq_append, illegalCharacters_append, List.append_assoc]
  refine ⟨_, rfl, fun finding member => ?_⟩
  rcases List.mem_append.mp member with illegal | last
  · obtain ⟨place, stray, rfl⟩ := List.mem_map.mp illegal
    exact .inl (Int.ofNat_le.mpr (List.le_snd_of_mem_zipIdx (List.mem_filter.mp stray).1))
  · by_cases present : '"' ∈ back.toList
    · obtain ⟨quote, opens, rfl⟩ := List.mem_map.mp last
      rw [String.toList_append, Option.mem_toList] at opens
      have behind := le_of_openQuote?_append present opens
      rw [Nat.zero_add, String.length_toList] at behind
      exact .inl (Int.ofNat_le.mpr behind)
    · rw [unterminated_append_of_not_mem present] at last
      exact .inr ⟨present, last⟩

theorem findings_append_of_open {front back : String} (odd : front.toList.count '"' % 2 = 1)
    (free : '"' ∉ back.toList) (filename : String) :
    findings (front ++ back) filename = findings front filename := by
  have before : (front.toList ++ back.toList).take front.length = front.toList := by
    rw [← String.length_toList, List.take_left]
  have behind : (front.toList ++ back.toList).drop front.length = back.toList ++ [] := by
    rw [← String.length_toList, List.drop_left, List.append_nil]
  have nothing := strays_of_open (by rwa [before]) free behind
  rw [findings_eq_append, findings_eq_append, illegalCharacters_append, nothing,
    unterminated_append_of_not_mem free, List.map_nil, List.append_nil]

theorem odd_of_mem_unterminated {source filename : String} {finding : Finding}
    (member : finding ∈ unterminated source filename) : source.toList.count '"' % 2 = 1 := by
  obtain ⟨quote, opens, _⟩ := List.mem_map.mp member
  have someQuote : openQuote? source.toList 0 ≠ none := by
    rw [Option.mem_toList.mp opens]
    exact Option.some_ne_none quote
  rw [Ne, openQuote?_eq_none_iff] at someQuote
  omega

theorem offset_lt_of_mem_unterminated {source filename : String} {finding : Finding}
    (member : finding ∈ unterminated source filename) :
    finding.location.offset < source.length := by
  obtain ⟨quote, opens, rfl⟩ := List.mem_map.mp member
  have within := lt_length_of_openQuote? (Option.mem_toList.mp opens)
  rw [Nat.zero_add, String.length_toList] at within
  exact Int.ofNat_lt.mpr within

/-- The code of the first finding tells which kind it is. -/
theorem head?_findings_cases {source filename : String} {finding : Finding}
    (first : (findings source filename).head? = some finding) :
    finding.code = some "L001" ∧ finding ∈ (illegalCharacters source filename).head? ∨
      finding.code = some "L002" ∧ illegalCharacters source filename = [] ∧
        finding ∈ unterminated source filename := by
  rw [findings_eq_append] at first
  cases illegal : illegalCharacters source filename with
  | nil =>
      rw [illegal, List.nil_append] at first
      have member := List.mem_of_head? first
      obtain ⟨quote, _, rfl⟩ := List.mem_map.mp member
      exact .inr ⟨rfl, rfl, member⟩
  | cons head others =>
      rw [illegal] at first
      obtain rfl := Option.some.inj first
      have code : head.code = some "L001" :=
        code_of_mem_illegalCharacters (illegal ▸ List.mem_cons_self)
      exact .inl ⟨code, rfl⟩

/-- What the strict error of some input says about the strict reading of more input. -/
structure StrictUnderMoreInput (front back filename : String) : Prop where
  illegal : ∀ error, tokenizeText front filename true = .error error →
    error.diagnostic.code = some "L001" →
    tokenizeText (front ++ back) filename true = .error error
  unterminated : ∀ error, tokenizeText front filename true = .error error →
    error.diagnostic.code = some "L002" →
    (tokenizeText (front ++ back) filename true = .error error ↔ '"' ∉ back.toList)
  accepted : ∀ tokens error, tokenizeText front filename true = .ok tokens →
    tokenizeText (front ++ back) filename true = .error error →
    (front.length : Int) ≤ error.diagnostic.location.offset

/-- An error about an illegal character stays the error of all longer input, and one about a string
that is not closed does until a quote comes. What was accepted gives no error in longer input. -/
theorem strictUnderMoreInput (front back filename : String) :
    StrictUnderMoreInput front back filename := by
  obtain ⟨later, longer, behind⟩ := findings_append front back filename
  constructor
  case illegal =>
    intro error failed code
    rw [tokenizeText_eq_error_iff] at failed ⊢
    rcases head?_findings_cases failed with ⟨_, first⟩ | ⟨otherCode, _, _⟩
    · rw [longer, List.head?_append, Option.mem_def.mp first, Option.some_or]
    · exact absurd (code.symm.trans otherCode) (by decide)
  case unterminated =>
    intro error failed code
    rw [tokenizeText_eq_error_iff] at failed ⊢
    rcases head?_findings_cases failed with ⟨otherCode, _⟩ | ⟨_, noneIllegal, cutOff⟩
    · exact absurd (code.symm.trans otherCode) (by decide)
    · constructor
      · intro same
        rw [longer, noneIllegal, List.nil_append] at same
        rcases behind _ (List.mem_of_head? same) with after | ⟨free, _⟩
        · have before := offset_lt_of_mem_unterminated cutOff
          omega
        · exact free
      · intro free
        rw [findings_append_of_open (odd_of_mem_unterminated cutOff) free]
        exact failed
  case accepted =>
    intro tokens error read failed
    rw [tokenizeText_eq_error_iff, longer] at failed
    have nothing := findings_eq_nil_of_tokenizeText read
    rw [findings_eq_append, List.append_eq_nil_iff] at nothing
    rw [nothing.1, List.nil_append] at failed
    rcases behind _ (List.mem_of_head? failed) with after | ⟨_, cutOff⟩
    · exact after
    · rw [nothing.2] at cutOff
      cases cutOff

end MonkeySource
