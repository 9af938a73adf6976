import MonkeySource.Scanner.Alphabet
import MonkeySource.Token.Spelling

set_option autoImplicit false

/-!
# Character classes and symbol tables

The classes from which lexemes start exclude one another, the tables hold exactly the symbols of
one and of two characters, and the words are the keywords and the identifiers.
-/

namespace MonkeySource

theorem isWordPart_of_isLetter {c : Char} (letter : isLetter c = true) : isWordPart c = true := by
  simp [isWordPart, letter]

theorem isWordPart_of_isDigit {c : Char} (digit : isDigit c = true) : isWordPart c = true := by
  simp [isWordPart, digit]

theorem isDigit_eq_false_of_isLetter {c : Char} (letter : isLetter c = true) :
    isDigit c = false := by
  simp only [isLetter, decide_eq_true_eq, Char.le_def] at letter
  simp only [isDigit, decide_eq_false_iff_not, Char.le_def]
  rcases letter with lower | upper | rfl
  · have : ('9' : Char).val < ('a' : Char).val := by decide
    grind
  · have : ('9' : Char).val < ('A' : Char).val := by decide
    grind
  · decide

theorem isWordPart_eq_false_of_isBlank {c : Char} (blank : isBlank c = true) :
    isWordPart c = false := by
  have member : c ∈ blanks := by simpa [isBlank] using blank
  have checked : blanks.all (fun d => !isWordPart d) = true := by decide
  simpa using List.all_eq_true.mp checked c member

theorem isBlank_eq_false_of_isWordPart {c : Char} (part : isWordPart c = true) :
    isBlank c = false := by
  cases blank : isBlank c with
  | false => rfl
  | true =>
      rw [isWordPart_eq_false_of_isBlank blank] at part
      cases part

theorem isWordPart_quote : isWordPart '"' = false := by decide

theorem isBlank_quote : isBlank '"' = false := by decide

namespace Symbol

theorem mem_singleSymbols_iff {c : Char} {fixed : Symbol} :
    (c, fixed) ∈ singleSymbols ↔ fixed.spelling.toList = [c] := by
  cases fixed with
  | operator op => cases op <;> simp [singleSymbols, spelling, eq_comm]
  | delimiter mark => cases mark <;> simp [singleSymbols, spelling, eq_comm]

theorem mem_pairSymbols_iff {first second : Char} {fixed : Symbol} :
    ((first, second), fixed) ∈ pairSymbols ↔ fixed.spelling.toList = [first, second] := by
  cases fixed with
  | operator op => cases op <;> simp [pairSymbols, spelling, eq_comm]
  | delimiter mark => cases mark <;> simp [pairSymbols, spelling, eq_comm]

private theorem mem_of_lookup {α β : Type} [BEq α] [LawfulBEq α] {table : List (α × β)} {key : α}
    {value : β} (found : table.lookup key = some value) : (key, value) ∈ table := by
  obtain ⟨before, after, split, _⟩ := List.lookup_eq_some_iff.mp found
  rw [split]
  exact List.mem_append_right before List.mem_cons_self

theorem ofChar?_eq_some_iff {c : Char} {fixed : Symbol} :
    ofChar? c = some fixed ↔ fixed.spelling.toList = [c] := by
  have listed : ∀ entry ∈ singleSymbols, ofChar? entry.1 = some entry.2 := by decide
  rw [← mem_singleSymbols_iff]
  exact ⟨mem_of_lookup, fun member => listed (c, fixed) member⟩

theorem ofPair?_eq_some_iff {first second : Char} {fixed : Symbol} :
    ofPair? first second = some fixed ↔ fixed.spelling.toList = [first, second] := by
  have listed : ∀ entry ∈ pairSymbols, ofPair? entry.1.1 entry.1.2 = some entry.2 := by decide
  rw [← mem_pairSymbols_iff]
  exact ⟨mem_of_lookup, fun member => listed ((first, second), fixed) member⟩

/-- No symbol has more than two characters, and a second one is always `=`, after `=` or `!`. -/
theorem spelling_cases (fixed : Symbol) :
    (∃ c, fixed.spelling.toList = [c]) ∨
      ∃ c, (c = '=' ∨ c = '!') ∧ fixed.spelling.toList = [c, '='] := by
  cases fixed with
  | operator op => cases op <;> simp [spelling]
  | delimiter mark => cases mark <;> simp [spelling]

theorem spelling_injective {first second : Symbol} (same : first.spelling = second.spelling) :
    first = second := by
  rcases spelling_cases first with ⟨c, spelled⟩ | ⟨c, _, spelled⟩
  · have found := ofChar?_eq_some_iff.mpr spelled
    rw [ofChar?_eq_some_iff.mpr (same ▸ spelled)] at found
    exact (Option.some.inj found).symm
  · have found := ofPair?_eq_some_iff.mpr spelled
    rw [ofPair?_eq_some_iff.mpr (same ▸ spelled)] at found
    exact (Option.some.inj found).symm

/-- The characters of symbols belong to no other class, and are symbols by themselves. -/
theorem class_of_mem_spelling {fixed : Symbol} {c : Char} (member : c ∈ fixed.spelling.toList) :
    (ofChar? c).isSome = true ∧ isBlank c = false ∧ isWordPart c = false ∧ c ≠ '"' := by
  have checked : fixed.spelling.toList.all (fun d =>
      (ofChar? d).isSome && (!isBlank d && (!isWordPart d && d != '"'))) = true := by
    cases fixed with
    | operator op => cases op <;> decide
    | delimiter mark => cases mark <;> decide
  simpa using List.all_eq_true.mp checked c member

theorem head_class (fixed : Symbol) {c : Char} {rest : List Char}
    (spelled : fixed.spelling.toList = c :: rest) :
    (ofChar? c).isSome = true ∧ isBlank c = false ∧ isWordPart c = false ∧ c ≠ '"' := by
  have member : c ∈ fixed.spelling.toList := by
    rw [spelled]
    exact List.mem_cons_self
  exact class_of_mem_spelling member

end Symbol

namespace TokenKind

theorem ofWord_spelling (keyword : Keyword) : ofWord keyword.spelling = .keyword keyword := by
  cases keyword <;> rfl

theorem ofWord_cases (word : String) :
    (∃ keyword : Keyword, keyword.spelling = word ∧ ofWord word = .keyword keyword) ∨
      (∀ keyword : Keyword, keyword.spelling ≠ word) ∧ ofWord word = .identifier := by
  have complete : ∀ keyword : Keyword, keyword ∈ Keyword.all := by
    intro keyword
    cases keyword <;> decide
  cases found : Keyword.ofSpelling? word with
  | some keyword =>
      exact .inl ⟨keyword, by simpa using List.find?_some found, by simp [ofWord, found]⟩
  | none =>
      refine .inr ⟨fun keyword => ?_, by simp [ofWord, found]⟩
      simpa using List.find?_eq_none.mp found keyword (complete keyword)

theorem ofWord_eq_identifier_iff {word : String} :
    ofWord word = .identifier ↔ ∀ keyword : Keyword, keyword.spelling ≠ word := by
  rcases ofWord_cases word with ⟨keyword, spelled, kind⟩ | ⟨free, kind⟩
  · simp only [kind, reduceCtorEq, false_iff]
    exact fun free => free keyword spelled
  · simp only [kind, true_iff]
    exact free

end TokenKind

end MonkeySource
