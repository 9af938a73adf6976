import MonkeySource.Program.Basic

set_option autoImplicit false

/-!
# Programs that differ at one place

Two programs that have the same statements in front of a place and behind it, as their text and their
children show them.
-/

namespace MonkeySource

namespace Statement

def setToken (token : Token) : Statement → Statement
  | .letBinding _ name value => .letBinding token name value
  | .returning _ value => .returning token value
  | .expression _ value => .expression token value

def setValue (value : Option Identifier) : Statement → Statement
  | .letBinding token name _ => .letBinding token name value
  | .returning token _ => .returning token value
  | .expression token _ => .expression token value

def mapName (change : Identifier → Identifier) : Statement → Statement
  | .letBinding token name value => .letBinding token (change name) value
  | statement => statement

end Statement

namespace Program

variable {program : Program}

/-- One place of two programs: what stands there in the first, and what stands there in the second. -/
structure Exchange where
  index : Nat
  old : Option Statement
  new : Option Statement
  deriving DecidableEq, Repr

/-- One statement, or none, with others in front and behind, as the program shows them. -/
structure Around (program : Program) (front : List Statement) (here : Option Statement)
    (back : List Statement) : Prop where
  statements : program.statements = front ++ here.toList ++ back
  text : program.text =
    (Program.mk front).text ++ (here.map Statement.text).getD "" ++ (Program.mk back).text
  details : program.statements.map Statement.detail =
    front.map Statement.detail ++ (here.map Statement.detail).toList ++ back.map Statement.detail

theorem text_append (front back : List Statement) :
    (Program.mk (front ++ back)).text = (Program.mk front).text ++ (Program.mk back).text := by
  induction front with
  | nil => exact String.empty_append.symm
  | cons statement front ih =>
      calc statement.text ++ (Program.mk (front ++ back)).text
          = statement.text ++ ((Program.mk front).text ++ (Program.mk back).text) := by rw [ih]
        _ = statement.text ++ (Program.mk front).text ++ (Program.mk back).text :=
          String.append_assoc.symm

theorem around {front back : List Statement} {here : Option Statement}
    (statements : program.statements = front ++ here.toList ++ back) :
    program.Around front here back := by
  obtain ⟨all⟩ := program
  obtain rfl := statements
  refine ⟨rfl, ?_, ?_⟩
  · have shown : (Program.mk here.toList).text = (here.map Statement.text).getD "" := by
      cases here with
      | none => rfl
      | some statement => exact String.append_empty
    rw [text_append, text_append, shown]
  · rw [List.map_append, List.map_append, Option.toList_map]

/-- Nothing else is different but what stands at the place. -/
def DifferOnlyAt (exchange : Exchange) (before after : Program) : Prop :=
  ∃ back, before.Around (before.statements.take exchange.index) exchange.old back ∧
    after.Around (before.statements.take exchange.index) exchange.new back

theorem split_at (statements : List Statement) (index : Nat) :
    statements = statements.take index ++ statements[index]?.toList ++ statements.drop (index + 1) := by
  rw [← List.take_add_one, List.take_append_drop]

theorem differOnlyAt_of_getElem? {before after : Program} {index : Nat}
    (others : ∀ other, other ≠ index → after.statements[other]? = before.statements[other]?) :
    DifferOnlyAt ⟨index, before.statements[index]?, after.statements[index]?⟩ before after := by
  have front : after.statements.take index = before.statements.take index := by
    apply List.ext_getElem?
    intro other
    rw [List.getElem?_take, List.getElem?_take]
    split
    · next inFront => exact others other (Nat.ne_of_lt inFront)
    · rfl
  have back : after.statements.drop (index + 1) = before.statements.drop (index + 1) := by
    apply List.ext_getElem?
    intro steps
    rw [List.getElem?_drop, List.getElem?_drop]
    exact others _ (by omega)
  have split := split_at after.statements index
  rw [front, back] at split
  exact ⟨_, around (split_at before.statements index), around split⟩

theorem differOnlyAt_insert (statements : List Statement) (index : Nat) (statement : Statement) :
    DifferOnlyAt ⟨index, none, some statement⟩ ⟨statements⟩
      ⟨statements.take index ++ statement :: statements.drop index⟩ := by
  refine ⟨statements.drop index, around ?_, around ?_⟩ <;> simp

theorem differOnlyAt_append (statements : List Statement) (statement : Statement) :
    DifferOnlyAt ⟨statements.length, none, some statement⟩ ⟨statements⟩
      ⟨statements ++ [statement]⟩ := by
  have inserted := differOnlyAt_insert statements statements.length statement
  rwa [List.take_length, List.drop_length] at inserted

theorem differOnlyAt_eraseIdx (statements : List Statement) (index : Nat) :
    DifferOnlyAt ⟨index, statements[index]?, none⟩ ⟨statements⟩ ⟨statements.eraseIdx index⟩ := by
  refine ⟨statements.drop (index + 1), around (split_at _ _), around ?_⟩
  rw [List.eraseIdx_eq_take_drop_succ, Option.toList_none, List.append_nil]

/-- What was put in at an index is taken out at that index again. -/
theorem eraseIdx_take_append_cons_drop {statements : List Statement} {index : Nat}
    (inside : index ≤ statements.length) (statement : Statement) :
    (statements.take index ++ statement :: statements.drop index).eraseIdx index = statements := by
  have front : (statements.take index).length = index := List.length_take_of_le inside
  rw [List.eraseIdx_append_of_length_le (Nat.le_of_eq front), front, Nat.sub_self,
    List.eraseIdx_cons_zero, List.take_append_drop]

theorem tokenLiteral_eq (program : Program) :
    program.tokenLiteral = (program.statements.head?.map Statement.tokenLiteral).getD "" := by
  obtain ⟨statements⟩ := program
  cases statements <;> rfl

end Program

end MonkeySource
