import MonkeySource.Program.Edit
import MonkeySource.Proofs.LocalEdits

set_option autoImplicit false

/-!
# Objects of a program

What is read from the objects as a statement and as a program, and from which of them it is read. A
change to an object shows in the statements that it belongs to and in no others.
-/

namespace MonkeySource

namespace StatementObject

def token : StatementObject → Token
  | .letBinding token _ _ | .returning token _ | .expression token _ => token

def parts : StatementObject → List Nat
  | .letBinding _ name value => name :: value.toList
  | .returning _ value | .expression _ value => value.toList

theorem parts_setToken (token : Token) (object : StatementObject) :
    (object.setToken token).parts = object.parts := by
  cases object <;> rfl

theorem mem_parts_setValue {value : Option Nat} {object : StatementObject} {part : Nat}
    (member : part ∈ (object.setValue value).parts) : part ∈ object.parts ∨ part ∈ value := by
  cases object with
  | letBinding _ _ _ =>
      rcases List.mem_cons.mp member with rfl | given
      · exact .inl List.mem_cons_self
      · exact .inr (Option.mem_toList.mp given)
  | returning _ _ | expression _ _ => exact .inr (Option.mem_toList.mp member)

theorem mem_parts_setName {name : Nat} {object : StatementObject} {part : Nat}
    (member : part ∈ (object.setName name).parts) : part ∈ object.parts ∨ part = name := by
  cases object with
  | letBinding _ _ _ =>
      rcases List.mem_cons.mp member with given | kept
      · exact .inr given
      · exact .inl (List.mem_cons_of_mem _ kept)
  | returning _ _ | expression _ _ => exact .inl member

theorem token_setValue (value : Option Nat) (object : StatementObject) :
    (object.setValue value).token = object.token := by
  cases object <;> rfl

theorem token_setName (name : Nat) (object : StatementObject) :
    (object.setName name).token = object.token := by
  cases object <;> rfl

theorem mem_parts_of_name? {object : StatementObject} {name : Nat}
    (named : object.name? = some name) : name ∈ object.parts := by
  cases object with
  | letBinding _ _ _ =>
      obtain rfl := Option.some.inj named
      exact List.mem_cons_self
  | returning _ _ | expression _ _ => cases named

end StatementObject

namespace Heap

variable {heap : Heap} {program : Program}

def Owns (heap : Heap) (address part : Nat) : Prop :=
  ∃ object, heap.statements[address]? = some object ∧ part ∈ object.parts

/-! ## Statements -/

/-- The statement that an object shows, with the identifiers that are its parts. -/
inductive Shows (heap : Heap) : StatementObject → Statement → Prop where
  | letBinding {token : Token} {name : Nat} {value : Option Nat} {named : Identifier}
      {valued : Option Identifier} :
      heap.identifiers[name]? = some named → heap.value? value = some valued →
      Shows heap (.letBinding token name value) (.letBinding token named valued)
  | returning {token : Token} {value : Option Nat} {valued : Option Identifier} :
      heap.value? value = some valued → Shows heap (.returning token value) (.returning token valued)
  | expression {token : Token} {value : Option Nat} {valued : Option Identifier} :
      heap.value? value = some valued →
      Shows heap (.expression token value) (.expression token valued)

theorem statementOf?_eq_some_iff {object : StatementObject} {statement : Statement} :
    heap.statementOf? object = some statement ↔ heap.Shows object statement := by
  constructor
  · intro read
    cases object with
    | letBinding token name value =>
        obtain ⟨named, stands, read⟩ := Option.bind_eq_some_iff.mp read
        obtain ⟨valued, shown, same⟩ := Option.bind_eq_some_iff.mp read
        cases same
        exact .letBinding stands shown
    | returning token value =>
        obtain ⟨valued, shown, same⟩ := Option.bind_eq_some_iff.mp read
        cases same
        exact .returning shown
    | expression token value =>
        obtain ⟨valued, shown, same⟩ := Option.bind_eq_some_iff.mp read
        cases same
        exact .expression shown
  · intro shows
    cases shows with
    | letBinding stands shown => simp [statementOf?, stands, shown]
    | returning shown | expression shown => simp [statementOf?, shown]

theorem statement?_eq_some_iff {address : Nat} {statement : Statement} :
    heap.statement? address = some statement ↔
      ∃ object, heap.statements[address]? = some object ∧ heap.Shows object statement := by
  simp only [statement?, Option.bind_eq_some_iff, statementOf?_eq_some_iff]

/-- A statement is read from its own object and from its parts only. -/
theorem statementOf?_congr {other : Heap} {object : StatementObject}
    (parts : ∀ part ∈ object.parts, other.identifiers[part]? = heap.identifiers[part]?) :
    other.statementOf? object = heap.statementOf? object := by
  have values (value : Option Nat) (ofValue : ∀ part ∈ value.toList,
      other.identifiers[part]? = heap.identifiers[part]?) : other.value? value = heap.value? value := by
    cases value with
    | none => rfl
    | some address => rw [value?, value?, ofValue address (List.mem_singleton.mpr rfl)]
  cases object with
  | letBinding _ name value =>
      obtain ⟨named, valued⟩ := List.forall_mem_cons.mp parts
      rw [statementOf?, statementOf?, named, values value valued]
  | returning _ value | expression _ value =>
      rw [statementOf?, statementOf?, values value parts]

theorem Shows.of_identifiers {other : Heap} {object : StatementObject} {statement : Statement}
    (shows : heap.Shows object statement) (same : other.identifiers = heap.identifiers) :
    other.Shows object statement := by
  apply statementOf?_eq_some_iff.mp
  refine Eq.trans (statementOf?_congr fun part _ => ?_) (statementOf?_eq_some_iff.mpr shows)
  rw [same]

theorem statement?_congr {other : Heap} {address : Nat}
    (object : other.statements[address]? = heap.statements[address]?)
    (parts : ∀ part, heap.Owns address part → other.identifiers[part]? = heap.identifiers[part]?) :
    other.statement? address = heap.statement? address := by
  rw [statement?, statement?, object]
  cases stands : heap.statements[address]? with
  | none => rfl
  | some object => exact statementOf?_congr fun part member => parts part ⟨object, stands, member⟩

theorem Shows.setToken {object : StatementObject} {statement : Statement}
    (shows : heap.Shows object statement) (token : Token) :
    heap.Shows (object.setToken token) (statement.setToken token) := by
  cases shows with
  | letBinding stands shown => exact .letBinding stands shown
  | returning shown => exact .returning shown
  | expression shown => exact .expression shown

theorem Shows.setValue {object : StatementObject} {statement : Statement}
    (shows : heap.Shows object statement) {value : Option Nat} {valued : Option Identifier}
    (shown : heap.value? value = some valued) :
    heap.Shows (object.setValue value) (statement.setValue valued) := by
  cases shows with
  | letBinding stands _ => exact .letBinding stands shown
  | returning _ => exact .returning shown
  | expression _ => exact .expression shown

theorem Shows.setName {object : StatementObject} {statement : Statement}
    (shows : heap.Shows object statement) {name : Nat} {named : Identifier}
    (stands : heap.identifiers[name]? = some named) :
    heap.Shows (object.setName name) (statement.mapName fun _ => named) := by
  cases shows with
  | letBinding _ shown => exact .letBinding stands shown
  | returning shown => exact .returning shown
  | expression shown => exact .expression shown

/-! ## Changes -/

theorem of_getElem?_changeStatement {address other : Nat} {object : StatementObject}
    {change : StatementObject → StatementObject}
    (stands : (heap.changeStatement address change).statements[other]? = some object) :
    heap.statements[other]? = some object ∨
      (other = address ∧ ∃ before, heap.statements[address]? = some before ∧
        object = change before) := by
  simp only [changeStatement, List.getElem?_modify] at stands
  obtain ⟨before, stood, same⟩ := Option.map_eq_some_iff.mp stands
  by_cases here : address = other
  · subst here
    exact .inr ⟨rfl, before, stood, by simpa using same.symm⟩
  · rw [if_neg here] at same
    exact .inl (same ▸ stood)

theorem statement?_changeStatement_of_ne {address other : Nat} (different : address ≠ other)
    (change : StatementObject → StatementObject) :
    (heap.changeStatement address change).statement? other = heap.statement? other :=
  statement?_congr (by simp [changeStatement, different]) fun _ _ => rfl

theorem statement?_changeStatement {address : Nat} {statement shown : Statement}
    {change : StatementObject → StatementObject} (read : heap.statement? address = some statement)
    (shows : ∀ object, heap.Shows object statement → heap.Shows (change object) shown) :
    (heap.changeStatement address change).statement? address = some shown := by
  obtain ⟨object, stands, showed⟩ := statement?_eq_some_iff.mp read
  refine statement?_eq_some_iff.mpr
    ⟨change object, ?_, (shows object showed).of_identifiers rfl⟩
  simp [changeStatement, stands]

theorem statement?_changeIdentifier {name address : Nat} (unowned : ¬ heap.Owns address name)
    (change : Identifier → Identifier) :
    (heap.changeIdentifier name change).statement? address = heap.statement? address := by
  refine statement?_congr rfl fun part owned => ?_
  have unlike : name ≠ part := fun same => unowned (same ▸ owned)
  simp [changeIdentifier, unlike]

theorem changeAt_cases (heap : Heap) (index : Nat) (change : StatementObject → StatementObject) :
    (heap.members[index]? = none ∧ heap.changeAt index change = heap) ∨
      ∃ address, heap.members[index]? = some address ∧
        heap.changeAt index change = heap.changeStatement address change := by
  unfold changeAt
  cases heap.members[index]? with
  | none => exact .inl ⟨rfl, rfl⟩
  | some address => exact .inr ⟨address, rfl, rfl⟩

theorem changeNameAt_cases (heap : Heap) (index : Nat) (change : Identifier → Identifier) :
    (heap.nameAt? index = none ∧ heap.changeNameAt index change = heap) ∨
      ∃ name, heap.nameAt? index = some name ∧
        heap.changeNameAt index change = heap.changeIdentifier name change := by
  unfold changeNameAt
  cases heap.nameAt? index with
  | none => exact .inl ⟨rfl, rfl⟩
  | some name => exact .inr ⟨name, rfl, rfl⟩

/-! ## Programs -/

/-- The program that is read, each of its statements from the address in its place. -/
def ReadsAs (heap : Heap) (program : Program) : Prop :=
  heap.members.map heap.statement? = program.statements.map some

theorem mapM_eq_some_of_map_eq {α β : Type} {read : α → Option β} {items : List α} {values : List β}
    (same : items.map read = values.map some) : items.mapM read = some values := by
  induction items generalizing values with
  | nil =>
      cases values with
      | nil => rfl
      | cons _ _ => cases same
  | cons item items ih =>
      cases values with
      | nil => cases same
      | cons value values =>
          obtain ⟨here, behind⟩ := List.cons_eq_cons.mp same
          rw [List.mapM_cons, here, ih behind]
          rfl

theorem ReadsAs.program?_eq (reads : heap.ReadsAs program) : heap.program? = some program := by
  rw [program?, mapM_eq_some_of_map_eq reads]
  rfl

theorem ReadsAs.unique {other : Program} (reads : heap.ReadsAs program)
    (again : heap.ReadsAs other) : other = program :=
  Option.some.inj (again.program?_eq.symm.trans reads.program?_eq)

theorem ReadsAs.getElem? (reads : heap.ReadsAs program) (index : Nat) :
    program.statements[index]? = heap.members[index]?.bind heap.statement? := by
  have same : heap.members[index]?.map heap.statement? = program.statements[index]?.map some := by
    rw [← List.getElem?_map, reads, List.getElem?_map]
  cases stands : program.statements[index]? with
  | none =>
      rw [stands, Option.map_none, Option.map_eq_none_iff] at same
      rw [same, Option.bind_none]
  | some statement =>
      rw [stands, Option.map_some] at same
      obtain ⟨address, listed, read⟩ := Option.map_eq_some_iff.mp same
      rw [listed, Option.bind_some, read]

theorem ReadsAs.length_eq (reads : heap.ReadsAs program) :
    heap.members.length = program.statements.length := by
  rw [← List.length_map, reads, List.length_map]

/-- The literal of a statement's token, which no part of the statement has a share in. -/
def literal? (heap : Heap) (address : Nat) : Option String :=
  heap.statements[address]?.map fun object => object.token.literal

theorem literal?_eq_of_statement? {address : Nat} {statement : Statement}
    (read : heap.statement? address = some statement) :
    heap.literal? address = some statement.tokenLiteral := by
  obtain ⟨object, stands, shows⟩ := statement?_eq_some_iff.mp read
  rw [literal?, stands]
  cases shows <;> rfl

theorem ReadsAs.exists_of_mem (reads : heap.ReadsAs program) {address : Nat}
    (member : address ∈ heap.members) : ∃ statement, heap.statement? address = some statement := by
  have read : heap.statement? address ∈ program.statements.map some :=
    reads ▸ List.mem_map_of_mem member
  obtain ⟨statement, _, read⟩ := List.mem_map.mp read
  exact ⟨statement, read.symm⟩

theorem ReadsAs.map_literal? (reads : heap.ReadsAs program) :
    heap.members.map heap.literal? =
      (program.statements.map Statement.tokenLiteral).map some := by
  calc heap.members.map heap.literal?
      = heap.members.map fun address => (heap.statement? address).map Statement.tokenLiteral := by
        refine List.map_congr_left fun address member => ?_
        obtain ⟨statement, read⟩ := reads.exists_of_mem member
        rw [literal?_eq_of_statement? read, read, Option.map_some]
    _ = (heap.members.map heap.statement?).map (Option.map Statement.tokenLiteral) := by
        rw [List.map_map]
        rfl
    _ = (program.statements.map Statement.tokenLiteral).map some := by
        rw [reads, List.map_map, List.map_map]
        rfl

end Heap

end MonkeySource
