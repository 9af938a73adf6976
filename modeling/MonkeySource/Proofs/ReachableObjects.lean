import Mathlib.Data.List.Induction
import MonkeySource.Proofs.ObjectReading

set_option autoImplicit false

/-!
# Reachable objects

Objects are made, put into lists and edited, in any order and by whoever has their addresses. All that
can be said of what comes about is that no address leads nowhere, so that there always is a program to
be read. Nothing keeps an object from being shared.
-/

namespace MonkeySource

namespace Heap

variable {heap : Heap}

/-- What an edit is handed is there. -/
def Knows (heap : Heap) : ObjectEdit → Prop
  | .append statement | .insert _ statement => statement < heap.statements.length
  | .setValue _ value => ∀ part ∈ value, part < heap.identifiers.length
  | .setName _ name => name < heap.identifiers.length
  | .remove _ | .clear | .clearCopy | .setToken _ _ | .setNameValue _ _ => True

/-- What comes about when objects are made, put into lists, and edited as a program, in any order. An
object may be handed over as often as one likes, and any list may become the program's. -/
inductive Reached : Heap → Prop where
  | empty : Reached {}
  | identifier {heap : Heap} (identifier : Identifier) :
      Reached heap → Reached (heap.newIdentifier identifier).2
  | statement {heap : Heap} {object : StatementObject} :
      Reached heap → (∀ part ∈ object.parts, part < heap.identifiers.length) →
      Reached (heap.newObject object).2
  | list {heap : Heap} {addresses : List Nat} :
      Reached heap → (∀ address ∈ addresses, address < heap.statements.length) →
      Reached (heap.newList addresses).2
  | program {heap : Heap} {list : Nat} :
      Reached heap → list < heap.lists.made.length → Reached (heap.setProgram list)
  | edit {heap : Heap} {edit : ObjectEdit} :
      Reached heap → heap.Knows edit → Reached (heap.edit edit)

/-- No address leads nowhere. -/
structure Closed (heap : Heap) : Prop where
  parts : ∀ {address part}, heap.Owns address part → part < heap.identifiers.length
  listed : ∀ {list address}, address ∈ heap.lists.get list → address < heap.statements.length
  rooted : heap.program < heap.lists.made.length

theorem closed_empty : Closed {} where
  parts := fun ⟨_, stands, _⟩ => by cases stands
  listed := by
    intro list address member
    cases list <;> cases member
  rooted := Nat.zero_lt_one

namespace Closed

theorem newIdentifier (closed : heap.Closed) (identifier : Identifier) :
    (heap.newIdentifier identifier).2.Closed where
  parts := fun owns => by
    have known := closed.parts owns
    simp only [Heap.newIdentifier, List.length_append]
    omega
  listed := closed.listed
  rooted := closed.rooted

theorem newObject (closed : heap.Closed) {object : StatementObject}
    (known : ∀ part ∈ object.parts, part < heap.identifiers.length) :
    (heap.newObject object).2.Closed where
  parts := by
    rintro address part ⟨other, stands, member⟩
    rcases List.mem_append.mp (List.mem_of_getElem? stands) with old | new
    · obtain ⟨place, stood⟩ := List.mem_iff_getElem?.mp old
      exact closed.parts ⟨other, stood, member⟩
    · obtain rfl := List.mem_singleton.mp new
      exact known part member
  listed := fun member => by
    have inside := closed.listed member
    simp only [Heap.newObject, List.length_append]
    omega
  rooted := closed.rooted

theorem newList (closed : heap.Closed) {addresses : List Nat}
    (known : ∀ address ∈ addresses, address < heap.statements.length) :
    (heap.newList addresses).2.Closed where
  parts := closed.parts
  listed := by
    intro list address member
    rcases Lists.get_add_cases addresses list with same | new
    · exact closed.listed (same ▸ member)
    · exact known address (new ▸ member)
  rooted := by
    have rooted := closed.rooted
    simp only [Heap.newList, Lists.add, List.length_append]
    omega

theorem setProgram (closed : heap.Closed) {list : Nat} (known : list < heap.lists.made.length) :
    (heap.setProgram list).Closed where
  parts := closed.parts
  listed := closed.listed
  rooted := known

theorem changeList (closed : heap.Closed) (list : Nat) {change : List Nat → List Nat}
    (known : ∀ addresses : List Nat, (∀ address ∈ addresses, address < heap.statements.length) →
      ∀ address ∈ change addresses, address < heap.statements.length) :
    (heap.changeList list change).Closed where
  parts := closed.parts
  listed := by
    intro other address member
    rcases Lists.get_change_cases list other change with same | changed
    · exact closed.listed (same ▸ member)
    · exact known _ (fun _ => closed.listed) address (changed ▸ member)
  rooted := by
    simpa only [Heap.changeList, Lists.change, List.length_modify] using closed.rooted

theorem changeAt (closed : heap.Closed) (index : Nat) {change : StatementObject → StatementObject}
    (parts : ∀ object, ∀ part ∈ (change object).parts,
      part ∈ object.parts ∨ part < heap.identifiers.length) :
    (heap.changeAt index change).Closed := by
  rcases heap.changeAt_cases index change with ⟨_, same⟩ | ⟨address, _, changed⟩
  · rw [same]
    exact closed
  · rw [changed]
    constructor
    case parts =>
      rintro other part ⟨object, stands, member⟩
      rcases of_getElem?_changeStatement stands with old | ⟨_, stood, standing, rfl⟩
      · exact closed.parts ⟨object, old, member⟩
      · rcases parts stood part member with kept | known
        · exact closed.parts ⟨stood, standing, kept⟩
        · exact known
    case listed =>
      intro list other member
      simpa only [Heap.changeStatement, List.length_modify] using closed.listed member
    case rooted => exact closed.rooted

theorem changeNameAt (closed : heap.Closed) (index : Nat) (change : Identifier → Identifier) :
    (heap.changeNameAt index change).Closed := by
  rcases heap.changeNameAt_cases index change with ⟨_, same⟩ | ⟨name, _, changed⟩
  · rw [same]
    exact closed
  · rw [changed]
    constructor
    case parts =>
      intro address part owns
      simpa only [Heap.changeIdentifier, List.length_modify] using closed.parts owns
    case listed => exact closed.listed
    case rooted => exact closed.rooted

theorem edit (closed : heap.Closed) {edit : ObjectEdit} (known : heap.Knows edit) :
    (heap.edit edit).Closed := by
  cases edit with
  | append statement =>
      apply closed.changeList
      intro addresses inside
      exact List.forall_mem_append.mpr ⟨inside, List.forall_mem_singleton.mpr known⟩
  | insert index statement =>
      apply closed.changeList
      intro addresses inside
      refine List.forall_mem_append.mpr
        ⟨fun address member => inside address (List.mem_of_mem_take member), ?_⟩
      exact List.forall_mem_cons.mpr
        ⟨known, fun address member => inside address (List.mem_of_mem_drop member)⟩
  | remove index =>
      apply closed.changeList
      exact fun addresses inside address member => inside address (List.mem_of_mem_eraseIdx member)
  | clear => exact closed.changeList _ fun _ _ => List.forall_mem_nil _
  | clearCopy =>
      have copied : heap.children.2.Closed := closed.newList fun _ => closed.listed
      exact copied.changeList _ fun _ _ => List.forall_mem_nil _
  | setToken index token =>
      exact closed.changeAt index fun object part member =>
        .inl (StatementObject.parts_setToken token object ▸ member)
  | setValue index value =>
      exact closed.changeAt index fun object part member =>
        (StatementObject.mem_parts_setValue member).imp_right (known part)
  | setName index name =>
      refine closed.changeAt index fun object part member => ?_
      rcases StatementObject.mem_parts_setName member with kept | rfl
      · exact .inl kept
      · exact .inr known
  | setNameValue index value => exact closed.changeNameAt index _

end Closed

theorem Reached.closed (reached : heap.Reached) : heap.Closed := by
  induction reached with
  | empty => exact closed_empty
  | identifier identifier _ ih => exact ih.newIdentifier identifier
  | statement _ known ih => exact ih.newObject known
  | list _ known ih => exact ih.newList known
  | program _ known ih => exact ih.setProgram known
  | edit _ known ih => exact ih.edit known

theorem exists_value? {value : Option Nat}
    (known : ∀ part ∈ value, part < heap.identifiers.length) :
    ∃ valued, heap.value? value = some valued := by
  cases value with
  | none => exact ⟨none, rfl⟩
  | some part =>
      exact ⟨_, congrArg (Option.map some) (List.getElem?_eq_getElem (known part rfl))⟩

theorem exists_shows {object : StatementObject}
    (known : ∀ part ∈ object.parts, part < heap.identifiers.length) :
    ∃ statement, heap.Shows object statement := by
  cases object with
  | letBinding token name value =>
      obtain ⟨named, valued⟩ := List.forall_mem_cons.mp known
      obtain ⟨_, shown⟩ := exists_value? fun part given => valued part (Option.mem_toList.mpr given)
      exact ⟨_, .letBinding (List.getElem?_eq_getElem named) shown⟩
  | returning token value =>
      obtain ⟨_, shown⟩ := exists_value? fun part given => known part (Option.mem_toList.mpr given)
      exact ⟨_, .returning shown⟩
  | expression token value =>
      obtain ⟨_, shown⟩ := exists_value? fun part given => known part (Option.mem_toList.mpr given)
      exact ⟨_, .expression shown⟩

theorem Closed.exists_statement? (closed : heap.Closed) {address : Nat}
    (inside : address < heap.statements.length) :
    ∃ statement, heap.statement? address = some statement := by
  have stands := List.getElem?_eq_getElem inside
  obtain ⟨statement, shows⟩ := exists_shows fun part member => closed.parts ⟨_, stands, member⟩
  exact ⟨statement, statement?_eq_some_iff.mpr ⟨_, stands, shows⟩⟩

theorem Closed.exists_readsAs (closed : heap.Closed) : ∃ program, heap.ReadsAs program := by
  have readable (addresses : List Nat)
      (known : ∀ address ∈ addresses, address < heap.statements.length) :
      ∃ statements : List Statement, addresses.map heap.statement? = statements.map some := by
    induction addresses with
    | nil => exact ⟨[], rfl⟩
    | cons address addresses ih =>
        obtain ⟨here, behind⟩ := List.forall_mem_cons.mp known
        obtain ⟨statement, read⟩ := closed.exists_statement? here
        obtain ⟨statements, later⟩ := ih behind
        exact ⟨statement :: statements, List.cons_eq_cons.mpr ⟨read, later⟩⟩
  obtain ⟨statements, reads⟩ := readable heap.members fun _ => closed.listed
  exact ⟨⟨statements⟩, reads⟩

/-! ## Any objects -/

/-- A program of statements that are there, with these names to be their parts. -/
def ofObjects (identifiers : List Identifier) (statements : List StatementObject)
    (members : List Nat) : Heap :=
  ⟨identifiers, statements, ⟨[[], members]⟩, 1⟩

/-- Any objects can be put together, in whatever way they share their parts and their places. -/
theorem reached_ofObjects {identifiers : List Identifier} {statements : List StatementObject}
    {members : List Nat}
    (parts : ∀ object ∈ statements, ∀ part ∈ object.parts, part < identifiers.length)
    (known : ∀ address ∈ members, address < statements.length) :
    (ofObjects identifiers statements members).Reached := by
  have named : Reached { identifiers } := by
    clear parts
    induction identifiers using List.reverseRecOn with
    | nil => exact .empty
    | append_singleton front last ih => exact .identifier last ih
  have stated : Reached { identifiers, statements } := by
    clear known
    induction statements using List.reverseRecOn with
    | nil => exact named
    | append_singleton front last ih =>
        obtain ⟨earlier, here⟩ := List.forall_mem_append.mp parts
        exact .statement (ih earlier) (here last List.mem_cons_self)
  exact .program (.list stated known) Nat.one_lt_two

end Heap

end MonkeySource
