import Mathlib.Data.List.Nodup
import MonkeySource.Proofs.EditsByReference

set_option autoImplicit false

/-!
# Edits with new objects

As long as every edit is handed new objects, nothing of a program is shared. The edits of its objects
are then the edits of a value, and each of them shows at its own place alone.
-/

namespace MonkeySource

namespace Program

variable {program : Program}

def modify (program : Program) (index : Nat) (change : Statement → Statement) : Program :=
  ⟨program.statements.modify index change⟩

/-- The program that an edit leaves behind. -/
def apply (program : Program) : Edit → Program
  | .append statement => ⟨program.statements ++ [statement]⟩
  | .insert index statement =>
      ⟨program.statements.take index ++ statement :: program.statements.drop index⟩
  | .remove index => ⟨program.statements.eraseIdx index⟩
  | .clear => ⟨[]⟩
  | .clearCopy => program
  | .setToken index token => program.modify index (.setToken token)
  | .setValue index value => program.modify index (.setValue value)
  | .setName index name => program.modify index (.mapName fun _ => name)
  | .setNameValue index value =>
      program.modify index (.mapName fun name => { name with value := value })

/-- What one place shows after a change is all that there is to a modification. -/
theorem eq_modify_of_getElem? {before after : Program} {index : Nat}
    {shown : Statement → Statement}
    (here : after.statements[index]? = before.statements[index]?.map shown)
    (others : ∀ other, other ≠ index → after.statements[other]? = before.statements[other]?) :
    after = before.modify index shown := by
  apply congrArg Program.mk
  apply List.ext_getElem?
  intro other
  rw [List.getElem?_modify]
  by_cases same : index = other
  · subst same
    rw [here]
    cases before.statements[index]? <;> simp
  · rw [others other (Ne.symm same)]
    cases before.statements[other]? <;> simp [same]

theorem modify_mapName_eq_self {index : Nat} (noLet : ∀ token name value,
    program.statements[index]? ≠ some (.letBinding token name value))
    (change : Identifier → Identifier) :
    program.modify index (.mapName change) = program := by
  refine (eq_modify_of_getElem? ?_ fun _ _ => rfl).symm
  cases stands : program.statements[index]? with
  | none => rfl
  | some statement =>
      cases statement with
      | letBinding _ _ _ => exact absurd stands (noLet _ _ _)
      | returning _ _ | expression _ _ => rfl

end Program

namespace Heap

variable {heap : Heap} {program after : Program}

/-- Every part belongs to one statement, and stands for one thing there; every statement stands at one
place. -/
structure Unshared (heap : Heap) : Prop where
  owner : ∀ {address other part}, heap.Owns address part → heap.Owns other part → address = other
  apart : ∀ object ∈ heap.statements, object.parts.Nodup
  once : heap.members.Nodup

theorem Unshared.statementApart (unshared : heap.Unshared) (index : Nat) :
    heap.StatementApart index := by
  intro address other here there
  have inside := (List.getElem?_eq_some_iff.mp there).1
  exact (List.getElem?_inj inside unshared.once).mp (there.trans here.symm)

theorem Unshared.nameApart (unshared : heap.Unshared) (index : Nat) : heap.NameApart index := by
  intro name address other named there owns
  obtain ⟨owner, here, named⟩ := Option.bind_eq_some_iff.mp named
  obtain ⟨object, stands, named⟩ := Option.bind_eq_some_iff.mp named
  obtain rfl := unshared.owner owns ⟨object, stands, StatementObject.mem_parts_of_name? named⟩
  exact unshared.statementApart index _ other here there

/-- Where nothing is shared, the proviso of a local edit is met. -/
theorem Unshared.writesApart (unshared : heap.Unshared) (edit : ObjectEdit) :
    heap.WritesApart edit := by
  cases edit with
  | append _ | insert _ _ | remove _ | clear | clearCopy => exact trivial
  | setToken index _ | setValue index _ | setName index _ => exact unshared.statementApart index
  | setNameValue index _ => exact unshared.nameApart index

/-- The objects show this program and share nothing of it. -/
structure Holds (heap : Heap) (program : Program) : Prop where
  closed : heap.Closed
  unshared : heap.Unshared
  reads : heap.ReadsAs program

/-- An identifier that is no part of any statement. -/
structure Free (heap : Heap) (part : Nat) : Prop where
  known : part < heap.identifiers.length
  unowned : ∀ address, ¬ heap.Owns address part

theorem Free.not_mem_parts {part : Nat} (free : heap.Free part) {object : StatementObject}
    (member : object ∈ heap.statements) : part ∉ object.parts := by
  intro inParts
  obtain ⟨address, stands⟩ := List.mem_iff_getElem?.mp member
  exact free.unowned address ⟨object, stands, inParts⟩

/-- One statement may be given parts that were free. -/
theorem Unshared.of_owned (unshared : heap.Unshared) {other : Heap} (given : Nat)
    (owned : ∀ {address part}, other.Owns address part →
      heap.Owns address part ∨ (address = given ∧ heap.Free part))
    (apart : ∀ object ∈ other.statements, object.parts.Nodup)
    (members : other.members = heap.members) : other.Unshared where
  owner := fun owns others => by
    rcases owned owns with before | ⟨here, free⟩
    · rcases owned others with otherBefore | ⟨_, otherFree⟩
      · exact unshared.owner before otherBefore
      · exact absurd before (otherFree.unowned _)
    · rcases owned others with otherBefore | ⟨otherHere, _⟩
      · exact absurd otherBefore (free.unowned _)
      · exact here.trans otherHere.symm
  apart := apart
  once := members ▸ unshared.once

/-! ## New objects -/

theorem Closed.statement?_newIdentifier (closed : heap.Closed) (identifier : Identifier)
    (address : Nat) :
    (heap.newIdentifier identifier).2.statement? address = heap.statement? address :=
  statement?_congr rfl fun _ owns => List.getElem?_append_left (closed.parts owns)

theorem statement?_newObject {address : Nat} (inside : address < heap.statements.length)
    (object : StatementObject) :
    (heap.newObject object).2.statement? address = heap.statement? address :=
  statement?_congr (List.getElem?_append_left inside) fun _ _ => rfl

theorem Holds.newIdentifier (holds : heap.Holds program) (identifier : Identifier) :
    (heap.newIdentifier identifier).2.Holds program where
  closed := holds.closed.newIdentifier identifier
  unshared := ⟨holds.unshared.owner, holds.unshared.apart, holds.unshared.once⟩
  reads := by
    refine Eq.trans (List.map_congr_left fun address _ => ?_) holds.reads
    exact holds.closed.statement?_newIdentifier identifier address

theorem Holds.free_newIdentifier (holds : heap.Holds program) (identifier : Identifier) :
    (heap.newIdentifier identifier).2.Free (heap.newIdentifier identifier).1 where
  known := by simp [Heap.newIdentifier]
  unowned := fun _ owns => Nat.lt_irrefl _ (holds.closed.parts owns)

theorem getElem?_newIdentifier (heap : Heap) (identifier : Identifier) :
    (heap.newIdentifier identifier).2.identifiers[(heap.newIdentifier identifier).1]? =
      some identifier :=
  List.getElem?_concat_length

/-- The identifiers for a new statement are made, and all statements stay as they are. -/
structure Prepared (heap made : Heap) (program : Program) : Prop where
  holds : made.Holds program
  members : made.members = heap.members
  statements : made.statements = heap.statements
  kept : ∀ address, made.statement? address = heap.statement? address

theorem Holds.prepared_newIdentifier (holds : heap.Holds program) (identifier : Identifier) :
    Prepared heap (heap.newIdentifier identifier).2 program :=
  ⟨holds.newIdentifier identifier, rfl, rfl, holds.closed.statement?_newIdentifier identifier⟩

theorem Holds.prepared_newValue (holds : heap.Holds program) (value : Option Identifier) :
    Prepared heap (heap.newValue value).2 program := by
  cases value with
  | none => exact ⟨holds, rfl, rfl, fun _ => rfl⟩
  | some value => exact holds.prepared_newIdentifier value

theorem Prepared.trans {middle made : Heap} (first : Prepared heap middle program)
    (second : Prepared middle made program) : Prepared heap made program :=
  ⟨second.holds, second.members.trans first.members, second.statements.trans first.statements,
    fun address => (second.kept address).trans (first.kept address)⟩

theorem Holds.free_newValue (holds : heap.Holds program) {value : Option Identifier} {part : Nat}
    (made : part ∈ (heap.newValue value).1) : (heap.newValue value).2.Free part := by
  cases value with
  | none => cases made
  | some value =>
      cases made
      exact holds.free_newIdentifier value

theorem value?_newValue (heap : Heap) (value : Option Identifier) :
    (heap.newValue value).2.value? (heap.newValue value).1 = some value := by
  cases value with
  | none => rfl
  | some value => exact congrArg (Option.map some) (getElem?_newIdentifier heap value)

/-- A free part stays one, and is not made again. -/
theorem Free.newValue {part : Nat} (free : heap.Free part) (value : Option Identifier) :
    (heap.newValue value).2.Free part ∧ part ∉ (heap.newValue value).1 ∧
      (heap.newValue value).2.identifiers[part]? = heap.identifiers[part]? := by
  cases value with
  | none => exact ⟨free, nofun, rfl⟩
  | some value =>
      refine ⟨⟨?_, free.unowned⟩, ?_, List.getElem?_append_left free.known⟩
      · have known := free.known
        simp only [Heap.newValue, newIdentifier, List.length_append]
        omega
      · intro same
        have known := free.known
        simp only [Heap.newValue, newIdentifier, Option.mem_def, Option.some.injEq] at same
        omega

theorem owns_newObject {object : StatementObject} {address part : Nat}
    (owns : (heap.newObject object).2.Owns address part) :
    heap.Owns address part ∨ (address = heap.statements.length ∧ part ∈ object.parts) := by
  obtain ⟨other, stands, member⟩ := owns
  rcases Nat.lt_trichotomy address heap.statements.length with inside | rfl | outside
  · exact .inl ⟨other, (List.getElem?_append_left inside).symm.trans stands, member⟩
  · obtain rfl := Option.some.inj (List.getElem?_concat_length.symm.trans stands)
    exact .inr ⟨rfl, member⟩
  · have beyond : (heap.statements ++ [object]).length ≤ address := by
      simpa using Nat.succ_le_of_lt outside
    cases (List.getElem?_eq_none beyond).symm.trans stands

theorem Unshared.newObject (unshared : heap.Unshared) {object : StatementObject}
    (apart : object.parts.Nodup) (free : ∀ part ∈ object.parts, heap.Free part) :
    (heap.newObject object).2.Unshared := by
  refine unshared.of_owned heap.statements.length ?_ ?_ rfl
  · intro address part owns
    exact (owns_newObject owns).imp_right fun ⟨here, member⟩ => ⟨here, free part member⟩
  · exact List.forall_mem_append.mpr ⟨unshared.apart, List.forall_mem_singleton.mpr apart⟩

/-- New statements, made beside the program and beside all other statements. -/
structure Made (heap : Heap) (addresses : List Nat) (made : Heap) (program : Program)
    (statements : List Statement) : Prop where
  holds : made.Holds program
  members : made.members = heap.members
  grows : heap.statements.length ≤ made.statements.length
  kept : ∀ address < heap.statements.length, made.statement? address = heap.statement? address
  fresh : ∀ address ∈ addresses, heap.statements.length ≤ address
  known : ∀ address ∈ addresses, address < made.statements.length
  once : addresses.Nodup
  reads : addresses.map made.statement? = statements.map some

theorem Prepared.newObject {prepared : Heap} (ready : Prepared heap prepared program)
    {object : StatementObject} {statement : Statement} (apart : object.parts.Nodup)
    (free : ∀ part ∈ object.parts, prepared.Free part) (shows : prepared.Shows object statement) :
    Made heap [(prepared.newObject object).1] (prepared.newObject object).2 program [statement] where
  holds :=
    { closed := ready.holds.closed.newObject fun part member => (free part member).known
      unshared := ready.holds.unshared.newObject apart free
      reads := by
        refine Eq.trans (List.map_congr_left fun address member => ?_) ready.holds.reads
        exact statement?_newObject (ready.holds.closed.listed member) object }
  members := ready.members
  grows := by simp [Heap.newObject, ready.statements]
  kept := fun address inside =>
    (statement?_newObject (ready.statements ▸ inside) object).trans (ready.kept address)
  fresh := List.forall_mem_singleton.mpr (Nat.le_of_eq (congrArg List.length ready.statements).symm)
  known := List.forall_mem_singleton.mpr (by simp [Heap.newObject])
  once := List.nodup_singleton _
  reads := congrArg ([·]) (statement?_eq_some_iff.mpr
    ⟨object, List.getElem?_concat_length, shows.of_identifiers rfl⟩)

theorem Made.not_mem {addresses : List Nat} {made : Heap} {statements : List Statement}
    (new : Made heap addresses made program statements) (closed : heap.Closed) {address : Nat}
    (isNew : address ∈ addresses) : address ∉ made.members := by
  intro member
  rw [new.members] at member
  exact Nat.lt_irrefl _ (Nat.lt_of_lt_of_le (closed.listed member) (new.fresh address isNew))

theorem Holds.newStatement (holds : heap.Holds program) (statement : Statement) :
    Made heap [(heap.newStatement statement).1] (heap.newStatement statement).2 program
      [statement] := by
  cases statement with
  | letBinding token name value =>
      have named := holds.prepared_newIdentifier name
      have valued := named.holds.prepared_newValue value
      obtain ⟨free, other, kept⟩ := (holds.free_newIdentifier name).newValue value
      apply (named.trans valued).newObject
      · exact List.nodup_cons.mpr ⟨mt Option.mem_toList.mp other, Option.toList_nodup _⟩
      · refine List.forall_mem_cons.mpr ⟨free, fun part member => ?_⟩
        exact named.holds.free_newValue (Option.mem_toList.mp member)
      · exact .letBinding (kept.trans (getElem?_newIdentifier heap name)) (value?_newValue _ value)
  | returning token value =>
      apply (holds.prepared_newValue value).newObject
      · exact Option.toList_nodup _
      · exact fun part member => holds.free_newValue (Option.mem_toList.mp member)
      · exact .returning (value?_newValue heap value)
  | expression token value =>
      apply (holds.prepared_newValue value).newObject
      · exact Option.toList_nodup _
      · exact fun part member => holds.free_newValue (Option.mem_toList.mp member)
      · exact .expression (value?_newValue heap value)

theorem Holds.newStatements (holds : heap.Holds program) (statements : List Statement) :
    Made heap (heap.newStatements statements).1 (heap.newStatements statements).2 program
      statements := by
  induction statements generalizing heap with
  | nil =>
      exact ⟨holds, rfl, Nat.le_refl _, fun _ _ => rfl, List.forall_mem_nil _, List.forall_mem_nil _,
        List.nodup_nil, rfl⟩
  | cons statement statements ih =>
      have first := holds.newStatement statement
      have others := ih first.holds
      have known := List.forall_mem_singleton.mp first.known
      constructor
      case holds => exact others.holds
      case members => exact others.members.trans first.members
      case grows => exact Nat.le_trans first.grows others.grows
      case kept =>
        intro address inside
        have later := others.kept address (Nat.lt_of_lt_of_le inside first.grows)
        exact later.trans (first.kept address inside)
      case fresh =>
        refine List.forall_mem_cons.mpr ⟨List.forall_mem_singleton.mp first.fresh, ?_⟩
        exact fun address member => Nat.le_trans first.grows (others.fresh address member)
      case known =>
        exact List.forall_mem_cons.mpr ⟨Nat.lt_of_lt_of_le known others.grows, others.known⟩
      case once =>
        -- The others are made behind all statements that are there, the first one among them.
        refine List.nodup_cons.mpr ⟨fun again => ?_, others.once⟩
        exact Nat.lt_irrefl _ (Nat.lt_of_lt_of_le known (others.fresh _ again))
      case reads =>
        have here := (List.cons_eq_cons.mp first.reads).1
        exact List.cons_eq_cons.mpr ⟨(others.kept _ known).trans here, others.reads⟩

/-! ## Changes -/

theorem Holds.changeList (holds : heap.Holds program) {change : List Nat → List Nat}
    (closed : (heap.changeList heap.program change).Closed) (once : (change heap.members).Nodup)
    (reads : (heap.changeList heap.program change).ReadsAs after) :
    (heap.changeList heap.program change).Holds after where
  closed := closed
  unshared :=
    { owner := holds.unshared.owner
      apart := holds.unshared.apart
      once := holds.closed.members_changeList change ▸ once }
  reads := reads

section ChangeAt

variable {index : Nat} {change : StatementObject → StatementObject} {shown : Statement → Statement}

theorem Unshared.changeAt (unshared : heap.Unshared) (index : Nat)
    (apart : ∀ object ∈ heap.statements, (change object).parts.Nodup)
    (parts : ∀ object, ∀ part ∈ (change object).parts, part ∈ object.parts ∨ heap.Free part) :
    (heap.changeAt index change).Unshared := by
  rcases heap.changeAt_cases index change with ⟨_, same⟩ | ⟨address, _, changed⟩
  · rw [same]
    exact unshared
  · rw [changed]
    refine unshared.of_owned address ?_ ?_ rfl
    · rintro other part ⟨object, stands, member⟩
      rcases of_getElem?_changeStatement stands with old | ⟨rfl, stood, standing, rfl⟩
      · exact .inl ⟨object, old, member⟩
      · rcases parts stood part member with kept | free
        · exact .inl ⟨stood, standing, kept⟩
        · exact .inr ⟨rfl, free⟩
    · intro object member
      obtain ⟨place, stands⟩ := List.mem_iff_getElem?.mp member
      rcases of_getElem?_changeStatement stands with old | ⟨_, stood, standing, rfl⟩
      · exact unshared.apart object (List.mem_of_getElem? old)
      · exact apart stood (List.mem_of_getElem? standing)

/-- A statement may be given other parts, if nothing else has them. -/
theorem Holds.changeAt (holds : heap.Holds program) (index : Nat)
    (apart : ∀ object ∈ heap.statements, (change object).parts.Nodup)
    (parts : ∀ object, ∀ part ∈ (change object).parts, part ∈ object.parts ∨ heap.Free part)
    (shows : ∀ object statement, heap.Shows object statement →
      heap.Shows (change object) (shown statement)) :
    (heap.changeAt index change).Holds (program.modify index shown) := by
  have closed : (heap.changeAt index change).Closed :=
    holds.closed.changeAt index fun object part member =>
      (parts object part member).imp_right Free.known
  obtain ⟨after, later⟩ := closed.exists_readsAs
  have same : after = program.modify index shown :=
    Program.eq_modify_of_getElem? (holds.reads.getElem?_changeAt later shows) fun _ =>
      holds.reads.getElem?_changeAt_of_ne later (holds.unshared.statementApart index)
  exact ⟨closed, holds.unshared.changeAt index apart parts, same ▸ later⟩

end ChangeAt

theorem Holds.setToken (holds : heap.Holds program) (index : Nat) (token : Token) :
    (heap.changeAt index (.setToken token)).Holds (program.modify index (.setToken token)) := by
  apply holds.changeAt
  · intro object member
    rw [StatementObject.parts_setToken]
    exact holds.unshared.apart object member
  · intro object part member
    exact .inl (StatementObject.parts_setToken token object ▸ member)
  · exact fun _ _ shows => shows.setToken token

theorem Holds.setValue (holds : heap.Holds program) (index : Nat) {value : Option Nat}
    {valued : Option Identifier} (free : ∀ part ∈ value, heap.Free part)
    (shown : heap.value? value = some valued) :
    (heap.changeAt index (.setValue value)).Holds (program.modify index (.setValue valued)) := by
  apply holds.changeAt
  · intro object member
    cases object with
    | letBinding token name old =>
        refine List.nodup_cons.mpr ⟨fun same => ?_, Option.toList_nodup value⟩
        exact (free name (Option.mem_toList.mp same)).not_mem_parts member List.mem_cons_self
    | returning token old | expression token old => exact Option.toList_nodup value
  · intro object part member
    rcases StatementObject.mem_parts_setValue member with kept | given
    · exact .inl kept
    · exact .inr (free part given)
  · exact fun _ _ shows => shows.setValue shown

theorem Holds.setName (holds : heap.Holds program) (index : Nat) {name : Nat} {named : Identifier}
    (free : heap.Free name) (stands : heap.identifiers[name]? = some named) :
    (heap.changeAt index (.setName name)).Holds
      (program.modify index (.mapName fun _ => named)) := by
  apply holds.changeAt
  · intro object member
    cases object with
    | letBinding token old value =>
        refine List.nodup_cons.mpr ⟨fun same => ?_, Option.toList_nodup value⟩
        exact free.not_mem_parts member (List.mem_cons_of_mem _ same)
    | returning token value | expression token value => exact Option.toList_nodup value
  · intro object part member
    rcases StatementObject.mem_parts_setName member with kept | rfl
    · exact .inl kept
    · exact .inr free
  · exact fun _ _ shows => shows.setName stands

theorem Unshared.not_nameIsValue (unshared : heap.Unshared) (index : Nat) :
    ¬ heap.NameIsValue index := by
  rintro ⟨address, token, part, _, stands⟩
  have apart := unshared.apart _ (List.mem_of_getElem? stands)
  exact (List.nodup_cons.mp apart).1 List.mem_cons_self

theorem Unshared.changeNameAt (unshared : heap.Unshared) (index : Nat)
    (change : Identifier → Identifier) : (heap.changeNameAt index change).Unshared := by
  rcases heap.changeNameAt_cases index change with ⟨_, same⟩ | ⟨part, _, changed⟩
  · rw [same]
    exact unshared
  · rw [changed]
    exact ⟨unshared.owner, unshared.apart, unshared.once⟩

theorem Holds.changeNameAt (holds : heap.Holds program) (index : Nat)
    (change : Identifier → Identifier) :
    (heap.changeNameAt index change).Holds (program.modify index (.mapName change)) := by
  by_cases isLet : ∃ token name value,
      program.statements[index]? = some (.letBinding token name value)
  · obtain ⟨token, name, value, stands⟩ := isLet
    have closed := holds.closed.changeNameAt index change
    obtain ⟨after, later⟩ := closed.exists_readsAs
    obtain ⟨shown, written, _, kept⟩ := holds.reads.getElem?_changeNameAt later stands
    have same : after = program.modify index (.mapName change) := by
      refine Program.eq_modify_of_getElem? ?_ fun _ =>
        holds.reads.getElem?_changeNameAt_of_ne later (holds.unshared.nameApart index)
      rw [written, kept (holds.unshared.not_nameIsValue index), stands]
      rfl
    exact ⟨closed, holds.unshared.changeNameAt index change, same ▸ later⟩
  · have noLet : ∀ token name value,
        program.statements[index]? ≠ some (.letBinding token name value) :=
      fun token name value stands => isLet ⟨token, name, value, stands⟩
    rw [holds.reads.changeNameAt_eq_self noLet, Program.modify_mapName_eq_self noLet]
    exact holds

/-! ## Edits -/

theorem Holds.make (holds : heap.Holds program) (edit : Edit) :
    (heap.make edit).2.Holds program ∧ (heap.make edit).2.Knows (heap.make edit).1 := by
  cases edit with
  | append statement | insert _ statement =>
      have made := holds.newStatement statement
      have known := List.forall_mem_singleton.mp made.known
      exact ⟨made.holds, known⟩
  | remove _ | clear | clearCopy | setToken _ _ | setNameValue _ _ => exact ⟨holds, trivial⟩
  | setValue _ value =>
      exact ⟨(holds.prepared_newValue value).holds,
        fun part made => (holds.free_newValue made).known⟩
  | setName _ name =>
      exact ⟨holds.newIdentifier name, (holds.free_newIdentifier name).known⟩

/-- One edit of the objects, and the same edit of the value. -/
theorem Holds.apply (holds : heap.Holds program) (edit : Edit) :
    (heap.apply edit).Holds (program.apply edit) := by
  obtain ⟨prepared, known⟩ := holds.make edit
  have closed : (heap.apply edit).Closed := prepared.closed.edit known
  cases edit with
  | append statement =>
      have made := holds.newStatement statement
      apply made.holds.changeList closed
      · apply List.nodup_middle.mpr
        rw [List.append_nil]
        exact List.nodup_cons.mpr
          ⟨made.not_mem holds.closed List.mem_cons_self, made.holds.unshared.once⟩
      · exact made.holds.reads.append made.holds.closed (List.cons_eq_cons.mp made.reads).1
  | insert index statement =>
      have made := holds.newStatement statement
      apply made.holds.changeList closed
      · apply List.nodup_middle.mpr
        rw [List.take_append_drop]
        exact List.nodup_cons.mpr
          ⟨made.not_mem holds.closed List.mem_cons_self, made.holds.unshared.once⟩
      · exact made.holds.reads.insert made.holds.closed index (List.cons_eq_cons.mp made.reads).1
  | remove index =>
      apply holds.changeList closed
      · exact holds.unshared.once.eraseIdx index
      · exact holds.reads.remove holds.closed index
  | clear =>
      apply holds.changeList closed
      · exact List.nodup_nil
      · exact holds.closed.readsAs_changeList rfl
  | clearCopy =>
      have members := holds.closed.members_clearCopy
      refine ⟨closed, ?_, (congrArg (List.map heap.statement?) members).trans holds.reads⟩
      exact ⟨holds.unshared.owner, holds.unshared.apart, members ▸ holds.unshared.once⟩
  | setToken index token => exact holds.setToken index token
  | setValue index value =>
      exact (holds.prepared_newValue value).holds.setValue index
        (fun part made => holds.free_newValue made) (value?_newValue heap value)
  | setName index name =>
      exact (holds.newIdentifier name).setName index (holds.free_newIdentifier name)
        (getElem?_newIdentifier heap name)
  | setNameValue index value => exact holds.changeNameAt index _

/-- What is made for an edit stands at no other place, so the edit shows at its own place alone. -/
theorem Holds.editLocal (holds : heap.Holds program) (edit : Edit) :
    (heap.make edit).2.WritesApart (heap.make edit).1 ∧
      (heap.make edit).2.EditLocal (heap.make edit).1 program (program.apply edit) := by
  obtain ⟨made, known⟩ := holds.make edit
  exact ⟨made.unshared.writesApart _,
    made.reads.editLocal made.closed known (holds.apply edit).reads⟩

theorem holds_empty : Holds {} ⟨[]⟩ where
  closed := closed_empty
  unshared :=
    { owner := fun ⟨_, stands, _⟩ => by cases stands
      apart := List.forall_mem_nil _
      once := List.nodup_nil }
  reads := rfl

theorem holds_ofProgram (program : Program) : (ofProgram program).Holds program := by
  have made := holds_empty.newStatements program.statements
  have members : (ofProgram program).members = (newStatements {} program.statements).1 :=
    Lists.get_add _
  constructor
  case closed =>
    exact (made.holds.closed.newList made.known).setProgram (by simp [newList, Lists.add])
  case unshared =>
    exact ⟨made.holds.unshared.owner, made.holds.unshared.apart, members ▸ made.once⟩
  case reads => exact (congrArg (List.map _) members).trans made.reads

end Heap

namespace Program

/-- After every edit there is a program to be read, and it is the one that the same edit makes of the
value. -/
theorem history_eq (program : Program) (edits : List Edit) :
    program.history edits = (edits.scanl apply program).tail := by
  have read (heap : Heap) (shown : Program) (holds : heap.Holds shown) :
      (heap.history edits).filterMap id = (edits.scanl apply shown).tail := by
    induction edits generalizing heap shown with
    | nil => rfl
    | cons edit edits ih =>
        have applied := holds.apply edit
        rw [Heap.history, List.filterMap_cons_some (congrArg id applied.reads.program?_eq),
          ih _ _ applied, List.scanl_cons, List.tail_cons]
        cases edits with
        | nil => rfl
        | cons _ _ => rw [List.scanl_cons, List.tail_cons]
  exact read _ _ (Heap.holds_ofProgram program)

end Program

end MonkeySource
