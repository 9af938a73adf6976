import Mathlib.Data.List.InsertIdx
import MonkeySource.Proofs.ReachableObjects

set_option autoImplicit false

/-!
# Edits by reference

An edit shows at its own place and nowhere else, as long as the object that it writes to stands at no
other place. Objects may be shared, by two places of a program, by two statements, or by the parts of
one statement, and an edit of a shared object shows wherever that stands.
-/

namespace MonkeySource

/-- A part of a statement is exchanged or changed, and not the statement's token. -/
inductive EditOf.OfPart {σ ι : Type} : EditOf σ ι → Prop where
  | value (index : Nat) (value : Option ι) : OfPart (.setValue index value)
  | name (index : Nat) (name : ι) : OfPart (.setName index name)
  | nameValue (index : Nat) (value : String) : OfPart (.setNameValue index value)

namespace Heap

variable {heap : Heap} {before after : Program}

/-! ## Provisos -/

/-- The statement at an index stands at no other place. -/
def StatementApart (heap : Heap) (index : Nat) : Prop :=
  ∀ address other, heap.members[index]? = some address → heap.members[other]? = some address →
    other = index

/-- The name of the let at an index belongs to the statement at no other place. -/
def NameApart (heap : Heap) (index : Nat) : Prop :=
  ∀ name address other, heap.nameAt? index = some name → heap.members[other]? = some address →
    heap.Owns address name → other = index

/-- The let at an index has one identifier for its name and its value. -/
def NameIsValue (heap : Heap) (index : Nat) : Prop :=
  ∃ address token part, heap.members[index]? = some address ∧
    heap.statements[address]? = some (.letBinding token part (some part))

/-- The statement or the name that an edit writes to stands at no other place of the program. The other
edits write to a list, and to no part of the program. -/
def WritesApart (heap : Heap) : ObjectEdit → Prop
  | .setToken index _ | .setValue index _ | .setName index _ => heap.StatementApart index
  | .setNameValue index _ => heap.NameApart index
  | .append _ | .insert _ _ | .remove _ | .clear | .clearCopy => True

/-- The first statement comes, goes, or is given another token. -/
def TouchesFirst (heap : Heap) : ObjectEdit → Prop
  | .append _ => heap.members = []
  | .insert index _ => index = 0 ∨ heap.members = []
  | .remove index => index = 0 ∧ heap.members ≠ []
  | .clear => heap.members ≠ []
  | .setToken index _ =>
      ∃ first, heap.members[0]? = some first ∧ heap.members[index]? = some first
  | .clearCopy | .setValue _ _ | .setName _ _ | .setNameValue _ _ => False

/-- The place that an edit concerns, if it is only one. What a name is called may be read twice in one
statement, so there the statement is told by what is read after the edit. -/
def exchange? (heap : Heap) (before after : Program) : ObjectEdit → Option Program.Exchange
  | .append statement => some ⟨before.statements.length, none, heap.statement? statement⟩
  | .insert index statement => some ⟨index, none, heap.statement? statement⟩
  | .remove index => some ⟨index, before.statements[index]?, none⟩
  | .setToken index token =>
      some ⟨index, before.statements[index]?, before.statements[index]?.map (.setToken token)⟩
  | .setValue index value =>
      some ⟨index, before.statements[index]?,
        before.statements[index]?.map (.setValue (heap.value? value).join)⟩
  | .setName index name =>
      some ⟨index, before.statements[index]?,
        before.statements[index]?.map (.mapName fun old => heap.identifiers[name]?.getD old)⟩
  | .setNameValue index _ => some ⟨index, before.statements[index]?, after.statements[index]?⟩
  | .clear | .clearCopy => none

/-! ## Reading after an edit -/

section Members

theorem Closed.members_changeList (closed : heap.Closed) (change : List Nat → List Nat) :
    (heap.changeList heap.program change).members = change heap.members :=
  Lists.get_change closed.rooted change

theorem Closed.members_clearCopy (closed : heap.Closed) :
    (heap.edit .clearCopy).members = heap.members :=
  Lists.get_change_copy closed.rooted fun _ => []

theorem members_changeAt (heap : Heap) (index : Nat)
    (change : StatementObject → StatementObject) :
    (heap.changeAt index change).members = heap.members := by
  rcases heap.changeAt_cases index change with ⟨_, same⟩ | ⟨address, _, changed⟩
  · rw [same]
  · rw [changed]
    rfl

theorem members_changeNameAt (heap : Heap) (index : Nat) (change : Identifier → Identifier) :
    (heap.changeNameAt index change).members = heap.members := by
  rcases heap.changeNameAt_cases index change with ⟨_, same⟩ | ⟨name, _, changed⟩
  · rw [same]
  · rw [changed]
    rfl

end Members

section ChangeAt

variable {index address : Nat} {change : StatementObject → StatementObject}

theorem statement?_changeAt {statement shown : Statement}
    (here : heap.members[index]? = some address) (read : heap.statement? address = some statement)
    (shows : ∀ object, heap.Shows object statement → heap.Shows (change object) shown) :
    (heap.changeAt index change).statement? address = some shown := by
  rw [changeAt, here]
  exact statement?_changeStatement read shows

theorem statement?_changeAt_of_ne (elsewhere : heap.members[index]? ≠ some address) :
    (heap.changeAt index change).statement? address = heap.statement? address := by
  rcases heap.changeAt_cases index change with ⟨_, same⟩ | ⟨written, here, changed⟩
  · rw [same]
  · rw [changed]
    refine statement?_changeStatement_of_ne ?_ change
    rintro rfl
    exact elsewhere here

theorem literal?_changeAt_of_ne (elsewhere : heap.members[index]? ≠ some address) :
    (heap.changeAt index change).literal? address = heap.literal? address := by
  rcases heap.changeAt_cases index change with ⟨_, same⟩ | ⟨written, here, changed⟩
  · rw [same]
  · have different : written ≠ address := by
      rintro rfl
      exact elsewhere here
    simp [changed, literal?, changeStatement, different]

theorem literal?_changeAt (kept : ∀ object, (change object).token = object.token) :
    (heap.changeAt index change).literal? = heap.literal? := by
  funext other
  by_cases here : heap.members[index]? = some other
  · rw [changeAt, here]
    simp [literal?, changeStatement, Function.comp_def, kept]
  · exact literal?_changeAt_of_ne here

end ChangeAt

theorem literal?_changeNameAt (heap : Heap) (index : Nat) (change : Identifier → Identifier) :
    (heap.changeNameAt index change).literal? = heap.literal? := by
  rcases heap.changeNameAt_cases index change with ⟨_, same⟩ | ⟨name, _, changed⟩
  · rw [same]
  · rw [changed]
    rfl

/-! ## One place -/

theorem Closed.readsAs_changeList (closed : heap.Closed) {change : List Nat → List Nat}
    {statements : List Statement}
    (changed : (change heap.members).map heap.statement? = statements.map some) :
    (heap.changeList heap.program change).ReadsAs ⟨statements⟩ := by
  rw [ReadsAs, closed.members_changeList]
  exact changed

theorem ReadsAs.append (reads : heap.ReadsAs before) (closed : heap.Closed) {address : Nat}
    {statement : Statement} (read : heap.statement? address = some statement) :
    (heap.edit (.append address)).ReadsAs ⟨before.statements ++ [statement]⟩ := by
  apply closed.readsAs_changeList
  rw [List.map_append, List.map_append, reads, List.map_singleton, read, List.map_singleton]

theorem ReadsAs.insert (reads : heap.ReadsAs before) (closed : heap.Closed) (index : Nat)
    {address : Nat} {statement : Statement} (read : heap.statement? address = some statement) :
    (heap.edit (.insert index address)).ReadsAs
      ⟨before.statements.take index ++ statement :: before.statements.drop index⟩ := by
  apply closed.readsAs_changeList
  simp only [List.map_append, List.map_cons, List.map_take, List.map_drop, read]
  rw [reads]

theorem ReadsAs.remove (reads : heap.ReadsAs before) (closed : heap.Closed) (index : Nat) :
    (heap.edit (.remove index)).ReadsAs ⟨before.statements.eraseIdx index⟩ := by
  apply closed.readsAs_changeList
  rw [← List.eraseIdx_map, reads, List.eraseIdx_map]

theorem ReadsAs.exists_getElem? (reads : heap.ReadsAs before) {index : Nat} {statement : Statement}
    (stands : before.statements[index]? = some statement) :
    ∃ address, heap.members[index]? = some address ∧ heap.statement? address = some statement :=
  Option.bind_eq_some_iff.mp ((reads.getElem? index).symm.trans stands)

section ChangeAt

variable {index : Nat} {change : StatementObject → StatementObject}

/-- The statement at the index is written to, whatever else it stands for. -/
theorem ReadsAs.getElem?_changeAt (reads : heap.ReadsAs before)
    (later : (heap.changeAt index change).ReadsAs after) {shown : Statement → Statement}
    (shows : ∀ object statement, heap.Shows object statement →
      heap.Shows (change object) (shown statement)) :
    after.statements[index]? = before.statements[index]?.map shown := by
  rw [later.getElem?, members_changeAt]
  cases stands : before.statements[index]? with
  | none =>
      have outside : heap.members[index]? = none := by
        rw [List.getElem?_eq_none_iff, reads.length_eq]
        exact List.getElem?_eq_none_iff.mp stands
      rw [outside]
      rfl
  | some statement =>
      obtain ⟨address, listed, read⟩ := reads.exists_getElem? stands
      rw [listed]
      exact statement?_changeAt listed read fun object => shows object statement

theorem ReadsAs.getElem?_changeAt_of_ne (reads : heap.ReadsAs before)
    (later : (heap.changeAt index change).ReadsAs after) (apart : heap.StatementApart index)
    {other : Nat} (different : other ≠ index) :
    after.statements[other]? = before.statements[other]? := by
  rw [later.getElem?, members_changeAt, reads.getElem?]
  cases listed : heap.members[other]? with
  | none => rfl
  | some address =>
      exact statement?_changeAt_of_ne fun same => different (apart address other same listed)

end ChangeAt

theorem ReadsAs.getElem?_changeNameAt_of_ne (reads : heap.ReadsAs before) {index : Nat}
    {change : Identifier → Identifier} (later : (heap.changeNameAt index change).ReadsAs after)
    (apart : heap.NameApart index) {other : Nat} (different : other ≠ index) :
    after.statements[other]? = before.statements[other]? := by
  rw [later.getElem?, members_changeNameAt, reads.getElem?]
  cases listed : heap.members[other]? with
  | none => rfl
  | some address =>
      rcases heap.changeNameAt_cases index change with ⟨_, same⟩ | ⟨name, named, changed⟩
      · rw [same]
      · rw [changed]
        refine statement?_changeIdentifier (fun owns => ?_) change
        exact different (apart name address other named listed owns)

theorem ReadsAs.differOnlyAt_edit (reads : heap.ReadsAs before) (closed : heap.Closed)
    {edit : ObjectEdit} (known : heap.Knows edit) (later : (heap.edit edit).ReadsAs after)
    (apart : heap.WritesApart edit) {exchange : Program.Exchange}
    (concerned : heap.exchange? before after edit = some exchange) :
    Program.DifferOnlyAt exchange before after := by
  cases edit with
  | append address =>
      obtain ⟨statement, read⟩ := closed.exists_statement? known
      obtain rfl := (reads.append closed read).unique later
      obtain rfl := Option.some.inj concerned
      rw [read]
      exact Program.differOnlyAt_append before.statements statement
  | insert index address =>
      obtain ⟨statement, read⟩ := closed.exists_statement? known
      obtain rfl := (reads.insert closed index read).unique later
      obtain rfl := Option.some.inj concerned
      rw [read]
      exact Program.differOnlyAt_insert before.statements index statement
  | remove index =>
      obtain rfl := (reads.remove closed index).unique later
      obtain rfl := Option.some.inj concerned
      exact Program.differOnlyAt_eraseIdx before.statements index
  | clear | clearCopy => cases concerned
  | setToken index token =>
      have written : after.statements[index]? = before.statements[index]?.map (.setToken token) :=
        reads.getElem?_changeAt later fun _ _ shows => shows.setToken token
      obtain rfl := Option.some.inj concerned
      rw [← written]
      exact Program.differOnlyAt_of_getElem? fun _ => reads.getElem?_changeAt_of_ne later apart
  | setValue index value =>
      obtain ⟨valued, shown⟩ := exists_value? known
      have written : after.statements[index]? = before.statements[index]?.map (.setValue valued) :=
        reads.getElem?_changeAt later fun _ _ shows => shows.setValue shown
      obtain rfl := Option.some.inj concerned
      rw [shown, Option.join_some, ← written]
      exact Program.differOnlyAt_of_getElem? fun _ => reads.getElem?_changeAt_of_ne later apart
  | setName index name =>
      obtain ⟨named, found⟩ : ∃ named, heap.identifiers[name]? = some named :=
        ⟨_, List.getElem?_eq_getElem known⟩
      have written :
          after.statements[index]? = before.statements[index]?.map (.mapName fun _ => named) :=
        reads.getElem?_changeAt later fun _ _ shows => shows.setName found
      obtain rfl := Option.some.inj concerned
      simp only [found, Option.getD_some]
      rw [← written]
      exact Program.differOnlyAt_of_getElem? fun _ => reads.getElem?_changeAt_of_ne later apart
  | setNameValue index value =>
      obtain rfl := Option.some.inj concerned
      exact Program.differOnlyAt_of_getElem? fun _ => reads.getElem?_changeNameAt_of_ne later apart

/-! ## Token literals -/

theorem ReadsAs.tokenLiteral_eq (reads : heap.ReadsAs before) :
    before.tokenLiteral = (heap.members.head?.bind heap.literal?).getD "" := by
  have heads : heap.members.head?.map heap.literal? =
      (before.statements.head?.map Statement.tokenLiteral).map some := by
    rw [← List.head?_map, ← List.head?_map, ← List.head?_map, reads.map_literal?]
  rw [Program.tokenLiteral_eq]
  cases first : heap.members.head? with
  | none =>
      rw [first, Option.map_none] at heads
      rw [Option.map_eq_none_iff.mp heads.symm]
      rfl
  | some address =>
      rw [first, Option.map_some] at heads
      obtain ⟨literal, shown, same⟩ := Option.map_eq_some_iff.mp heads.symm
      rw [shown, Option.bind_some, ← same]

theorem ReadsAs.map_tokenLiteral {other : Heap} (reads : heap.ReadsAs before)
    (later : other.ReadsAs after) (members : other.members = heap.members)
    (literals : other.literal? = heap.literal?) :
    after.statements.map Statement.tokenLiteral = before.statements.map Statement.tokenLiteral := by
  apply (List.map_inj_right fun _ _ => Option.some.inj).mp
  rw [← later.map_literal?, ← reads.map_literal?, members, literals]

theorem unchanged_of_ofPart {edit : ObjectEdit} (ofPart : edit.OfPart) :
    (heap.edit edit).members = heap.members ∧ (heap.edit edit).literal? = heap.literal? := by
  cases ofPart with
  | value index value =>
      exact ⟨members_changeAt heap index _, literal?_changeAt (StatementObject.token_setValue value)⟩
  | name index name =>
      exact ⟨members_changeAt heap index _, literal?_changeAt (StatementObject.token_setName name)⟩
  | nameValue index value =>
      exact ⟨members_changeNameAt heap index _, literal?_changeNameAt heap index _⟩

theorem Closed.head_edit (closed : heap.Closed) {edit : ObjectEdit}
    (other : ¬ heap.TouchesFirst edit) :
    (heap.edit edit).members.head?.bind (heap.edit edit).literal? =
      heap.members.head?.bind heap.literal? := by
  cases edit with
  | append address =>
      have members : (heap.edit (.append address)).members = heap.members ++ [address] :=
        closed.members_changeList _
      obtain ⟨first, rest, listed⟩ := List.exists_cons_of_ne_nil other
      rw [members, listed]
      rfl
  | insert index address =>
      have members : (heap.edit (.insert index address)).members =
          heap.members.take index ++ address :: heap.members.drop index :=
        closed.members_changeList _
      obtain ⟨behind, filled⟩ := not_or.mp other
      obtain ⟨first, rest, listed⟩ := List.exists_cons_of_ne_nil filled
      obtain ⟨index, rfl⟩ := Nat.exists_eq_succ_of_ne_zero behind
      rw [members, listed]
      rfl
  | remove index =>
      have members : (heap.edit (.remove index)).members = heap.members.eraseIdx index :=
        closed.members_changeList _
      rw [members]
      cases listed : heap.members with
      | nil => rfl
      | cons first rest =>
          have behind : index ≠ 0 := fun atFront => other ⟨atFront, by simp [listed]⟩
          obtain ⟨index, rfl⟩ := Nat.exists_eq_succ_of_ne_zero behind
          rfl
  | clear =>
      have members : (heap.edit .clear).members = [] := closed.members_changeList _
      have empty : heap.members = [] := Decidable.of_not_not other
      rw [members, empty]
      rfl
  | clearCopy =>
      rw [closed.members_clearCopy]
      rfl
  | setToken index token =>
      have members : (heap.edit (.setToken index token)).members = heap.members :=
        members_changeAt heap index _
      rw [members, List.head?_eq_getElem?]
      cases first : heap.members[0]? with
      | none => rfl
      | some address => exact literal?_changeAt_of_ne fun same => other ⟨address, first, same⟩
  | setValue index value =>
      obtain ⟨members, literals⟩ := @unchanged_of_ofPart heap _ (.value index value)
      rw [members, literals]
  | setName index name =>
      obtain ⟨members, literals⟩ := @unchanged_of_ofPart heap _ (.name index name)
      rw [members, literals]
  | setNameValue index value =>
      obtain ⟨members, literals⟩ := @unchanged_of_ofPart heap _ (.nameValue index value)
      rw [members, literals]

/-! ## Tokens and names -/

/-- An expression shows its value alone. -/
theorem ReadsAs.text_setToken (reads : heap.ReadsAs before) {index : Nat} {token : Token}
    (later : (heap.edit (.setToken index token)).ReadsAs after) {other : Nat} {given : Token}
    {value : Option Identifier}
    (stands : before.statements[other]? = some (.expression given value)) :
    after.statements[other]?.map Statement.text = some (Statement.expression given value).text := by
  obtain ⟨address, listed, read⟩ := reads.exists_getElem? stands
  have members : (heap.edit (.setToken index token)).members = heap.members :=
    members_changeAt heap index _
  rw [later.getElem?, members, listed, Option.bind_some]
  by_cases here : heap.members[index]? = some address
  · have written : (heap.edit (.setToken index token)).statement? address =
        some (.expression token value) :=
      statement?_changeAt here read fun _ shows => shows.setToken token
    rw [written]
    rfl
  · have kept : (heap.edit (.setToken index token)).statement? address =
        some (.expression given value) := (statement?_changeAt_of_ne here).trans read
    rw [kept]
    rfl

theorem value?_changeIdentifier {name : Nat} {value : Option Nat} (apart : value ≠ some name)
    (change : Identifier → Identifier) :
    (heap.changeIdentifier name change).value? value = heap.value? value := by
  cases value with
  | none => rfl
  | some part =>
      have unlike : name ≠ part := fun same => apart (congrArg some same.symm)
      simp [value?, changeIdentifier, unlike]

/-- A let is renamed, and its value with it if that is the name itself. -/
theorem ReadsAs.getElem?_changeNameAt (reads : heap.ReadsAs before) {index : Nat}
    {change : Identifier → Identifier} (later : (heap.changeNameAt index change).ReadsAs after)
    {token : Token} {name : Identifier} {value : Option Identifier}
    (stands : before.statements[index]? = some (.letBinding token name value)) :
    ∃ shown, after.statements[index]? = some (.letBinding token (change name) shown) ∧
      (heap.NameIsValue index → shown = some (change name)) ∧
      (¬ heap.NameIsValue index → shown = value) := by
  obtain ⟨address, listed, read⟩ := reads.exists_getElem? stands
  obtain ⟨object, standing, shows⟩ := statement?_eq_some_iff.mp read
  cases shows with
  | @letBinding _ part valuePart _ _ found shown =>
      have named : heap.nameAt? index = some part := by
        simp [nameAt?, listed, standing, StatementObject.name?]
      have renamed : (heap.changeIdentifier part change).identifiers[part]? =
          some (change name) := by
        simp [changeIdentifier, found]
      have here : after.statements[index]? =
          (heap.changeIdentifier part change).statement? address := by
        rw [later.getElem?, members_changeNameAt, listed, changeNameAt, named, Option.bind_some]
      have isValue : heap.NameIsValue index ↔ valuePart = some part := by
        simp [NameIsValue, listed, standing, eq_comm]
      rw [here, isValue]
      by_cases same : valuePart = some part
      · subst same
        have changed := congrArg (Option.map some) renamed
        exact ⟨_, statement?_eq_some_iff.mpr ⟨_, standing, .letBinding renamed changed⟩,
          fun _ => rfl, fun other => absurd rfl other⟩
      · have kept := (value?_changeIdentifier same change).trans shown
        exact ⟨_, statement?_eq_some_iff.mpr ⟨_, standing, .letBinding renamed kept⟩,
          fun whole => absurd whole same, fun _ => rfl⟩

theorem ReadsAs.changeNameAt_eq_self (reads : heap.ReadsAs before) {index : Nat}
    (noLet : ∀ token name value,
      before.statements[index]? ≠ some (.letBinding token name value))
    (change : Identifier → Identifier) : heap.changeNameAt index change = heap := by
  rcases heap.changeNameAt_cases index change with ⟨_, same⟩ | ⟨part, named, _⟩
  · exact same
  · obtain ⟨address, listed, named⟩ := Option.bind_eq_some_iff.mp named
    obtain ⟨object, standing, named⟩ := Option.bind_eq_some_iff.mp named
    obtain ⟨statement, read⟩ := reads.exists_of_mem (List.mem_of_getElem? listed)
    have stands : before.statements[index]? = some statement := by
      rw [reads.getElem?, listed, Option.bind_some, read]
    obtain ⟨other, same, shows⟩ := statement?_eq_some_iff.mp read
    obtain rfl := Option.some.inj (standing.symm.trans same)
    cases shows with
    | letBinding _ _ => exact absurd stands (noLet _ _ _)
    | returning _ | expression _ => cases named

/-! ## Edits are local -/

/-- What an edit may make different, and what it leaves as it was. -/
structure EditLocal (heap : Heap) (edit : ObjectEdit) (before after : Program) : Prop where
  exchange : heap.WritesApart edit → ∀ exchange, heap.exchange? before after edit = some exchange →
    Program.DifferOnlyAt exchange before after
  tokenLiteral : ¬ heap.TouchesFirst edit → after.tokenLiteral = before.tokenLiteral
  ofExpression : ∀ index token, edit = .setToken index token →
    ∀ (other : Nat) (given : Token) (value : Option Identifier),
      before.statements[other]? = some (.expression given value) →
      after.statements[other]?.map Statement.text = some (Statement.expression given value).text
  tokenLiterals : edit.OfPart →
    after.statements.map Statement.tokenLiteral = before.statements.map Statement.tokenLiteral
  /-- A value that is the name itself is renamed with it. -/
  renamed : ∀ index text, edit = .setNameValue index text →
    ∀ (token : Token) (name : Identifier) (value : Option Identifier),
      before.statements[index]? = some (.letBinding token name value) →
      ∃ shown, after.statements[index]? =
          some (.letBinding token { name with value := text } shown) ∧
        (heap.NameIsValue index → shown = some { name with value := text }) ∧
        (¬ heap.NameIsValue index → shown = value)
  copy : edit = .clearCopy → after = before
  all : edit = .clear → after.statements = []
  undone : ∀ index statement, edit = .insert index statement → index ≤ before.statements.length →
    ((heap.edit edit).edit (.remove index)).program? = some before

theorem ReadsAs.editLocal (reads : heap.ReadsAs before) (closed : heap.Closed)
    {edit : ObjectEdit} (known : heap.Knows edit) (later : (heap.edit edit).ReadsAs after) :
    heap.EditLocal edit before after := by
  constructor
  case exchange => exact fun apart _ => reads.differOnlyAt_edit closed known later apart
  case tokenLiteral =>
    intro other
    rw [later.tokenLiteral_eq, reads.tokenLiteral_eq, closed.head_edit other]
  case ofExpression =>
    rintro index token rfl other given value stands
    exact reads.text_setToken later stands
  case tokenLiterals =>
    intro ofPart
    obtain ⟨members, literals⟩ := unchanged_of_ofPart ofPart
    exact reads.map_tokenLiteral later members literals
  case renamed =>
    rintro index text rfl token name value stands
    exact reads.getElem?_changeNameAt later stands
  case copy =>
    rintro rfl
    have same : (heap.edit .clearCopy).ReadsAs before := by
      rw [ReadsAs, closed.members_clearCopy]
      exact reads
    exact same.unique later
  case all =>
    rintro rfl
    have nothing : (heap.edit .clear).ReadsAs ⟨[]⟩ := closed.readsAs_changeList rfl
    rw [nothing.unique later]
  case undone =>
    rintro index address rfl inside
    obtain ⟨statement, read⟩ := closed.exists_statement? known
    have inserted := reads.insert closed index read
    have removed := (inserted.remove (closed.edit known) index).program?_eq
    rw [removed, Program.eraseIdx_take_append_cons_drop inside statement]

/-- Whatever objects have been made, shared and edited, there is a program to be read before the next
edit and after it, and the edit is local. -/
theorem edit_local {heap : Heap} (reached : heap.Reached) {edit : ObjectEdit}
    (known : heap.Knows edit) :
    ∃ before after, heap.program? = some before ∧ (heap.edit edit).program? = some after ∧
      heap.EditLocal edit before after := by
  have closed := reached.closed
  obtain ⟨before, reads⟩ := closed.exists_readsAs
  obtain ⟨after, later⟩ := (closed.edit known).exists_readsAs
  exact ⟨before, after, reads.program?_eq, later.program?_eq,
    reads.editLocal closed known later⟩

/-! ## Shared objects -/

/-- Statements over the names `x` and `y`, which are their parts 0 and 1. -/
def overNames (statements : List StatementObject) (members : List Nat) : Heap :=
  ofObjects [⟨⟨.identifier, "x", none⟩, "x"⟩, ⟨⟨.identifier, "y", none⟩, "y"⟩] statements members

/-- An expression of the name `x`. -/
def nameAlone : StatementObject := .expression ⟨.identifier, "x", none⟩ (some 0)

/-- A let of the name `x`, without a value. -/
def nameBound : StatementObject := .letBinding ⟨.keyword .letWord, "let", none⟩ 0 none

/-- Two expressions of one name. -/
def sharedName : Heap := overNames [nameAlone, nameAlone] [0, 1]

/-- One expression, appended twice. -/
def sharedStatement : Heap := ((overNames [nameAlone] []).edit (.append 0)).edit (.append 0)

/-- Two lets of one name. -/
def sharedBinding : Heap := overNames [nameBound, nameBound] [0, 1]

/-- The name that two expressions share is not written to when one of the two is given another. -/
theorem edit_local_sharedName :
    sharedName.Reached ∧ sharedName.Knows (.setValue 0 (some 1)) ∧
    sharedName.WritesApart (.setValue 0 (some 1)) ∧
    ∃ before after, sharedName.program? = some before ∧
      (sharedName.edit (.setValue 0 (some 1))).program? = some after ∧
      before.text = "xx" ∧ after.text = "yx" ∧
      ∃ old new, Program.DifferOnlyAt ⟨0, some old, some new⟩ before after := by
  have reached : sharedName.Reached := reached_ofObjects (by decide) (by decide)
  have known : sharedName.Knows (.setValue 0 (some 1)) := by
    rintro part ⟨⟩
    decide
  have apart : sharedName.StatementApart 0 := by
    intro address other here there
    have members : sharedName.members = [0, 1] := rfl
    rw [members] at here there
    match other with
    | 0 => rfl
    | 1 => simp_all
    | other + 2 => simp_all
  refine ⟨reached, known, apart, ?_⟩
  obtain ⟨before, after, first, second, isLocal⟩ := edit_local reached known
  obtain rfl := Option.some.inj first
  obtain rfl := Option.some.inj second
  exact ⟨_, _, rfl, rfl, by decide, by decide, _, _, isLocal.exchange apart _ rfl⟩

theorem not_differOnlyAt_zero {old new kept changed : Statement} (different : changed ≠ kept) :
    ¬ Program.DifferOnlyAt ⟨0, some old, some new⟩ ⟨[old, kept]⟩ ⟨[new, changed]⟩ := by
  rintro ⟨back, before, after⟩
  have behind : [kept] = back := (List.cons_eq_cons.mp before.statements).2
  have changedBehind : [changed] = back := (List.cons_eq_cons.mp after.statements).2
  exact different (List.cons_eq_cons.mp (changedBehind.trans behind.symm)).1

/-- A statement at two places changes at both of them, and a name of two lets changes in both. So the
second child is another one after an edit at the first place. -/
theorem shared_objects_change_twice :
    (sharedStatement.Reached ∧ sharedStatement.Knows (.setValue 0 (some 1)) ∧
      ∃ before after, sharedStatement.program? = some before ∧
        (sharedStatement.edit (.setValue 0 (some 1))).program? = some after ∧
        before.text = "xx" ∧ after.text = "yy" ∧
        before.statements[1]?.map Statement.detail = some "ExpressionStatement('x')" ∧
        after.statements[1]?.map Statement.detail = some "ExpressionStatement('y')" ∧
        ∀ exchange, sharedStatement.exchange? before after (.setValue 0 (some 1)) = some exchange →
          ¬ Program.DifferOnlyAt exchange before after) ∧
    (sharedBinding.Reached ∧ sharedBinding.Knows (.setNameValue 0 "y") ∧
      ∃ before after, sharedBinding.program? = some before ∧
        (sharedBinding.edit (.setNameValue 0 "y")).program? = some after ∧
        before.text = "let x = ;let x = ;" ∧ after.text = "let y = ;let y = ;" ∧
        before.statements[1]?.map Statement.detail = some "LetStatement('let x = ;')" ∧
        after.statements[1]?.map Statement.detail = some "LetStatement('let y = ;')" ∧
        ∀ exchange, sharedBinding.exchange? before after (.setNameValue 0 "y") = some exchange →
          ¬ Program.DifferOnlyAt exchange before after) := by
  constructor
  · have alone : (overNames [nameAlone] []).Reached :=
      reached_ofObjects (by decide) (List.forall_mem_nil _)
    have reached : sharedStatement.Reached := .edit (.edit alone Nat.zero_lt_one) Nat.zero_lt_one
    have known : sharedStatement.Knows (.setValue 0 (some 1)) := by
      rintro part ⟨⟩
      decide
    refine ⟨reached, known, _, _, rfl, rfl, by decide, by decide, by decide, by decide, ?_⟩
    rintro exchange ⟨⟩
    exact not_differOnlyAt_zero (by decide)
  · have reached : sharedBinding.Reached := reached_ofObjects (by decide) (by decide)
    refine ⟨reached, trivial, _, _, rfl, rfl, by decide, by decide, by decide, by decide, ?_⟩
    rintro exchange ⟨⟩
    exact not_differOnlyAt_zero (by decide)

end Heap

end MonkeySource
