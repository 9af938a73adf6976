import MonkeySource.Program.Objects

set_option autoImplicit false

/-!
# Edits

Changes to a program, one object at a time. What an edit puts in is an object that is there already
and is not copied, so one object can come to stand at several places. An index beyond the program,
or a part that the statement there does not have, makes an edit do nothing.
-/

namespace MonkeySource

/-- The edits, over what is handed to them as a statement and as an identifier. -/
inductive EditOf (σ ι : Type) where
  | append (statement : σ)
  /-- Puts a statement before the one at the index, or at the end. -/
  | insert (index : Nat) (statement : σ)
  | remove (index : Nat)
  | clear
  /-- Empties the list that the program gives of its children. -/
  | clearCopy
  | setToken (index : Nat) (token : Token)
  | setValue (index : Nat) (value : Option ι)
  | setName (index : Nat) (name : ι)
  /-- Changes what a name is called and leaves its token. -/
  | setNameValue (index : Nat) (value : String)
  deriving DecidableEq, Repr

/-- An edit that is handed the addresses of objects. -/
abbrev ObjectEdit : Type := EditOf Nat Nat

/-- An edit that is handed values. The objects for them are made on the way. -/
abbrev Edit : Type := EditOf Statement Identifier

namespace Heap

def changeAt (heap : Heap) (index : Nat) (change : StatementObject → StatementObject) : Heap :=
  match heap.members[index]? with
  | none => heap
  | some address => heap.changeStatement address change

/-- Where the name of the let at an index is. -/
def nameAt? (heap : Heap) (index : Nat) : Option Nat := do
  let address ← heap.members[index]?
  let object ← heap.statements[address]?
  object.name?

def changeNameAt (heap : Heap) (index : Nat) (change : Identifier → Identifier) : Heap :=
  match heap.nameAt? index with
  | none => heap
  | some name => heap.changeIdentifier name change

def edit (heap : Heap) : ObjectEdit → Heap
  | .append statement => heap.changeList heap.program fun addresses => addresses ++ [statement]
  | .insert index statement =>
      heap.changeList heap.program fun addresses =>
        addresses.take index ++ statement :: addresses.drop index
  | .remove index => heap.changeList heap.program fun addresses => addresses.eraseIdx index
  | .clear => heap.changeList heap.program fun _ => []
  | .clearCopy =>
      let copy := heap.children
      copy.2.changeList copy.1 fun _ => []
  | .setToken index token => heap.changeAt index (.setToken token)
  | .setValue index value => heap.changeAt index (.setValue value)
  | .setName index name => heap.changeAt index (.setName name)
  | .setNameValue index value => heap.changeNameAt index fun name => { name with value := value }

/-! ## Edits with new objects -/

/-- Makes the objects for an edit. -/
def make (heap : Heap) : Edit → ObjectEdit × Heap
  | .append statement =>
      let made := heap.newStatement statement
      (.append made.1, made.2)
  | .insert index statement =>
      let made := heap.newStatement statement
      (.insert index made.1, made.2)
  | .remove index => (.remove index, heap)
  | .clear => (.clear, heap)
  | .clearCopy => (.clearCopy, heap)
  | .setToken index token => (.setToken index token, heap)
  | .setValue index value =>
      let made := heap.newValue value
      (.setValue index made.1, made.2)
  | .setName index name =>
      let made := heap.newIdentifier name
      (.setName index made.1, made.2)
  | .setNameValue index value => (.setNameValue index value, heap)

def apply (heap : Heap) (edit : Edit) : Heap :=
  let made := heap.make edit
  made.2.edit made.1

/-- A new program of new statements. -/
def ofProgram (program : Program) : Heap :=
  let made := newStatements {} program.statements
  let listed := made.2.newList made.1
  listed.2.setProgram listed.1

/-- What can be read after each of the edits in turn. -/
def history (heap : Heap) : List Edit → List (Option Program)
  | [] => []
  | edit :: edits => (heap.apply edit).program? :: (heap.apply edit).history edits

end Heap

namespace Program

/-- The programs after each of the edits in turn. -/
def history (program : Program) (edits : List Edit) : List Program :=
  ((Heap.ofProgram program).history edits).filterMap id

end Program

end MonkeySource
