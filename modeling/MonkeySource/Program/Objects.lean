import MonkeySource.Lists
import MonkeySource.Program.Basic

set_option autoImplicit false

/-!
# Objects

A program as the objects it is made of. A statement refers to its parts by address, and the program
to its list of statements, so that a change to an object shows wherever something refers to it.
-/

namespace MonkeySource

/-- A statement as an object: its token, and where its parts are. -/
inductive StatementObject where
  | letBinding (token : Token) (name : Nat) (value : Option Nat)
  | returning (token : Token) (value : Option Nat)
  | expression (token : Token) (value : Option Nat)
  deriving DecidableEq, Repr

namespace StatementObject

def setToken (token : Token) : StatementObject → StatementObject
  | .letBinding _ name value => .letBinding token name value
  | .returning _ value => .returning token value
  | .expression _ value => .expression token value

def setValue (value : Option Nat) : StatementObject → StatementObject
  | .letBinding token name _ => .letBinding token name value
  | .returning token _ => .returning token value
  | .expression token _ => .expression token value

/-- Only a let has a name to change. -/
def setName (name : Nat) : StatementObject → StatementObject
  | .letBinding token _ value => .letBinding token name value
  | object => object

def name? : StatementObject → Option Nat
  | .letBinding _ name _ => some name
  | .returning _ _ | .expression _ _ => none

end StatementObject

/-- All objects ever made, by their kind. The address of an object is its place among those. Without
more, a program whose list is empty. -/
structure Heap where
  identifiers : List Identifier := []
  statements : List StatementObject := []
  lists : Lists Nat := ⟨[[]]⟩
  /-- Where the program's own list of statements is. -/
  program : Nat := 0
  deriving DecidableEq, Repr

namespace Heap

/-! ## New objects -/

def newIdentifier (heap : Heap) (identifier : Identifier) : Nat × Heap :=
  (heap.identifiers.length, { heap with identifiers := heap.identifiers ++ [identifier] })

def newValue (heap : Heap) : Option Identifier → Option Nat × Heap
  | none => (none, heap)
  | some value => (some (heap.newIdentifier value).1, (heap.newIdentifier value).2)

def newObject (heap : Heap) (object : StatementObject) : Nat × Heap :=
  (heap.statements.length, { heap with statements := heap.statements ++ [object] })

/-- The parts of a statement are made before it. -/
def newStatement (heap : Heap) : Statement → Nat × Heap
  | .letBinding token name value =>
      let named := heap.newIdentifier name
      let valued := named.2.newValue value
      valued.2.newObject (.letBinding token named.1 valued.1)
  | .returning token value =>
      let valued := heap.newValue value
      valued.2.newObject (.returning token valued.1)
  | .expression token value =>
      let valued := heap.newValue value
      valued.2.newObject (.expression token valued.1)

def newStatements (heap : Heap) : List Statement → List Nat × Heap
  | [] => ([], heap)
  | statement :: statements =>
      let made := heap.newStatement statement
      let others := made.2.newStatements statements
      (made.1 :: others.1, others.2)

def newList (heap : Heap) (addresses : List Nat) : Nat × Heap :=
  let listed := heap.lists.add addresses
  (listed.1, { heap with lists := listed.2 })

/-- The program of a list that is there already. The list is not copied. -/
def setProgram (heap : Heap) (list : Nat) : Heap := { heap with program := list }

/-! ## Changes to an object -/

def changeIdentifier (heap : Heap) (address : Nat) (change : Identifier → Identifier) : Heap :=
  { heap with identifiers := heap.identifiers.modify address change }

def changeStatement (heap : Heap) (address : Nat) (change : StatementObject → StatementObject) :
    Heap :=
  { heap with statements := heap.statements.modify address change }

def changeList (heap : Heap) (address : Nat) (change : List Nat → List Nat) : Heap :=
  { heap with lists := heap.lists.change address change }

/-! ## Reading -/

/-- Where the statements of the program are, in their order. -/
def members (heap : Heap) : List Nat := heap.lists.get heap.program

/-- The list of children is a copy, which shares the statements with the program's own list. -/
def children (heap : Heap) : Nat × Heap :=
  let copy := heap.lists.copy heap.program
  (copy.1, { heap with lists := copy.2 })

def value? (heap : Heap) : Option Nat → Option (Option Identifier)
  | none => some none
  | some address => heap.identifiers[address]?.map some

def statementOf? (heap : Heap) : StatementObject → Option Statement
  | .letBinding token name value => do
      return .letBinding token (← heap.identifiers[name]?) (← heap.value? value)
  | .returning token value => do return .returning token (← heap.value? value)
  | .expression token value => do return .expression token (← heap.value? value)

def statement? (heap : Heap) (address : Nat) : Option Statement :=
  heap.statements[address]?.bind heap.statementOf?

/-- The program as a value. There is none where an address leads nowhere. -/
def program? (heap : Heap) : Option Program :=
  (heap.members.mapM heap.statement?).map Program.mk

end Heap

end MonkeySource
