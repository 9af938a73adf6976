import MonkeySource.Token.Basic

set_option autoImplicit false

/-!
# Programs

The tree of a program: statements over identifiers. Every node but the program keeps the token it
came from. The nodes check nothing, so any token may stand in any place.
-/

namespace MonkeySource

/-- A name in the program. What it is called need not be what its token says. -/
structure Identifier where
  token : Token
  value : String
  deriving DecidableEq, Repr

/-- A statement. Its value is absent where nothing was written for it. -/
inductive Statement where
  | letBinding (token : Token) (name : Identifier) (value : Option Identifier)
  | returning (token : Token) (value : Option Identifier)
  | expression (token : Token) (value : Option Identifier)
  deriving DecidableEq, Repr

structure Program where
  statements : List Statement := []
  deriving DecidableEq, Repr

/-- Any node of the tree. -/
inductive Node where
  | identifier (identifier : Identifier)
  | statement (statement : Statement)
  | program (program : Program)
  deriving DecidableEq, Repr

/-- The full form of a node: the name of its class around its quoted text. -/
def nodeDetail (label text : String) : String := label ++ "(" ++ Text.quote text ++ ")"

namespace Identifier

def tokenLiteral (identifier : Identifier) : String := identifier.token.literal

def text (identifier : Identifier) : String := identifier.value

end Identifier

namespace Statement

def token : Statement → Token
  | .letBinding token _ _ | .returning token _ | .expression token _ => token

def tokenLiteral (statement : Statement) : String := statement.token.literal

def label : Statement → String
  | .letBinding _ _ _ => "LetStatement"
  | .returning _ _ => "ReturnStatement"
  | .expression _ _ => "ExpressionStatement"

def valueText : Option Identifier → String
  | none => ""
  | some value => value.text

/-- The statement as source text. A let and a return begin with the literal of their token and end
with a semicolon; an expression is its value alone. -/
def text : Statement → String
  | .letBinding token name value =>
      token.literal ++ " " ++ name.text ++ " = " ++ valueText value ++ ";"
  | .returning token value => token.literal ++ " " ++ valueText value ++ ";"
  | .expression _ value => valueText value

def children : Statement → List Identifier
  | .letBinding _ name value => name :: value.toList
  | .returning _ value | .expression _ value => value.toList

def detail (statement : Statement) : String := nodeDetail statement.label statement.text

end Statement

namespace Program

/-- The literal of the first statement's token. An empty program has the empty one. -/
def tokenLiteral (program : Program) : String :=
  match program.statements with
  | [] => ""
  | statement :: _ => statement.tokenLiteral

/-- The statements as source text, with nothing between them. -/
def text (program : Program) : String :=
  program.statements.foldr (fun statement text => statement.text ++ text) ""

end Program

namespace Node

def tokenLiteral : Node → String
  | .identifier node => node.tokenLiteral
  | .statement node => node.tokenLiteral
  | .program node => node.tokenLiteral

def text : Node → String
  | .identifier node => node.text
  | .statement node => node.text
  | .program node => node.text

def label : Node → String
  | .identifier _ => "Identifier"
  | .statement node => node.label
  | .program _ => "Program"

def detail (node : Node) : String := nodeDetail node.label node.text

def children : Node → List Node
  | .identifier _ => []
  | .statement node => node.children.map .identifier
  | .program node => node.statements.map .statement

/-- How many levels of the tree a node can have below it. -/
def height : Node → Nat
  | .identifier _ => 0
  | .statement _ => 1
  | .program _ => 2

theorem height_lt_of_mem_children {node child : Node} (member : child ∈ node.children) :
    child.height < node.height := by
  cases node with
  | identifier => simp [children] at member
  | statement =>
      obtain ⟨_, _, rfl⟩ := List.mem_map.mp member
      simp [height]
  | program =>
      obtain ⟨_, _, rfl⟩ := List.mem_map.mp member
      simp [height]

end Node

end MonkeySource
