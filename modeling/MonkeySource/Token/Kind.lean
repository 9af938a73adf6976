import MonkeySource.Text.Quoted

set_option autoImplicit false

/-!
# Token kinds

The closed set of kinds, with the names and numbers by which tools refer to them. What belongs to
which class can be read off the constructors.
-/

namespace MonkeySource

inductive Operator where
  | assign
  | plus
  | minus
  | bang
  | asterisk
  | slash
  | equal
  | notEqual
  | less
  | greater
  deriving DecidableEq, Repr

inductive Delimiter where
  | comma
  | semicolon
  | colon
  | openParen
  | closeParen
  | openBrace
  | closeBrace
  | openBracket
  | closeBracket
  deriving DecidableEq, Repr

/-- A fixed lexeme that is not a word. -/
inductive Symbol where
  | operator (op : Operator)
  | delimiter (mark : Delimiter)
  deriving DecidableEq, Repr

inductive Keyword where
  | fnWord
  | letWord
  | trueWord
  | falseWord
  | ifWord
  | elseWord
  | returnWord
  deriving DecidableEq, Repr

inductive TokenKind where
  | illegal
  | endOfInput
  | identifier
  | integer
  | string
  | symbol (symbol : Symbol)
  | keyword (word : Keyword)
  deriving DecidableEq, Repr

def Operator.all : List Operator :=
  [.assign, .plus, .minus, .bang, .asterisk, .slash, .equal, .notEqual, .less, .greater]

def Delimiter.all : List Delimiter :=
  [.comma, .semicolon, .colon, .openParen, .closeParen, .openBrace, .closeBrace, .openBracket,
    .closeBracket]

def Keyword.all : List Keyword :=
  [.fnWord, .letWord, .trueWord, .falseWord, .ifWord, .elseWord, .returnWord]

def Operator.name : Operator → String
  | .assign => "ASSIGN"
  | .plus => "PLUS"
  | .minus => "MINUS"
  | .bang => "BANG"
  | .asterisk => "ASTERISK"
  | .slash => "SLASH"
  | .equal => "EQ"
  | .notEqual => "NOT_EQ"
  | .less => "LT"
  | .greater => "GT"

def Delimiter.name : Delimiter → String
  | .comma => "COMMA"
  | .semicolon => "SEMICOLON"
  | .colon => "COLON"
  | .openParen => "LPAREN"
  | .closeParen => "RPAREN"
  | .openBrace => "LBRACE"
  | .closeBrace => "RBRACE"
  | .openBracket => "LBRACKET"
  | .closeBracket => "RBRACKET"

def Keyword.name : Keyword → String
  | .fnWord => "FUNCTION"
  | .letWord => "LET"
  | .trueWord => "TRUE"
  | .falseWord => "FALSE"
  | .ifWord => "IF"
  | .elseWord => "ELSE"
  | .returnWord => "RETURN"

namespace TokenKind

abbrev operator (op : Operator) : TokenKind := .symbol (.operator op)

abbrev delimiter (mark : Delimiter) : TokenKind := .symbol (.delimiter mark)

/-- Every kind once, in the order of their numbers. -/
def all : List TokenKind :=
  [.illegal, .endOfInput, .identifier, .integer, .string]
    ++ Operator.all.map .operator ++ Delimiter.all.map .delimiter ++ Keyword.all.map .keyword

/-- The name in tables and in the text forms of tokens. Different kinds have different names. -/
def name : TokenKind → String
  | .illegal => "ILLEGAL"
  | .endOfInput => "EOF"
  | .identifier => "IDENT"
  | .integer => "INT"
  | .string => "STRING"
  | .symbol (.operator op) => op.name
  | .symbol (.delimiter mark) => mark.name
  | .keyword word => word.name

/-- The place in the order of all kinds, from one. -/
def number (kind : TokenKind) : Nat := all.idxOf kind + 1

def isKeyword : TokenKind → Bool
  | .keyword _ => true
  | _ => false

def isOperator : TokenKind → Bool
  | .symbol (.operator _) => true
  | _ => false

def isDelimiter : TokenKind → Bool
  | .symbol (.delimiter _) => true
  | _ => false

/-- Whether tokens of the kind stand for a value. The two truth values are keywords and literals
at once. -/
def isLiteral : TokenKind → Bool
  | .integer | .string | .keyword .trueWord | .keyword .falseWord => true
  | _ => false

/-- The two ways to ask for a kind by value: only a number can ever be one. -/
inductive Key where
  | number (value : Int)
  | text (value : String)
  deriving DecidableEq, Repr

inductive LookupError where
  | unknownName (name : String)
  | unknownKey (key : Key)
  deriving DecidableEq, Repr

/-- An unknown name is answered by its quoted form alone. -/
def LookupError.message : LookupError → String
  | .unknownName name => Text.quote name
  | .unknownKey (.number value) => value.repr ++ " is not a valid TokenType"
  | .unknownKey (.text value) => Text.quote value ++ " is not a valid TokenType"

/-- Names are matched exactly, case included. -/
def ofName (name : String) : Except LookupError TokenKind :=
  match all.find? (fun kind => kind.name == name) with
  | some kind => .ok kind
  | none => .error (.unknownName name)

/-- A text is never a key, even if it spells a number or a name. -/
def ofKey (key : Key) : Except LookupError TokenKind :=
  match all.find? (fun kind => key == .number kind.number) with
  | some kind => .ok kind
  | none => .error (.unknownKey key)

end TokenKind

end MonkeySource
