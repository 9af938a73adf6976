import MonkeySource.Token.Kind

set_option autoImplicit false

/-!
# Fixed spellings

The tables of reserved words and symbols. Every keyword, operator and delimiter has one spelling,
and no spelling belongs to two of them.
-/

namespace MonkeySource

def Keyword.spelling : Keyword → String
  | .fnWord => "fn"
  | .letWord => "let"
  | .trueWord => "true"
  | .falseWord => "false"
  | .ifWord => "if"
  | .elseWord => "else"
  | .returnWord => "return"

def Symbol.spelling : Symbol → String
  | .operator .assign => "="
  | .operator .plus => "+"
  | .operator .minus => "-"
  | .operator .bang => "!"
  | .operator .asterisk => "*"
  | .operator .slash => "/"
  | .operator .equal => "=="
  | .operator .notEqual => "!="
  | .operator .less => "<"
  | .operator .greater => ">"
  | .delimiter .comma => ","
  | .delimiter .semicolon => ";"
  | .delimiter .colon => ":"
  | .delimiter .openParen => "("
  | .delimiter .closeParen => ")"
  | .delimiter .openBrace => "\x7b"
  | .delimiter .closeBrace => "\x7d"
  | .delimiter .openBracket => "["
  | .delimiter .closeBracket => "]"

/-- The symbols of one character, operators first. -/
def singleSymbols : List (Char × Symbol) :=
  [('=', .operator .assign), ('+', .operator .plus), ('-', .operator .minus),
    ('!', .operator .bang), ('*', .operator .asterisk), ('/', .operator .slash),
    ('<', .operator .less), ('>', .operator .greater), (';', .delimiter .semicolon),
    (',', .delimiter .comma), (':', .delimiter .colon), ('(', .delimiter .openParen),
    (')', .delimiter .closeParen), ('\x7b', .delimiter .openBrace),
    ('\x7d', .delimiter .closeBrace), ('[', .delimiter .openBracket),
    (']', .delimiter .closeBracket)]

/-- The symbols of two characters. Only `=` and `!` begin one, and only `=` ends one. -/
def pairSymbols : List ((Char × Char) × Symbol) :=
  [(('=', '='), .operator .equal), (('!', '='), .operator .notEqual)]

def Symbol.ofChar? (c : Char) : Option Symbol := singleSymbols.lookup c

def Symbol.ofPair? (first second : Char) : Option Symbol := pairSymbols.lookup (first, second)

def Keyword.ofSpelling? (word : String) : Option Keyword :=
  Keyword.all.find? (fun keyword => keyword.spelling == word)

/-- The kind of a word: a keyword if the word is reserved, and an identifier otherwise. The word
is not checked to be one. -/
def TokenKind.ofWord (word : String) : TokenKind :=
  match Keyword.ofSpelling? word with
  | some reserved => .keyword reserved
  | none => .identifier

end MonkeySource
