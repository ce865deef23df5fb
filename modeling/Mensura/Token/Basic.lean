import Mensura.Numeral.Notation
import Mensura.Text.Position

/-!
Tokens: the words of a program. Every token has a kind and the place of its first character; names, literals,
comments and characters that belong to no token carry a value as well.
-/

namespace Mensura

namespace Token

inductive Kind where
  | letWord | unitWord | returnWord | ifWord | elseWord | whileWord
  | stringType | boolType | voidType | trueWord | falseWord
  | identifier | intLiteral | floatLiteral | stringLiteral | comment
  | plus | minus | arrow | star | slash | caret
  | greater | greaterEqual | less | lessEqual | assign | equal | not | notEqual | or | and
  | leftParen | rightParen | leftBracket | rightBracket | leftBrace | rightBrace | comma | colon
  | etx | invalid | unknown
  deriving DecidableEq, Repr

namespace Kind

/-- The name under which a kind appears in listings and messages. -/
def name : Kind → String
  | letWord => "Let"
  | unitWord => "Unit"
  | returnWord => "Return"
  | ifWord => "If"
  | elseWord => "Else"
  | whileWord => "While"
  | stringType => "StringType"
  | boolType => "BoolType"
  | voidType => "VoidType"
  | trueWord => "True"
  | falseWord => "False"
  | identifier => "Identifier"
  | intLiteral => "IntLiteral"
  | floatLiteral => "FloatLiteral"
  | stringLiteral => "StringLiteral"
  | comment => "Comment"
  | plus => "Plus"
  | minus => "Minus"
  | arrow => "Arrow"
  | star => "Star"
  | slash => "Slash"
  | caret => "Caret"
  | greater => "Greater"
  | greaterEqual => "GreaterEqual"
  | less => "Less"
  | lessEqual => "LessEqual"
  | assign => "Assign"
  | equal => "Equal"
  | not => "Not"
  | notEqual => "NotEqual"
  | or => "Or"
  | and => "And"
  | leftParen => "LeftParen"
  | rightParen => "RightParen"
  | leftBracket => "LeftBracket"
  | rightBracket => "RightBracket"
  | leftBrace => "LeftBrace"
  | rightBrace => "RightBrace"
  | comma => "Comma"
  | colon => "Colon"
  | etx => "Etx"
  | invalid => "Invalid"
  | unknown => "Unknown"

/-- Every kind, once. -/
def all : List Kind :=
  [letWord, unitWord, returnWord, ifWord, elseWord, whileWord, stringType, boolType, voidType, trueWord,
    falseWord, identifier, intLiteral, floatLiteral, stringLiteral, comment, plus, minus, arrow, star, slash,
    caret, greater, greaterEqual, less, lessEqual, assign, equal, not, notEqual, or, and, leftParen,
    rightParen, leftBracket, rightBracket, leftBrace, rightBrace, comma, colon, etx, invalid, unknown]

/-- The kind with the given name. -/
def ofName? (name : String) : Option Kind := all.find? (·.name == name)

/-- The reserved words and the kinds that they are read as. -/
def reserved : List (String × Kind) :=
  [("let", letWord), ("unit", unitWord), ("return", returnWord), ("if", ifWord), ("else", elseWord),
    ("while", whileWord), ("string", stringType), ("bool", boolType), ("void", voidType),
    ("true", trueWord), ("false", falseWord)]

end Kind

inductive Value where
  | text (text : String)
  | int (value : Int64)
  | float (value : Float)
  | bool (value : Bool)
  deriving DecidableEq, Repr

/-- A value as listings show it: a text between quotes, with nothing escaped. -/
def Value.display : Value → String
  | .text s => "\"" ++ s ++ "\""
  | .int n => Numeral.integer n.toInt
  | .float x => Numeral.plain x
  | .bool b => if b then "true" else "false"

/-- What a token is, wherever it stands. -/
structure Content where
  kind : Kind
  value : Option Value
  deriving DecidableEq, Repr

end Token

/-- A place in words. -/
def Position.display (p : Position) : String :=
  "line " ++ Numeral.integer p.row ++ ", column " ++ Numeral.integer p.column

structure Token extends Token.Content where
  position : Position
  deriving DecidableEq, Repr

namespace Token

def display (t : Token) : String :=
  t.kind.name ++ (match t.value with | some v => "(" ++ v.display ++ ")" | none => "") ++
    " at " ++ t.position.display

/-- The mark behind the last character of a text. -/
def etx (p : Position) : Token := ⟨⟨.etx, none⟩, p⟩

end Token

end Mensura
