/-!
The kinds of token, their names in listings, and the reserved words.
-/
namespace Quill

/-- What a token is, apart from its spelling. -/
inductive TokenKind where
  | assign | equal | notEqual | greater | less | greaterEqual | lessEqual
  | stringType | intType | floatType | boolType | charType
  | new | bl | stdout | trueWord | falseWord
  | identifier | intLiteral | floatLiteral | stringLiteral
  | bracketOpen | bracketClose | braceOpen | braceClose | parenOpen | parenClose
  | comma | dot | colon
  | plus | minus | star | slash | percent
  | comment | endOfInput | unknown
  deriving DecidableEq, Repr

namespace TokenKind

/-- The name of a kind in token listings and tree dumps. -/
def name : TokenKind → String
  | assign => "ASSIGNMENT"
  | equal => "EQUAL"
  | notEqual => "NOT_EQUAL"
  | greater => "GREATER"
  | less => "LESSER"
  | greaterEqual => "GREATER_EQUAL"
  | lessEqual => "LESSER_EQUAL"
  | stringType => "STRING"
  | intType => "INTEGER"
  | floatType => "FLOAT"
  | boolType => "BOOL"
  | charType => "CHARACTER"
  | new => "NEW"
  | bl => "BL"
  | stdout => "STDOUT"
  | trueWord => "TRUE"
  | falseWord => "FALSE"
  | identifier => "IDENTIFIER"
  | intLiteral => "INT_LIT"
  | floatLiteral => "FLOAT_LIT"
  | stringLiteral => "STRING_LIT"
  | bracketOpen => "ARRAY_OPEN"
  | bracketClose => "ARRAY_CLOSE"
  | braceOpen => "TYPE_OPEN"
  | braceClose => "TYPE_CLOSE"
  | parenOpen => "LPAREN"
  | parenClose => "RPAREN"
  | comma => "COMMA"
  | dot => "DOT"
  | colon => "COLON"
  | plus => "ADD"
  | minus => "SUB"
  | star => "MUL"
  | slash => "DIV"
  | percent => "MOD"
  | comment => "COMMENT"
  | endOfInput => "END_OF_FILE"
  | unknown => "UNKNOWN"

/-- Every kind, in the order of its declaration. -/
def all : List TokenKind :=
  [assign, equal, notEqual, greater, less, greaterEqual, lessEqual,
   stringType, intType, floatType, boolType, charType,
   new, bl, stdout, trueWord, falseWord,
   identifier, intLiteral, floatLiteral, stringLiteral,
   bracketOpen, bracketClose, braceOpen, braceClose, parenOpen, parenClose,
   comma, dot, colon, plus, minus, star, slash, percent,
   comment, endOfInput, unknown]

def ofName? (text : String) : Option TokenKind :=
  all.find? (·.name == text)

/-- The reserved words. The truth values have a capitalised spelling as well. -/
def reserved : List (String × TokenKind) :=
  [("new", new), ("bl", bl), ("stdout", stdout),
   ("string", stringType), ("int", intType), ("float", floatType), ("bool", boolType),
   ("char", charType),
   ("true", trueWord), ("True", trueWord), ("false", falseWord), ("False", falseWord)]

def ofReserved? (word : String) : Option TokenKind :=
  reserved.lookup word

end TokenKind

end Quill
