import ScriptEngine.DataType
import ScriptEngine.Span
/-! The words of the script language. -/

namespace ScriptEngine

inductive TokenKind where
  | intLiteral
  | floatLiteral
  | doubleLiteral
  | stringLiteral
  | identifier
  | voidKeyword
  | boolKeyword
  | byteKeyword
  | shortKeyword
  | charKeyword
  | intKeyword
  | longKeyword
  | floatKeyword
  | doubleKeyword
  | stringKeyword
  | trueKeyword
  | falseKeyword
  | nullKeyword
  | thisKeyword
  | superKeyword
  | publicKeyword
  | externKeyword
  | synchronizedKeyword
  | privateKeyword
  | classKeyword
  | returnKeyword
  | waitKeyword
  | leftParen
  | rightParen
  | leftBrace
  | rightBrace
  | leftBracket
  | rightBracket
  | semicolon
  | comma
  | dot
  | colonColon
  | tilde
  | plus
  | minus
  | star
  | slash
  | equal
  | eof
deriving DecidableEq, Repr, Inhabited

namespace TokenKind

def type? : TokenKind → Option DataType
  | .voidKeyword => some .void
  | .boolKeyword => some .bool
  | .byteKeyword => some (.ofKind .byte)
  | .shortKeyword => some (.ofKind .short)
  | .charKeyword => some (.ofKind .char)
  | .intKeyword => some .int
  | .longKeyword => some .long
  | .floatKeyword => some .float
  | .doubleKeyword => some .double
  | .stringKeyword => some .string
  | _ => none

def isType (kind : TokenKind) : Bool := kind.type?.isSome

def isLiteral : TokenKind → Bool
  | .intLiteral | .floatLiteral | .doubleLiteral | .stringLiteral | .trueKeyword | .falseKeyword =>
      true
  | _ => false

def isModifier : TokenKind → Bool
  | .publicKeyword | .externKeyword | .synchronizedKeyword | .privateKeyword => true
  | _ => false

/-- Keywords and punctuation as they are written, and the names of the other kinds. -/
def text : TokenKind → String
  | .intLiteral => "integer literal"
  | .floatLiteral => "float literal"
  | .doubleLiteral => "double literal"
  | .stringLiteral => "string literal"
  | .identifier => "identifier"
  | .voidKeyword => "void"
  | .boolKeyword => "bool"
  | .byteKeyword => "byte"
  | .shortKeyword => "short"
  | .charKeyword => "char"
  | .intKeyword => "int"
  | .longKeyword => "long"
  | .floatKeyword => "float"
  | .doubleKeyword => "double"
  | .stringKeyword => "string"
  | .trueKeyword => "true"
  | .falseKeyword => "false"
  | .nullKeyword => "null"
  | .thisKeyword => "this"
  | .superKeyword => "super"
  | .publicKeyword => "public"
  | .externKeyword => "extern"
  | .synchronizedKeyword => "synchronized"
  | .privateKeyword => "private"
  | .classKeyword => "class"
  | .returnKeyword => "return"
  | .waitKeyword => "wait"
  | .leftParen => "("
  | .rightParen => ")"
  | .leftBrace => "\x7b"
  | .rightBrace => "\x7d"
  | .leftBracket => "["
  | .rightBracket => "]"
  | .semicolon => ";"
  | .comma => ","
  | .dot => "."
  | .colonColon => "::"
  | .tilde => "~"
  | .plus => "+"
  | .minus => "-"
  | .star => "*"
  | .slash => "/"
  | .equal => "="
  | .eof => "end of file"

def name : TokenKind → String
  | .intLiteral => "IntLiteral"
  | .floatLiteral => "FloatLiteral"
  | .doubleLiteral => "DoubleLiteral"
  | .stringLiteral => "StringLiteral"
  | .identifier => "Identifier"
  | .voidKeyword => "Void"
  | .boolKeyword => "Bool"
  | .byteKeyword => "Byte"
  | .shortKeyword => "Short"
  | .charKeyword => "Char"
  | .intKeyword => "Int"
  | .longKeyword => "Long"
  | .floatKeyword => "Float"
  | .doubleKeyword => "Double"
  | .stringKeyword => "String"
  | .trueKeyword => "True"
  | .falseKeyword => "False"
  | .nullKeyword => "Null"
  | .thisKeyword => "This"
  | .superKeyword => "Super"
  | .publicKeyword => "Public"
  | .externKeyword => "Extern"
  | .synchronizedKeyword => "Synchronized"
  | .privateKeyword => "Private"
  | .classKeyword => "Class"
  | .returnKeyword => "Return"
  | .waitKeyword => "Wait"
  | .leftParen => "LeftParen"
  | .rightParen => "RightParen"
  | .leftBrace => "LeftBrace"
  | .rightBrace => "RightBrace"
  | .leftBracket => "LeftBracket"
  | .rightBracket => "RightBracket"
  | .semicolon => "Semicolon"
  | .comma => "Comma"
  | .dot => "Dot"
  | .colonColon => "ColonColon"
  | .tilde => "Tilde"
  | .plus => "Plus"
  | .minus => "Minus"
  | .star => "Star"
  | .slash => "Slash"
  | .equal => "Equal"
  | .eof => "Eof"

def all : List TokenKind :=
  [.intLiteral, .floatLiteral, .doubleLiteral, .stringLiteral, .identifier, .voidKeyword,
    .boolKeyword, .byteKeyword, .shortKeyword, .charKeyword, .intKeyword, .longKeyword,
    .floatKeyword, .doubleKeyword, .stringKeyword, .trueKeyword, .falseKeyword, .nullKeyword,
    .thisKeyword, .superKeyword, .publicKeyword, .externKeyword, .synchronizedKeyword,
    .privateKeyword, .classKeyword, .returnKeyword, .waitKeyword, .leftParen, .rightParen,
    .leftBrace, .rightBrace, .leftBracket, .rightBracket, .semicolon, .comma, .dot, .colonColon,
    .tilde, .plus, .minus, .star, .slash, .equal, .eof]

def keywords : List TokenKind :=
  [.voidKeyword, .boolKeyword, .byteKeyword, .shortKeyword, .charKeyword, .intKeyword, .longKeyword,
    .floatKeyword, .doubleKeyword, .stringKeyword, .trueKeyword, .falseKeyword, .nullKeyword,
    .thisKeyword, .superKeyword, .publicKeyword, .externKeyword, .synchronizedKeyword,
    .privateKeyword, .classKeyword, .returnKeyword, .waitKeyword]

def keyword? (word : String) : Option TokenKind :=
  if word = "boolean" then some .boolKeyword
  else keywords.find? fun kind => kind.text = word

end TokenKind

/-- A word of a source text and where it stands. -/
structure Token where
  kind : TokenKind
  lexeme : String
  span : Span
deriving DecidableEq, Repr, Inhabited

/-- What is read behind the last token of a text that does not end in an end-of-file token. -/
def Token.endOfInput : Token := ⟨.eof, "", .nowhere⟩

end ScriptEngine
