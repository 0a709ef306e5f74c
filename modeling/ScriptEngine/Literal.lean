import ScriptEngine.Number.Reading
/-! What literals stand for. The functions take any text, not only lexemes of the right kind. -/

namespace ScriptEngine.Literal

def int? (lexeme : String) : Option Int64 :=
  match lexeme.toList with
  | '0' :: 'x' :: digits => Reading.int64? 16 digits
  | '0' :: 'X' :: digits => Reading.int64? 16 digits
  | digits => Reading.int64? 10 digits

def isFloatSuffix (char : Char) : Bool := char = 'f' || char = 'F'

def float? (lexeme : String) : Option Float :=
  Reading.float? (lexeme.toList.reverse.dropWhile isFloatSuffix).reverse

/-- Resolve the escapes of a string: a backslash stands for nothing and what follows for itself,
except for the line end `\n` and the tabulator `\t`. -/
def unescape : List Char → List Char
  | [] => []
  | '\\' :: 'n' :: rest => '\n' :: unescape rest
  | '\\' :: 't' :: rest => '\t' :: unescape rest
  | '\\' :: char :: rest => char :: unescape rest
  | char :: rest => char :: unescape rest

def unquote (text : List Char) : List Char :=
  match text with
  | '"' :: rest => if rest.getLast? = some '"' then rest.dropLast else text
  | _ => text

/-- The text of a string literal, quotes removed and escapes resolved. -/
def string (lexeme : String) : String := String.ofList (unescape (unquote lexeme.toList))

end ScriptEngine.Literal
