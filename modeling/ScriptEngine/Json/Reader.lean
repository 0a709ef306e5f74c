import ScriptEngine.Json
/-! Reading JSON documents. A text is split into marks, and the marks are fed one by one to a reader
that keeps the arrays and objects it is inside of, so nesting has no limit here. -/

namespace ScriptEngine.Json

def isBlank (char : Char) : Bool := char = ' ' || char = '\n' || char = '\t' || char = '\r'

inductive Mark where
  | openArray
  | closeArray
  | openObject
  | closeObject
  | comma
  | colon
  | string (spelling : List Char)
  /-- Null, a truth value or a number. -/
  | plain (json : Json)

namespace Mark

def ofSymbol? : Char → Option Mark
  | '[' => some .openArray
  | ']' => some .closeArray
  | '{' => some .openObject
  | '}' => some .closeObject
  | ',' => some .comma
  | ':' => some .colon
  | _ => none

def spelling? : List Char → Option (List Char)
  | [] => none
  | '"' :: _ => some []
  | '\\' :: 'u' :: first :: second :: third :: fourth :: rest =>
      if (unit? first second third fourth).isSome then
        (spelling? rest).map (['\\', 'u', first, second, third, fourth] ++ ·)
      else none
  | '\\' :: char :: rest =>
      if (escaped? char).isSome then (spelling? rest).map (['\\', char] ++ ·) else none
  | char :: rest =>
      if char < ' ' || char = '\\' then none else (spelling? rest).map (char :: ·)

def whole : List Char → List Char
  | '0' :: _ => ['0']
  | text => text.takeWhile Reading.isDigit

def fraction : List Char → List Char
  | '.' :: rest =>
      let digits := rest.takeWhile Reading.isDigit
      if digits.isEmpty then [] else '.' :: digits
  | _ => []

def sign : List Char → List Char
  | '+' :: _ => ['+']
  | '-' :: _ => ['-']
  | _ => []

def exponent : List Char → List Char
  | mark :: rest =>
      let sign := sign rest
      let digits := (rest.drop sign.length).takeWhile Reading.isDigit
      if (mark = 'e' || mark = 'E') && !digits.isEmpty then mark :: (sign ++ digits) else []
  | [] => []

def unsigned (text : List Char) : List Char :=
  let whole := whole text
  if whole.isEmpty then []
  else
    let mantissa := whole ++ fraction (text.drop whole.length)
    mantissa ++ exponent (text.drop mantissa.length)

def number : List Char → List Char
  | '-' :: rest =>
      let digits := unsigned rest
      if digits.isEmpty then [] else '-' :: digits
  | text => unsigned text

def plain? (text : List Char) : Option (Json × Nat) :=
  if "null".toList.isPrefixOf text then some (.null, 4)
  else if "true".toList.isPrefixOf text then some (.bool true, 4)
  else if "false".toList.isPrefixOf text then some (.bool false, 5)
  else
    let number := number text
    if number.isEmpty then none else some (.number number, number.length)

def ofText? (text : List Char) : Option (List Mark) :=
  match text with
  | [] => some []
  | first :: rest =>
      if isBlank first then ofText? rest
      else match ofSymbol? first with
        | some mark => (ofText? rest).map (mark :: ·)
        | none =>
            if first = '"' then
              (spelling? rest).bind fun spelling =>
                (ofText? (rest.drop (spelling.length + 1))).map (.string spelling :: ·)
            else
              (plain? text).bind fun (json, length) =>
                (ofText? (rest.drop (length - 1))).map (.plain json :: ·)
termination_by text.length
decreasing_by all_goals simp only [List.length_cons, List.length_drop]; omega

end Mark

/-- An array or object that is not complete: its items or members so far, the latest first, and the
name of the member that comes next. -/
inductive Open where
  | array (items : List Json)
  | object (members : List (List Char × Json)) (name : List Char)

/-- What comes next, inside the open arrays and objects, the innermost first. -/
inductive Reader where
  /-- A value, or the end of an array without items. -/
  | value (first : Bool) (opened : List Open)
  /-- The name of a member, or the end of an object without members. -/
  | key (first : Bool) (members : List (List Char × Json)) (opened : List Open)
  | colon (members : List (List Char × Json)) (name : List Char) (opened : List Open)
  /-- A comma, or the end of what is open, behind a value. -/
  | behind (json : Json) (opened : List Open)

namespace Reader

def feed : Reader → Mark → Option Reader
  | .value _ opened, .plain json => some (.behind json opened)
  | .value _ opened, .string spelling => some (.behind (.string spelling) opened)
  | .value _ opened, .openArray => some (.value true (.array [] :: opened))
  | .value _ opened, .openObject => some (.key true [] opened)
  | .value true (.array _ :: opened), .closeArray => some (.behind (.array []) opened)
  | .key _ members opened, .string spelling => some (.colon members spelling opened)
  | .key true _ opened, .closeObject => some (.behind (.object []) opened)
  | .colon members name opened, .colon => some (.value false (.object members name :: opened))
  | .behind json (.array items :: opened), .comma =>
      some (.value false (.array (json :: items) :: opened))
  | .behind json (.array items :: opened), .closeArray =>
      some (.behind (.array (json :: items).reverse) opened)
  | .behind json (.object members name :: opened), .comma =>
      some (.key false ((name, json) :: members) opened)
  | .behind json (.object members name :: opened), .closeObject =>
      some (.behind (.object ((name, json) :: members).reverse) opened)
  | _, _ => none

end Reader

def parse? (text : String) : Option Json := do
  let marks ← Mark.ofText? text.toList
  match ← marks.foldlM Reader.feed (.value false []) with
  | .behind json [] => some json
  | _ => none

end ScriptEngine.Json
