import ScriptEngine.Number.Layout
import ScriptEngine.Number.Scaling
/-! JSON documents. Numbers and texts keep the spelling they have in the document and are
interpreted when they are asked for, so a document may hold numbers of any size. -/

namespace ScriptEngine

inductive Json where
  | null
  | bool (value : Bool)
  | number (spelling : List Char)
  /-- A text with its escapes and without its quotes. -/
  | string (spelling : List Char)
  | array (items : List Json)
  | object (members : List (List Char × Json))
deriving Inhabited

namespace Json

def hexDigit (value : Nat) : Char := Nat.digitChar value

def escapeChar (char : Char) : List Char :=
  match char with
  | '"' => ['\\', '"']
  | '\\' => ['\\', '\\']
  | '\x08' => ['\\', 'b']
  | '\x0c' => ['\\', 'f']
  | '\n' => ['\\', 'n']
  | '\r' => ['\\', 'r']
  | '\t' => ['\\', 't']
  | char =>
      if char < ' ' then
        ['\\', 'u', '0', '0', hexDigit (char.toNat / 16), hexDigit (char.toNat % 16)]
      else [char]

def escape (text : List Char) : List Char := text.flatMap escapeChar

def unit? (first second third fourth : Char) : Option Nat :=
  Reading.nat? 16 [first, second, third, fourth]

def escaped? : Char → Option Char
  | '"' => some '"'
  | '\\' => some '\\'
  | '/' => some '/'
  | 'b' => some '\x08'
  | 'f' => some '\x0c'
  | 'n' => some '\n'
  | 'r' => some '\r'
  | 't' => some '\t'
  | _ => none

def units? : List Char → Option (List Nat)
  | [] => some []
  | '\\' :: 'u' :: first :: second :: third :: fourth :: rest => do
      return (← unit? first second third fourth) :: (← units? rest)
  | '\\' :: char :: rest => do return (← escaped? char).toNat :: (← units? rest)
  | ['\\'] => none
  | char :: rest => do return char.toNat :: (← units? rest)

def isHighHalf (unit : Nat) : Bool := 0xD800 ≤ unit && unit < 0xDC00

def isLowHalf (unit : Nat) : Bool := 0xDC00 ≤ unit && unit < 0xE000

def joinHalves? : List Nat → Option (List Char)
  | [] => some []
  | unit :: rest =>
      if isLowHalf unit then none
      else if isHighHalf unit then
        match rest with
        | low :: rest =>
            if isLowHalf low then
              (joinHalves? rest).map
                (Char.ofNat (0x10000 + (unit - 0xD800) * 0x400 + (low - 0xDC00)) :: ·)
            else none
        | [] => none
      else (joinHalves? rest).map (Char.ofNat unit :: ·)

def unescape? (spelling : List Char) : Option String :=
  ((units? spelling).bind joinHalves?).map String.ofList

def ofText (text : String) : Json := .string (escape text.toList)

def ofNat (number : Nat) : Json := .number (Nat.toDigits 10 number)

def ofInt (number : Int) : Json := .number (toString number).toList

/-- Floats have a point or an exponent; the exponent comes in for numbers below `1e-5` or from
`1e16` on. What is not a finite number is null. -/
def floatText : Layout := ⟨some (-5, 15), true, .even, "null", "null"⟩

def ofFloat (number : Float) : Json :=
  match Binary64.decode number with
  | .finite .. => .number (floatText.writeDouble number).toList
  | _ => .null

def orNull {α : Type} (encode : α → Json) : Option α → Json
  | some value => encode value
  | none => .null

def ofMembers (members : List (String × Json)) : Json :=
  .object (members.map fun member => (member.1.toList, member.2))

def text? : Json → Option String
  | .string spelling => unescape? spelling
  | _ => none

def bool? : Json → Option Bool
  | .bool value => some value
  | _ => none

def int? : Json → Option Int
  | .number ['-', '0'] => none
  | .number spelling => Reading.int? 10 spelling
  | _ => none

def natBelow? (bound : Nat) (json : Json) : Option Nat :=
  json.int?.bind fun number => if 0 ≤ number && number < bound then some number.toNat else none

def int64? (json : Json) : Option Int64 :=
  json.int?.bind fun number =>
    if Int64.minValue.toInt ≤ number && number ≤ Int64.maxValue.toInt then
      some (Int64.ofInt number)
    else none

/-- A finite float, which may be written as an integer; it is read by scaling. -/
def float? : Json → Option Float
  | .number spelling => Scaling.float? spelling
  | _ => none

def writeQuoted (spelling rest : List Char) : List Char := '"' :: spelling ++ '"' :: rest

mutual

def write : Json → List Char → List Char
  | .null, rest => "null".toList ++ rest
  | .bool value, rest => (if value then "true" else "false").toList ++ rest
  | .number spelling, rest => spelling ++ rest
  | .string spelling, rest => writeQuoted spelling rest
  | .array [], rest => '[' :: ']' :: rest
  | .array (first :: more), rest => '[' :: first.write (writeItems more (']' :: rest))
  | .object [], rest => '{' :: '}' :: rest
  | .object ((key, value) :: more), rest =>
      '{' :: writeQuoted key (':' :: value.write (writeMembers more ('}' :: rest)))

def writeItems : List Json → List Char → List Char
  | [], rest => rest
  | item :: more, rest => ',' :: item.write (writeItems more rest)

def writeMembers : List (List Char × Json) → List Char → List Char
  | [], rest => rest
  | (key, value) :: more, rest =>
      ',' :: writeQuoted key (':' :: value.write (writeMembers more rest))

end

def render (json : Json) : String := String.ofList (json.write [])

end Json

end ScriptEngine
