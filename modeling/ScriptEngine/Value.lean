import ScriptEngine.DataType
import ScriptEngine.Number.Binary64
/-! Values of running scripts. All integral kinds share one representation and both floating kinds
another; the type of the variable that holds a value decides how much of it is kept. -/

namespace ScriptEngine

/-- A reference to an object: its slot, and how often the slot had been vacated before. -/
structure Handle where
  index : Nat
  generation : Nat
deriving DecidableEq, Repr, Inhabited

inductive Value where
  | void
  | bool (value : Bool)
  | int (value : Int64)
  | float (value : Float)
  | string (value : String)
  | object (handle : Handle)
  | null
deriving Inhabited

namespace Value

def typeName : Value → String
  | .void => "void"
  | .bool _ => "bool"
  | .int _ => "int"
  | .float _ => "float"
  | .string _ => "string"
  | .object _ => "object"
  | .null => "null"

def isVoid : Value → Bool
  | .void => true
  | _ => false

def isNull : Value → Bool
  | .null => true
  | _ => false

def asInt? : Value → Option Int64
  | .int value => some value
  | _ => none

def asFloat? : Value → Option Float
  | .float value => some value
  | .int value => some (Binary64.ofInt64 value)
  | _ => none

def asObject? : Value → Option Handle
  | .object handle => some handle
  | _ => none

def default (type : DataType) : Value :=
  match type.kind with
  | .void => .void
  | .bool => .bool false
  | .byte | .short | .char | .int | .long => .int 0
  | .float | .double => .float 0.0
  | .string => .string ""
  | .array | .object | .null => .null

def wrap (kind : Kind) (value : Int64) : Int64 :=
  match kind with
  | .byte => value.toInt8.toInt64
  | .short => value.toInt16.toInt64
  | .char => Int64.ofNat value.toUInt64.toUInt16.toNat
  | .int => value.toInt32.toInt64
  | _ => value

/-- The value as a variable of type `type` stores it: integers lose their fraction and high bits,
single-precision numbers are rounded. There is none if the type cannot hold the value at all. -/
def convert? (value : Value) (type : DataType) : Option Value :=
  match value with
  | .int number =>
      if type.kind.isIntegral then some (.int (wrap type.kind number))
      else match type.kind with
        | .float => some (.float (Binary64.singleOfInt64 number))
        | .double => some (.float (Binary64.ofInt64 number))
        | _ => none
  | .float number =>
      if type.kind.isIntegral then some (.int (wrap type.kind (Binary64.truncate number)))
      else match type.kind with
        | .float => some (.float (Binary64.toSingle number))
        | .double => some (.float number)
        | _ => none
  | .bool _ => if type.kind = .bool then some value else none
  | .string _ => if type.kind = .string then some value else none
  | .object _ => if type.kind = .object then some value else none
  | .null => if type.kind.isReference then some value else none
  | .void => if type.kind = .void then some value else none

/-- The number of times a wait yields: the whole part of a number, between zero and the greatest
32-bit natural. What is not a number waits for nothing. -/
def waitCount : Value → Nat
  | .int number => min number.toInt.toNat (UInt32.size - 1)
  | .float number => min (Binary64.truncate number).toInt.toNat (UInt32.size - 1)
  | _ => 0

end Value

end ScriptEngine
