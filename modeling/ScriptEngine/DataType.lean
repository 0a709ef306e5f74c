/-! Types of script values. A type is of one of thirteen kinds; a class type names its class and an
array type has an element. Which classes derive from which is asked of a `Hierarchy`, so that the
rules here hold with and without registered classes. -/

namespace ScriptEngine

inductive Kind where
  | void
  | byte
  | short
  | char
  | int
  | long
  | float
  | double
  | bool
  | string
  | array
  | object
  | null
deriving DecidableEq, Repr

namespace Kind

def all : List Kind :=
  [.void, .byte, .short, .char, .int, .long, .float, .double, .bool, .string, .array, .object,
    .null]

def name : Kind → String
  | .void => "void"
  | .byte => "byte"
  | .short => "short"
  | .char => "char"
  | .int => "int"
  | .long => "long"
  | .float => "float"
  | .double => "double"
  | .bool => "bool"
  | .string => "string"
  | .array => "array"
  | .object => "class"
  | .null => "null"

def number : Kind → Nat
  | .void => 0
  | .byte => 1
  | .short => 2
  | .char => 3
  | .int => 4
  | .long => 5
  | .float => 6
  | .double => 7
  | .bool => 8
  | .string => 9
  | .array => 10
  | .object => 11
  | .null => 12

def ofNumber? (number : Nat) : Option Kind := all[number]?

def isIntegral : Kind → Bool
  | .byte | .short | .char | .int | .long => true
  | _ => false

def isNumeric : Kind → Bool
  | .float | .double => true
  | kind => kind.isIntegral

def isReference : Kind → Bool
  | .array | .object | .null => true
  | _ => false

def wider (left right : Kind) : Kind := if left.number < right.number then right else left

theorem ofNumber?_number (kind : Kind) : ofNumber? kind.number = some kind := by
  cases kind <;> rfl

end Kind

/-- A kind, perhaps with a class name, and perhaps over an element type. A class type has its class
name and an array type its element. Types that hosts hand in may lack them, and may have a name or
an element that means nothing for their kind; types that differ in it differ. -/
inductive DataType where
  | single (kind : Kind) (className : Option String)
  | over (kind : Kind) (className : Option String) (element : DataType)
deriving DecidableEq, Repr

/-- Whether the first class is the second or derives from it. -/
abbrev Hierarchy := String → String → Bool

def Hierarchy.flat : Hierarchy := fun derived base => derived == base

namespace DataType

def kind : DataType → Kind
  | .single kind _ | .over kind _ _ => kind

def className? : DataType → Option String
  | .single _ className | .over _ className _ => className

def element? : DataType → Option DataType
  | .single _ _ => none
  | .over _ _ element => some element

def ofParts (kind : Kind) (className : Option String) : Option DataType → DataType
  | none => .single kind className
  | some element => .over kind className element

def ofKind (kind : Kind) : DataType := .single kind none

def void : DataType := ofKind .void

def int : DataType := ofKind .int

def long : DataType := ofKind .long

def float : DataType := ofKind .float

def double : DataType := ofKind .double

def bool : DataType := ofKind .bool

def string : DataType := ofKind .string

def null : DataType := ofKind .null

def object (className : String) : DataType := .single .object (some className)

def arrayOf (element : DataType) : DataType := .over .array none element

instance : Inhabited DataType := ⟨void⟩

def isVoid (type : DataType) : Bool := type.kind == .void

def rank (type : DataType) : Nat :=
  match type.kind with
  | .null => Kind.object.number
  | kind => kind.number

def text : DataType → String
  | .over .array _ element => element.text ++ "[]"
  | type =>
      match type.kind, type.className? with
      | .object, some className => className
      | kind, _ => kind.name

/-- Whether a variable of type `expected` takes a value of static type `given`. Numbers convert into
each other, `null` fits every reference, arrays need equal elements and classes a derived class. -/
def accepts (hierarchy : Hierarchy) (expected given : DataType) : Bool :=
  if expected.isVoid || given.isVoid then false
  else if expected.kind.isNumeric && given.kind.isNumeric then true
  else if given.kind = .null then expected.kind.isReference
  else if expected.kind ≠ given.kind then false
  else match expected.kind, expected.className?, given.className? with
    | .array, _, _ => expected.element? == given.element?
    | .object, some base, some derived => hierarchy derived base
    | .object, _, _ => false
    | _, _, _ => true

def promote (left right : DataType) : DataType :=
  .ofKind ((left.kind.wider right.kind).wider .int)

end DataType

end ScriptEngine
