import ScriptEngine.ClassTable
import ScriptEngine.TokenStream
/-! Type names and parameter lists: how they are read, written, compared, and how arguments become
the parameter variables of a call. -/

namespace ScriptEngine

namespace TypeName

def ofToken? (classes : ClassTable) (token : Token) : Option DataType :=
  match token.kind.type? with
  | some type => some type
  | none =>
      if token.kind = .identifier && classes.contains token.lexeme then some (.object token.lexeme)
      else none

def startsHere (classes : ClassTable) (stream : TokenStream) : Bool :=
  (ofToken? classes stream.peek).isSome

def arrays (type : DataType) (passed : List Token) : List Token → DataType × TokenStream
  | opening :: closing :: rest =>
      if opening.kind = .leftBracket && closing.kind = .rightBracket then
        arrays (.arrayOf type) (closing :: opening :: passed) rest
      else (type, ⟨passed, opening :: closing :: rest⟩)
  | ahead => (type, ⟨passed, ahead⟩)

theorem arrays_size (type : DataType) (passed ahead : List Token) :
    (arrays type passed ahead).2.size ≤ ahead.length := by
  fun_induction arrays type passed ahead with
  | case1 type passed opening closing rest both ih => exact Nat.le_trans ih (by simp; omega)
  | case2 => exact Nat.le_refl _
  | case3 => exact Nat.le_refl _

theorem ofToken?_eof {classes : ClassTable} {token : Token} (ended : token.kind = .eof) :
    ofToken? classes token = none := by
  simp [ofToken?, ended, TokenKind.type?]

def read? (classes : ClassTable) (stream : TokenStream) : Option (Parsed stream DataType) :=
  match named : ofToken? classes stream.peek with
  | none => none
  | some type =>
      let behind := stream.advance
      have moved : behind.size < stream.size := by
        apply TokenStream.advance_size_lt
        intro ended
        simp [ofToken?_eof ended] at named
      let suffixed := arrays type behind.passed behind.ahead
      some ⟨suffixed.1, suffixed.2,
        Nat.lt_of_le_of_lt (arrays_size type behind.passed behind.ahead) moved⟩

end TypeName

structure Param where
  name : String
  type : DataType
  span : Span
deriving DecidableEq, Repr

/-- The parameters of a declaration; the span covers the parentheses. -/
structure ParamList where
  params : List Param := []
  span : Span := .nowhere
deriving DecidableEq, Repr, Inhabited

namespace ParamList

def readParam (classes : ClassTable) (earlier : List Param) (stream : TokenStream) :
    Except CompileError (Parsed stream Param) := do
  let start := stream.peek.span
  match TypeName.read? classes stream with
  | none => throw ⟨.unexpectedToken, start, some "parameter type expected"⟩
  | some type =>
      if type.value.isVoid then throw ⟨.typeMismatch, start, some "void parameter"⟩
      let name ← type.rest.takeName .expectedIdentifier
      if earlier.any fun param => param.name = name.value.lexeme then
        throw ⟨.redefinedVariable, name.value.span, some name.value.lexeme⟩
      return ⟨⟨name.value.lexeme, type.value, start.cover name.value.span⟩, name.rest,
        Nat.lt_trans name.shorter type.shorter⟩

def readParams (classes : ClassTable) (earlier : List Param) (stream : TokenStream) :
    Except CompileError (Parsed stream (List Param)) := do
  let param ← readParam classes earlier stream
  match param.rest.take? .comma with
  | none => return ⟨earlier ++ [param.value], param.rest, param.shorter⟩
  | some comma =>
      let more ← readParams classes (earlier ++ [param.value]) comma.rest
      return ⟨more.value, more.rest,
        Nat.lt_trans more.shorter (Nat.lt_trans comma.shorter param.shorter)⟩
termination_by stream.size
decreasing_by exact Nat.lt_trans comma.shorter param.shorter

def read (classes : ClassTable) (stream : TokenStream) :
    Except CompileError (Parsed stream ParamList) := do
  let opening ← stream.take .leftParen .expectedOpenParen
  match opening.rest.take? .rightParen with
  | some closing =>
      return ⟨⟨[], closing.rest.spanSince opening.value.span⟩, closing.rest,
        Nat.lt_trans closing.shorter opening.shorter⟩
  | none =>
      let params ← readParams classes [] opening.rest
      let closing ← params.rest.take .rightParen .expectedCloseParen
      return ⟨⟨params.value, closing.rest.spanSince opening.value.span⟩, closing.rest,
        Nat.lt_trans closing.shorter (Nat.lt_trans params.shorter opening.shorter)⟩

def types (list : ParamList) : List DataType := list.params.map Param.type

/-- Whether both lists have the same types; names do not matter. -/
def agrees (list other : ParamList) : Bool := list.types == other.types

/-- The list as text: parentheses, types and names, each set off by a blank. -/
def text (list : ParamList) : String :=
  if list.params.isEmpty then "()"
  else
    "(" ++ String.intercalate "," (list.params.map fun param => s!" {param.type.text} {param.name}")
      ++ " )"

def bindParam (args : Variables) (place : Nat) (param : Param) : Except RuntimeError Variable :=
  match (args[place]?).bind fun arg => arg.value.convert? param.type with
  | some value => .ok ((Variable.holding param.name param.type value).bind (.var ⟨place⟩))
  | none => .error ⟨.typeMismatch, some param.span⟩

/-- Append the variables of the parameters from some place on; those before a failure stay. -/
def bindFrom (args : Variables) (place : Nat) (vars : Variables) :
    List Param → Variables × Option RuntimeError
  | [] => (vars, none)
  | param :: rest =>
      match bindParam args place param with
      | .ok var => bindFrom args (place + 1) (vars ++ [var]) rest
      | .error error => (vars, some error)

/-- Append one variable per parameter. Arguments beyond the parameters are ignored. -/
def bind (list : ParamList) (args vars : Variables) : Variables × Option RuntimeError :=
  bindFrom args 0 vars list.params

end ParamList

end ScriptEngine
