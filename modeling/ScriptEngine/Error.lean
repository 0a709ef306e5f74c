import ScriptEngine.Span
/-! What can go wrong in a source text, in a call and in a running script, and the words for it. -/

namespace ScriptEngine

/-- Causes of a failed compilation. Call resolution reports through the same causes. -/
inductive CompileCause where
  | undefinedCall
  | noSuchFunctionName
  | noTypeForReturnValue
  | badParameterType
  | tooManyParameters
  | tooFewParameters
  | ambiguousParameterCount
  | redefinition
  | unknownClass
  | missingOpenBlock
  | expectedOpenParen
  | expectedCloseParen
  | expectedIdentifier
  | expectedSemicolon
  | redefinedVariable
  | unknownVariable
  | typeMismatch
  | missingReturnValue
  | unexpectedToken
  | unexpectedEof
deriving DecidableEq, Repr

namespace CompileCause

def text : CompileCause → String
  | .undefinedCall => "undefined function call"
  | .noSuchFunctionName => "function name expected"
  | .noTypeForReturnValue => "return type expected"
  | .badParameterType => "bad parameter type"
  | .tooManyParameters => "too many parameters"
  | .tooFewParameters => "too few parameters"
  | .ambiguousParameterCount => "wrong number of parameters"
  | .redefinition => "function already defined"
  | .unknownClass => "unknown class"
  | .missingOpenBlock => "'\x7b' expected"
  | .expectedOpenParen => "'(' expected"
  | .expectedCloseParen => "')' expected"
  | .expectedIdentifier => "identifier expected"
  | .expectedSemicolon => "';' expected"
  | .redefinedVariable => "variable already defined"
  | .unknownVariable => "unknown variable"
  | .typeMismatch => "type mismatch"
  | .missingReturnValue => "return value expected"
  | .unexpectedToken => "unexpected token"
  | .unexpectedEof => "unexpected end of input"

def code : CompileCause → String
  | .undefinedCall => "UndefinedCall"
  | .noSuchFunctionName => "NoSuchFunctionName"
  | .noTypeForReturnValue => "NoTypeForReturnValue"
  | .badParameterType => "BadParameterType"
  | .tooManyParameters => "TooManyParameters"
  | .tooFewParameters => "TooFewParameters"
  | .ambiguousParameterCount => "AmbiguousParameterCount"
  | .redefinition => "Redefinition"
  | .unknownClass => "UnknownClass"
  | .missingOpenBlock => "MissingOpenBlock"
  | .expectedOpenParen => "ExpectedOpenParen"
  | .expectedCloseParen => "ExpectedCloseParen"
  | .expectedIdentifier => "ExpectedIdentifier"
  | .expectedSemicolon => "ExpectedSemicolon"
  | .redefinedVariable => "RedefinedVariable"
  | .unknownVariable => "UnknownVariable"
  | .typeMismatch => "TypeMismatch"
  | .missingReturnValue => "MissingReturnValue"
  | .unexpectedToken => "UnexpectedToken"
  | .unexpectedEof => "UnexpectedEof"

def all : List CompileCause :=
  [.undefinedCall, .noSuchFunctionName, .noTypeForReturnValue, .badParameterType,
    .tooManyParameters, .tooFewParameters, .ambiguousParameterCount, .redefinition, .unknownClass,
    .missingOpenBlock,
    .expectedOpenParen, .expectedCloseParen, .expectedIdentifier, .expectedSemicolon,
    .redefinedVariable, .unknownVariable, .typeMismatch, .missingReturnValue, .unexpectedToken,
    .unexpectedEof]

def isCountMismatch : CompileCause → Bool
  | .tooManyParameters | .tooFewParameters | .ambiguousParameterCount => true
  | _ => false

end CompileCause

/-- A failed compilation: the cause, where, and perhaps the offending name. -/
structure CompileError where
  cause : CompileCause
  span : Span
  detail : Option String := none
deriving DecidableEq, Repr

def CompileError.message (error : CompileError) : String :=
  let detail := match error.detail with
    | some detail => s!" ({detail})"
    | none => ""
  s!"at {error.span.text}: {error.cause.text}{detail}"

/-- A source text that does not fall into tokens. -/
inductive LexError where
  | unexpectedChar (char : Char) (span : Span)
  | unterminatedString (span : Span)
  | unterminatedComment (span : Span)
  | invalidNumber (span : Span)
deriving DecidableEq, Repr

namespace LexError

def span : LexError → Span
  | .unexpectedChar _ span | .unterminatedString span | .unterminatedComment span
  | .invalidNumber span => span

def message : LexError → String
  | .unexpectedChar char span => s!"unexpected character '{char}' at {span.text}"
  | .unterminatedString span => s!"unterminated string at {span.text}"
  | .unterminatedComment span => s!"unterminated comment at {span.text}"
  | .invalidNumber span => s!"invalid number at {span.text}"

def toCompileError (error : LexError) : CompileError :=
  ⟨.unexpectedToken, error.span, some error.message⟩

end LexError

/-- Causes of a failed run. -/
inductive RuntimeCause where
  | undefinedCall
  | missingInstance
  | unknownFunction
  | unknownVariable
  | nullReference
  | staleObject
  | typeMismatch
  | stackOverflow
  | divisionByZero
deriving DecidableEq, Repr

namespace RuntimeCause

def text : RuntimeCause → String
  | .undefinedCall => "undefined function call"
  | .missingInstance => "no instance bound to 'this'"
  | .unknownFunction => "unknown function"
  | .unknownVariable => "unknown variable"
  | .nullReference => "null reference"
  | .staleObject => "stale object handle"
  | .typeMismatch => "type mismatch"
  | .stackOverflow => "call stack overflow"
  | .divisionByZero => "division by zero"

def code : RuntimeCause → String
  | .undefinedCall => "UndefinedCall"
  | .missingInstance => "MissingInstance"
  | .unknownFunction => "UnknownFunction"
  | .unknownVariable => "UnknownVariable"
  | .nullReference => "NullReference"
  | .staleObject => "StaleObject"
  | .typeMismatch => "TypeMismatch"
  | .stackOverflow => "StackOverflow"
  | .divisionByZero => "DivisionByZero"

def all : List RuntimeCause :=
  [.undefinedCall, .missingInstance, .unknownFunction, .unknownVariable, .nullReference,
    .staleObject, .typeMismatch, .stackOverflow, .divisionByZero]

end RuntimeCause

/-- A failed run, placed in a source where a place is known. -/
structure RuntimeError where
  cause : RuntimeCause
  span : Option Span := none
deriving DecidableEq, Repr

namespace RuntimeError

def message (error : RuntimeError) : String :=
  match error.span with
  | some span => s!"{error.cause.text} at {span.text}"
  | none => error.cause.text

def positioned (error : RuntimeError) (span : Span) : RuntimeError :=
  { error with span := some span }

def positionedAt (error : RuntimeError) : Option Span → RuntimeError
  | some span => error.positioned span
  | none => error

end RuntimeError

end ScriptEngine
