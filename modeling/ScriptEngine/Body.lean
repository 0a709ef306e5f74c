import ScriptEngine.Overload
import ScriptEngine.Scope
/-! Compiled function bodies: trees of statements and typed expressions whose names are bound. -/

namespace ScriptEngine

inductive Operator where
  | add
  | sub
  | mul
  | div
deriving DecidableEq, Repr

/-- Where a call looks for its function: among free functions, in the class of the receiver, or in a
class that the source fixes. -/
inductive Dispatch where
  | free
  | receiver
  | ofClass (className : String)
deriving DecidableEq, Repr

/-- A call in a body. The place of the called name tells the sites of one source apart. -/
structure CallSite where
  name : String
  offset : Nat
  span : Span
  dispatch : Dispatch
  /-- The function found when the site was compiled. -/
  callee : FunctionId
deriving DecidableEq, Repr

def CallSite.hasReceiver (site : CallSite) : Bool := site.dispatch != .free

/-- The operands of a call are the receiver, if it has one, and the arguments. -/
inductive Expr where
  | literal (type : DataType) (span : Span) (value : Value)
  | var (type : DataType) (span : Span) (target : Target)
  | negate (type : DataType) (span : Span) (operand : Expr)
  | binary (type : DataType) (span : Span) (operator : Operator) (left right : Expr)
  | call (type : DataType) (span : Span) (site : CallSite) (operands : List Expr)
deriving Inhabited

namespace Expr

def type : Expr → DataType
  | .literal type _ _ | .var type _ _ | .negate type _ _ | .binary type _ _ _ _
  | .call type _ _ _ => type

def span : Expr → Span
  | .literal _ span _ | .var _ span _ | .negate _ span _ | .binary _ span _ _ _
  | .call _ span _ _ => span

def withSpan (span : Span) : Expr → Expr
  | .literal type _ value => .literal type span value
  | .var type _ target => .var type span target
  | .negate type _ operand => .negate type span operand
  | .binary type _ operator left right => .binary type span operator left right
  | .call type _ site operands => .call type span site operands

end Expr

inductive Stmt where
  | block (span : Span) (stmts : List Stmt)
  | return (span : Span) (value : Option Expr)
  | wait (span : Span) (count : Expr)
  | declare (span : Span) (id : VarId) (name : String) (type : DataType) (init : Option Expr)
  | assign (span : Span) (target : Target) (value : Expr)
  | expr (value : Expr)
deriving Inhabited

def Stmt.span : Stmt → Span
  | .block span _ | .return span _ | .wait span _ | .declare span _ _ _ _ | .assign span _ _ => span
  | .expr value => value.span

/-- A block of statements; the span covers the braces. -/
structure Block where
  span : Span
  stmts : List Stmt
deriving Inhabited

end ScriptEngine
