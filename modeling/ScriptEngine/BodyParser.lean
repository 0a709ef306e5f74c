import ScriptEngine.Body
import ScriptEngine.CallScope
import ScriptEngine.Literal
/-! Reading function bodies. A recursive descent over the tokens binds names, resolves calls and
types expressions as it goes, so the first thing wrong in the source is the error reported. Every
part consumes a token, which is why the descent ends. -/

namespace ScriptEngine.BodyParser

def sumOperator? : TokenKind → Option Operator
  | .plus => some .add
  | .minus => some .sub
  | _ => none

def productOperator? : TokenKind → Option Operator
  | .star => some .mul
  | .slash => some .div
  | _ => none

def takeOperator? (wanted : TokenKind → Option Operator) (stream : TokenStream) :
    Option (Parsed stream Operator) :=
  match wanted stream.peek.kind, stream.next? with
  | some operator, some token => some ⟨operator, token.rest, token.shorter⟩
  | _, _ => none

def combine (operator : Operator) (left right : Expr) : Except CompileError Expr :=
  let span := left.span.cover right.span
  if left.type.kind.isNumeric && right.type.kind.isNumeric then
    .ok (.binary (left.type.promote right.type) span operator left right)
  else if operator = .add && (left.type.kind = .string || right.type.kind = .string)
      && !left.type.isVoid && !right.type.isVoid then
    .ok (.binary .string span operator left right)
  else
    .error ⟨.typeMismatch, span, some s!"operands {left.type.text} and {right.type.text}"⟩

def combineNegation (minus : Span) (operand : Expr) : Except CompileError Expr :=
  if operand.type.kind.isNumeric then
    .ok (.negate (operand.type.promote operand.type) (minus.cover operand.span) operand)
  else .error ⟨.typeMismatch, operand.span, some s!"cannot negate {operand.type.text}"⟩

/-- The expression of an integer literal: `int` if the number fits, and `long` if not. -/
def intLiteral (token : Token) : Except CompileError Expr :=
  match Literal.int? token.lexeme with
  | some value =>
      let type := if value.toInt32.toInt64 = value then DataType.int else .long
      .ok (.literal type token.span (.int value))
  | none => .error ⟨.unexpectedToken, token.span, some token.lexeme⟩

def floatLiteral (token : Token) : Except CompileError Expr :=
  match Literal.float? token.lexeme with
  | some value =>
      if token.kind = .floatLiteral then
        .ok (.literal .float token.span (.float (Binary64.toSingle value)))
      else .ok (.literal .double token.span (.float value))
  | none => .error ⟨.unexpectedToken, token.span, some token.lexeme⟩

def nameExpr (scope : Scope) (token : Token) : Except CompileError Expr :=
  match scope.lookup token.lexeme with
  | some found => .ok (.var found.type token.span found.target)
  | none => .error ⟨.unknownVariable, token.span, some token.lexeme⟩

def freeCall (names : CallScope) (name : Token) (args : List Expr) (stream : TokenStream) :
    Except CompileError Expr :=
  match names.resolveCall name.lexeme (args.map Expr.type) with
  | .ok callee =>
      let span := stream.spanSince name.span
      .ok (.call callee.returns span ⟨name.lexeme, name.span.start, span, .free, callee.id⟩ args)
  | .error cause => .error ⟨cause, name.span, some name.lexeme⟩

def dispatchOn (receiver : Expr) (className : String) : Dispatch :=
  match receiver with
  | .var _ _ (.reserved .super) => .ofClass className
  | _ => .receiver

def methodCall (names : CallScope) (receiver : Expr) (className : String) (name : Token)
    (args : List Expr) (stream : TokenStream) : Except CompileError Expr :=
  match names.resolveMethod className name.lexeme (args.map Expr.type) with
  | .ok callee =>
      let span := stream.spanSince receiver.span
      let site : CallSite :=
        ⟨name.lexeme, name.span.start, span, dispatchOn receiver className, callee.id⟩
      .ok (.call callee.returns span site (receiver :: args))
  | .error cause => .error ⟨cause, name.span, some name.lexeme⟩

def receiverClass (receiver : Expr) : Except CompileError String :=
  match receiver.type.className? with
  | some className => .ok className
  | none => .error ⟨.typeMismatch, receiver.span, some s!"{receiver.type.text} has no methods"⟩

mutual

def expr (names : CallScope) (scope : Scope) (stream : TokenStream) :
    Except CompileError (Parsed stream Expr) := do
  let first ← product names scope stream
  let all ← sums names scope first.value first.rest
  return ⟨all.value, all.rest, Nat.lt_of_le_of_lt all.bounded first.shorter⟩
termination_by 8 * stream.size + 4
decreasing_by
  · omega
  · have := first.shorter
    omega

def sums (names : CallScope) (scope : Scope) (left : Expr) (stream : TokenStream) :
    Except CompileError (Reached stream Expr) := do
  match takeOperator? sumOperator? stream with
  | none => return ⟨left, stream, Nat.le_refl _⟩
  | some operator =>
      let right ← product names scope operator.rest
      let sum ← combine operator.value left right.value
      let all ← sums names scope sum right.rest
      return ⟨all.value, all.rest, by
        have := operator.shorter
        have := right.shorter
        have := all.bounded
        omega⟩
termination_by 8 * stream.size
decreasing_by
  · have := operator.shorter
    omega
  · have := operator.shorter
    have := right.shorter
    omega

def product (names : CallScope) (scope : Scope) (stream : TokenStream) :
    Except CompileError (Parsed stream Expr) := do
  let first ← unary names scope stream
  let all ← products names scope first.value first.rest
  return ⟨all.value, all.rest, Nat.lt_of_le_of_lt all.bounded first.shorter⟩
termination_by 8 * stream.size + 3
decreasing_by
  · omega
  · have := first.shorter
    omega

def products (names : CallScope) (scope : Scope) (left : Expr) (stream : TokenStream) :
    Except CompileError (Reached stream Expr) := do
  match takeOperator? productOperator? stream with
  | none => return ⟨left, stream, Nat.le_refl _⟩
  | some operator =>
      let right ← unary names scope operator.rest
      let product ← combine operator.value left right.value
      let all ← products names scope product right.rest
      return ⟨all.value, all.rest, by
        have := operator.shorter
        have := right.shorter
        have := all.bounded
        omega⟩
termination_by 8 * stream.size
decreasing_by
  · have := operator.shorter
    omega
  · have := operator.shorter
    have := right.shorter
    omega

def unary (names : CallScope) (scope : Scope) (stream : TokenStream) :
    Except CompileError (Parsed stream Expr) := do
  match stream.take? .minus with
  | none => receiverCalls names scope stream
  | some minus =>
      let operand ← unary names scope minus.rest
      let negation ← combineNegation minus.value.span operand.value
      return ⟨negation, operand.rest, Nat.lt_trans operand.shorter minus.shorter⟩
termination_by 8 * stream.size + 2
decreasing_by
  · omega
  · have := minus.shorter
    omega

def receiverCalls (names : CallScope) (scope : Scope) (stream : TokenStream) :
    Except CompileError (Parsed stream Expr) := do
  let first ← primary names scope stream
  let all ← methodCalls names scope first.value first.rest
  return ⟨all.value, all.rest, Nat.lt_of_le_of_lt all.bounded first.shorter⟩
termination_by 8 * stream.size + 1
decreasing_by
  · omega
  · have := first.shorter
    omega

def methodCalls (names : CallScope) (scope : Scope) (receiver : Expr) (stream : TokenStream) :
    Except CompileError (Reached stream Expr) := do
  match stream.take? .dot with
  | none => return ⟨receiver, stream, Nat.le_refl _⟩
  | some dot =>
      let name ← dot.rest.takeName .expectedIdentifier
      let className ← receiverClass receiver
      let args ← arguments names scope name.rest
      let call ← methodCall names receiver className name.value args.value args.rest
      let all ← methodCalls names scope call args.rest
      return ⟨all.value, all.rest, by
        have := dot.shorter
        have := name.shorter
        have := args.shorter
        have := all.bounded
        omega⟩
termination_by 8 * stream.size
decreasing_by
  · have := dot.shorter
    have := name.shorter
    omega
  · have := dot.shorter
    have := name.shorter
    have := args.shorter
    omega

def primary (names : CallScope) (scope : Scope) (stream : TokenStream) :
    Except CompileError (Parsed stream Expr) := do
  match stream.next? with
  | none => throw ⟨.unexpectedEof, stream.peek.span, none⟩
  | some token =>
      let read (value : Expr) : Parsed stream Expr := ⟨value, token.rest, token.shorter⟩
      let literal (type : DataType) (value : Value) : Parsed stream Expr :=
        read (.literal type token.value.span value)
      match token.value.kind with
      | .intLiteral => return read (← intLiteral token.value)
      | .floatLiteral | .doubleLiteral => return read (← floatLiteral token.value)
      | .stringLiteral => return literal .string (.string (Literal.string token.value.lexeme))
      | .trueKeyword => return literal .bool (.bool true)
      | .falseKeyword => return literal .bool (.bool false)
      | .nullKeyword => return literal .null .null
      | .identifier =>
          if token.rest.check .leftParen then
            let args ← arguments names scope token.rest
            let call ← freeCall names token.value args.value args.rest
            return ⟨call, args.rest, Nat.lt_trans args.shorter token.shorter⟩
          else return read (← nameExpr scope token.value)
      | .thisKeyword | .superKeyword => return read (← nameExpr scope token.value)
      | .leftParen =>
          let inner ← expr names scope token.rest
          let closing ← inner.rest.take .rightParen .expectedCloseParen
          return ⟨inner.value.withSpan (closing.rest.spanSince token.value.span), closing.rest,
            Nat.lt_trans closing.shorter (Nat.lt_trans inner.shorter token.shorter)⟩
      | kind => throw ⟨.unexpectedToken, token.value.span, some kind.text⟩
termination_by 8 * stream.size
decreasing_by
  · have := token.shorter
    omega
  · have := token.shorter
    omega

def arguments (names : CallScope) (scope : Scope) (stream : TokenStream) :
    Except CompileError (Parsed stream (List Expr)) := do
  let opening ← stream.take .leftParen .expectedOpenParen
  match opening.rest.take? .rightParen with
  | some closing => return ⟨[], closing.rest, Nat.lt_trans closing.shorter opening.shorter⟩
  | none =>
      let args ← exprs names scope opening.rest
      let closing ← args.rest.take .rightParen .expectedCloseParen
      return ⟨args.value, closing.rest,
        Nat.lt_trans closing.shorter (Nat.lt_trans args.shorter opening.shorter)⟩
termination_by 8 * stream.size
decreasing_by
  have := opening.shorter
  omega

def exprs (names : CallScope) (scope : Scope) (stream : TokenStream) :
    Except CompileError (Parsed stream (List Expr)) := do
  let first ← expr names scope stream
  match first.rest.take? .comma with
  | none => return ⟨[first.value], first.rest, first.shorter⟩
  | some comma =>
      let more ← exprs names scope comma.rest
      return ⟨first.value :: more.value, more.rest,
        Nat.lt_trans more.shorter (Nat.lt_trans comma.shorter first.shorter)⟩
termination_by 8 * stream.size + 5
decreasing_by
  · omega
  · have := first.shorter
    have := comma.shorter
    omega

end

abbrev Statement (start : TokenStream) := Except CompileError (Parsed start (Stmt × Scope))

def returnStatement (names : CallScope) (scope : Scope) (stream : TokenStream) :
    Statement stream := do
  let keyword ← stream.take .returnKeyword .unexpectedToken
  let start := keyword.value.span
  match keyword.rest.take? .semicolon with
  | some semicolon =>
      if !scope.returns.isVoid then
        throw ⟨.missingReturnValue, start, some scope.returns.text⟩
      return ⟨(.return (start.cover semicolon.value.span) none, scope), semicolon.rest,
        Nat.lt_trans semicolon.shorter keyword.shorter⟩
  | none =>
      let value ← expr names scope keyword.rest
      let type := value.value.type
      if scope.returns.isVoid || !scope.returns.accepts names.classes.derives type then
        throw ⟨.typeMismatch, value.value.span,
          some s!"cannot return {type.text} from {scope.returns.text}"⟩
      let semicolon ← value.rest.take .semicolon .expectedSemicolon
      return ⟨(.return (semicolon.rest.spanSince start) (some value.value), scope), semicolon.rest,
        Nat.lt_trans semicolon.shorter (Nat.lt_trans value.shorter keyword.shorter)⟩

def waitStatement (names : CallScope) (scope : Scope) (stream : TokenStream) :
    Statement stream := do
  let keyword ← stream.take .waitKeyword .unexpectedToken
  let opening ← keyword.rest.take .leftParen .expectedOpenParen
  let count ← expr names scope opening.rest
  if !count.value.type.kind.isNumeric then
    throw ⟨.typeMismatch, count.value.span, some "wait count must be numeric"⟩
  let closing ← count.rest.take .rightParen .expectedCloseParen
  let semicolon ← closing.rest.take .semicolon .expectedSemicolon
  return ⟨(.wait (semicolon.rest.spanSince keyword.value.span) count.value, scope), semicolon.rest,
    Nat.lt_trans semicolon.shorter (Nat.lt_trans closing.shorter (Nat.lt_trans count.shorter
      (Nat.lt_trans opening.shorter keyword.shorter)))⟩

def assignedExpr (names : CallScope) (scope : Scope) (type : DataType) (stream : TokenStream) :
    Except CompileError (Parsed stream Expr) := do
  let value ← expr names scope stream
  if type.accepts names.classes.derives value.value.type then return value
  else throw ⟨.typeMismatch, value.value.span,
    some s!"cannot assign {value.value.type.text} to {type.text}"⟩

def initialValue (names : CallScope) (scope : Scope) (type : DataType) (stream : TokenStream) :
    Except CompileError (Reached stream (Option Expr)) := do
  match stream.take? .equal with
  | none => return ⟨none, stream, Nat.le_refl _⟩
  | some equal =>
      let value ← assignedExpr names scope type equal.rest
      return ⟨some value.value, value.rest,
        Nat.le_of_lt (Nat.lt_trans value.shorter equal.shorter)⟩

/-- A declaration. The variable is visible behind it, not in its own initial value. -/
def declaration (names : CallScope) (scope : Scope) (stream : TokenStream) :
    Statement stream := do
  let start := stream.peek.span
  match TypeName.read? names.classes stream with
  | none => throw ⟨.unexpectedToken, start, none⟩
  | some type =>
      if type.value.isVoid then
        throw ⟨.typeMismatch, start, some "variables cannot be void"⟩
      let name ← type.rest.takeName .expectedIdentifier
      let init ← initialValue names scope type.value name.rest
      let semicolon ← init.rest.take .semicolon .expectedSemicolon
      let (id, visible) ← scope.addLocal name.value.lexeme type.value name.value.span
      let span := semicolon.rest.spanSince start
      let declared := Stmt.declare span id name.value.lexeme type.value init.value
      return ⟨(declared, visible), semicolon.rest, by
        have := type.shorter
        have := name.shorter
        have := init.bounded
        have := semicolon.shorter
        omega⟩

def assignable (scope : Scope) (name : Token) : Except CompileError Visible :=
  match scope.lookup name.lexeme with
  | none => .error ⟨.unknownVariable, name.span, some name.lexeme⟩
  | some found =>
      match found.target with
      | .reserved reserved =>
          .error ⟨.typeMismatch, name.span, some s!"cannot assign to '{reserved.name}'"⟩
      | _ => .ok found

def assignment (names : CallScope) (scope : Scope) (stream : TokenStream) :
    Statement stream := do
  let name ← stream.takeName .unexpectedToken
  let found ← assignable scope name.value
  let equal ← name.rest.take .equal .unexpectedToken
  let value ← assignedExpr names scope found.type equal.rest
  let semicolon ← value.rest.take .semicolon .expectedSemicolon
  let span := semicolon.rest.spanSince name.value.span
  return ⟨(.assign span found.target value.value, scope), semicolon.rest,
    Nat.lt_trans semicolon.shorter (Nat.lt_trans value.shorter
      (Nat.lt_trans equal.shorter name.shorter))⟩

def exprStatement (names : CallScope) (scope : Scope) (stream : TokenStream) :
    Statement stream := do
  let value ← expr names scope stream
  let semicolon ← value.rest.take .semicolon .expectedSemicolon
  return ⟨(.expr value.value, scope), semicolon.rest, Nat.lt_trans semicolon.shorter value.shorter⟩

def startsDeclaration (classes : ClassTable) (stream : TokenStream) : Bool :=
  stream.peek.kind.isType ||
    (TypeName.startsHere classes stream &&
      ((stream.peekAt 1).kind = .identifier || (stream.peekAt 1).kind = .leftBracket))

def simpleStatement (names : CallScope) (scope : Scope) (stream : TokenStream) :
    Statement stream :=
  if stream.check .returnKeyword then returnStatement names scope stream
  else if stream.check .waitKeyword then waitStatement names scope stream
  else if stream.check .identifier && (stream.peekAt 1).kind = .equal then
    assignment names scope stream
  else if startsDeclaration names.classes stream then declaration names scope stream
  else exprStatement names scope stream

mutual

/-- A block with its braces. What it declares goes out of sight behind it. -/
def block (names : CallScope) (scope : Scope) (stream : TokenStream) :
    Except CompileError (Parsed stream (Block × Scope)) := do
  let opening ← stream.openBlock
  let body ← statements names scope.pushBlock opening.rest
  let (stmts, closing, inner) := body.value
  return ⟨(⟨opening.value.span.cover closing.span, stmts⟩, inner.popBlock), body.rest,
    Nat.lt_trans body.shorter opening.shorter⟩
termination_by 8 * stream.size
decreasing_by
  have := opening.shorter
  omega

def statements (names : CallScope) (scope : Scope) (stream : TokenStream) :
    Except CompileError (Parsed stream (List Stmt × Token × Scope)) := do
  match stream.closeBlock? with
  | some closing => return ⟨([], closing.value, scope), closing.rest, closing.shorter⟩
  | none =>
      if stream.isAtEnd then
        throw ⟨.unexpectedEof, stream.peek.span, some "unclosed block"⟩
      let first ← statement names scope stream
      let more ← statements names first.value.2 first.rest
      let (stmts, closing, behind) := more.value
      return ⟨(first.value.1 :: stmts, closing, behind), more.rest,
        Nat.lt_trans more.shorter first.shorter⟩
termination_by 8 * stream.size + 2
decreasing_by
  · omega
  · have := first.shorter
    omega

def statement (names : CallScope) (scope : Scope) (stream : TokenStream) : Statement stream := do
  if stream.check .leftBrace then
    let inner ← block names scope stream
    return ⟨(.block inner.value.1.span inner.value.1.stmts, inner.value.2), inner.rest,
      inner.shorter⟩
  else simpleStatement names scope stream
termination_by 8 * stream.size + 1
decreasing_by omega

end

end ScriptEngine.BodyParser
