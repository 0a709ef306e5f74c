import ScriptEngine.Exchange.State
import ScriptEngine.Literal
/-! Listings of source texts and of what they were compiled to: tokens, declarations and bodies. -/

namespace ScriptEngine.Exchange

def lexErrorName : LexError → String
  | .unexpectedChar _ _ => "UnexpectedChar"
  | .unterminatedString _ => "UnterminatedString"
  | .unterminatedComment _ => "UnterminatedComment"
  | .invalidNumber _ => "InvalidNumber"

def lexErrorJson (error : LexError) : Json :=
  .ofMembers
    [("error", .ofText (lexErrorName error)), ("message", .ofText error.message),
      ("span", spanJson error.span), ("compile", compileErrorJson error.toCompileError)]

def tokenParts (token : Token) : List Json :=
  [.ofText token.kind.name, .ofText token.lexeme, spanJson token.span]

def tokenJson (token : Token) : Json := .array (tokenParts token)

def literalJson? (token : Token) : Option Json :=
  match token.kind with
  | .intLiteral => (Literal.int? token.lexeme).map intJson
  | .floatLiteral | .doubleLiteral => (Literal.float? token.lexeme).map floatJson
  | .stringLiteral => some (.ofText (Literal.string token.lexeme))
  | _ => none

def literalTokenJson (token : Token) : Json :=
  .array (tokenParts token ++ (literalJson? token).toList)

def tokenKindJson (kind : TokenKind) : Json :=
  .ofMembers
    [("kind", .ofText kind.name), ("display", .ofText kind.text), ("primitive", .bool kind.isType),
      ("type", .orNull typeJson kind.type?), ("literal", .bool kind.isLiteral),
      ("modifier", .bool kind.isModifier)]

def typeInfoJson (type : DataType) : Json :=
  .ofMembers
    [("display", .ofText type.text), ("rank", .ofNat type.rank), ("kind", .ofText type.kind.name),
      ("numeric", .bool type.kind.isNumeric), ("integral", .bool type.kind.isIntegral),
      ("reference", .bool type.kind.isReference), ("void", .bool type.isVoid),
      ("default", valueJson (.default type))]

def paramsJson (list : ParamList) : Json :=
  let paramJson (param : Param) : Json :=
    .array [.ofText param.name, typeJson param.type, spanJson param.span]
  .ofMembers
    [("params", each paramJson list.params), ("span", spanJson list.span),
      ("format", .ofText list.text), ("len", .ofNat list.params.length),
      ("empty", .bool list.params.isEmpty)]

def positionsJson (positions : Positions) : Json :=
  .ofMembers
    [("extern", .orNull spanJson positions.externKeyword), ("name", spanJson positions.name),
      ("params", spanJson positions.params), ("body", spanJson positions.body),
      ("whole", spanJson positions.whole)]

def positions? (json : Json) : Option Positions := do
  let region (name : String) : Option Span := (member? json name).bind span?
  return {
    externKeyword := region "extern"
    name := ← region "name"
    params := ← region "params"
    body := ← region "body"
    whole := ← region "whole" }

def region? (json : Json) : Option Region :=
  json.text?.bind fun
    | "extern" => some .externKeyword
    | "name" => some .name
    | "params" => some .params
    | "body" => some .body
    | "whole" => some .whole
    | _ => none

def signatureJson (signature : Signature) : Json :=
  let header := signature.header
  .ofMembers
    [("id", .ofNat signature.id.number), ("name", .ofText header.name),
      ("returns", typeJson header.returns), ("params", paramsJson header.params),
      ("flags", .ofNat (signature.flags false)), ("owner", .orNull .ofText header.owner),
      ("block", .orNull .ofText signature.classBlock),
      ("positions", positionsJson signature.positions), ("start", .ofNat signature.startsAt)]

def functionIdJson (function : Function) : Json := .ofNat function.id.number

def chainJson (functions : List Function) : Json :=
  each (fun function =>
    .array [functionIdJson function, .ofText function.name, .ofText function.params.text]) functions

def functionJson (function : Function) : Json :=
  let modifiers := function.header.modifiers
  .ofMembers
    [("id", functionIdJson function), ("name", .ofText function.name),
      ("returns", typeJson function.returns), ("params", .ofText function.params.text),
      ("flags", .ofNat (function.signature.flags true)),
      ("modifiers", each .bool
        [modifiers.isPublic, modifiers.externKeyword.isSome, modifiers.isSynchronized]),
      ("owner", .orNull .ofText function.owner), ("program", .ofNat function.program.number),
      ("kind", .ofText (callKindText function.signature.callKind)),
      ("positions", positionsJson function.signature.positions)]

def programJson (world : World) (program : Program) : Json :=
  let methodsJson (className : String) : Json :=
    .array [.ofText className, chainJson (program.methods className)]
  .ofMembers
    [("name", .ofText program.name), ("functions", each functionJson program.free),
      ("methods", each methodsJson program.methodClasses), ("all", each functionIdJson program.all),
      ("instance", .orNull handleJson (world.instance? program.id))]

def targetText : Target → String
  | .local id => s!"local:{id.number}"
  | .reserved name => name.name
  | .member name => "member:" ++ name

def targetJson (target : Target) : Json := .ofText (targetText target)

def operatorText : Operator → String
  | .add => "Add"
  | .sub => "Sub"
  | .mul => "Mul"
  | .div => "Div"

def nodeJson (form : String) (type : Option DataType) (span : Span) (parts : List Json) : Json :=
  .array (.ofText form :: type.toList.map typeJson ++ spanJson span :: parts)

def siteParts (callee : CallSite → FunctionId) (site : CallSite) (operands : List Json) :
    List Json :=
  let (receiver, args) :=
    if site.hasReceiver then (operands.head?, operands.drop 1) else (none, operands)
  let className := match site.dispatch with
    | .ofClass className => some className
    | _ => none
  [.ofText site.name, .orNull id receiver, .orNull .ofText className, .array args,
    .ofNat (callee site).number, spanJson site.span]

mutual

def exprJson (callee : CallSite → FunctionId) : Expr → Json
  | .literal type span value => nodeJson "lit" type span [valueJson value]
  | .var type span target => nodeJson "var" type span [targetJson target]
  | .negate type span operand => nodeJson "neg" type span [exprJson callee operand]
  | .binary type span operator left right =>
      nodeJson "bin" type span
        [.ofText (operatorText operator), exprJson callee left, exprJson callee right]
  | .call type span site operands =>
      nodeJson "call" type span (siteParts callee site (exprsJson callee operands))

def exprsJson (callee : CallSite → FunctionId) : List Expr → List Json
  | [] => []
  | expr :: rest => exprJson callee expr :: exprsJson callee rest

end

mutual

def stmtJson (callee : CallSite → FunctionId) : Stmt → Json
  | .block span stmts => nodeJson "block" none span [.array (stmtsJson callee stmts)]
  | .return span value => nodeJson "return" none span [.orNull (exprJson callee) value]
  | .wait span count => nodeJson "wait" none span [exprJson callee count]
  | .declare span id name type init =>
      nodeJson "declare" none span
        [.ofNat id.number, .ofText name, typeJson type, .orNull (exprJson callee) init]
  | .assign span target value =>
      nodeJson "assign" none span [targetJson target, exprJson callee value]
  | .expr value => nodeJson "expr" none value.span [exprJson callee value]

def stmtsJson (callee : CallSite → FunctionId) : List Stmt → List Json
  | [] => []
  | stmt :: rest => stmtJson callee stmt :: stmtsJson callee rest

end

def bodyJson (world : World) (function : Function) : Json :=
  let callee (site : CallSite) : FunctionId :=
    world.callee ⟨function.program, site.offset⟩ site.callee
  nodeJson "block" none function.body.span [.array (stmtsJson callee function.body.stmts)]

end ScriptEngine.Exchange
