import ScriptEngine.BodyParser
import Mathlib.Data.List.Forall2
/-! The grammar of bodies. Sentences are lists of tokens, each with its syntax tree, and a tree
becomes the compiled code in which its names are bound. -/

namespace ScriptEngine

/-- The syntax tree of an expression; parentheses leave no trace in it. -/
inductive Phrase where
  | literal (token : Token)
  | name (token : Token)
  | negate (operand : Phrase)
  | operation (operator : Operator) (left right : Phrase)
  | call (name : Token) (args : List Phrase)
  | method (receiver : Phrase) (name : Token) (args : List Phrase)

/-- The syntax tree of a statement. -/
inductive Clause where
  | block (clauses : List Clause)
  | return (value : Option Phrase)
  | wait (count : Phrase)
  | declare (type : DataType) (name : Token) (init : Option Phrase)
  | assign (name : Token) (value : Phrase)
  | expr (value : Phrase)

namespace Grammar

open BodyParser (sumOperator? productOperator?)

/-- Any number of steps, each from the tree of what stands before it. What is repeated this way
associates to the left. -/
inductive Repeat {α : Type} (step : α → List Token → α → Prop) : α → List Token → α → Prop
  | none {tree : α} : Repeat step tree [] tree
  | more {tree next whole : α} {sentence tail : List Token} : step tree sentence next →
      Repeat step next tail whole → Repeat step tree (sentence ++ tail) whole

def IsBase (classes : ClassTable) (token : Token) (type : DataType) : Prop :=
  token.kind.type? = some type ∨
    (token.kind = .identifier ∧ classes.contains token.lexeme = true ∧
      type = .object token.lexeme)

inductive IsDimension : DataType → List Token → DataType → Prop
  | brackets {type : DataType} {opening closing : Token} : opening.kind = .leftBracket →
      closing.kind = .rightBracket → IsDimension type [opening, closing] (.arrayOf type)

inductive IsType (classes : ClassTable) : List Token → DataType → Prop
  | arrays {token : Token} {base type : DataType} {tail : List Token} :
      IsBase classes token base → Repeat IsDimension base tail type →
      IsType classes (token :: tail) type

abbrev IsLiteral (kind : TokenKind) : Prop := kind.isLiteral = true ∨ kind = .nullKeyword

abbrev IsName (kind : TokenKind) : Prop :=
  kind = .identifier ∨ kind = .thisKeyword ∨ kind = .superKeyword

mutual

inductive IsExpr : List Token → Phrase → Prop
  | sum {first tail : List Token} {left tree : Phrase} : IsProduct first left →
      Repeat IsSummand left tail tree → IsExpr (first ++ tail) tree

inductive IsSummand : Phrase → List Token → Phrase → Prop
  | operation {token : Token} {operator : Operator} {sentence : List Token}
      {left right : Phrase} : sumOperator? token.kind = some operator →
      IsProduct sentence right → IsSummand left (token :: sentence) (.operation operator left right)

inductive IsProduct : List Token → Phrase → Prop
  | product {first tail : List Token} {left tree : Phrase} : IsUnary first left →
      Repeat IsFactor left tail tree → IsProduct (first ++ tail) tree

inductive IsFactor : Phrase → List Token → Phrase → Prop
  | operation {token : Token} {operator : Operator} {sentence : List Token}
      {left right : Phrase} : productOperator? token.kind = some operator →
      IsUnary sentence right → IsFactor left (token :: sentence) (.operation operator left right)

inductive IsUnary : List Token → Phrase → Prop
  | negate {minus : Token} {sentence : List Token} {operand : Phrase} : minus.kind = .minus →
      IsUnary sentence operand → IsUnary (minus :: sentence) (.negate operand)
  | calls {sentence : List Token} {tree : Phrase} : IsCalls sentence tree → IsUnary sentence tree

inductive IsCalls : List Token → Phrase → Prop
  | receiver {first tail : List Token} {receiver tree : Phrase} : IsPrimary first receiver →
      Repeat IsMethodCall receiver tail tree → IsCalls (first ++ tail) tree

inductive IsMethodCall : Phrase → List Token → Phrase → Prop
  | call {dot name : Token} {sentence : List Token} {receiver : Phrase} {args : List Phrase} :
      dot.kind = .dot → name.kind = .identifier → IsArguments sentence args →
      IsMethodCall receiver (dot :: name :: sentence) (.method receiver name args)

inductive IsPrimary : List Token → Phrase → Prop
  | literal {token : Token} : IsLiteral token.kind → IsPrimary [token] (.literal token)
  | name {token : Token} : IsName token.kind → IsPrimary [token] (.name token)
  | call {name : Token} {sentence : List Token} {args : List Phrase} : name.kind = .identifier →
      IsArguments sentence args → IsPrimary (name :: sentence) (.call name args)
  | parens {opening closing : Token} {sentence : List Token} {tree : Phrase} :
      opening.kind = .leftParen → IsExpr sentence tree → closing.kind = .rightParen →
      IsPrimary (opening :: sentence ++ [closing]) tree

inductive IsArguments : List Token → List Phrase → Prop
  | none {opening closing : Token} : opening.kind = .leftParen → closing.kind = .rightParen →
      IsArguments [opening, closing] []
  | some {opening closing : Token} {sentence : List Token} {args : List Phrase} :
      opening.kind = .leftParen → IsExprs sentence args → closing.kind = .rightParen →
      IsArguments (opening :: sentence ++ [closing]) args

inductive IsExprs : List Token → List Phrase → Prop
  | last {sentence : List Token} {tree : Phrase} : IsExpr sentence tree → IsExprs sentence [tree]
  | more {comma : Token} {sentence tail : List Token} {tree : Phrase} {args : List Phrase} :
      IsExpr sentence tree → comma.kind = .comma → IsExprs tail args →
      IsExprs (sentence ++ comma :: tail) (tree :: args)

end

inductive IsInitial : List Token → Option Phrase → Prop
  | none : IsInitial [] none
  | some {equal : Token} {sentence : List Token} {value : Phrase} : equal.kind = .equal →
      IsExpr sentence value → IsInitial (equal :: sentence) (some value)

section

variable (classes : ClassTable)

inductive IsSimple : List Token → Clause → Prop
  | return {keyword semicolon : Token} : keyword.kind = .returnKeyword →
      semicolon.kind = .semicolon → IsSimple [keyword, semicolon] (.return none)
  | returnValue {keyword semicolon : Token} {sentence : List Token} {value : Phrase} :
      keyword.kind = .returnKeyword → IsExpr sentence value → semicolon.kind = .semicolon →
      IsSimple (keyword :: sentence ++ [semicolon]) (.return (some value))
  | wait {keyword opening closing semicolon : Token} {sentence : List Token} {count : Phrase} :
      keyword.kind = .waitKeyword → opening.kind = .leftParen → IsExpr sentence count →
      closing.kind = .rightParen → semicolon.kind = .semicolon →
      IsSimple (keyword :: opening :: sentence ++ [closing, semicolon]) (.wait count)
  | declare {name semicolon : Token} {typed initial : List Token} {type : DataType}
      {init : Option Phrase} : IsType classes typed type → name.kind = .identifier →
      IsInitial initial init → semicolon.kind = .semicolon →
      IsSimple (typed ++ name :: initial ++ [semicolon]) (.declare type name init)
  | assign {name equal semicolon : Token} {sentence : List Token} {value : Phrase} :
      name.kind = .identifier → equal.kind = .equal → IsExpr sentence value →
      semicolon.kind = .semicolon →
      IsSimple (name :: equal :: sentence ++ [semicolon]) (.assign name value)
  | expr {semicolon : Token} {sentence : List Token} {value : Phrase} : IsExpr sentence value →
      semicolon.kind = .semicolon → IsSimple (sentence ++ [semicolon]) (.expr value)

mutual

inductive IsBlock : List Token → List Clause → Prop
  | braces {opening closing : Token} {sentence : List Token} {clauses : List Clause} :
      opening.kind = .leftBrace → IsStatements sentence clauses → closing.kind = .rightBrace →
      IsBlock (opening :: sentence ++ [closing]) clauses

inductive IsStatements : List Token → List Clause → Prop
  | none : IsStatements [] []
  | more {sentence tail : List Token} {clause : Clause} {clauses : List Clause} :
      IsStatement sentence clause → IsStatements tail clauses →
      IsStatements (sentence ++ tail) (clause :: clauses)

inductive IsStatement : List Token → Clause → Prop
  | block {sentence : List Token} {clauses : List Clause} : IsBlock sentence clauses →
      IsStatement sentence (.block clauses)
  | simple {sentence : List Token} {clause : Clause} : IsSimple classes sentence clause →
      IsStatement sentence clause

end

end

end Grammar

def Literal.read? (token : Token) : Option (DataType × Value) :=
  match token.kind with
  | .intLiteral => (Literal.int? token.lexeme).map fun value =>
      (if value.toInt32.toInt64 = value then .int else .long, .int value)
  | .floatLiteral => (Literal.float? token.lexeme).map fun value =>
      (.float, .float (Binary64.toSingle value))
  | .doubleLiteral => (Literal.float? token.lexeme).map fun value => (.double, .float value)
  | .stringLiteral => some (.string, .string (Literal.string token.lexeme))
  | .trueKeyword => some (.bool, .bool true)
  | .falseKeyword => some (.bool, .bool false)
  | .nullKeyword => some (.null, .null)
  | _ => none

/-- The expression has the shape of the tree: its names mean what they do in the scope, and its calls
stand where the tree names a function or a method. Types and callees are left to typing. -/
inductive Phrase.Becomes (scope : Scope) : Phrase → Expr → Prop
  | literal {token : Token} {type : DataType} {span : Span} {value : Value} :
      Literal.read? token = some (type, value) →
      Becomes scope (.literal token) (.literal type span value)
  | name {token : Token} {found : Visible} {span : Span} :
      scope.lookup token.lexeme = some found →
      Becomes scope (.name token) (.var found.type span found.target)
  | negate {operand : Phrase} {inner : Expr} {type : DataType} {span : Span} :
      Becomes scope operand inner → Becomes scope (.negate operand) (.negate type span inner)
  | operation {operator : Operator} {left right : Phrase} {first second : Expr} {type : DataType}
      {span : Span} : Becomes scope left first → Becomes scope right second →
      Becomes scope (.operation operator left right) (.binary type span operator first second)
  | call {name : Token} {args : List Phrase} {operands : List Expr} {type : DataType}
      {span : Span} {site : CallSite} : List.Forall₂ (Becomes scope) args operands →
      site.name = name.lexeme → site.offset = name.span.start → site.dispatch = .free →
      Becomes scope (.call name args) (.call type span site operands)
  | method {receiver : Phrase} {name : Token} {args : List Phrase} {object : Expr}
      {operands : List Expr} {type : DataType} {span : Span} {site : CallSite} :
      Becomes scope receiver object → List.Forall₂ (Becomes scope) args operands →
      site.name = name.lexeme → site.offset = name.span.start → site.dispatch ≠ .free →
      Becomes scope (.method receiver name args) (.call type span site (object :: operands))

mutual

/-- The statement has the shape of the tree where the scope is the first, and leaves the second. -/
inductive Clause.Becomes : Scope → Clause → Stmt → Scope → Prop
  | block {scope inner : Scope} {clauses : List Clause} {stmts : List Stmt} {span : Span} :
      BecomesIn scope.pushBlock clauses stmts inner →
      Becomes scope (.block clauses) (.block span stmts) inner.popBlock
  | return {scope : Scope} {value : Option Phrase} {result : Option Expr} {span : Span} :
      Option.Rel (Phrase.Becomes scope) value result →
      Becomes scope (.return value) (.return span result) scope
  | wait {scope : Scope} {count : Phrase} {number : Expr} {span : Span} :
      count.Becomes scope number → Becomes scope (.wait count) (.wait span number) scope
  | declare {scope visible : Scope} {type : DataType} {name : Token} {init : Option Phrase}
      {value : Option Expr} {id : VarId} {span : Span} :
      Option.Rel (Phrase.Becomes scope) init value →
      scope.addLocal name.lexeme type name.span = .ok (id, visible) →
      Becomes scope (.declare type name init) (.declare span id name.lexeme type value) visible
  | assign {scope : Scope} {name : Token} {value : Phrase} {stored : Expr} {found : Visible}
      {span : Span} : scope.lookup name.lexeme = some found → value.Becomes scope stored →
      Becomes scope (.assign name value) (.assign span found.target stored) scope
  | expr {scope : Scope} {value : Phrase} {expr : Expr} : value.Becomes scope expr →
      Becomes scope (.expr value) (.expr expr) scope

inductive Clause.BecomesIn : Scope → List Clause → List Stmt → Scope → Prop
  | none {scope : Scope} : BecomesIn scope [] [] scope
  | more {scope middle later : Scope} {clause : Clause} {clauses : List Clause} {stmt : Stmt}
      {stmts : List Stmt} : Becomes scope clause stmt middle →
      BecomesIn middle clauses stmts later → BecomesIn scope (clause :: clauses) (stmt :: stmts) later

end

end ScriptEngine
