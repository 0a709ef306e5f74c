import ScriptEngine.Proofs.Lookahead
import ScriptEngine.Proofs.Parsing
import ScriptEngine.Proofs.TokenSpans
/-! The tokens that the parts of a body were parsed from. Each expression covers those that it consumed,
its parentheses among them, and so does each statement, except for the semicolon behind an expression
alone. -/

namespace ScriptEngine

open BodyParser (sumOperator? productOperator?)
open Grammar TokenStream

mutual

/-- An expression that was parsed from these tokens and covers them, as each of its operands does those
that it was parsed from. -/
inductive Expr.StandsAt : List Token → Expr → Prop
  | literal {token : Token} {type : DataType} {value : Value} : IsLiteral token.kind →
      StandsAt [token] (.literal type (.over [token]) value)
  | var {token : Token} {type : DataType} {target : Target} : IsName token.kind →
      StandsAt [token] (.var type (.over [token]) target)
  | negate {minus : Token} {sentence : List Token} {type : DataType} {operand : Expr} :
      minus.kind = .minus → StandsAt sentence operand →
      StandsAt (minus :: sentence) (.negate type (.over (minus :: sentence)) operand)
  | binary {sign : Token} {first second : List Token} {type : DataType} {operator : Operator}
      {left right : Expr} :
      sumOperator? sign.kind = some operator ∨ productOperator? sign.kind = some operator →
      StandsAt first left → StandsAt second right →
      StandsAt (first ++ sign :: second)
        (.binary type (.over (first ++ sign :: second)) operator left right)
  | call {name : Token} {sentence : List Token} {type : DataType} {site : CallSite}
      {args : List Expr} : name.kind = .identifier → ArgumentsStandAt sentence args →
      site.offset = name.span.start → site.span = .over (name :: sentence) →
      StandsAt (name :: sentence) (.call type (.over (name :: sentence)) site args)
  | method {dot name : Token} {first sentence : List Token} {type : DataType} {site : CallSite}
      {receiver : Expr} {args : List Expr} : StandsAt first receiver → dot.kind = .dot →
      name.kind = .identifier → ArgumentsStandAt sentence args →
      site.offset = name.span.start → site.span = .over (first ++ dot :: name :: sentence) →
      StandsAt (first ++ dot :: name :: sentence)
        (.call type (.over (first ++ dot :: name :: sentence)) site (receiver :: args))
  | parens {opening closing : Token} {sentence : List Token} {inner : Expr} :
      opening.kind = .leftParen → StandsAt sentence inner → closing.kind = .rightParen →
      StandsAt (opening :: sentence ++ [closing])
        (inner.withSpan (.over (opening :: sentence ++ [closing])))

inductive Expr.ArgumentsStandAt : List Token → List Expr → Prop
  | none {opening closing : Token} : opening.kind = .leftParen → closing.kind = .rightParen →
      ArgumentsStandAt [opening, closing] []
  | some {opening closing : Token} {sentence : List Token} {args : List Expr} :
      opening.kind = .leftParen → AllStandAt sentence args → closing.kind = .rightParen →
      ArgumentsStandAt (opening :: sentence ++ [closing]) args

inductive Expr.AllStandAt : List Token → List Expr → Prop
  | last {sentence : List Token} {expr : Expr} : StandsAt sentence expr →
      AllStandAt sentence [expr]
  | more {comma : Token} {sentence rest : List Token} {expr : Expr} {exprs : List Expr} :
      StandsAt sentence expr → comma.kind = .comma → AllStandAt rest exprs →
      AllStandAt (sentence ++ comma :: rest) (expr :: exprs)

end

inductive Stmt.InitialStandsAt : List Token → Option Expr → Prop
  | none : InitialStandsAt [] none
  | some {equal : Token} {sentence : List Token} {value : Expr} : equal.kind = .equal →
      value.StandsAt sentence → InitialStandsAt (equal :: sentence) (some value)

mutual

/-- A statement that was parsed from these tokens and covers them. What is only an expression covers
the expression, without the semicolon. -/
inductive Stmt.StandsAt (classes : ClassTable) : List Token → Stmt → Prop
  | block {opening closing : Token} {sentence : List Token} {stmts : List Stmt} :
      opening.kind = .leftBrace → AllStandAt classes sentence stmts → closing.kind = .rightBrace →
      StandsAt classes (opening :: sentence ++ [closing])
        (.block (.over (opening :: sentence ++ [closing])) stmts)
  | return {keyword semicolon : Token} : keyword.kind = .returnKeyword →
      semicolon.kind = .semicolon →
      StandsAt classes [keyword, semicolon] (.return (.over [keyword, semicolon]) none)
  | returnValue {keyword semicolon : Token} {sentence : List Token} {value : Expr} :
      keyword.kind = .returnKeyword → value.StandsAt sentence → semicolon.kind = .semicolon →
      StandsAt classes (keyword :: sentence ++ [semicolon])
        (.return (.over (keyword :: sentence ++ [semicolon])) (some value))
  | wait {keyword opening closing semicolon : Token} {sentence : List Token} {count : Expr} :
      keyword.kind = .waitKeyword → opening.kind = .leftParen → count.StandsAt sentence →
      closing.kind = .rightParen → semicolon.kind = .semicolon →
      StandsAt classes (keyword :: opening :: sentence ++ [closing, semicolon])
        (.wait (.over (keyword :: opening :: sentence ++ [closing, semicolon])) count)
  | declare {name semicolon : Token} {typed initial : List Token} {id : VarId} {type : DataType}
      {init : Option Expr} : IsType classes typed type → name.kind = .identifier →
      InitialStandsAt initial init → semicolon.kind = .semicolon →
      StandsAt classes (typed ++ name :: initial ++ [semicolon])
        (.declare (.over (typed ++ name :: initial ++ [semicolon])) id name.lexeme type init)
  | assign {name equal semicolon : Token} {sentence : List Token} {target : Target}
      {value : Expr} : name.kind = .identifier → equal.kind = .equal → value.StandsAt sentence →
      semicolon.kind = .semicolon →
      StandsAt classes (name :: equal :: sentence ++ [semicolon])
        (.assign (.over (name :: equal :: sentence ++ [semicolon])) target value)
  | expr {semicolon : Token} {sentence : List Token} {value : Expr} : value.StandsAt sentence →
      semicolon.kind = .semicolon → StandsAt classes (sentence ++ [semicolon]) (.expr value)

inductive Stmt.AllStandAt (classes : ClassTable) : List Token → List Stmt → Prop
  | none : AllStandAt classes [] []
  | more {sentence rest : List Token} {stmt : Stmt} {stmts : List Stmt} :
      StandsAt classes sentence stmt → AllStandAt classes rest stmts →
      AllStandAt classes (sentence ++ rest) (stmt :: stmts)

end

def Expr.ReadBetween (start later : TokenStream) (expr : Expr) : Prop :=
  ∃ sentence, start.Moves later sentence ∧ expr.StandsAt sentence

theorem Expr.ReadBetween.inOrder {start later : TokenStream} {expr : Expr}
    (between : expr.ReadBetween start later) (ordered : InOrder start.ahead) :
    InOrder later.ahead := by
  obtain ⟨_, moves, _⟩ := between
  exact (moves.inOrder ordered).2

theorem Expr.span_withSpan (expr : Expr) (span : Span) : (expr.withSpan span).span = span := by
  cases expr <;> rfl

namespace Expr.StandsAt

variable {sentence : List Token} {expr : Expr}

theorem ne_nil (stands : expr.StandsAt sentence) : sentence ≠ [] := by
  cases stands <;> simp

theorem span_eq (stands : expr.StandsAt sentence) : expr.span = .over sentence := by
  cases stands with
  | parens => exact Expr.span_withSpan ..
  | _ => rfl

end Expr.StandsAt

namespace BodyParser

variable {names : CallScope} {scope : Scope}

theorem operation_between {start middle next later : TokenStream} {sign : Token}
    {operator : Operator} {left right whole : Expr} (ordered : InOrder start.ahead)
    (one : left.ReadBetween start middle) (moves : middle.Moves next [sign])
    (known : sumOperator? sign.kind = some operator ∨ productOperator? sign.kind = some operator)
    (other : right.ReadBetween next later) (done : combine operator left right = .ok whole) :
    whole.ReadBetween start later := by
  obtain ⟨first, came, stands⟩ := one
  obtain ⟨second, further, also⟩ := other
  have all := came.trans (moves.trans further)
  have span : left.span.cover right.span = .over (first ++ sign :: second) := by
    rw [stands.span_eq, also.span_eq]
    exact (all.inOrder ordered).1.cover_over (List.prefix_append ..)
      ((List.suffix_cons ..).trans (List.suffix_append ..)) stands.ne_nil also.ne_nil
  refine ⟨_, all, ?_⟩
  unfold combine at done
  dsimp only at done
  rw [span] at done
  split at done
  · cases done
    exact .binary known stands also
  · split at done
    · cases done
      exact .binary known stands also
    · cases done

theorem negation_between {start middle later : TokenStream} {minus : Token} {operand whole : Expr}
    (ordered : InOrder start.ahead) (moves : start.Moves middle [minus])
    (kind : minus.kind = .minus) (one : operand.ReadBetween middle later)
    (done : combineNegation minus.span operand = .ok whole) : whole.ReadBetween start later := by
  obtain ⟨sentence, further, stands⟩ := one
  have all := moves.trans further
  have span : minus.span.cover operand.span = .over (minus :: sentence) := by
    rw [stands.span_eq]
    exact (all.inOrder ordered).1.cover_over (List.prefix_append [minus] sentence)
      (List.suffix_cons ..) (List.cons_ne_nil _ _) stands.ne_nil
  refine ⟨_, all, ?_⟩
  unfold combineNegation at done
  rw [span] at done
  split at done
  · cases done
    exact .negate kind stands
  · cases done

theorem literal_between {start later : TokenStream} {token : Token} {whole : Expr}
    (moves : start.Moves later [token]) (kind : IsLiteral token.kind)
    (leaf : ∃ type value, whole = .literal type token.span value) :
    whole.ReadBetween start later := by
  obtain ⟨type, value, rfl⟩ := leaf
  exact ⟨_, moves, .literal kind⟩

theorem intLiteral_leaf {token : Token} {whole : Expr} (done : intLiteral token = .ok whole) :
    ∃ type value, whole = .literal type token.span value := by
  unfold intLiteral at done
  split at done
  · cases done
    exact ⟨_, _, rfl⟩
  · cases done

theorem floatLiteral_leaf {token : Token} {whole : Expr} (done : floatLiteral token = .ok whole) :
    ∃ type value, whole = .literal type token.span value := by
  unfold floatLiteral at done
  split at done
  · split at done <;> cases done <;> exact ⟨_, _, rfl⟩
  · cases done

theorem name_between {start later : TokenStream} {token : Token} {whole : Expr}
    (moves : start.Moves later [token]) (kind : IsName token.kind)
    (done : nameExpr scope token = .ok whole) : whole.ReadBetween start later := by
  unfold nameExpr at done
  split at done
  · cases done
    exact ⟨_, moves, .var kind⟩
  · cases done

theorem freeCall_between {start middle later : TokenStream} {name : Token} {sentence : List Token}
    {args : List Expr} {whole : Expr} (ordered : InOrder start.ahead)
    (moves : start.Moves middle [name]) (kind : name.kind = .identifier)
    (further : middle.Moves later sentence) (stand : Expr.ArgumentsStandAt sentence args)
    (done : freeCall names name args later = .ok whole) : whole.ReadBetween start later := by
  have all := moves.trans further
  have span : later.spanSince name.span = .over (name :: sentence) :=
    all.spanSince_first (all.inOrder ordered).1
  unfold freeCall at done
  dsimp only at done
  rw [span] at done
  split at done
  · cases done
    exact ⟨_, all, .call kind stand rfl rfl⟩
  · cases done

theorem methodCall_between {start middle later : TokenStream} {dot name : Token}
    {sentence : List Token} {receiver : Expr} {args : List Expr} {className : String} {whole : Expr}
    (ordered : InOrder start.ahead) (one : receiver.ReadBetween start middle)
    (point : dot.kind = .dot) (kind : name.kind = .identifier)
    (further : middle.Moves later (dot :: name :: sentence))
    (stand : Expr.ArgumentsStandAt sentence args)
    (done : methodCall names receiver className name args later = .ok whole) :
    whole.ReadBetween start later := by
  obtain ⟨first, came, stands⟩ := one
  have all := came.trans further
  have span : later.spanSince receiver.span = .over (first ++ dot :: name :: sentence) := by
    rw [stands.span_eq]
    exact all.spanSince (all.inOrder ordered).1 (List.prefix_append ..) stands.ne_nil
  unfold methodCall at done
  dsimp only at done
  rw [span] at done
  split at done
  · cases done
    exact ⟨_, all, .method stands point kind stand rfl rfl⟩
  · cases done

theorem parens_between {start middle next later : TokenStream} {opening closing : Token}
    {inner : Expr} (ordered : InOrder start.ahead) (moves : start.Moves middle [opening])
    (opens : opening.kind = .leftParen) (one : inner.ReadBetween middle next)
    (further : next.Moves later [closing]) (closes : closing.kind = .rightParen) :
    (inner.withSpan (later.spanSince opening.span)).ReadBetween start later := by
  obtain ⟨sentence, between, stands⟩ := one
  have all := (moves.trans between).trans further
  have span : later.spanSince opening.span = .over (opening :: sentence ++ [closing]) :=
    all.spanSince_first (all.inOrder ordered).1
  rw [span]
  exact ⟨_, all, .parens opens stands closes⟩

mutual

theorem expr_between (stream : TokenStream) {read : Parsed stream Expr}
    (ordered : InOrder stream.ahead) (done : expr names scope stream = .ok read) :
    read.value.ReadBetween stream read.rest := by
  rw [expr] at done
  obtain ⟨first, leading, done⟩ := ok_of_bind done
  obtain ⟨all, behind, done⟩ := ok_of_bind done
  have shorter := first.shorter
  cases done
  exact sums_between ordered first.rest (product_between stream ordered leading) behind
termination_by 8 * stream.size + 4

theorem sums_between {start : TokenStream} (ordered : InOrder start.ahead) (stream : TokenStream)
    {left : Expr} {read : Reached stream Expr} (one : left.ReadBetween start stream)
    (done : sums names scope left stream = .ok read) :
    read.value.ReadBetween start read.rest := by
  rw [sums] at done
  split at done
  · cases done
    exact one
  · rename_i operator taken
    obtain ⟨right, leading, done⟩ := ok_of_bind done
    obtain ⟨sum, combined, done⟩ := ok_of_bind done
    obtain ⟨all, behind, done⟩ := ok_of_bind done
    have shorter := operator.shorter
    have further := right.shorter
    cases done
    obtain ⟨sign, moves, known⟩ := takeOperator?_moves taken
    have inner := (moves.inOrder (one.inOrder ordered)).2
    exact sums_between ordered right.rest (operation_between ordered one moves (Or.inl known)
      (product_between operator.rest inner leading) combined) behind
termination_by 8 * stream.size

theorem product_between (stream : TokenStream) {read : Parsed stream Expr}
    (ordered : InOrder stream.ahead) (done : product names scope stream = .ok read) :
    read.value.ReadBetween stream read.rest := by
  rw [product] at done
  obtain ⟨first, leading, done⟩ := ok_of_bind done
  obtain ⟨all, behind, done⟩ := ok_of_bind done
  have shorter := first.shorter
  cases done
  exact products_between ordered first.rest (unary_between stream ordered leading) behind
termination_by 8 * stream.size + 3

theorem products_between {start : TokenStream} (ordered : InOrder start.ahead)
    (stream : TokenStream) {left : Expr} {read : Reached stream Expr}
    (one : left.ReadBetween start stream) (done : products names scope left stream = .ok read) :
    read.value.ReadBetween start read.rest := by
  rw [products] at done
  split at done
  · cases done
    exact one
  · rename_i operator taken
    obtain ⟨right, leading, done⟩ := ok_of_bind done
    obtain ⟨product, combined, done⟩ := ok_of_bind done
    obtain ⟨all, behind, done⟩ := ok_of_bind done
    have shorter := operator.shorter
    have further := right.shorter
    cases done
    obtain ⟨sign, moves, known⟩ := takeOperator?_moves taken
    have inner := (moves.inOrder (one.inOrder ordered)).2
    exact products_between ordered right.rest (operation_between ordered one moves (Or.inr known)
      (unary_between operator.rest inner leading) combined) behind
termination_by 8 * stream.size

theorem unary_between (stream : TokenStream) {read : Parsed stream Expr}
    (ordered : InOrder stream.ahead) (done : unary names scope stream = .ok read) :
    read.value.ReadBetween stream read.rest := by
  rw [unary] at done
  split at done
  · exact receiverCalls_between stream ordered done
  · rename_i minus taken
    obtain ⟨operand, leading, done⟩ := ok_of_bind done
    obtain ⟨negation, combined, done⟩ := ok_of_bind done
    have shorter := minus.shorter
    cases done
    obtain ⟨moves, kind⟩ := take?_moves taken
    exact negation_between ordered moves kind
      (unary_between minus.rest (moves.inOrder ordered).2 leading) combined
termination_by 8 * stream.size + 2

theorem receiverCalls_between (stream : TokenStream) {read : Parsed stream Expr}
    (ordered : InOrder stream.ahead) (done : receiverCalls names scope stream = .ok read) :
    read.value.ReadBetween stream read.rest := by
  rw [receiverCalls] at done
  obtain ⟨first, leading, done⟩ := ok_of_bind done
  obtain ⟨all, behind, done⟩ := ok_of_bind done
  have shorter := first.shorter
  cases done
  exact methodCalls_between ordered first.rest (primary_between stream ordered leading) behind
termination_by 8 * stream.size + 1

theorem methodCalls_between {start : TokenStream} (ordered : InOrder start.ahead)
    (stream : TokenStream) {receiver : Expr} {read : Reached stream Expr}
    (one : receiver.ReadBetween start stream)
    (done : methodCalls names scope receiver stream = .ok read) :
    read.value.ReadBetween start read.rest := by
  rw [methodCalls] at done
  split at done
  · cases done
    exact one
  · rename_i dot taken
    obtain ⟨name, named, done⟩ := ok_of_bind done
    obtain ⟨className, _, done⟩ := ok_of_bind done
    obtain ⟨args, between, done⟩ := ok_of_bind done
    obtain ⟨call, called, done⟩ := ok_of_bind done
    obtain ⟨all, behind, done⟩ := ok_of_bind done
    have shorter := dot.shorter
    have further := name.shorter
    have furthest := args.shorter
    cases done
    obtain ⟨first, point⟩ := take?_moves taken
    obtain ⟨second, kind⟩ := take_moves named
    have inner := ((first.trans second).inOrder (one.inOrder ordered)).2
    obtain ⟨_, third, stand⟩ := arguments_between name.rest inner between
    exact methodCalls_between ordered args.rest (methodCall_between ordered one point kind
      ((first.trans second).trans third) stand called) behind
termination_by 8 * stream.size

theorem primary_between (stream : TokenStream) {read : Parsed stream Expr}
    (ordered : InOrder stream.ahead) (done : primary names scope stream = .ok read) :
    read.value.ReadBetween stream read.rest := by
  rw [primary] at done
  split at done
  · cases done
  · rename_i token taken
    have shorter := token.shorter
    obtain ⟨moves, -, -⟩ := next?_moves taken
    have inner := (moves.inOrder ordered).2
    have literal {value : Expr} (kind : IsLiteral token.value.kind)
        (leaf : ∃ type known, value = .literal type token.value.span known) :
        value.ReadBetween stream token.rest := literal_between moves kind leaf
    dsimp only at done
    split at done
    · rename_i kind
      obtain ⟨whole, read, done⟩ := ok_of_bind done
      cases done
      exact literal (Or.inl (by rw [kind]; rfl)) (intLiteral_leaf read)
    · rename_i kind
      obtain ⟨whole, read, done⟩ := ok_of_bind done
      cases done
      exact literal (Or.inl (by rw [kind]; rfl)) (floatLiteral_leaf read)
    · rename_i kind
      obtain ⟨whole, read, done⟩ := ok_of_bind done
      cases done
      exact literal (Or.inl (by rw [kind]; rfl)) (floatLiteral_leaf read)
    · rename_i kind
      cases done
      exact literal (Or.inl (by rw [kind]; rfl)) ⟨_, _, rfl⟩
    · rename_i kind
      cases done
      exact literal (Or.inl (by rw [kind]; rfl)) ⟨_, _, rfl⟩
    · rename_i kind
      cases done
      exact literal (Or.inl (by rw [kind]; rfl)) ⟨_, _, rfl⟩
    · rename_i kind
      cases done
      exact literal (Or.inr kind) ⟨_, _, rfl⟩
    · rename_i kind
      split at done
      · obtain ⟨args, between, done⟩ := ok_of_bind done
        obtain ⟨call, called, done⟩ := ok_of_bind done
        cases done
        obtain ⟨_, further, stand⟩ := arguments_between token.rest inner between
        exact freeCall_between ordered moves kind further stand called
      · obtain ⟨whole, named, done⟩ := ok_of_bind done
        cases done
        exact name_between moves (Or.inl kind) named
    · rename_i kind
      obtain ⟨whole, named, done⟩ := ok_of_bind done
      cases done
      exact name_between moves (Or.inr (Or.inl kind)) named
    · rename_i kind
      obtain ⟨whole, named, done⟩ := ok_of_bind done
      cases done
      exact name_between moves (Or.inr (Or.inr kind)) named
    · rename_i opens
      obtain ⟨inside, between, done⟩ := ok_of_bind done
      obtain ⟨closing, closed, done⟩ := ok_of_bind done
      cases done
      obtain ⟨last, closes⟩ := take_moves closed
      exact parens_between ordered moves opens (expr_between token.rest inner between) last closes
    · cases done
termination_by 8 * stream.size

theorem arguments_between (stream : TokenStream) {read : Parsed stream (List Expr)}
    (ordered : InOrder stream.ahead) (done : arguments names scope stream = .ok read) :
    ∃ sentence, stream.Moves read.rest sentence ∧ Expr.ArgumentsStandAt sentence read.value := by
  rw [arguments] at done
  obtain ⟨opening, opened, done⟩ := ok_of_bind done
  have shorter := opening.shorter
  obtain ⟨first, opens⟩ := take_moves opened
  split at done
  · rename_i closing closed
    cases done
    obtain ⟨last, closes⟩ := take?_moves closed
    exact ⟨_, first.trans last, .none opens closes⟩
  · obtain ⟨args, between, done⟩ := ok_of_bind done
    obtain ⟨closing, closed, done⟩ := ok_of_bind done
    cases done
    obtain ⟨_, further, stand⟩ := exprs_between opening.rest (first.inOrder ordered).2 between
    obtain ⟨last, closes⟩ := take_moves closed
    exact ⟨_, (first.trans further).trans last, .some opens stand closes⟩
termination_by 8 * stream.size

theorem exprs_between (stream : TokenStream) {read : Parsed stream (List Expr)}
    (ordered : InOrder stream.ahead) (done : exprs names scope stream = .ok read) :
    ∃ sentence, stream.Moves read.rest sentence ∧ Expr.AllStandAt sentence read.value := by
  rw [exprs] at done
  obtain ⟨first, leading, done⟩ := ok_of_bind done
  have shorter := first.shorter
  obtain ⟨_, moves, stands⟩ := expr_between stream ordered leading
  split at done
  · cases done
    exact ⟨_, moves, .last stands⟩
  · rename_i comma taken
    obtain ⟨more, behind, done⟩ := ok_of_bind done
    have further := comma.shorter
    cases done
    obtain ⟨passed, kind⟩ := take?_moves taken
    have inner := (passed.inOrder (moves.inOrder ordered).2).2
    obtain ⟨_, last, stand⟩ := exprs_between comma.rest inner behind
    exact ⟨_, moves.trans (passed.trans last), .more stands kind stand⟩
termination_by 8 * stream.size + 5

end

abbrev StatementBetween (classes : ClassTable) (start later : TokenStream) (stmt : Stmt) : Prop :=
  ∃ sentence, start.Moves later sentence ∧ stmt.StandsAt classes sentence

variable {stream : TokenStream}

theorem assignedExpr_between {type : DataType} {read : Parsed stream Expr}
    (ordered : InOrder stream.ahead) (done : assignedExpr names scope type stream = .ok read) :
    read.value.ReadBetween stream read.rest := by
  unfold assignedExpr at done
  obtain ⟨value, leading, done⟩ := ok_of_bind done
  split at done
  · cases done
    exact expr_between stream ordered leading
  · cases done

theorem initialValue_between {type : DataType} {read : Reached stream (Option Expr)}
    (ordered : InOrder stream.ahead) (done : initialValue names scope type stream = .ok read) :
    ∃ sentence, stream.Moves read.rest sentence ∧ Stmt.InitialStandsAt sentence read.value := by
  unfold initialValue at done
  split at done
  · cases done
    exact ⟨[], .refl _, .none⟩
  · rename_i equal taken
    obtain ⟨value, given, done⟩ := ok_of_bind done
    cases done
    obtain ⟨moves, kind⟩ := take?_moves taken
    obtain ⟨_, further, stands⟩ := assignedExpr_between (moves.inOrder ordered).2 given
    exact ⟨_, moves.trans further, .some kind stands⟩

theorem declaration_between {read : Parsed stream (Stmt × Scope)} (ordered : InOrder stream.ahead)
    (done : declaration names scope stream = .ok read) :
    StatementBetween names.classes stream read.rest read.value.1 := by
  unfold declaration at done
  dsimp only at done
  split at done
  · cases done
  · rename_i type typed
    split at done
    · cases done
    · obtain ⟨name, named, done⟩ := ok_of_bind done
      obtain ⟨init, given, done⟩ := ok_of_bind done
      obtain ⟨semicolon, ended, done⟩ := ok_of_bind done
      obtain ⟨⟨id, visible⟩, added, done⟩ := ok_of_bind done
      cases done
      obtain ⟨typeTokens, _, first, isType, rfl⟩ := TypeName.read?_readAs typed
      obtain ⟨second, kind⟩ := take_moves named
      have inner := ((first.trans second).inOrder ordered).2
      obtain ⟨initial, third, stands⟩ := initialValue_between inner given
      obtain ⟨last, ends⟩ := take_moves ended
      have all := (first.trans (second.trans third)).trans last
      have span : semicolon.rest.spanSince stream.peek.span =
          .over (typeTokens ++ name.value :: initial ++ [semicolon.value]) := by
        cases isType with
        | @arrays token _ _ tail =>
            rw [peek_of_ahead all.ahead]
            exact all.spanSince_first (all.inOrder ordered).1
      refine ⟨_, all, ?_⟩
      dsimp only
      rw [span]
      exact .declare isType kind stands ends

theorem assignment_between {read : Parsed stream (Stmt × Scope)} (ordered : InOrder stream.ahead)
    (done : assignment names scope stream = .ok read) :
    StatementBetween names.classes stream read.rest read.value.1 := by
  unfold assignment at done
  obtain ⟨name, named, done⟩ := ok_of_bind done
  obtain ⟨found, _, done⟩ := ok_of_bind done
  obtain ⟨equal, equals, done⟩ := ok_of_bind done
  obtain ⟨value, assigned, done⟩ := ok_of_bind done
  obtain ⟨semicolon, ended, done⟩ := ok_of_bind done
  cases done
  obtain ⟨first, kind⟩ := take_moves named
  obtain ⟨second, mark⟩ := take_moves equals
  have inner := ((first.trans second).inOrder ordered).2
  obtain ⟨sentence, third, stands⟩ := assignedExpr_between inner assigned
  obtain ⟨last, ends⟩ := take_moves ended
  have all := ((first.trans second).trans third).trans last
  have span : semicolon.rest.spanSince name.value.span =
      .over (name.value :: equal.value :: sentence ++ [semicolon.value]) :=
    all.spanSince_first (all.inOrder ordered).1
  refine ⟨_, all, ?_⟩
  dsimp only
  rw [span]
  exact .assign kind mark stands ends

theorem returnStatement_between {read : Parsed stream (Stmt × Scope)}
    (ordered : InOrder stream.ahead) (done : returnStatement names scope stream = .ok read) :
    StatementBetween names.classes stream read.rest read.value.1 := by
  unfold returnStatement at done
  obtain ⟨keyword, standing, done⟩ := ok_of_bind done
  obtain ⟨first, kind⟩ := take_moves standing
  dsimp only at done
  split at done
  · rename_i semicolon ended
    obtain ⟨last, ends⟩ := take?_moves ended
    split at done
    · cases done
    · cases done
      have all := first.trans last
      have span : keyword.value.span.cover semicolon.value.span =
          .over [keyword.value, semicolon.value] := (all.inOrder ordered).1.cover_ends
      refine ⟨_, all, ?_⟩
      dsimp only
      rw [span]
      exact .return kind ends
  · obtain ⟨value, leading, done⟩ := ok_of_bind done
    split at done
    · cases done
    · obtain ⟨semicolon, ended, done⟩ := ok_of_bind done
      cases done
      obtain ⟨sentence, second, stands⟩ := expr_between keyword.rest (first.inOrder ordered).2 leading
      obtain ⟨last, ends⟩ := take_moves ended
      have all := (first.trans second).trans last
      have span : semicolon.rest.spanSince keyword.value.span =
          .over (keyword.value :: sentence ++ [semicolon.value]) :=
        all.spanSince_first (all.inOrder ordered).1
      refine ⟨_, all, ?_⟩
      dsimp only
      rw [span]
      exact .returnValue kind stands ends

theorem waitStatement_between {read : Parsed stream (Stmt × Scope)} (ordered : InOrder stream.ahead)
    (done : waitStatement names scope stream = .ok read) :
    StatementBetween names.classes stream read.rest read.value.1 := by
  unfold waitStatement at done
  obtain ⟨keyword, standing, done⟩ := ok_of_bind done
  obtain ⟨opening, opened, done⟩ := ok_of_bind done
  obtain ⟨count, leading, done⟩ := ok_of_bind done
  split at done
  · cases done
  · obtain ⟨closing, closed, done⟩ := ok_of_bind done
    obtain ⟨semicolon, ended, done⟩ := ok_of_bind done
    cases done
    obtain ⟨first, kind⟩ := take_moves standing
    obtain ⟨second, opens⟩ := take_moves opened
    have inner := ((first.trans second).inOrder ordered).2
    obtain ⟨sentence, third, stands⟩ := expr_between opening.rest inner leading
    obtain ⟨fourth, closes⟩ := take_moves closed
    obtain ⟨last, ends⟩ := take_moves ended
    have all := ((first.trans second).trans third).trans (fourth.trans last)
    have span : semicolon.rest.spanSince keyword.value.span =
        .over (keyword.value :: opening.value :: sentence ++ [closing.value, semicolon.value]) :=
      all.spanSince_first (all.inOrder ordered).1
    refine ⟨_, all, ?_⟩
    dsimp only
    rw [span]
    exact .wait kind opens stands closes ends

theorem exprStatement_between {read : Parsed stream (Stmt × Scope)} (ordered : InOrder stream.ahead)
    (done : exprStatement names scope stream = .ok read) :
    StatementBetween names.classes stream read.rest read.value.1 := by
  unfold exprStatement at done
  obtain ⟨value, leading, done⟩ := ok_of_bind done
  obtain ⟨semicolon, ended, done⟩ := ok_of_bind done
  cases done
  obtain ⟨_, first, stands⟩ := expr_between stream ordered leading
  obtain ⟨last, ends⟩ := take_moves ended
  exact ⟨_, first.trans last, .expr stands ends⟩

theorem simpleStatement_between {read : Parsed stream (Stmt × Scope)}
    (ordered : InOrder stream.ahead) (done : simpleStatement names scope stream = .ok read) :
    StatementBetween names.classes stream read.rest read.value.1 := by
  unfold simpleStatement at done
  split at done
  · exact returnStatement_between ordered done
  · split at done
    · exact waitStatement_between ordered done
    · split at done
      · exact assignment_between ordered done
      · split at done
        · exact declaration_between ordered done
        · exact exprStatement_between ordered done

mutual

theorem block_between {scope : Scope} (stream : TokenStream) {read : Parsed stream (Block × Scope)}
    (ordered : InOrder stream.ahead) (done : block names scope stream = .ok read) :
    StatementBetween names.classes stream read.rest
      (.block read.value.1.span read.value.1.stmts) := by
  rw [block] at done
  obtain ⟨opening, opened, done⟩ := ok_of_bind done
  obtain ⟨body, leading, done⟩ := ok_of_bind done
  have shorter := opening.shorter
  cases done
  obtain ⟨first, opens⟩ := take_moves opened
  obtain ⟨sentence, middle, between, stand, last, closes⟩ :=
    statements_between opening.rest (first.inOrder ordered).2 leading
  have all := (first.trans between).trans last
  have span : opening.value.span.cover body.value.2.1.span =
      .over (opening.value :: sentence ++ [body.value.2.1]) := (all.inOrder ordered).1.cover_ends
  refine ⟨_, all, ?_⟩
  dsimp only
  rw [span]
  exact .block opens stand closes
termination_by 8 * stream.size

theorem statements_between {scope : Scope} (stream : TokenStream)
    {read : Parsed stream (List Stmt × Token × Scope)} (ordered : InOrder stream.ahead)
    (done : statements names scope stream = .ok read) :
    ∃ sentence middle, stream.Moves middle sentence ∧
      Stmt.AllStandAt names.classes sentence read.value.1 ∧
      middle.Moves read.rest [read.value.2.1] ∧ read.value.2.1.kind = .rightBrace := by
  rw [statements] at done
  split at done
  · rename_i closing closed
    cases done
    obtain ⟨moves, closes⟩ := take?_moves closed
    exact ⟨[], stream, .refl _, .none, moves, closes⟩
  · split at done
    · cases done
    · obtain ⟨first, leading, done⟩ := ok_of_bind done
      obtain ⟨more, behind, done⟩ := ok_of_bind done
      have shorter := first.shorter
      cases done
      obtain ⟨_, moves, stands⟩ := statement_between stream ordered leading
      obtain ⟨_, middle, further, stand, last, closes⟩ :=
        statements_between first.rest (moves.inOrder ordered).2 behind
      exact ⟨_, middle, moves.trans further, .more stands stand, last, closes⟩
termination_by 8 * stream.size + 2

theorem statement_between {scope : Scope} (stream : TokenStream)
    {read : Parsed stream (Stmt × Scope)} (ordered : InOrder stream.ahead)
    (done : statement names scope stream = .ok read) :
    StatementBetween names.classes stream read.rest read.value.1 := by
  rw [statement] at done
  split at done
  · obtain ⟨inner, leading, done⟩ := ok_of_bind done
    cases done
    exact block_between stream ordered leading
  · exact simpleStatement_between ordered done
termination_by 8 * stream.size + 1

end

end BodyParser

end ScriptEngine
