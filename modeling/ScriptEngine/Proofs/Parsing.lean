import ScriptEngine.Proofs.Coherence
import ScriptEngine.Proofs.Grammar
import ScriptEngine.Proofs.Reading
/-! Bodies are read by their grammar. The tokens that a part of a body consumes are a sentence of
its category, and what it returns is made of the tree of that sentence. -/

namespace ScriptEngine

open Grammar TokenStream

def ReadAs {Tree Value : Type} (category : List Token → Tree → Prop) (becomes : Tree → Value → Prop)
    (stream later : TokenStream) (value : Value) : Prop :=
  ∃ sentence tree, stream.Moves later sentence ∧ category sentence tree ∧ becomes tree value

namespace TypeName

theorem ofToken?_eq_some_iff {classes : ClassTable} {token : Token} {type : DataType} :
    ofToken? classes token = some type ↔ IsBase classes token type := by
  unfold ofToken? IsBase
  split
  · rename_i keyword known
    have other : token.kind ≠ .identifier := by
      intro same
      rw [same] at known
      cases known
    simp [known, other]
  · rename_i unknown
    simp only [unknown, Bool.and_eq_true, decide_eq_true_eq, Option.ite_none_right_eq_some,
      Option.some.injEq, and_assoc, reduceCtorEq, false_or, eq_comm (a := type)]

theorem arrays_readAs (type : DataType) (passed ahead : List Token) :
    ∃ tail, (TokenStream.mk passed ahead).Moves (arrays type passed ahead).2 tail ∧
      Repeat IsDimension type tail (arrays type passed ahead).1 := by
  fun_induction arrays type passed ahead with
  | case1 type passed opening closing rest both ih =>
      obtain ⟨tail, moves, dimensions⟩ := ih
      rw [Bool.and_eq_true, decide_eq_true_eq, decide_eq_true_eq] at both
      have first : (TokenStream.mk passed (opening :: closing :: rest)).Moves
          ⟨closing :: opening :: passed, rest⟩ [opening, closing] := ⟨rfl, rfl⟩
      exact ⟨_, first.trans moves, .more (.brackets both.1 both.2) dimensions⟩
  | case2 | case3 => exact ⟨[], .refl _, .none⟩

theorem read?_readAs {classes : ClassTable} {stream : TokenStream}
    {found : Parsed stream DataType} (read : read? classes stream = some found) :
    ReadAs (IsType classes) Eq stream found.rest found.value := by
  unfold read? at read
  split at read
  · cases read
  · rename_i type named
    cases read
    have real : stream.peek.kind ≠ .eof := by
      intro ended
      rw [ofToken?_eof ended] at named
      cases named
    obtain ⟨tail, moves, dimensions⟩ :=
      arrays_readAs type stream.advance.passed stream.advance.ahead
    exact ⟨_, _, (advance_moves real).trans moves,
      .arrays (ofToken?_eq_some_iff.mp named) dimensions, rfl⟩

end TypeName

namespace BodyParser

variable {names : CallScope} {scope : Scope}

theorem takeOperator?_moves {wanted : TokenKind → Option Operator} {stream : TokenStream}
    {found : Parsed stream Operator} (taken : takeOperator? wanted stream = some found) :
    ∃ token, stream.Moves found.rest [token] ∧ wanted token.kind = some found.value := by
  unfold takeOperator? at taken
  split at taken
  · rename_i operator token known standing
    cases taken
    obtain ⟨moves, same, _⟩ := next?_moves standing
    exact ⟨_, moves, same ▸ known⟩
  · cases taken

theorem combine_becomes {operator : Operator} {left right : Phrase} {first second whole : Expr}
    (one : left.Becomes scope first) (other : right.Becomes scope second)
    (done : combine operator first second = .ok whole) :
    (Phrase.operation operator left right).Becomes scope whole := by
  unfold combine at done
  dsimp only at done
  split at done
  · cases done
    exact .operation one other
  · split at done
    · cases done
      exact .operation one other
    · cases done

theorem combineNegation_becomes {minus : Span} {operand : Phrase} {inner whole : Expr}
    (becomes : operand.Becomes scope inner) (done : combineNegation minus inner = .ok whole) :
    (Phrase.negate operand).Becomes scope whole := by
  unfold combineNegation at done
  split at done
  · cases done
    exact .negate becomes
  · cases done

theorem intLiteral_becomes {token : Token} {whole : Expr} (kind : token.kind = .intLiteral)
    (done : intLiteral token = .ok whole) : (Phrase.literal token).Becomes scope whole := by
  unfold intLiteral at done
  split at done
  · rename_i value known
    cases done
    exact .literal (by simp [Literal.read?, kind, known])
  · cases done

theorem floatLiteral_becomes {token : Token} {whole : Expr}
    (kind : token.kind = .floatLiteral ∨ token.kind = .doubleLiteral)
    (done : floatLiteral token = .ok whole) : (Phrase.literal token).Becomes scope whole := by
  unfold floatLiteral at done
  split at done
  · rename_i value known
    rcases kind with kind | kind
    all_goals
      simp only [kind, reduceCtorEq, if_true, if_false] at done
      cases done
      exact .literal (by simp [Literal.read?, kind, known])
  · cases done

theorem nameExpr_becomes {token : Token} {whole : Expr}
    (done : nameExpr scope token = .ok whole) : (Phrase.name token).Becomes scope whole := by
  unfold nameExpr at done
  split at done
  · rename_i found known
    cases done
    exact .name known
  · cases done

theorem freeCall_becomes {name : Token} {args : List Phrase} {operands : List Expr}
    {stream : TokenStream} {whole : Expr} (become : List.Forall₂ (Phrase.Becomes scope) args operands)
    (done : freeCall names name operands stream = .ok whole) :
    (Phrase.call name args).Becomes scope whole := by
  unfold freeCall at done
  split at done
  · cases done
    exact .call become rfl rfl rfl
  · cases done

theorem methodCall_becomes {receiver : Phrase} {name : Token} {args : List Phrase} {object : Expr}
    {operands : List Expr} {className : String} {stream : TokenStream} {whole : Expr}
    (becomes : receiver.Becomes scope object)
    (become : List.Forall₂ (Phrase.Becomes scope) args operands)
    (done : methodCall names object className name operands stream = .ok whole) :
    (Phrase.method receiver name args).Becomes scope whole := by
  unfold methodCall at done
  split at done
  · cases done
    refine .method becomes become rfl rfl ?_
    unfold dispatchOn
    split <;> nofun
  · cases done

end BodyParser

theorem Phrase.Becomes.withSpan {scope : Scope} {phrase : Phrase} {expr : Expr}
    (becomes : phrase.Becomes scope expr) (span : Span) :
    phrase.Becomes scope (expr.withSpan span) := by
  cases becomes with
  | literal read => exact .literal read
  | name known => exact .name known
  | negate operand => exact .negate operand
  | operation left right => exact .operation left right
  | call args named placed free => exact .call args named placed free
  | method receiver args named placed bound => exact .method receiver args named placed bound

namespace BodyParser

variable {names : CallScope} {scope : Scope}

mutual

theorem expr_readAs (stream : TokenStream) {read : Parsed stream Expr}
    (done : expr names scope stream = .ok read) :
    ReadAs IsExpr (Phrase.Becomes scope) stream read.rest read.value := by
  rw [expr] at done
  obtain ⟨first, leading, done⟩ := ok_of_bind done
  obtain ⟨all, behind, done⟩ := ok_of_bind done
  have shorter := first.shorter
  cases done
  obtain ⟨_, left, moves, isProduct, becomes⟩ := product_readAs stream leading
  obtain ⟨_, tree, further, summands, whole⟩ := sums_readAs first.rest becomes behind
  exact ⟨_, tree, moves.trans further, .sum isProduct summands, whole⟩
termination_by 8 * stream.size + 4

theorem sums_readAs (stream : TokenStream) {phrase : Phrase} {left : Expr}
    {read : Reached stream Expr} (becomes : phrase.Becomes scope left)
    (done : sums names scope left stream = .ok read) :
    ReadAs (Repeat IsSummand phrase) (Phrase.Becomes scope) stream read.rest read.value := by
  rw [sums] at done
  split at done
  · cases done
    exact ⟨[], phrase, .refl _, .none, becomes⟩
  · rename_i operator taken
    obtain ⟨right, leading, done⟩ := ok_of_bind done
    obtain ⟨sum, combined, done⟩ := ok_of_bind done
    obtain ⟨all, behind, done⟩ := ok_of_bind done
    have shorter := operator.shorter
    have further := right.shorter
    cases done
    obtain ⟨token, moves, known⟩ := takeOperator?_moves taken
    obtain ⟨_, _, moved, isProduct, also⟩ := product_readAs operator.rest leading
    obtain ⟨_, tree, passed, summands, whole⟩ :=
      sums_readAs right.rest (combine_becomes becomes also combined) behind
    exact ⟨_, tree, (moves.trans moved).trans passed,
      .more (.operation known isProduct) summands, whole⟩
termination_by 8 * stream.size

theorem product_readAs (stream : TokenStream) {read : Parsed stream Expr}
    (done : product names scope stream = .ok read) :
    ReadAs IsProduct (Phrase.Becomes scope) stream read.rest read.value := by
  rw [product] at done
  obtain ⟨first, leading, done⟩ := ok_of_bind done
  obtain ⟨all, behind, done⟩ := ok_of_bind done
  have shorter := first.shorter
  cases done
  obtain ⟨_, left, moves, isUnary, becomes⟩ := unary_readAs stream leading
  obtain ⟨_, tree, further, factors, whole⟩ := products_readAs first.rest becomes behind
  exact ⟨_, tree, moves.trans further, .product isUnary factors, whole⟩
termination_by 8 * stream.size + 3

theorem products_readAs (stream : TokenStream) {phrase : Phrase} {left : Expr}
    {read : Reached stream Expr} (becomes : phrase.Becomes scope left)
    (done : products names scope left stream = .ok read) :
    ReadAs (Repeat IsFactor phrase) (Phrase.Becomes scope) stream read.rest read.value := by
  rw [products] at done
  split at done
  · cases done
    exact ⟨[], phrase, .refl _, .none, becomes⟩
  · rename_i operator taken
    obtain ⟨right, leading, done⟩ := ok_of_bind done
    obtain ⟨product, combined, done⟩ := ok_of_bind done
    obtain ⟨all, behind, done⟩ := ok_of_bind done
    have shorter := operator.shorter
    have further := right.shorter
    cases done
    obtain ⟨token, moves, known⟩ := takeOperator?_moves taken
    obtain ⟨_, _, moved, isUnary, also⟩ := unary_readAs operator.rest leading
    obtain ⟨_, tree, passed, factors, whole⟩ :=
      products_readAs right.rest (combine_becomes becomes also combined) behind
    exact ⟨_, tree, (moves.trans moved).trans passed,
      .more (.operation known isUnary) factors, whole⟩
termination_by 8 * stream.size

theorem unary_readAs (stream : TokenStream) {read : Parsed stream Expr}
    (done : unary names scope stream = .ok read) :
    ReadAs IsUnary (Phrase.Becomes scope) stream read.rest read.value := by
  rw [unary] at done
  split at done
  · obtain ⟨_, tree, moves, isCalls, becomes⟩ := receiverCalls_readAs stream done
    exact ⟨_, tree, moves, .calls isCalls, becomes⟩
  · rename_i minus taken
    obtain ⟨operand, leading, done⟩ := ok_of_bind done
    obtain ⟨negation, combined, done⟩ := ok_of_bind done
    have shorter := minus.shorter
    cases done
    obtain ⟨moves, kind⟩ := take?_moves taken
    obtain ⟨_, tree, moved, isUnary, becomes⟩ := unary_readAs minus.rest leading
    exact ⟨_, _, moves.trans moved, .negate kind isUnary,
      combineNegation_becomes becomes combined⟩
termination_by 8 * stream.size + 2

theorem receiverCalls_readAs (stream : TokenStream) {read : Parsed stream Expr}
    (done : receiverCalls names scope stream = .ok read) :
    ReadAs IsCalls (Phrase.Becomes scope) stream read.rest read.value := by
  rw [receiverCalls] at done
  obtain ⟨first, leading, done⟩ := ok_of_bind done
  obtain ⟨all, behind, done⟩ := ok_of_bind done
  have shorter := first.shorter
  cases done
  obtain ⟨_, receiver, moves, isPrimary, becomes⟩ := primary_readAs stream leading
  obtain ⟨_, tree, further, calls, whole⟩ := methodCalls_readAs first.rest becomes behind
  exact ⟨_, tree, moves.trans further, .receiver isPrimary calls, whole⟩
termination_by 8 * stream.size + 1

theorem methodCalls_readAs (stream : TokenStream) {phrase : Phrase} {receiver : Expr}
    {read : Reached stream Expr} (becomes : phrase.Becomes scope receiver)
    (done : methodCalls names scope receiver stream = .ok read) :
    ReadAs (Repeat IsMethodCall phrase) (Phrase.Becomes scope) stream read.rest read.value := by
  rw [methodCalls] at done
  split at done
  · cases done
    exact ⟨[], phrase, .refl _, .none, becomes⟩
  · rename_i dot taken
    obtain ⟨name, named, done⟩ := ok_of_bind done
    obtain ⟨className, _, done⟩ := ok_of_bind done
    obtain ⟨args, between, done⟩ := ok_of_bind done
    obtain ⟨call, called, done⟩ := ok_of_bind done
    obtain ⟨all, behind, done⟩ := ok_of_bind done
    have shorter := dot.shorter
    have further := name.shorter
    have furthest := args.shorter
    cases done
    obtain ⟨first, point⟩ := take?_moves taken
    obtain ⟨second, kind⟩ := take_moves named
    obtain ⟨_, _, third, isArguments, become⟩ := arguments_readAs name.rest between
    obtain ⟨_, tree, last, calls, whole⟩ :=
      methodCalls_readAs args.rest (methodCall_becomes becomes become called) behind
    exact ⟨_, tree, ((first.trans second).trans third).trans last,
      .more (.call point kind isArguments) calls, whole⟩
termination_by 8 * stream.size

theorem primary_readAs (stream : TokenStream) {read : Parsed stream Expr}
    (done : primary names scope stream = .ok read) :
    ReadAs IsPrimary (Phrase.Becomes scope) stream read.rest read.value := by
  rw [primary] at done
  split at done
  · cases done
  · rename_i token taken
    have shorter := token.shorter
    obtain ⟨moves, -, -⟩ := next?_moves taken
    have literal {value : Expr} (isLiteral : IsLiteral token.value.kind)
        (becomes : (Phrase.literal token.value).Becomes scope value) :
        ReadAs IsPrimary (Phrase.Becomes scope) stream token.rest value :=
      ⟨_, _, moves, .literal isLiteral, becomes⟩
    have name {value : Expr} (isName : IsName token.value.kind)
        (named : nameExpr scope token.value = .ok value) :
        ReadAs IsPrimary (Phrase.Becomes scope) stream token.rest value :=
      ⟨_, _, moves, .name isName, nameExpr_becomes named⟩
    dsimp only at done
    split at done
    · rename_i kind
      obtain ⟨whole, read, done⟩ := ok_of_bind done
      cases done
      exact literal (Or.inl (by rw [kind]; rfl)) (intLiteral_becomes kind read)
    · rename_i kind
      obtain ⟨whole, read, done⟩ := ok_of_bind done
      cases done
      exact literal (Or.inl (by rw [kind]; rfl)) (floatLiteral_becomes (Or.inl kind) read)
    · rename_i kind
      obtain ⟨whole, read, done⟩ := ok_of_bind done
      cases done
      exact literal (Or.inl (by rw [kind]; rfl)) (floatLiteral_becomes (Or.inr kind) read)
    · rename_i kind
      cases done
      exact literal (Or.inl (by rw [kind]; rfl)) (.literal (by simp [Literal.read?, kind]))
    · rename_i kind
      cases done
      exact literal (Or.inl (by rw [kind]; rfl)) (.literal (by simp [Literal.read?, kind]))
    · rename_i kind
      cases done
      exact literal (Or.inl (by rw [kind]; rfl)) (.literal (by simp [Literal.read?, kind]))
    · rename_i kind
      cases done
      exact literal (Or.inr kind) (.literal (by simp [Literal.read?, kind]))
    · rename_i kind
      split at done
      · obtain ⟨args, between, done⟩ := ok_of_bind done
        obtain ⟨call, called, done⟩ := ok_of_bind done
        cases done
        obtain ⟨_, _, further, isArguments, become⟩ := arguments_readAs token.rest between
        exact ⟨_, _, moves.trans further, .call kind isArguments, freeCall_becomes become called⟩
      · obtain ⟨whole, named, done⟩ := ok_of_bind done
        cases done
        exact name (Or.inl kind) named
    · rename_i kind
      obtain ⟨whole, named, done⟩ := ok_of_bind done
      cases done
      exact name (Or.inr (Or.inl kind)) named
    · rename_i kind
      obtain ⟨whole, named, done⟩ := ok_of_bind done
      cases done
      exact name (Or.inr (Or.inr kind)) named
    · rename_i kind
      obtain ⟨inner, between, done⟩ := ok_of_bind done
      obtain ⟨closing, closed, done⟩ := ok_of_bind done
      cases done
      obtain ⟨_, tree, further, isExpr, becomes⟩ := expr_readAs token.rest between
      obtain ⟨last, closes⟩ := take_moves closed
      exact ⟨_, tree, (moves.trans further).trans last, .parens kind isExpr closes,
        becomes.withSpan _⟩
    · cases done
termination_by 8 * stream.size

theorem arguments_readAs (stream : TokenStream) {read : Parsed stream (List Expr)}
    (done : arguments names scope stream = .ok read) :
    ReadAs IsArguments (List.Forall₂ (Phrase.Becomes scope)) stream read.rest read.value := by
  rw [arguments] at done
  obtain ⟨opening, opened, done⟩ := ok_of_bind done
  have shorter := opening.shorter
  obtain ⟨first, opens⟩ := take_moves opened
  split at done
  · rename_i closing closed
    cases done
    obtain ⟨last, closes⟩ := take?_moves closed
    exact ⟨_, [], first.trans last, .none opens closes, .nil⟩
  · obtain ⟨args, between, done⟩ := ok_of_bind done
    obtain ⟨closing, closed, done⟩ := ok_of_bind done
    cases done
    obtain ⟨_, _, further, isExprs, become⟩ := exprs_readAs opening.rest between
    obtain ⟨last, closes⟩ := take_moves closed
    exact ⟨_, _, (first.trans further).trans last, .some opens isExprs closes, become⟩
termination_by 8 * stream.size

theorem exprs_readAs (stream : TokenStream) {read : Parsed stream (List Expr)}
    (done : exprs names scope stream = .ok read) :
    ReadAs IsExprs (List.Forall₂ (Phrase.Becomes scope)) stream read.rest read.value := by
  rw [exprs] at done
  obtain ⟨first, leading, done⟩ := ok_of_bind done
  have shorter := first.shorter
  obtain ⟨_, _, moves, isExpr, becomes⟩ := expr_readAs stream leading
  split at done
  · cases done
    exact ⟨_, _, moves, .last isExpr, .cons becomes .nil⟩
  · rename_i comma taken
    obtain ⟨more, behind, done⟩ := ok_of_bind done
    have further := comma.shorter
    cases done
    obtain ⟨passed, kind⟩ := take?_moves taken
    obtain ⟨_, _, last, isExprs, become⟩ := exprs_readAs comma.rest behind
    exact ⟨_, _, moves.trans (passed.trans last), .more isExpr kind isExprs,
      .cons becomes become⟩
termination_by 8 * stream.size + 5

end

abbrev ReadStatement (category : List Token → Clause → Prop) (scope : Scope)
    (stream later : TokenStream) (read : Stmt × Scope) : Prop :=
  ReadAs category (fun clause read => clause.Becomes scope read.1 read.2) stream later read

theorem initialValue_readAs {type : DataType} {stream : TokenStream}
    {read : Reached stream (Option Expr)}
    (done : initialValue names scope type stream = .ok read) :
    ReadAs IsInitial (Option.Rel (Phrase.Becomes scope)) stream read.rest read.value := by
  unfold initialValue at done
  split at done
  · cases done
    exact ⟨[], none, .refl _, .none, .none⟩
  · rename_i equal taken
    obtain ⟨value, given, done⟩ := ok_of_bind done
    cases done
    obtain ⟨moves, kind⟩ := take?_moves taken
    unfold assignedExpr at given
    obtain ⟨value, leading, given⟩ := ok_of_bind given
    split at given
    · cases given
      obtain ⟨_, _, further, isExpr, becomes⟩ := expr_readAs equal.rest leading
      exact ⟨_, _, moves.trans further, .some kind isExpr, .some becomes⟩
    · cases given

theorem declaration_readAs {stream : TokenStream} {read : Parsed stream (Stmt × Scope)}
    (done : declaration names scope stream = .ok read) :
    ReadStatement (IsSimple names.classes) scope stream read.rest read.value := by
  unfold declaration at done
  dsimp only at done
  split at done
  · cases done
  · rename_i type typed
    split at done
    · cases done
    · obtain ⟨name, named, done⟩ := ok_of_bind done
      obtain ⟨init, given, done⟩ := ok_of_bind done
      obtain ⟨semicolon, ended, done⟩ := ok_of_bind done
      obtain ⟨⟨id, visible⟩, added, done⟩ := ok_of_bind done
      cases done
      obtain ⟨_, _, first, isType, rfl⟩ := TypeName.read?_readAs typed
      obtain ⟨second, kind⟩ := take_moves named
      obtain ⟨_, _, third, isInitial, become⟩ := initialValue_readAs given
      obtain ⟨last, ends⟩ := take_moves ended
      exact ⟨_, _, (first.trans (second.trans third)).trans last,
        .declare isType kind isInitial ends, .declare become added⟩

theorem assignment_readAs {stream : TokenStream} {read : Parsed stream (Stmt × Scope)}
    (done : assignment names scope stream = .ok read) :
    ReadStatement (IsSimple names.classes) scope stream read.rest read.value := by
  unfold assignment at done
  obtain ⟨name, named, done⟩ := ok_of_bind done
  obtain ⟨found, assigns, done⟩ := ok_of_bind done
  obtain ⟨equal, equals, done⟩ := ok_of_bind done
  obtain ⟨value, assigned, done⟩ := ok_of_bind done
  obtain ⟨semicolon, ended, done⟩ := ok_of_bind done
  cases done
  obtain ⟨first, kind⟩ := take_moves named
  obtain ⟨second, mark⟩ := take_moves equals
  obtain ⟨last, ends⟩ := take_moves ended
  unfold assignedExpr at assigned
  obtain ⟨value, leading, assigned⟩ := ok_of_bind assigned
  split at assigned
  · cases assigned
    obtain ⟨_, _, third, isExpr, becomes⟩ := expr_readAs equal.rest leading
    unfold assignable at assigns
    split at assigns
    · cases assigns
    · rename_i visible known
      split at assigns
      · cases assigns
      · cases assigns
        exact ⟨_, _, ((first.trans second).trans third).trans last,
          .assign kind mark isExpr ends, .assign known becomes⟩
  · cases assigned

theorem returnStatement_readAs {stream : TokenStream} {read : Parsed stream (Stmt × Scope)}
    (done : returnStatement names scope stream = .ok read) :
    ReadStatement (IsSimple names.classes) scope stream read.rest read.value := by
  unfold returnStatement at done
  obtain ⟨keyword, standing, done⟩ := ok_of_bind done
  obtain ⟨first, kind⟩ := take_moves standing
  dsimp only at done
  split at done
  · rename_i semicolon ended
    obtain ⟨last, ends⟩ := take?_moves ended
    split at done
    · cases done
    · cases done
      exact ⟨_, _, first.trans last, .return kind ends, .return .none⟩
  · obtain ⟨value, leading, done⟩ := ok_of_bind done
    split at done
    · cases done
    · obtain ⟨semicolon, ended, done⟩ := ok_of_bind done
      cases done
      obtain ⟨_, _, second, isExpr, becomes⟩ := expr_readAs keyword.rest leading
      obtain ⟨last, ends⟩ := take_moves ended
      exact ⟨_, _, (first.trans second).trans last, .returnValue kind isExpr ends,
        .return (.some becomes)⟩

theorem waitStatement_readAs {stream : TokenStream} {read : Parsed stream (Stmt × Scope)}
    (done : waitStatement names scope stream = .ok read) :
    ReadStatement (IsSimple names.classes) scope stream read.rest read.value := by
  unfold waitStatement at done
  obtain ⟨keyword, standing, done⟩ := ok_of_bind done
  obtain ⟨opening, opened, done⟩ := ok_of_bind done
  obtain ⟨count, leading, done⟩ := ok_of_bind done
  split at done
  · cases done
  · obtain ⟨closing, closed, done⟩ := ok_of_bind done
    obtain ⟨semicolon, ended, done⟩ := ok_of_bind done
    cases done
    obtain ⟨first, kind⟩ := take_moves standing
    obtain ⟨second, opens⟩ := take_moves opened
    obtain ⟨_, _, third, isExpr, becomes⟩ := expr_readAs opening.rest leading
    obtain ⟨fourth, closes⟩ := take_moves closed
    obtain ⟨last, ends⟩ := take_moves ended
    exact ⟨_, _, ((first.trans second).trans third).trans (fourth.trans last),
      .wait kind opens isExpr closes ends, .wait becomes⟩

theorem exprStatement_readAs {stream : TokenStream} {read : Parsed stream (Stmt × Scope)}
    (done : exprStatement names scope stream = .ok read) :
    ReadStatement (IsSimple names.classes) scope stream read.rest read.value := by
  unfold exprStatement at done
  obtain ⟨value, leading, done⟩ := ok_of_bind done
  obtain ⟨semicolon, ended, done⟩ := ok_of_bind done
  cases done
  obtain ⟨_, _, first, isExpr, becomes⟩ := expr_readAs stream leading
  obtain ⟨last, ends⟩ := take_moves ended
  exact ⟨_, _, first.trans last, .expr isExpr ends, .expr becomes⟩

theorem simpleStatement_readAs {stream : TokenStream} {read : Parsed stream (Stmt × Scope)}
    (done : simpleStatement names scope stream = .ok read) :
    ReadStatement (IsSimple names.classes) scope stream read.rest read.value := by
  unfold simpleStatement at done
  split at done
  · exact returnStatement_readAs done
  · split at done
    · exact waitStatement_readAs done
    · split at done
      · exact assignment_readAs done
      · split at done
        · exact declaration_readAs done
        · exact exprStatement_readAs done

mutual

/-- What a block consumes is a sentence of the grammar, and what it returns is made of the tree. -/
theorem block_readAs {scope : Scope} (stream : TokenStream) {read : Parsed stream (Block × Scope)}
    (done : block names scope stream = .ok read) :
    ReadAs (IsBlock names.classes)
      (fun clauses read => (Clause.block clauses).Becomes scope
        (.block read.1.span read.1.stmts) read.2) stream read.rest read.value := by
  rw [block] at done
  obtain ⟨opening, opened, done⟩ := ok_of_bind done
  obtain ⟨body, leading, done⟩ := ok_of_bind done
  have shorter := opening.shorter
  cases done
  obtain ⟨first, opens⟩ := take_moves opened
  obtain ⟨_, _, _, between, isStatements, last, closes, become⟩ :=
    statements_readAs opening.rest leading
  exact ⟨_, _, (first.trans between).trans last, .braces opens isStatements closes,
    .block become⟩
termination_by 8 * stream.size

theorem statements_readAs {scope : Scope} (stream : TokenStream)
    {read : Parsed stream (List Stmt × Token × Scope)}
    (done : statements names scope stream = .ok read) :
    ∃ sentence clauses middle, stream.Moves middle sentence ∧
      IsStatements names.classes sentence clauses ∧ middle.Moves read.rest [read.value.2.1] ∧
      read.value.2.1.kind = .rightBrace ∧
      Clause.BecomesIn scope clauses read.value.1 read.value.2.2 := by
  rw [statements] at done
  split at done
  · rename_i closing closed
    cases done
    obtain ⟨moves, closes⟩ := take?_moves closed
    exact ⟨[], [], stream, .refl _, .none, moves, closes, .none⟩
  · split at done
    · cases done
    · obtain ⟨first, leading, done⟩ := ok_of_bind done
      obtain ⟨more, behind, done⟩ := ok_of_bind done
      have shorter := first.shorter
      cases done
      obtain ⟨_, _, moves, isStatement, becomes⟩ := statement_readAs stream leading
      obtain ⟨_, _, middle, further, isStatements, last, closes, become⟩ :=
        statements_readAs first.rest behind
      exact ⟨_, _, middle, moves.trans further, .more isStatement isStatements, last, closes,
        .more becomes become⟩
termination_by 8 * stream.size + 2

theorem statement_readAs {scope : Scope} (stream : TokenStream)
    {read : Parsed stream (Stmt × Scope)} (done : statement names scope stream = .ok read) :
    ReadStatement (IsStatement names.classes) scope stream read.rest read.value := by
  rw [statement] at done
  split at done
  · obtain ⟨inner, leading, done⟩ := ok_of_bind done
    cases done
    obtain ⟨_, _, moves, isBlock, becomes⟩ := block_readAs stream leading
    exact ⟨_, _, moves, .block isBlock, becomes⟩
  · obtain ⟨_, _, moves, isSimple, becomes⟩ := simpleStatement_readAs done
    exact ⟨_, _, moves, .simple isSimple, becomes⟩
termination_by 8 * stream.size + 1

end

end BodyParser

end ScriptEngine
