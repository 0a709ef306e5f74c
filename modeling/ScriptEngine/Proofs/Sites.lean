import ScriptEngine.Proofs.Bodies
import ScriptEngine.Proofs.Reading
/-! The places of calls. Reading a body finds each call at the token of the called name, and bodies
of one source stand one behind the other, so the place of a call tells it from all others of its
program. -/

namespace ScriptEngine

def places (calls : List (CallSite × List Expr)) : List Nat := calls.map fun call => call.1.offset

@[simp] theorem places_nil : places [] = [] := rfl

@[simp] theorem places_cons (call : CallSite × List Expr) (rest : List (CallSite × List Expr)) :
    places (call :: rest) = call.1.offset :: places rest := rfl

@[simp] theorem places_append (first second : List (CallSite × List Expr)) :
    places (first ++ second) = places first ++ places second := List.map_append

theorem Expr.calls_withSpan (expr : Expr) (span : Span) : (expr.withSpan span).calls = expr.calls := by
  cases expr <;> simp [Expr.withSpan, Expr.calls]

namespace BodyParser

variable {names : CallScope} {scope : Scope}

theorem takeOperator?_passes {wanted : TokenKind → Option Operator} {stream : TokenStream}
    {operator : Parsed stream Operator} (taken : takeOperator? wanted stream = some operator)
    (plain : ∀ kind operator, wanted kind = some operator → TokenStream.Plain kind) :
    stream.Reads operator.rest [] := by
  unfold takeOperator? at taken
  split at taken
  · rename_i found token standing next
    cases taken
    obtain ⟨moves, same, _⟩ := TokenStream.next?_moves next
    exact moves.passes (same ▸ plain _ _ standing)
  · cases taken

theorem sumOperator?_plain (kind : TokenKind) (operator : Operator)
    (known : sumOperator? kind = some operator) : TokenStream.Plain kind := by
  unfold sumOperator? at known
  split at known
  · decide
  · decide
  · cases known

theorem productOperator?_plain (kind : TokenKind) (operator : Operator)
    (known : productOperator? kind = some operator) : TokenStream.Plain kind := by
  unfold productOperator? at known
  split at known
  · decide
  · decide
  · cases known

theorem combine_calls {operator : Operator} {left right whole : Expr}
    (done : combine operator left right = .ok whole) : whole.calls = left.calls ++ right.calls := by
  unfold combine at done
  dsimp only at done
  split at done
  · cases done
    simp [Expr.calls]
  · split at done
    · cases done
      simp [Expr.calls]
    · cases done

theorem combineNegation_calls {minus : Span} {operand whole : Expr}
    (done : combineNegation minus operand = .ok whole) : whole.calls = operand.calls := by
  unfold combineNegation at done
  split at done
  · cases done
    simp [Expr.calls]
  · cases done

theorem intLiteral_calls {token : Token} {whole : Expr} (done : intLiteral token = .ok whole) :
    whole.calls = [] := by
  unfold intLiteral at done
  split at done
  · cases done
    simp [Expr.calls]
  · cases done

theorem floatLiteral_calls {token : Token} {whole : Expr} (done : floatLiteral token = .ok whole) :
    whole.calls = [] := by
  unfold floatLiteral at done
  split at done
  · split at done <;> cases done <;> simp [Expr.calls]
  · cases done

theorem nameExpr_calls {token : Token} {whole : Expr} (done : nameExpr scope token = .ok whole) :
    whole.calls = [] := by
  unfold nameExpr at done
  split at done
  · cases done
    simp [Expr.calls]
  · cases done

theorem freeCall_places {name : Token} {args : List Expr} {stream : TokenStream} {whole : Expr}
    (done : freeCall names name args stream = .ok whole) :
    places whole.calls = name.span.start :: places (Expr.callsIn args) := by
  unfold freeCall at done
  split at done
  · cases done
    simp [Expr.calls]
  · cases done

theorem methodCall_places {receiver : Expr} {className : String} {name : Token} {args : List Expr}
    {stream : TokenStream} {whole : Expr}
    (done : methodCall names receiver className name args stream = .ok whole) :
    places whole.calls =
      name.span.start :: (places receiver.calls ++ places (Expr.callsIn args)) := by
  unfold methodCall at done
  split at done
  · cases done
    simp [Expr.calls, Expr.callsIn]
  · cases done

mutual

theorem expr_reads (stream : TokenStream) {read : Parsed stream Expr}
    (done : expr names scope stream = .ok read) : stream.Reads read.rest (places read.value.calls) := by
  rw [expr] at done
  obtain ⟨first, leading, done⟩ := ok_of_bind done
  obtain ⟨all, behind, done⟩ := ok_of_bind done
  have shorter := first.shorter
  cases done
  exact sums_reads first.rest (product_reads stream leading) behind
termination_by 8 * stream.size + 4

theorem sums_reads {start : TokenStream} {left : Expr} (stream : TokenStream)
    {read : Reached stream Expr} (before : start.Reads stream (places left.calls))
    (done : sums names scope left stream = .ok read) :
    start.Reads read.rest (places read.value.calls) := by
  rw [sums] at done
  split at done
  · cases done
    exact before
  · rename_i operator taken
    obtain ⟨right, leading, done⟩ := ok_of_bind done
    obtain ⟨sum, combined, done⟩ := ok_of_bind done
    obtain ⟨all, behind, done⟩ := ok_of_bind done
    have shorter := operator.shorter
    have further := right.shorter
    cases done
    refine sums_reads right.rest ?_ behind
    rw [combine_calls combined, places_append]
    exact (before.ahead (takeOperator?_passes taken sumOperator?_plain)).trans
      (product_reads operator.rest leading)
termination_by 8 * stream.size

theorem product_reads (stream : TokenStream) {read : Parsed stream Expr}
    (done : product names scope stream = .ok read) :
    stream.Reads read.rest (places read.value.calls) := by
  rw [product] at done
  obtain ⟨first, leading, done⟩ := ok_of_bind done
  obtain ⟨all, behind, done⟩ := ok_of_bind done
  have shorter := first.shorter
  cases done
  exact products_reads first.rest (unary_reads stream leading) behind
termination_by 8 * stream.size + 3

theorem products_reads {start : TokenStream} {left : Expr} (stream : TokenStream)
    {read : Reached stream Expr} (before : start.Reads stream (places left.calls))
    (done : products names scope left stream = .ok read) :
    start.Reads read.rest (places read.value.calls) := by
  rw [products] at done
  split at done
  · cases done
    exact before
  · rename_i operator taken
    obtain ⟨right, leading, done⟩ := ok_of_bind done
    obtain ⟨product, combined, done⟩ := ok_of_bind done
    obtain ⟨all, behind, done⟩ := ok_of_bind done
    have shorter := operator.shorter
    have further := right.shorter
    cases done
    refine products_reads right.rest ?_ behind
    rw [combine_calls combined, places_append]
    exact (before.ahead (takeOperator?_passes taken productOperator?_plain)).trans
      (unary_reads operator.rest leading)
termination_by 8 * stream.size

theorem unary_reads (stream : TokenStream) {read : Parsed stream Expr}
    (done : unary names scope stream = .ok read) :
    stream.Reads read.rest (places read.value.calls) := by
  rw [unary] at done
  split at done
  · exact receiverCalls_reads stream done
  · rename_i minus taken
    obtain ⟨operand, leading, done⟩ := ok_of_bind done
    obtain ⟨negation, combined, done⟩ := ok_of_bind done
    have shorter := minus.shorter
    cases done
    rw [combineNegation_calls combined]
    exact (TokenStream.take?_passes taken).behind (unary_reads minus.rest leading)
termination_by 8 * stream.size + 2

theorem receiverCalls_reads (stream : TokenStream) {read : Parsed stream Expr}
    (done : receiverCalls names scope stream = .ok read) :
    stream.Reads read.rest (places read.value.calls) := by
  rw [receiverCalls] at done
  obtain ⟨first, leading, done⟩ := ok_of_bind done
  obtain ⟨all, behind, done⟩ := ok_of_bind done
  have shorter := first.shorter
  cases done
  exact methodCalls_reads first.rest (primary_reads stream leading) behind
termination_by 8 * stream.size + 1

theorem methodCalls_reads {start : TokenStream} {receiver : Expr} (stream : TokenStream)
    {read : Reached stream Expr} (before : start.Reads stream (places receiver.calls))
    (done : methodCalls names scope receiver stream = .ok read) :
    start.Reads read.rest (places read.value.calls) := by
  rw [methodCalls] at done
  split at done
  · cases done
    exact before
  · rename_i dot taken
    obtain ⟨name, named, done⟩ := ok_of_bind done
    obtain ⟨className, _, done⟩ := ok_of_bind done
    obtain ⟨args, between, done⟩ := ok_of_bind done
    obtain ⟨call, called, done⟩ := ok_of_bind done
    obtain ⟨all, behind, done⟩ := ok_of_bind done
    have shorter := dot.shorter
    have further := name.shorter
    have furthest := args.shorter
    cases done
    obtain ⟨moves, word⟩ := TokenStream.take_moves named
    refine methodCalls_reads args.rest ?_ behind
    -- The name stands behind the receiver, and the call is counted before both.
    refine (((before.ahead (TokenStream.take?_passes taken)).trans
      (moves.reads (word ▸ by decide))).trans (arguments_reads name.rest between)).perm ?_
    rw [methodCall_places called, List.append_assoc]
    exact List.perm_middle
termination_by 8 * stream.size

theorem primary_reads (stream : TokenStream) {read : Parsed stream Expr}
    (done : primary names scope stream = .ok read) :
    stream.Reads read.rest (places read.value.calls) := by
  rw [primary] at done
  split at done
  · cases done
  · rename_i token next
    have shorter := token.shorter
    obtain ⟨moves, _⟩ := TokenStream.next?_moves next
    dsimp only at done
    split at done
    · rename_i kind
      obtain ⟨whole, literal, done⟩ := ok_of_bind done
      cases done
      rw [intLiteral_calls literal]
      exact moves.passes (kind ▸ by decide)
    · rename_i kind
      obtain ⟨whole, literal, done⟩ := ok_of_bind done
      cases done
      rw [floatLiteral_calls literal]
      exact moves.passes (kind ▸ by decide)
    · rename_i kind
      obtain ⟨whole, literal, done⟩ := ok_of_bind done
      cases done
      rw [floatLiteral_calls literal]
      exact moves.passes (kind ▸ by decide)
    · rename_i kind
      cases done
      rw [Expr.calls]
      exact moves.passes (kind ▸ by decide)
    · rename_i kind
      cases done
      rw [Expr.calls]
      exact moves.passes (kind ▸ by decide)
    · rename_i kind
      cases done
      rw [Expr.calls]
      exact moves.passes (kind ▸ by decide)
    · rename_i kind
      cases done
      rw [Expr.calls]
      exact moves.passes (kind ▸ by decide)
    · rename_i kind
      split at done
      · obtain ⟨args, between, done⟩ := ok_of_bind done
        obtain ⟨call, called, done⟩ := ok_of_bind done
        cases done
        rw [freeCall_places called]
        exact (moves.reads (kind ▸ by decide)).trans (arguments_reads token.rest between)
      · obtain ⟨whole, named, done⟩ := ok_of_bind done
        cases done
        rw [nameExpr_calls named]
        exact moves.passes (kind ▸ by decide)
    · rename_i kind
      obtain ⟨whole, named, done⟩ := ok_of_bind done
      cases done
      rw [nameExpr_calls named]
      exact moves.passes (kind ▸ by decide)
    · rename_i kind
      obtain ⟨whole, named, done⟩ := ok_of_bind done
      cases done
      rw [nameExpr_calls named]
      exact moves.passes (kind ▸ by decide)
    · rename_i kind
      obtain ⟨inner, between, done⟩ := ok_of_bind done
      obtain ⟨closing, closed, done⟩ := ok_of_bind done
      cases done
      rw [Expr.calls_withSpan]
      exact (moves.passes (kind ▸ by decide)).behind
        ((expr_reads token.rest between).ahead (TokenStream.take_passes closed))
    · cases done
termination_by 8 * stream.size

theorem arguments_reads (stream : TokenStream) {read : Parsed stream (List Expr)}
    (done : arguments names scope stream = .ok read) :
    stream.Reads read.rest (places (Expr.callsIn read.value)) := by
  rw [arguments] at done
  obtain ⟨opening, opened, done⟩ := ok_of_bind done
  have shorter := opening.shorter
  have entered : stream.Reads opening.rest [] := TokenStream.take_passes opened
  split at done
  · rename_i closing closed
    cases done
    rw [Expr.callsIn]
    exact entered.behind (TokenStream.take?_passes closed)
  · obtain ⟨args, between, done⟩ := ok_of_bind done
    obtain ⟨closing, closed, done⟩ := ok_of_bind done
    cases done
    exact entered.behind ((exprs_reads opening.rest between).ahead (TokenStream.take_passes closed))
termination_by 8 * stream.size

theorem exprs_reads (stream : TokenStream) {read : Parsed stream (List Expr)}
    (done : exprs names scope stream = .ok read) :
    stream.Reads read.rest (places (Expr.callsIn read.value)) := by
  rw [exprs] at done
  obtain ⟨first, leading, done⟩ := ok_of_bind done
  have reads := expr_reads stream leading
  have shorter := first.shorter
  split at done
  · cases done
    simpa [Expr.callsIn] using reads
  · rename_i comma taken
    obtain ⟨more, behind, done⟩ := ok_of_bind done
    have further := comma.shorter
    cases done
    rw [Expr.callsIn, places_append]
    exact (reads.ahead (TokenStream.take?_passes taken)).trans (exprs_reads comma.rest behind)
termination_by 8 * stream.size + 5

end

theorem assignedExpr_reads {type : DataType} {stream : TokenStream} {read : Parsed stream Expr}
    (done : assignedExpr names scope type stream = .ok read) :
    stream.Reads read.rest (places read.value.calls) := by
  unfold assignedExpr at done
  obtain ⟨value, leading, done⟩ := ok_of_bind done
  split at done
  · cases done
    exact expr_reads stream leading
  · cases done

theorem declaration_reads {stream : TokenStream} {read : Parsed stream (Stmt × Scope)}
    (done : declaration names scope stream = .ok read) :
    stream.Reads read.rest (places read.value.1.calls) := by
  unfold declaration at done
  dsimp only at done
  split at done
  · cases done
  · rename_i type typed
    split at done
    · cases done
    · obtain ⟨name, named, done⟩ := ok_of_bind done
      obtain ⟨init, given, done⟩ := ok_of_bind done
      obtain ⟨semicolon, ended, done⟩ := ok_of_bind done
      obtain ⟨declared, _, done⟩ := ok_of_bind done
      cases done
      have start := (TypeName.read?_passes typed).behind (TokenStream.take_passes named)
      have ends : init.rest.Reads semicolon.rest [] := TokenStream.take_passes ended
      unfold initialValue at given
      split at given
      · cases given
        rw [Stmt.calls]
        exact start.behind ends
      · rename_i equal taken
        obtain ⟨value, assigned, given⟩ := ok_of_bind given
        cases given
        rw [Stmt.calls]
        exact start.behind ((TokenStream.take?_passes taken).behind
          ((assignedExpr_reads assigned).ahead ends))

theorem simpleStatement_reads {stream : TokenStream} {read : Parsed stream (Stmt × Scope)}
    (done : simpleStatement names scope stream = .ok read) :
    stream.Reads read.rest (places read.value.1.calls) := by
  unfold simpleStatement at done
  split at done
  · unfold returnStatement at done
    obtain ⟨keyword, returns, done⟩ := ok_of_bind done
    have start : stream.Reads keyword.rest [] := TokenStream.take_passes returns
    dsimp only at done
    split at done
    · rename_i semicolon ended
      split at done
      · cases done
      · cases done
        rw [Stmt.calls]
        exact start.behind (TokenStream.take?_passes ended)
    · obtain ⟨value, leading, done⟩ := ok_of_bind done
      split at done
      · cases done
      · obtain ⟨semicolon, ended, done⟩ := ok_of_bind done
        cases done
        rw [Stmt.calls]
        exact start.behind ((expr_reads _ leading).ahead (TokenStream.take_passes ended))
  · split at done
    · unfold waitStatement at done
      obtain ⟨keyword, waits, done⟩ := ok_of_bind done
      obtain ⟨opening, opened, done⟩ := ok_of_bind done
      obtain ⟨count, leading, done⟩ := ok_of_bind done
      split at done
      · cases done
      · obtain ⟨closing, closed, done⟩ := ok_of_bind done
        obtain ⟨semicolon, ended, done⟩ := ok_of_bind done
        cases done
        rw [Stmt.calls]
        exact (TokenStream.take_passes waits).behind ((TokenStream.take_passes opened).behind
          ((expr_reads _ leading).ahead
            ((TokenStream.take_passes closed).behind (TokenStream.take_passes ended))))
    · split at done
      · unfold assignment at done
        obtain ⟨name, named, done⟩ := ok_of_bind done
        obtain ⟨found, _, done⟩ := ok_of_bind done
        obtain ⟨equal, taken, done⟩ := ok_of_bind done
        obtain ⟨value, assigned, done⟩ := ok_of_bind done
        obtain ⟨semicolon, ended, done⟩ := ok_of_bind done
        cases done
        rw [Stmt.calls]
        exact (TokenStream.take_passes named).behind ((TokenStream.take_passes taken).behind
          ((assignedExpr_reads assigned).ahead (TokenStream.take_passes ended)))
      · split at done
        · exact declaration_reads done
        · unfold exprStatement at done
          obtain ⟨value, leading, done⟩ := ok_of_bind done
          obtain ⟨semicolon, ended, done⟩ := ok_of_bind done
          cases done
          rw [Stmt.calls]
          exact (expr_reads _ leading).ahead (TokenStream.take_passes ended)

mutual

theorem block_encloses (scope : Scope) (stream : TokenStream) {read : Parsed stream (Block × Scope)}
    (done : block names scope stream = .ok read) :
    stream.Encloses read.rest (places (Stmt.callsIn read.value.1.stmts)) := by
  rw [block] at done
  obtain ⟨opening, opened, done⟩ := ok_of_bind done
  obtain ⟨body, leading, done⟩ := ok_of_bind done
  have shorter := opening.shorter
  obtain ⟨last, reads, closed, closes⟩ := statements_reads scope.pushBlock opening.rest leading
  obtain ⟨moves, opens⟩ := TokenStream.take_moves opened
  cases done
  exact ⟨⟨opening.rest, last, _, _, moves, opens, reads, closed, closes⟩⟩
termination_by 8 * stream.size

theorem statements_reads (scope : Scope) (stream : TokenStream)
    {read : Parsed stream (List Stmt × Token × Scope)}
    (done : statements names scope stream = .ok read) :
    ∃ last, stream.Reads last (places (Stmt.callsIn read.value.1)) ∧
      last.Moves read.rest [read.value.2.1] ∧ read.value.2.1.kind = .rightBrace := by
  rw [statements] at done
  split at done
  · rename_i closing closed
    cases done
    obtain ⟨moves, closes⟩ := TokenStream.take?_moves closed
    rw [Stmt.callsIn]
    exact ⟨stream, .refl _, moves, closes⟩
  · split at done
    · cases done
    · obtain ⟨first, leading, done⟩ := ok_of_bind done
      obtain ⟨more, behind, done⟩ := ok_of_bind done
      have shorter := first.shorter
      have reads := statement_reads scope stream leading
      obtain ⟨last, further, closed, closes⟩ := statements_reads first.value.2 first.rest behind
      cases done
      refine ⟨last, ?_, closed, closes⟩
      rw [Stmt.callsIn, places_append]
      exact reads.trans further
termination_by 8 * stream.size + 2

theorem statement_reads (scope : Scope) (stream : TokenStream)
    {read : Parsed stream (Stmt × Scope)} (done : statement names scope stream = .ok read) :
    stream.Reads read.rest (places read.value.1.calls) := by
  rw [statement] at done
  split at done
  · obtain ⟨inner, leading, done⟩ := ok_of_bind done
    have encloses := block_encloses scope stream leading
    cases done
    rw [Stmt.calls]
    exact encloses.reads
  · exact simpleStatement_reads done
termination_by 8 * stream.size + 1

end

end BodyParser

namespace ParamList

variable {classes : ClassTable}

theorem readParam_reads {earlier : List Param} {stream : TokenStream} {read : Parsed stream Param}
    (done : readParam classes earlier stream = .ok read) : stream.Reads read.rest [] := by
  unfold readParam at done
  dsimp only at done
  split at done
  · cases done
  · rename_i type typed
    split at done
    · cases done
    · obtain ⟨name, named, done⟩ := ok_of_bind done
      split at done
      · cases done
      · cases done
        exact (TypeName.read?_passes typed).behind (TokenStream.take_passes named)

theorem readParams_reads (earlier : List Param) (stream : TokenStream)
    {read : Parsed stream (List Param)} (done : readParams classes earlier stream = .ok read) :
    stream.Reads read.rest [] := by
  rw [readParams] at done
  obtain ⟨param, leading, done⟩ := ok_of_bind done
  have shorter := param.shorter
  split at done
  · cases done
    exact readParam_reads leading
  · rename_i comma taken
    obtain ⟨more, behind, done⟩ := ok_of_bind done
    have further := comma.shorter
    cases done
    exact (readParam_reads leading).behind
      ((TokenStream.take?_passes taken).behind (readParams_reads _ comma.rest behind))
termination_by stream.size

theorem read_reads {stream : TokenStream} {read : Parsed stream ParamList}
    (done : ParamList.read classes stream = .ok read) : stream.Reads read.rest [] := by
  unfold ParamList.read at done
  obtain ⟨opening, opened, done⟩ := ok_of_bind done
  have entered : stream.Reads opening.rest [] := TokenStream.take_passes opened
  split at done
  · rename_i closing closed
    cases done
    exact entered.behind (TokenStream.take?_passes closed)
  · obtain ⟨params, between, done⟩ := ok_of_bind done
    obtain ⟨closing, closed, done⟩ := ok_of_bind done
    cases done
    exact entered.behind ((readParams_reads [] _ between).behind (TokenStream.take_passes closed))

end ParamList

namespace Header

variable {classes : ClassTable}

theorem readModifiers_reads {inBlock : Bool} (before : Modifiers) (stream : TokenStream)
    {read : Reached stream Modifiers} (done : readModifiers inBlock before stream = .ok read) :
    stream.Reads read.rest [] := by
  rw [readModifiers] at done
  split at done
  · cases done
    exact .refl _
  · rename_i token next
    have shorter := token.shorter
    obtain ⟨moves, _⟩ := TokenStream.next?_moves next
    dsimp only at done
    split at done
    · rename_i kind
      split at done
      · cases done
      · obtain ⟨all, behind, done⟩ := ok_of_bind done
        cases done
        exact (moves.passes (kind ▸ by decide)).behind (readModifiers_reads _ token.rest behind)
    · rename_i kind
      obtain ⟨all, behind, done⟩ := ok_of_bind done
      cases done
      exact (moves.passes (kind ▸ by decide)).behind (readModifiers_reads _ token.rest behind)
    · rename_i kind
      obtain ⟨all, behind, done⟩ := ok_of_bind done
      cases done
      exact (moves.passes (kind ▸ by decide)).behind (readModifiers_reads _ token.rest behind)
    · cases done
      exact .refl _
termination_by stream.size

theorem read_reads {classBlock : Option String} {stream : TokenStream}
    {read : Parsed stream Header} (done : Header.read classes classBlock stream = .ok read) :
    stream.Reads read.rest [] := by
  unfold Header.read at done
  obtain ⟨modifiers, leading, done⟩ := ok_of_bind done
  split at done
  · cases done
  · rename_i returns typed
    obtain ⟨owner, owned, done⟩ := ok_of_bind done
    obtain ⟨name, named, done⟩ := ok_of_bind done
    obtain ⟨params, between, done⟩ := ok_of_bind done
    cases done
    have start := (readModifiers_reads _ stream leading).behind (TypeName.read?_passes typed)
    have holder : returns.rest.Reads owner.rest [] := by
      unfold readOwner at owned
      split at owned
      · obtain ⟨className, taken, owned⟩ := ok_of_bind owned
        dsimp only at owned
        split at owned
        · cases owned
        · obtain ⟨mark, marked, owned⟩ := ok_of_bind owned
          cases owned
          exact (TokenStream.take_passes taken).behind (TokenStream.take_passes marked)
      · cases owned
        exact .refl _
    have word : owner.rest.Reads name.rest [] := by
      unfold readName at named
      split at named
      · obtain ⟨only, taken, named⟩ := ok_of_bind named
        cases named
        exact TokenStream.take_passes taken
      · rename_i tilde marked
        obtain ⟨only, taken, named⟩ := ok_of_bind named
        cases named
        exact (TokenStream.take?_passes marked).behind (TokenStream.take_passes taken)
    exact start.behind (holder.behind (word.behind (ParamList.read_reads between)))

end Header

def Signature.bodyEnd (tokens : List Token) (signature : Signature) : Nat :=
  ((TokenStream.ofTokens tokens).seek signature.bodyAt).skipBlock.2.position

/-- Declarations whose bodies stand one behind the other, all of them up to some place. -/
structure Signature.Ordered (tokens : List Token) (declared : List Signature) (limit : Nat) :
    Prop where
  behind : declared.Pairwise fun first second => first.bodyEnd tokens ≤ second.bodyAt
  ends : ∀ signature ∈ declared, signature.bodyEnd tokens ≤ limit

theorem Signature.Ordered.mono {tokens : List Token} {declared : List Signature}
    {limit further : Nat} (ordered : Signature.Ordered tokens declared limit)
    (later : limit ≤ further) : Signature.Ordered tokens declared further :=
  ⟨ordered.behind, fun signature among => Nat.le_trans (ordered.ends signature among) later⟩

namespace Compiler

variable {env : CompileEnv} {tokens : List Token}

theorem readSignature_ordered {declared : List Signature} {classBlock : Option String}
    {id : FunctionId} {stream : TokenStream} {found : Parsed stream Signature}
    (within : stream.Within tokens)
    (ordered : Signature.Ordered tokens declared stream.position)
    (read : readSignature env declared classBlock id stream = .ok found) :
    found.rest.Within tokens ∧
      Signature.Ordered tokens (declared ++ [found.value]) found.rest.position := by
  obtain ⟨header, headed, _, same, skipped⟩ := readSignature_found read
  have start := within.reads (Header.read_reads headed)
  obtain ⟨between, moves⟩ := TokenStream.skipBlock_moves skipped
  have ended := start.moves moves
  have passed : header.rest.skipBlock.2.position = found.rest.position := by rw [skipped]
  have startsBehind := within.position_le start header.shorter
  have endsBehind := start.position_le ended (TokenStream.skipBlock_size skipped)
  have place : found.value.bodyAt = header.rest.position := by rw [same]
  refine ⟨ended, List.pairwise_append.mpr ⟨ordered.behind, List.pairwise_singleton .., ?_⟩, ?_⟩
  · intro first among second only
    rw [List.mem_singleton.mp only, place]
    exact Nat.le_trans (ordered.ends first among) startsBehind
  · intro signature among
    rcases List.mem_append.mp among with old | new
    · exact Nat.le_trans (ordered.ends signature old) (Nat.le_trans startsBehind endsBehind)
    · rw [List.mem_singleton.mp new, Signature.bodyEnd, place, start.seek]
      exact Nat.le_of_eq passed

theorem readItem_moves {declared : List Signature} {classBlock : Option String} {id : FunctionId}
    {stream : TokenStream} {item : Item stream}
    (read : readItem env declared classBlock id stream = .ok item) :
    match item with
    | .finished => classBlock = none ∧ stream.isAtEnd = true
    | .enterBlock inside => classBlock = none ∧ ∃ keyword name opening,
        stream.Moves inside.rest [keyword, name, opening] ∧ keyword.kind = .classKeyword ∧
          name.kind = .identifier ∧ opening.kind = .leftBrace ∧ inside.value = name.lexeme
    | .leaveBlock behind => ∃ className closing, classBlock = some className ∧
        stream.Moves behind.rest [closing] ∧ closing.kind = .rightBrace
    | .declaration _ => True := by
  have declares : ∀ {result : Except CompileError (Parsed stream Signature)},
      (result >>= fun signature => pure (Item.declaration signature)) = .ok item →
        ∃ signature, item = .declaration signature := by
    intro result bound
    obtain ⟨signature, _, same⟩ := ok_of_bind bound
    cases same
    exact ⟨signature, rfl⟩
  unfold readItem at read
  cases classBlock with
  | some className =>
      dsimp only at read
      split at read
      · rename_i closing closed
        cases read
        obtain ⟨moves, closes⟩ := TokenStream.take?_moves closed
        exact ⟨className, closing.value, rfl, moves, closes⟩
      · split at read
        · cases read
        · obtain ⟨signature, rfl⟩ := declares read
          trivial
  | none =>
      dsimp only at read
      split at read
      · rename_i ended
        cases read
        exact ⟨rfl, ended⟩
      · split at read
        · rename_i keyword taken
          obtain ⟨inside, entered, read⟩ := ok_of_bind read
          cases read
          obtain ⟨first, word⟩ := TokenStream.take?_moves taken
          unfold readClassBlock at entered
          obtain ⟨className, named, entered⟩ := ok_of_bind entered
          dsimp only at entered
          split at entered
          · cases entered
          · obtain ⟨opening, opened, entered⟩ := ok_of_bind entered
            cases entered
            obtain ⟨second, name⟩ := TokenStream.take_moves named
            obtain ⟨third, opens⟩ := TokenStream.take_moves opened
            exact ⟨rfl, keyword.value, className.value, opening.value,
              (first.trans second).trans third, word, name, opens, rfl⟩
        · obtain ⟨signature, rfl⟩ := declares read
          trivial

theorem readItem_within {declared : List Signature} {classBlock : Option String} {id : FunctionId}
    {stream : TokenStream} {item : Item stream} (within : stream.Within tokens)
    (read : readItem env declared classBlock id stream = .ok item) :
    match item with
    | .enterBlock inside => inside.rest.Within tokens
    | .leaveBlock behind => behind.rest.Within tokens
    | .finished | .declaration _ => True := by
  have moved := readItem_moves read
  cases item with
  | finished | declaration => trivial
  | enterBlock inside =>
      obtain ⟨_, _, _, _, moves, _⟩ := moved
      exact within.moves moves
  | leaveBlock behind =>
      obtain ⟨_, _, _, moves, _⟩ := moved
      exact within.moves moves

theorem readSignatures_ordered {declared : List Signature} {classBlock : Option String} {next : Nat}
    {stream : TokenStream} (within : stream.Within tokens)
    (ordered : Signature.Ordered tokens declared stream.position) :
    (readSignatures env declared classBlock next stream).1.Pairwise
      fun first second => first.bodyEnd tokens ≤ second.bodyAt := by
  fun_induction readSignatures env declared classBlock next stream with
  | case1 | case2 => exact ordered.behind
  | case3 declared classBlock next stream inside read ih =>
      have further : inside.rest.Within tokens := readItem_within within read
      exact ih further (ordered.mono (within.position_le further inside.shorter))
  | case4 declared classBlock next stream behind read ih =>
      have further : behind.rest.Within tokens := readItem_within within read
      exact ih further (ordered.mono (within.position_le further behind.shorter))
  | case5 declared classBlock next stream found read ih =>
      obtain ⟨further, longer⟩ := readSignature_ordered within ordered (readItem_declaration read)
      exact ih further longer

theorem compileBody_places {program : ProgramId} {declared : List Signature}
    {published : List Function} {signature : Signature} {function : Function}
    (compiled : compileBody env program declared published (.ofTokens tokens) signature =
      .ok function) :
    ∃ between, (places function.calls).Subperm (between.map fun token => token.span.start) ∧
      between <:+ tokens.take (signature.bodyEnd tokens) ∧
      between <+: tokens.drop signature.bodyAt := by
  unfold compileBody at compiled
  obtain ⟨scope, params, compiled⟩ := ok_of_bind compiled
  obtain ⟨body, read, compiled⟩ := ok_of_bind compiled
  cases compiled
  have encloses := BodyParser.block_encloses scope _ read
  obtain ⟨between, moves, _, listed⟩ := encloses.reads
  obtain ⟨span, skipped⟩ := encloses.skipBlock
  have ends : signature.bodyEnd tokens = body.rest.position := by
    rw [Signature.bodyEnd, skipped]
  refine ⟨between, listed, ?_, ?_⟩
  · rw [ends]
    exact ((TokenStream.Within.of_seek _).bounds moves).1
  · have ahead : tokens.drop signature.bodyAt = between ++ body.rest.ahead := moves.ahead
    exact ⟨_, ahead.symm⟩

section

variable {program : ProgramId} {declared : List Signature} {visible more : List Function}
  {signature other : Signature} {function second : Function}
  (ascending : tokens.Pairwise fun token later => token.span.start < later.span.start)

include ascending

theorem compileBody_distinct
    (compiled : compileBody env program declared visible (.ofTokens tokens) signature =
      .ok function) : (places function.calls).Nodup := by
  obtain ⟨between, ⟨chosen, same, within⟩, _, listed⟩ := compileBody_places compiled
  have inside : between.Sublist tokens :=
    listed.sublist.trans (List.drop_sublist signature.bodyAt tokens)
  have distinct : (tokens.map fun token => token.span.start).Nodup :=
    List.pairwise_map.mpr (ascending.imp fun before => Nat.ne_of_lt before)
  exact same.nodup_iff.mp ((distinct.sublist (inside.map _)).sublist within)

theorem compileBody_disjoint
    (compiled : compileBody env program declared visible (.ofTokens tokens) signature =
      .ok function)
    (also : compileBody env program declared more (.ofTokens tokens) other = .ok second)
    (behind : signature.bodyEnd tokens ≤ other.bodyAt) :
    (places function.calls).Disjoint (places second.calls) := by
  obtain ⟨before, listed, ends, _⟩ := compileBody_places compiled
  obtain ⟨after, found, _, starts⟩ := compileBody_places also
  intro place one two
  obtain ⟨token, early, rfl⟩ := List.mem_map.mp (listed.subset one)
  obtain ⟨later, late, same⟩ := List.mem_map.mp (found.subset two)
  have first := (List.take_sublist_take_left behind).subset (ends.subset early)
  have lower := ascending.rel_of_mem_take_of_mem_drop first (starts.subset late)
  exact Nat.ne_of_lt lower same.symm

end

/-- No two calls of a compiled program stand at one place. -/
theorem compile_sites {id : ProgramId} {name source : String} {ids after : Identities}
    {program : Program} {published : PublicIndex Function}
    (compiled : compile env id name source ids = (.ok program, after, published)) :
    (places (program.functions.flatMap Function.calls)).Nodup := by
  obtain ⟨tokens, split, read, bodies⟩ := compile_parts compiled
  have ascending := tokenize_ascending split
  have ordered := @readSignatures_ordered env tokens [] none (ids.lastFunction + 1)
    (.ofTokens tokens) rfl ⟨.nil, List.forall_mem_nil _⟩
  obtain ⟨_, each⟩ := compileBodies_each bodies
  rw [read, List.pairwise_map] at ordered
  rw [places, List.map_flatMap, List.nodup_flatMap]
  refine ⟨fun function among => ?_, ordered.imp_of_mem fun one other behind => ?_⟩
  · obtain ⟨visible, body⟩ := each function among
    exact compileBody_distinct ascending body
  · obtain ⟨visible, body⟩ := each _ one
    obtain ⟨more, also⟩ := each _ other
    exact compileBody_disjoint ascending body also behind

end Compiler

end ScriptEngine
