import ScriptEngine.Proofs.Literals
import ScriptEngine.Proofs.Lookahead
import ScriptEngine.Proofs.Parsing
/-! Every sentence of the grammar is accepted, up to its end and no further, unless one of its names
or types is wrong or an integer in it is too large. -/

namespace ScriptEngine

open Grammar TokenStream

def CompileCause.isSemantic : CompileCause → Bool
  | .undefinedCall | .badParameterType | .tooManyParameters | .tooFewParameters
  | .ambiguousParameterCount | .redefinedVariable | .unknownVariable | .typeMismatch
  | .missingReturnValue => true
  | _ => false

namespace Overload

variable {α : Type} {view : α → Callable} {hierarchy : Hierarchy} {name : String}
  {args : List DataType} {cause : CompileCause}

theorem worsen_isSemantic (misfit : Score) (semantic : cause.isSemantic = true) :
    (worsen cause misfit).isSemantic = true := by
  unfold worsen
  split
  · exact semantic
  · rfl
  · split <;> first | rfl | exact semantic
  · split <;> first | rfl | exact semantic

theorem nearest_isSemantic {score : α → Score} {candidates : List α} {best : Best α}
    (started : ∀ first, best = .nothing first → first.isSemantic = true)
    (done : nearest score best candidates = .nothing cause) : cause.isSemantic = true := by
  fun_induction nearest score best candidates with
  | case1 best => exact started cause done
  | case2 => cases done
  | case3 function rest cost found least _ _ nearer ih =>
      refine ih (fun first same => ?_) done
      unfold nearer at same
      split at same <;> cases same
  | case4 _ _ _ _ _ _ ih | case6 _ _ _ _ _ _ ih => exact ih (fun _ same => nomatch same) done
  | case5 function rest first _ _ ih =>
      refine ih (fun worse same => ?_) done
      cases same
      exact worsen_isSemantic _ (started first rfl)

theorem search_isSemantic {candidates : List α}
    (failed : search view hierarchy name args candidates = .error cause) :
    cause.isSemantic = true := by
  unfold search at failed
  dsimp only at failed
  split at failed
  · cases failed
  · rename_i first searched
    cases failed
    exact nearest_isSemantic (fun _ same => by cases same; rfl) searched

theorem resolve_isSemantic {withPublic : Bool} {kept : Option FunctionId} {own published : List α}
    {left : Option FunctionId}
    (failed : resolve view hierarchy withPublic kept name args own published =
      (.error cause, left)) : cause.isSemantic = true := by
  unfold resolve at failed
  dsimp only at failed
  split at failed
  · cases failed
  · split at failed
    · cases failed
    · rename_i first searched
      cases failed
      exact search_isSemantic searched

theorem resolveAlong_isSemantic {kept : Option FunctionId} {offered : List (List α)}
    {first : Option CompileCause} {left : Option FunctionId}
    (started : ∀ known ∈ first, known.isSemantic = true)
    (failed : resolveAlong view hierarchy kept name args first offered = (.error cause, left)) :
    cause.isSemantic = true := by
  induction offered generalizing first with
  | nil =>
      cases failed
      cases first with
      | none => rfl
      | some known => exact started known rfl
  | cons candidates rest ih =>
      unfold resolveAlong at failed
      split at failed
      · cases failed
      · rename_i worse _ searched
        refine ih (fun known same => ?_) failed
        cases same
        cases first with
        | none => exact resolve_isSemantic searched
        | some known => exact started known rfl

end Overload

/-- What a sentence may be refused for: a name or a type, or an integer that 64 bits do not hold. -/
inductive CompileError.Excused (sentence : List Token) (error : CompileError) : Prop
  | semantic : error.cause.isSemantic = true → Excused sentence error
  | magnitude {token : Token} {value : Nat} : token ∈ sentence → token.kind = .intLiteral →
      Literal.magnitude? token.lexeme = some value → 2 ^ 63 ≤ value →
      error.cause = .unexpectedToken → error.span = token.span → Excused sentence error

def Settles {α : Type} (whole : List Token) (result : Except CompileError α) (good : α → Prop) :
    Prop :=
  match result with
  | .ok value => good value
  | .error error => error.Excused whole

section

variable {α β : Type} {whole : List Token} {good : α → Prop}

theorem Settles.bind {first : Except CompileError α} {next : α → Except CompileError β}
    {better : β → Prop} (settles : Settles whole first good)
    (further : ∀ value, good value → Settles whole (next value) better) :
    Settles whole (first >>= next) better := by
  cases first with
  | error error => exact settles
  | ok value => exact further value settles

theorem settles_of {result : Except CompileError α}
    (semantic : ∀ error, result = .error error → error.cause.isSemantic = true)
    (done : ∀ value, result = .ok value → good value) : Settles whole result good := by
  cases result with
  | error error => exact .semantic (semantic error rfl)
  | ok value => exact done value rfl

theorem settles_take {stream : TokenStream} {token : Token} {kind : TokenKind}
    {behind : List Token} (ahead : stream.ahead = token :: behind) (same : token.kind = kind)
    (cause : CompileCause) {real : kind ≠ .eof} :
    Settles whole (stream.take kind cause real) fun found =>
      found.value = token ∧ found.rest.ahead = behind := by
  obtain ⟨found, taken, good⟩ := take_of_ahead ahead same cause real
  rw [taken]
  exact good

def Legible (whole part : List Token) : Prop := ∀ token ∈ part, token ∈ whole ∧ token.Readable

theorem legible_append {first second : List Token} :
    Legible whole (first ++ second) ↔ Legible whole first ∧ Legible whole second :=
  List.forall_mem_append

theorem legible_cons {token : Token} {rest : List Token} :
    Legible whole (token :: rest) ↔ (token ∈ whole ∧ token.Readable) ∧ Legible whole rest :=
  List.forall_mem_cons

end

namespace TypeName

theorem arrays_of_ahead {base type : DataType} {tail behind : List Token} (passed : List Token)
    (dimensions : Repeat IsDimension base tail type) (ends : Avoids [.leftBracket] behind) :
    (arrays base passed (tail ++ behind)).1 = type ∧
      (arrays base passed (tail ++ behind)).2.ahead = behind := by
  induction dimensions generalizing passed with
  | none =>
      rw [List.nil_append]
      unfold arrays
      split
      · rename_i opening closing rest
        have other : opening.kind ≠ .leftBracket := by simpa using ends opening rfl
        simp [other]
      · exact ⟨rfl, rfl⟩
  | more step _ ih =>
      cases step with
      | brackets opens closes =>
          simp only [List.cons_append, List.nil_append, arrays, opens, closes, decide_true,
            Bool.and_self, if_true]
          exact ih _

theorem read?_of_ahead {classes : ClassTable} {sentence behind : List Token} {type : DataType}
    {stream : TokenStream} (isType : IsType classes sentence type)
    (ahead : stream.ahead = sentence ++ behind) (ends : Avoids [.leftBracket] behind) :
    ∃ found : Parsed stream DataType, read? classes stream = some found ∧ found.value = type ∧
      found.rest.ahead = behind := by
  cases isType with
  | @arrays token base _ tail isBase dimensions =>
      have named : ofToken? classes stream.peek = some base := by
        rw [peek_of_ahead ahead]
        exact ofToken?_eq_some_iff.mpr isBase
      have real : token.kind ≠ .eof := by
        intro ended
        rw [peek_of_ahead ahead, ofToken?_eof ended] at named
        cases named
      have advanced : stream.advance.ahead = tail ++ behind := by
        simp [advance, ahead, real]
      unfold read?
      split
      · rename_i unnamed
        cases named.symm.trans unnamed
      · rename_i also
        cases named.symm.trans also
        have read := arrays_of_ahead stream.advance.passed dimensions ends
        rw [← advanced] at read
        exact ⟨_, rfl, read.1, read.2⟩

end TypeName

namespace BodyParser

variable {whole : List Token} {names : CallScope} {scope : Scope}

theorem combine_settles {operator : Operator} {left right : Phrase} {first second : Expr}
    (one : left.Becomes scope first) (other : right.Becomes scope second) :
    Settles whole (combine operator first second) fun sum =>
      (Phrase.operation operator left right).Becomes scope sum := by
  refine settles_of (fun error failed => ?_) fun sum done => combine_becomes one other done
  unfold combine at failed
  dsimp only at failed
  split at failed
  · cases failed
  · split at failed <;> cases failed
    rfl

theorem combineNegation_settles {minus : Span} {operand : Phrase} {inner : Expr}
    (becomes : operand.Becomes scope inner) :
    Settles whole (combineNegation minus inner) fun negation =>
      (Phrase.negate operand).Becomes scope negation := by
  refine settles_of (fun error failed => ?_) fun negation done =>
    combineNegation_becomes becomes done
  unfold combineNegation at failed
  split at failed <;> cases failed
  rfl

theorem intLiteral_settles {token : Token} (kind : token.kind = .intLiteral)
    (legible : token ∈ whole ∧ token.Readable) :
    Settles whole (intLiteral token) fun value => (Phrase.literal token).Becomes scope value := by
  cases result : intLiteral token with
  | ok value => exact intLiteral_becomes kind result
  | error error =>
      obtain ⟨value, known⟩ := Option.isSome_iff_exists.mp (legible.2.integer kind)
      unfold intLiteral at result
      split at result
      · cases result
      · rename_i unread
        cases result
        exact .magnitude legible.1 kind known (Literal.magnitude_of_int? known unread) rfl rfl

theorem floatLiteral_settles {token : Token}
    (kind : token.kind = .floatLiteral ∨ token.kind = .doubleLiteral)
    (legible : token ∈ whole ∧ token.Readable) :
    Settles whole (floatLiteral token) fun value => (Phrase.literal token).Becomes scope value := by
  refine settles_of (fun error failed => ?_) fun value done => floatLiteral_becomes kind done
  obtain ⟨value, known⟩ := Option.isSome_iff_exists.mp (legible.2.decimal kind)
  unfold floatLiteral at failed
  simp only [known] at failed
  split at failed <;> cases failed

theorem nameExpr_settles {token : Token} :
    Settles whole (nameExpr scope token) fun value => (Phrase.name token).Becomes scope value := by
  refine settles_of (fun error failed => ?_) fun value done => nameExpr_becomes done
  unfold nameExpr at failed
  split at failed <;> cases failed
  rfl

theorem freeCall_settles {name : Token} {args : List Phrase} {operands : List Expr}
    {stream : TokenStream} (become : List.Forall₂ (Phrase.Becomes scope) args operands) :
    Settles whole (freeCall names name operands stream) fun call =>
      (Phrase.call name args).Becomes scope call := by
  refine settles_of (fun error failed => ?_) fun call done => freeCall_becomes become done
  unfold freeCall at failed
  split at failed
  · cases failed
  · rename_i cause resolved
    cases failed
    exact Overload.resolve_isSemantic (Prod.ext resolved rfl)

theorem methodCall_settles {receiver : Phrase} {name : Token} {args : List Phrase} {object : Expr}
    {operands : List Expr} {className : String} {stream : TokenStream}
    (becomes : receiver.Becomes scope object)
    (become : List.Forall₂ (Phrase.Becomes scope) args operands) :
    Settles whole (methodCall names object className name operands stream) fun call =>
      (Phrase.method receiver name args).Becomes scope call := by
  refine settles_of (fun error failed => ?_) fun call done =>
    methodCall_becomes becomes become done
  unfold methodCall at failed
  split at failed
  · cases failed
  · rename_i cause resolved
    cases failed
    exact Overload.resolveAlong_isSemantic (fun _ same => by cases same) (Prod.ext resolved rfl)

theorem receiverClass_settles {receiver : Expr} :
    Settles whole (receiverClass receiver) fun _ => True := by
  refine settles_of (fun error failed => ?_) fun _ _ => trivial
  unfold receiverClass at failed
  split at failed <;> cases failed
  rfl

theorem takeOperator?_of_ahead {wanted : TokenKind → Option Operator} {stream : TokenStream}
    {token : Token} {operator : Operator} {behind : List Token}
    (ahead : stream.ahead = token :: behind) (known : wanted token.kind = some operator)
    (unwanted : wanted .eof = none) : ∃ found : Parsed stream Operator,
      takeOperator? wanted stream = some found ∧ found.value = operator ∧
        found.rest.ahead = behind := by
  have real : token.kind ≠ .eof := by
    intro ended
    rw [ended, unwanted] at known
    cases known
  obtain ⟨found, taken, _, rest⟩ := next?_of_ahead ahead real
  refine ⟨⟨operator, found.rest, found.shorter⟩, ?_, rfl, rest⟩
  rw [takeOperator?, peek_of_ahead ahead, known, taken]

theorem takeOperator?_of_avoids {wanted : TokenKind → Option Operator} {stream : TokenStream}
    {kinds : List TokenKind} (avoids : Avoids kinds stream.ahead)
    (all : ∀ kind, wanted kind ≠ none → kind ∈ kinds) (unwanted : wanted .eof = none) :
    takeOperator? wanted stream = none := by
  have unmarked : wanted stream.peek.kind = none := by
    cases ahead : stream.ahead with
    | nil => simpa [peek, peekAt, ahead, Token.endOfInput] using unwanted
    | cons first rest =>
        rw [peek_of_ahead ahead]
        rw [ahead] at avoids
        exact Decidable.byContradiction fun found => avoids first rfl (all _ found)
  rw [takeOperator?, unmarked]

theorem sumOperator?_marks : ∀ kind, sumOperator? kind ≠ none → kind ∈ summandMarks := by
  intro kind
  cases kind <;> decide

theorem productOperator?_marks : ∀ kind, productOperator? kind ≠ none → kind ∈ factorMarks := by
  intro kind
  cases kind <;> decide

mutual

theorem expr_settles (stream : TokenStream) {sentence behind : List Token} {tree : Phrase}
    (isExpr : IsExpr sentence tree) (ahead : stream.ahead = sentence ++ behind)
    (ends : Avoids summandMarks behind) (legible : Legible whole sentence) :
    Settles whole (expr names scope stream) fun read =>
      read.rest.ahead = behind ∧ tree.Becomes scope read.value := by
  cases isExpr with
  | sum isProduct summands =>
      rw [List.append_assoc] at ahead
      rw [legible_append] at legible
      rw [expr]
      have inner : Avoids factorMarks (_ ++ behind) :=
        summands.avoids IsSummand.begins (by decide) (ends.mono (by decide))
      refine (product_settles stream isProduct ahead inner legible.1).bind
        fun first ⟨between, becomes⟩ => ?_
      have shorter := first.shorter
      exact (sums_settles first.rest summands becomes between ends legible.2).bind
        fun all good => good
termination_by 8 * stream.size + 4

theorem sums_settles (stream : TokenStream) {sentence behind : List Token} {phrase tree : Phrase}
    {left : Expr} (summands : Repeat IsSummand phrase sentence tree)
    (becomes : phrase.Becomes scope left) (ahead : stream.ahead = sentence ++ behind)
    (ends : Avoids summandMarks behind) (legible : Legible whole sentence) :
    Settles whole (sums names scope left stream) fun read =>
      read.rest.ahead = behind ∧ tree.Becomes scope read.value := by
  rw [sums]
  cases summands with
  | none =>
      rw [takeOperator?_of_avoids (ahead ▸ ends) sumOperator?_marks rfl]
      exact ⟨ahead, becomes⟩
  | more step summands =>
      cases step with
      | operation known isProduct =>
          rw [List.append_assoc, List.cons_append] at ahead
          rw [legible_append, legible_cons] at legible
          obtain ⟨operator, taken, rfl, between⟩ := takeOperator?_of_ahead ahead known rfl
          have shorter := operator.shorter
          rw [taken]
          have inner : Avoids factorMarks (_ ++ behind) :=
        summands.avoids IsSummand.begins (by decide) (ends.mono (by decide))
          refine (product_settles operator.rest isProduct between inner legible.1.2).bind
            fun right ⟨further, also⟩ => ?_
          have less := right.shorter
          refine (combine_settles becomes also).bind fun sum combined => ?_
          exact (sums_settles right.rest summands combined further ends legible.2).bind
            fun all good => good
termination_by 8 * stream.size

theorem product_settles (stream : TokenStream) {sentence behind : List Token} {tree : Phrase}
    (isProduct : IsProduct sentence tree) (ahead : stream.ahead = sentence ++ behind)
    (ends : Avoids factorMarks behind) (legible : Legible whole sentence) :
    Settles whole (product names scope stream) fun read =>
      read.rest.ahead = behind ∧ tree.Becomes scope read.value := by
  cases isProduct with
  | product isUnary factors =>
      rw [List.append_assoc] at ahead
      rw [legible_append] at legible
      rw [product]
      have inner : Avoids callMarks (_ ++ behind) :=
        factors.avoids IsFactor.begins (by decide) (ends.mono (by decide))
      refine (unary_settles stream isUnary ahead inner legible.1).bind
        fun first ⟨between, becomes⟩ => ?_
      have shorter := first.shorter
      exact (products_settles first.rest factors becomes between ends legible.2).bind
        fun all good => good
termination_by 8 * stream.size + 3

theorem products_settles (stream : TokenStream) {sentence behind : List Token}
    {phrase tree : Phrase} {left : Expr} (factors : Repeat IsFactor phrase sentence tree)
    (becomes : phrase.Becomes scope left) (ahead : stream.ahead = sentence ++ behind)
    (ends : Avoids factorMarks behind) (legible : Legible whole sentence) :
    Settles whole (products names scope left stream) fun read =>
      read.rest.ahead = behind ∧ tree.Becomes scope read.value := by
  rw [products]
  cases factors with
  | none =>
      rw [takeOperator?_of_avoids (ahead ▸ ends) productOperator?_marks rfl]
      exact ⟨ahead, becomes⟩
  | more step factors =>
      cases step with
      | operation known isUnary =>
          rw [List.append_assoc, List.cons_append] at ahead
          rw [legible_append, legible_cons] at legible
          obtain ⟨operator, taken, rfl, between⟩ := takeOperator?_of_ahead ahead known rfl
          have shorter := operator.shorter
          rw [taken]
          have inner : Avoids callMarks (_ ++ behind) :=
        factors.avoids IsFactor.begins (by decide) (ends.mono (by decide))
          refine (unary_settles operator.rest isUnary between inner legible.1.2).bind
            fun right ⟨further, also⟩ => ?_
          have less := right.shorter
          refine (combine_settles becomes also).bind fun product combined => ?_
          exact (products_settles right.rest factors combined further ends legible.2).bind
            fun all good => good
termination_by 8 * stream.size

theorem unary_settles (stream : TokenStream) {sentence behind : List Token} {tree : Phrase}
    (isUnary : IsUnary sentence tree) (ahead : stream.ahead = sentence ++ behind)
    (ends : Avoids callMarks behind) (legible : Legible whole sentence) :
    Settles whole (unary names scope stream) fun read =>
      read.rest.ahead = behind ∧ tree.Becomes scope read.value := by
  rw [unary]
  cases isUnary with
  | negate kind isUnary =>
      rw [legible_cons] at legible
      obtain ⟨minus, taken, rfl, between⟩ := take?_of_ahead ahead kind (by decide)
      have shorter := minus.shorter
      rw [taken]
      refine (unary_settles minus.rest isUnary between ends legible.2).bind
        fun operand ⟨further, becomes⟩ => ?_
      exact (combineNegation_settles becomes).bind fun negation good => ⟨further, good⟩
  | calls isCalls =>
      have plain : Avoids [.minus] stream.ahead := by
        rw [ahead]
        exact (isCalls.begins.append _).avoids (by decide)
      rw [take?_of_avoids plain (List.mem_singleton_self _)]
      exact receiverCalls_settles stream isCalls ahead ends legible
termination_by 8 * stream.size + 2

theorem receiverCalls_settles (stream : TokenStream) {sentence behind : List Token}
    {tree : Phrase} (isCalls : IsCalls sentence tree) (ahead : stream.ahead = sentence ++ behind)
    (ends : Avoids callMarks behind) (legible : Legible whole sentence) :
    Settles whole (receiverCalls names scope stream) fun read =>
      read.rest.ahead = behind ∧ tree.Becomes scope read.value := by
  cases isCalls with
  | receiver isPrimary calls =>
      rw [List.append_assoc] at ahead
      rw [legible_append] at legible
      rw [receiverCalls]
      have inner : Avoids [.leftParen] (_ ++ behind) :=
        calls.avoids IsMethodCall.begins (by decide) (ends.mono (by decide))
      refine (primary_settles stream isPrimary ahead inner legible.1).bind
        fun first ⟨between, becomes⟩ => ?_
      have shorter := first.shorter
      exact (methodCalls_settles first.rest calls becomes between ends legible.2).bind
        fun all good => good
termination_by 8 * stream.size + 1

theorem methodCalls_settles (stream : TokenStream) {sentence behind : List Token}
    {phrase tree : Phrase} {receiver : Expr} (calls : Repeat IsMethodCall phrase sentence tree)
    (becomes : phrase.Becomes scope receiver) (ahead : stream.ahead = sentence ++ behind)
    (ends : Avoids callMarks behind) (legible : Legible whole sentence) :
    Settles whole (methodCalls names scope receiver stream) fun read =>
      read.rest.ahead = behind ∧ tree.Becomes scope read.value := by
  rw [methodCalls]
  cases calls with
  | none =>
      have stops : Avoids callMarks stream.ahead := ahead ▸ ends
      rw [take?_of_avoids stops (List.mem_cons_self ..)]
      exact ⟨ahead, becomes⟩
  | more step calls =>
      cases step with
      | call point kind isArguments =>
          rw [List.append_assoc, List.cons_append, List.cons_append] at ahead
          rw [legible_append, legible_cons, legible_cons] at legible
          obtain ⟨dot, taken, rfl, between⟩ := take?_of_ahead ahead point (by decide)
          have shorter := dot.shorter
          rw [taken]
          refine (settles_take between kind _).bind fun name ⟨same, further⟩ => ?_
          have less := name.shorter
          refine receiverClass_settles.bind fun className _ => ?_
          refine (arguments_settles name.rest isArguments further legible.1.2.2).bind
            fun args ⟨behind, become⟩ => ?_
          have least := args.shorter
          refine (methodCall_settles becomes become).bind fun call made => ?_
          rw [same] at made
          exact (methodCalls_settles args.rest calls made behind ends legible.2).bind
            fun all good => good
termination_by 8 * stream.size

theorem primary_settles (stream : TokenStream) {sentence behind : List Token} {tree : Phrase}
    (isPrimary : IsPrimary sentence tree) (ahead : stream.ahead = sentence ++ behind)
    (ends : Avoids [.leftParen] behind) (legible : Legible whole sentence) :
    Settles whole (primary names scope stream) fun read =>
      read.rest.ahead = behind ∧ tree.Becomes scope read.value := by
  rw [primary]
  cases isPrimary with
  | @literal token isLiteral =>
      have real : token.kind ≠ .eof := by
        intro ended
        rw [ended] at isLiteral
        exact absurd isLiteral (by decide)
      obtain ⟨found, taken, rfl, between⟩ := next?_of_ahead ahead real
      rw [legible_cons] at legible
      rw [taken]
      rcases isLiteral.cases with kind | decimal | kind | kind | kind | kind
      · simp only [kind]
        exact (intLiteral_settles kind legible.1).bind fun value good => ⟨between, good⟩
      · have settles : Settles whole (floatLiteral found.value) fun value =>
            (Phrase.literal found.value).Becomes scope value :=
          floatLiteral_settles decimal legible.1
        rcases decimal with kind | kind
        all_goals
          simp only [kind]
          exact settles.bind fun value good => ⟨between, good⟩
      all_goals
        simp only [kind]
        exact ⟨between, .literal (by simp [Literal.read?, kind])⟩
  | @name token isName =>
      have real : token.kind ≠ .eof := by
        intro ended
        rw [ended] at isName
        exact absurd isName (by decide)
      obtain ⟨found, taken, rfl, between⟩ := next?_of_ahead ahead real
      rw [taken]
      have bare : found.rest.check .leftParen = false :=
        check_of_avoids (between ▸ ends) (List.mem_singleton_self _) (by decide)
      rcases isName with kind | kind | kind
      · simp only [kind, bare, Bool.false_eq_true, if_false]
        exact nameExpr_settles.bind fun value good => ⟨between, good⟩
      · simp only [kind]
        exact nameExpr_settles.bind fun value good => ⟨between, good⟩
      · simp only [kind]
        exact nameExpr_settles.bind fun value good => ⟨between, good⟩
  | call kind isArguments =>
      obtain ⟨found, taken, rfl, between⟩ := next?_of_ahead ahead (by rw [kind]; decide)
      have shorter := found.shorter
      rw [taken]
      have opens : found.rest.check .leftParen = true := by
        obtain ⟨opening, rest, rfl, opens⟩ := isArguments.begins
        rw [check_of_ahead between, List.mem_singleton.mp opens]
        rfl
      simp only [kind, opens, if_true]
      refine (arguments_settles found.rest isArguments between (legible_cons.mp legible).2).bind
        fun args ⟨further, become⟩ => ?_
      exact (freeCall_settles become).bind fun call good => ⟨further, good⟩
  | parens opens isExpr closes =>
      rw [List.cons_append, List.cons_append, List.append_assoc] at ahead
      rw [List.cons_append, legible_cons, legible_append] at legible
      obtain ⟨found, taken, rfl, between⟩ := next?_of_ahead ahead (by rw [opens]; decide)
      have shorter := found.shorter
      rw [taken]
      simp only [opens]
      refine (expr_settles found.rest isExpr between (avoids_cons (by rw [closes]; decide))
        legible.2.1).bind fun inner ⟨further, becomes⟩ => ?_
      exact (settles_take further closes _).bind fun closing good =>
        ⟨good.2, becomes.withSpan _⟩
termination_by 8 * stream.size

theorem arguments_settles (stream : TokenStream) {sentence behind : List Token}
    {args : List Phrase} (isArguments : IsArguments sentence args)
    (ahead : stream.ahead = sentence ++ behind) (legible : Legible whole sentence) :
    Settles whole (arguments names scope stream) fun read =>
      read.rest.ahead = behind ∧ List.Forall₂ (Phrase.Becomes scope) args read.value := by
  rw [arguments]
  cases isArguments with
  | none opens closes =>
      refine (settles_take ahead opens _).bind fun opening ⟨_, between⟩ => ?_
      obtain ⟨closing, taken, rfl, further⟩ := take?_of_ahead between closes (by decide)
      rw [taken]
      exact ⟨further, .nil⟩
  | some opens isExprs closes =>
      rw [List.cons_append, List.cons_append, List.append_assoc] at ahead
      rw [List.cons_append, legible_cons, legible_append] at legible
      refine (settles_take ahead opens _).bind fun opening ⟨_, between⟩ => ?_
      have shorter := opening.shorter
      have open? : Avoids [.rightParen] opening.rest.ahead := by
        rw [between]
        exact (isExprs.begins.append _).avoids (by decide)
      rw [take?_of_avoids open? (List.mem_singleton_self _)]
      refine (exprs_settles opening.rest isExprs between (avoids_cons (by rw [closes]; decide))
        legible.2.1).bind fun args ⟨further, become⟩ => ?_
      exact (settles_take further closes _).bind fun closing good => ⟨good.2, become⟩
termination_by 8 * stream.size

theorem exprs_settles (stream : TokenStream) {sentence behind : List Token}
    {args : List Phrase} (isExprs : IsExprs sentence args)
    (ahead : stream.ahead = sentence ++ behind) (ends : Avoids (.comma :: summandMarks) behind)
    (legible : Legible whole sentence) :
    Settles whole (exprs names scope stream) fun read =>
      read.rest.ahead = behind ∧ List.Forall₂ (Phrase.Becomes scope) args read.value := by
  rw [exprs]
  cases isExprs with
  | last isExpr =>
      refine (expr_settles stream isExpr ahead (ends.mono (List.subset_cons_self ..))
        legible).bind fun first ⟨between, becomes⟩ => ?_
      rw [take?_of_avoids (between ▸ ends) (List.mem_cons_self ..)]
      exact ⟨between, .cons becomes .nil⟩
  | more isExpr kind isExprs =>
      rw [List.append_assoc, List.cons_append] at ahead
      rw [legible_append, legible_cons] at legible
      refine (expr_settles stream isExpr ahead (avoids_cons (by rw [kind]; decide))
        legible.1).bind fun first ⟨between, becomes⟩ => ?_
      have shorter := first.shorter
      obtain ⟨comma, taken, rfl, further⟩ := take?_of_ahead between kind (by decide)
      have less := comma.shorter
      rw [taken]
      exact (exprs_settles comma.rest isExprs further ends legible.2.2).bind
        fun more ⟨left, become⟩ => ⟨left, .cons becomes become⟩
termination_by 8 * stream.size + 5

end

abbrev SettlesStatement (whole : List Token) (scope : Scope) (clause : Clause)
    (behind : List Token) {stream : TokenStream} (result : Statement stream) : Prop :=
  Settles whole result fun read =>
    read.rest.ahead = behind ∧ clause.Becomes scope read.value.1 read.value.2

section

variable {stream : TokenStream} {sentence behind : List Token}

theorem assignedExpr_settles {type : DataType} {tree : Phrase} (isExpr : IsExpr sentence tree)
    (ahead : stream.ahead = sentence ++ behind) (ends : Avoids summandMarks behind)
    (legible : Legible whole sentence) :
    Settles whole (assignedExpr names scope type stream) fun read =>
      read.rest.ahead = behind ∧ tree.Becomes scope read.value := by
  unfold assignedExpr
  refine (expr_settles stream isExpr ahead ends legible).bind fun value good => ?_
  split
  · exact good
  · exact .semantic rfl

theorem initialValue_settles {type : DataType} {init : Option Phrase}
    (isInitial : IsInitial sentence init) (ahead : stream.ahead = sentence ++ behind)
    (ends : Avoids (.equal :: summandMarks) behind) (legible : Legible whole sentence) :
    Settles whole (initialValue names scope type stream) fun read =>
      read.rest.ahead = behind ∧ Option.Rel (Phrase.Becomes scope) init read.value := by
  unfold initialValue
  cases isInitial with
  | none =>
      have stops : Avoids (.equal :: summandMarks) stream.ahead := ahead ▸ ends
      rw [take?_of_avoids stops (List.mem_cons_self ..)]
      exact ⟨ahead, .none⟩
  | some kind isExpr =>
      obtain ⟨equal, taken, rfl, between⟩ := take?_of_ahead ahead kind (by decide)
      rw [taken]
      exact (assignedExpr_settles isExpr between (ends.mono (List.subset_cons_self ..))
        (legible_cons.mp legible).2).bind fun value ⟨further, becomes⟩ => ⟨further, .some becomes⟩

theorem returnStatement_settles {keyword semicolon : Token} (kind : keyword.kind = .returnKeyword)
    (closes : semicolon.kind = .semicolon)
    (ahead : stream.ahead = keyword :: semicolon :: behind) :
    SettlesStatement whole scope (.return none) behind (returnStatement names scope stream) := by
  unfold returnStatement
  refine (settles_take ahead kind _).bind fun first ⟨_, between⟩ => ?_
  obtain ⟨last, taken, _, further⟩ := take?_of_ahead between closes (by decide)
  simp only [taken]
  split
  · exact .semantic rfl
  · exact ⟨further, .return .none⟩

theorem returnValue_settles {keyword semicolon : Token} {value : Phrase}
    (kind : keyword.kind = .returnKeyword) (isExpr : IsExpr sentence value)
    (closes : semicolon.kind = .semicolon)
    (ahead : stream.ahead = keyword :: (sentence ++ semicolon :: behind))
    (legible : Legible whole sentence) :
    SettlesStatement whole scope (.return (some value)) behind
      (returnStatement names scope stream) := by
  unfold returnStatement
  refine (settles_take ahead kind _).bind fun first ⟨_, between⟩ => ?_
  have more : Avoids [.semicolon] first.rest.ahead := by
    rw [between]
    exact (isExpr.begins.append _).avoids (by decide)
  simp only [take?_of_avoids more (List.mem_singleton_self _)]
  refine (expr_settles first.rest isExpr between (avoids_cons (by rw [closes]; decide))
    legible).bind fun value ⟨further, becomes⟩ => ?_
  split
  · exact .semantic rfl
  · exact (settles_take further closes _).bind fun last good => ⟨good.2, .return (.some becomes)⟩

theorem waitStatement_settles {keyword opening closing semicolon : Token} {count : Phrase}
    (kind : keyword.kind = .waitKeyword) (opens : opening.kind = .leftParen)
    (isExpr : IsExpr sentence count) (closes : closing.kind = .rightParen)
    (ends : semicolon.kind = .semicolon)
    (ahead : stream.ahead = keyword :: opening :: (sentence ++ closing :: semicolon :: behind))
    (legible : Legible whole sentence) :
    SettlesStatement whole scope (.wait count) behind (waitStatement names scope stream) := by
  unfold waitStatement
  refine (settles_take ahead kind _).bind fun first ⟨_, between⟩ => ?_
  refine (settles_take between opens _).bind fun second ⟨_, inside⟩ => ?_
  refine (expr_settles second.rest isExpr inside (avoids_cons (by rw [closes]; decide))
    legible).bind fun count ⟨further, becomes⟩ => ?_
  split
  · exact .semantic rfl
  · refine (settles_take further closes _).bind fun third ⟨_, left⟩ => ?_
    exact (settles_take left ends _).bind fun last good => ⟨good.2, .wait becomes⟩

theorem declaration_settles {typed initial : List Token} {name semicolon : Token}
    {type : DataType} {init : Option Phrase} (isType : IsType names.classes typed type)
    (kind : name.kind = .identifier) (isInitial : IsInitial initial init)
    (closes : semicolon.kind = .semicolon)
    (ahead : stream.ahead = typed ++ name :: (initial ++ semicolon :: behind))
    (legible : Legible whole initial) :
    SettlesStatement whole scope (.declare type name init) behind
      (declaration names scope stream) := by
  unfold declaration
  obtain ⟨found, read, rfl, between⟩ := TypeName.read?_of_ahead isType ahead
    (avoids_cons (by rw [kind]; decide))
  simp only [read]
  split
  · exact .semantic rfl
  · refine (settles_take between kind _).bind fun first ⟨same, further⟩ => ?_
    refine (initialValue_settles isInitial further (avoids_cons (by rw [closes]; decide))
      legible).bind fun value ⟨left, become⟩ => ?_
    refine (settles_take left closes _).bind fun last ⟨_, rest⟩ => ?_
    rw [same]
    have settles : Settles whole (scope.addLocal name.lexeme found.value name.span) fun added =>
        scope.addLocal name.lexeme found.value name.span = .ok added := by
      refine settles_of (fun error failed => ?_) fun _ done => done
      obtain ⟨_, rfl⟩ := Scope.addLocal_eq_error_iff.mp failed
      rfl
    exact settles.bind fun added done => ⟨rest, .declare become done⟩

theorem assignment_settles {name equal semicolon : Token} {value : Phrase}
    (kind : name.kind = .identifier) (mark : equal.kind = .equal)
    (isExpr : IsExpr sentence value) (closes : semicolon.kind = .semicolon)
    (ahead : stream.ahead = name :: equal :: (sentence ++ semicolon :: behind))
    (legible : Legible whole sentence) :
    SettlesStatement whole scope (.assign name value) behind
      (assignment names scope stream) := by
  unfold assignment
  refine (settles_take ahead kind _).bind fun first ⟨same, between⟩ => ?_
  rw [same]
  have settles : Settles whole (assignable scope name) fun found =>
      scope.lookup name.lexeme = some found := by
    unfold assignable
    split
    · exact .semantic rfl
    · rename_i found known
      split
      · exact .semantic rfl
      · exact known
  refine settles.bind fun found known => ?_
  refine (settles_take between mark _).bind fun second ⟨_, inside⟩ => ?_
  refine (assignedExpr_settles isExpr inside (avoids_cons (by rw [closes]; decide))
    legible).bind fun value ⟨further, becomes⟩ => ?_
  exact (settles_take further closes _).bind fun last good => ⟨good.2, .assign known becomes⟩

theorem exprStatement_settles {semicolon : Token} {value : Phrase} (isExpr : IsExpr sentence value)
    (closes : semicolon.kind = .semicolon) (ahead : stream.ahead = sentence ++ semicolon :: behind)
    (legible : Legible whole sentence) :
    SettlesStatement whole scope (.expr value) behind (exprStatement names scope stream) := by
  unfold exprStatement
  refine (expr_settles stream isExpr ahead (avoids_cons (by rw [closes]; decide))
    legible).bind fun value ⟨further, becomes⟩ => ?_
  exact (settles_take further closes _).bind fun last good => ⟨good.2, .expr becomes⟩

theorem declaration_starts {token name : Token} {tail rest : List Token} {base type : DataType}
    (isBase : IsBase names.classes token base) (dimensions : Repeat IsDimension base tail type)
    (kind : name.kind = .identifier) (ahead : stream.ahead = token :: (tail ++ name :: rest)) :
    (stream.peekAt 1).kind ∈ [TokenKind.identifier, .leftBracket] ∧
      startsDeclaration names.classes stream = true := by
  have next : Begins [.identifier, .leftBracket] (tail ++ name :: rest) := by
    cases dimensions with
    | none => exact begins_cons (by rw [kind]; decide)
    | more step =>
        cases step with
        | brackets opens => exact begins_cons (by rw [opens]; decide)
  have second := next_of_begins ahead next
  refine ⟨second, ?_⟩
  rw [startsDeclaration, TypeName.startsHere, peek_of_ahead ahead,
    TypeName.ofToken?_eq_some_iff.mpr isBase]
  simpa using Or.inr second

theorem expr_starts {semicolon : Token} {value : Phrase} (isExpr : IsExpr sentence value)
    (closes : semicolon.kind = .semicolon)
    (ahead : stream.ahead = sentence ++ semicolon :: behind) :
    (stream.check .identifier && (stream.peekAt 1).kind = .equal) = false ∧
      startsDeclaration names.classes stream = false := by
  have isOperand := isExpr.isOperand
  obtain ⟨first, rest, rfl, among⟩ := isExpr.begins
  have second (kind : first.kind = .identifier) : (stream.peekAt 1).kind ∉ statementMarks :=
    next_of_avoids ahead
      (isOperand first rest _ rfl kind (avoids_cons (by rw [closes]; decide))) (by decide)
  have plain : first.kind.type? = none := by
    have all : ∀ kind ∈ exprMarks, kind.type? = none := by decide
    exact all _ among
  have unequal : first.kind = .identifier → (stream.peekAt 1).kind ≠ .equal :=
    fun kind same => second kind (by rw [same]; decide)
  have unnamed : first.kind = .identifier → (stream.peekAt 1).kind ≠ .identifier :=
    fun kind same => second kind (by rw [same]; decide)
  have closed : first.kind = .identifier → (stream.peekAt 1).kind ≠ .leftBracket :=
    fun kind same => second kind (by rw [same]; decide)
  rw [check_of_ahead ahead, startsDeclaration, TypeName.startsHere, peek_of_ahead ahead,
    TypeName.ofToken?, TokenKind.isType, plain]
  by_cases kind : first.kind = .identifier
  · simp [kind, unequal kind, unnamed kind, closed kind]
  · simp [kind]

theorem simpleStatement_settles {clause : Clause}
    (isSimple : IsSimple names.classes sentence clause)
    (ahead : stream.ahead = sentence ++ behind) (legible : Legible whole sentence) :
    SettlesStatement whole scope clause behind (simpleStatement names scope stream) := by
  have other (plain : Avoids [.returnKeyword, .waitKeyword] stream.ahead) :
      simpleStatement names scope stream =
        if stream.check .identifier && (stream.peekAt 1).kind = .equal then
          assignment names scope stream
        else if startsDeclaration names.classes stream then declaration names scope stream
        else exprStatement names scope stream := by
    rw [simpleStatement, check_of_avoids plain (List.mem_cons_self ..) (by decide),
      check_of_avoids plain (List.mem_cons_of_mem _ (List.mem_cons_self ..)) (by decide),
      if_neg Bool.false_ne_true, if_neg Bool.false_ne_true]
  cases isSimple with
  | «return» kind closes =>
      rw [simpleStatement, check_of_ahead ahead, kind, if_pos (by decide)]
      exact returnStatement_settles kind closes ahead
  | returnValue kind isExpr closes =>
      rw [List.cons_append, List.cons_append, List.append_assoc] at ahead
      rw [List.cons_append, legible_cons, legible_append] at legible
      rw [simpleStatement, check_of_ahead ahead, kind, if_pos (by decide)]
      exact returnValue_settles kind isExpr closes ahead legible.2.1
  | wait kind opens isExpr closes ends =>
      rw [List.cons_append, List.cons_append, List.cons_append, List.cons_append,
        List.append_assoc] at ahead
      rw [List.cons_append, List.cons_append, legible_cons, legible_cons, legible_append]
        at legible
      rw [simpleStatement, check_of_ahead ahead, kind, if_neg (by decide), check_of_ahead ahead,
        kind, if_pos (by decide)]
      exact waitStatement_settles kind opens isExpr closes ends ahead legible.2.2.1
  | declare isType kind isInitial closes =>
      rw [List.append_assoc, List.append_assoc, List.cons_append] at ahead
      rw [legible_append, legible_append, legible_cons] at legible
      have settles : SettlesStatement whole scope _ behind (declaration names scope stream) :=
        declaration_settles isType kind isInitial closes ahead legible.1.2.2
      cases isType with
      | arrays isBase dimensions =>
          have plain : Avoids [.returnKeyword, .waitKeyword] stream.ahead := by
            rw [ahead]
            exact (begins_cons isBase.mark).avoids (by decide)
          have starts := declaration_starts isBase dimensions kind ahead
          have unequal : (stream.peekAt 1).kind ≠ .equal := by
            intro same
            rw [same] at starts
            exact absurd starts.1 (by decide)
          rw [other plain, starts.2]
          simpa [unequal] using settles
  | assign kind mark isExpr closes =>
      rw [List.cons_append, List.cons_append, List.cons_append, List.cons_append,
        List.append_assoc] at ahead
      rw [List.cons_append, List.cons_append, legible_cons, legible_cons, legible_append]
        at legible
      have plain : Avoids [.returnKeyword, .waitKeyword] stream.ahead := by
        rw [ahead]
        exact avoids_cons (by rw [kind]; decide)
      have next : (stream.peekAt 1).kind = .equal := by
        simpa [peekAt, ahead] using mark
      rw [other plain, check_of_ahead ahead, kind, next, if_pos (by decide)]
      exact assignment_settles kind mark isExpr closes ahead legible.2.2.1
  | expr isExpr closes =>
      rw [List.append_assoc] at ahead
      rw [legible_append] at legible
      have plain : Avoids [.returnKeyword, .waitKeyword] stream.ahead := by
        rw [ahead]
        exact (isExpr.begins.append _).avoids (by decide)
      obtain ⟨unassigned, undeclared⟩ := @expr_starts names _ _ _ _ _ isExpr closes ahead
      rw [other plain, unassigned, undeclared, if_neg Bool.false_ne_true,
        if_neg Bool.false_ne_true]
      exact exprStatement_settles isExpr closes ahead legible.1

end

mutual

/-- A sentence of `block` is read as its tree, or refused for a name, a type or a large integer. -/
theorem block_settles {scope : Scope} (stream : TokenStream) {sentence behind : List Token}
    {clauses : List Clause} (isBlock : IsBlock names.classes sentence clauses)
    (ahead : stream.ahead = sentence ++ behind) (legible : Legible whole sentence) :
    Settles whole (block names scope stream) fun read => read.rest.ahead = behind ∧
      (Clause.block clauses).Becomes scope (.block read.value.1.span read.value.1.stmts)
        read.value.2 := by
  cases isBlock with
  | braces opens isStatements closes =>
      rw [List.cons_append, List.cons_append, List.append_assoc] at ahead
      rw [List.cons_append, legible_cons, legible_append] at legible
      rw [block]
      refine (settles_take ahead opens _).bind fun opening ⟨_, between⟩ => ?_
      have shorter := opening.shorter
      exact (statements_settles opening.rest isStatements closes between legible.2.1).bind
        fun body ⟨further, become⟩ => ⟨further, .block become⟩
termination_by 8 * stream.size

theorem statements_settles {scope : Scope} (stream : TokenStream) {sentence behind : List Token}
    {closing : Token} {clauses : List Clause}
    (isStatements : IsStatements names.classes sentence clauses)
    (closes : closing.kind = .rightBrace) (ahead : stream.ahead = sentence ++ closing :: behind)
    (legible : Legible whole sentence) :
    Settles whole (statements names scope stream) fun read => read.rest.ahead = behind ∧
      Clause.BecomesIn scope clauses read.value.1 read.value.2.2 := by
  rw [statements]
  cases isStatements with
  | none =>
      obtain ⟨found, taken, _, further⟩ := take?_of_ahead ahead closes (by decide)
      rw [closeBlock?, taken]
      exact ⟨further, .none⟩
  | more isStatement isStatements =>
      rw [List.append_assoc] at ahead
      rw [legible_append] at legible
      have avoids : Avoids [.rightBrace] stream.ahead := by
        rw [ahead]
        exact (isStatement.begins.append _).avoids (by decide)
      have more : ¬ stream.isAtEnd = true := by
        obtain ⟨first, rest, rfl, among⟩ := isStatement.begins
        rw [isAtEnd, check_of_ahead ahead, beq_iff_eq]
        intro ended
        rw [ended] at among
        exact absurd among (by decide)
      rw [closeBlock?, take?_of_avoids avoids (List.mem_singleton_self _)]
      dsimp only
      rw [if_neg more]
      refine (statement_settles stream isStatement ahead legible.1).bind
        fun first ⟨between, becomes⟩ => ?_
      have shorter := first.shorter
      exact (statements_settles first.rest isStatements closes between legible.2).bind
        fun more ⟨further, become⟩ => ⟨further, .more becomes become⟩
termination_by 8 * stream.size + 2

theorem statement_settles {scope : Scope} (stream : TokenStream) {sentence behind : List Token}
    {clause : Clause} (isStatement : IsStatement names.classes sentence clause)
    (ahead : stream.ahead = sentence ++ behind) (legible : Legible whole sentence) :
    SettlesStatement whole scope clause behind (statement names scope stream) := by
  rw [statement]
  cases isStatement with
  | block isBlock =>
      have opens : stream.check .leftBrace = true := by
        cases isBlock with
        | braces opens => simp [check_of_ahead ahead, opens]
      rw [if_pos opens]
      exact (block_settles stream isBlock ahead legible).bind fun inner good => good
  | simple isSimple =>
      have avoids : Avoids [.leftBrace] stream.ahead := by
        rw [ahead]
        exact (isSimple.begins.append _).avoids (by decide)
      rw [check_of_avoids avoids (List.mem_singleton_self _) (by decide), if_neg Bool.false_ne_true]
      exact simpleStatement_settles isSimple ahead legible
termination_by 8 * stream.size + 1

end

end BodyParser

/-- The parser of bodies accepts its grammar. If it reads a block anywhere in the tokens of a
source, the tokens consumed are a sentence of `block`, and the block is made of a tree of it. If a
sentence of `block` stands there, the parser reads just that as its tree, or it refuses a name or a
type, or an integer literal of the sentence that needs more than 64 bits. -/
theorem bodies_follow_grammar {source : String} {tokens : List Token}
    (lexed : tokenize source = .ok tokens) (names : CallScope) (scope : Scope)
    (stream : TokenStream) (within : stream.Within tokens) :
    (∀ read, BodyParser.block names scope stream = .ok read →
      ∃ sentence clauses, stream.Moves read.rest sentence ∧
        IsBlock names.classes sentence clauses ∧
        (Clause.block clauses).Becomes scope (.block read.value.1.span read.value.1.stmts)
          read.value.2) ∧
    ∀ sentence behind clauses, stream.ahead = sentence ++ behind →
      IsBlock names.classes sentence clauses →
      match BodyParser.block names scope stream with
      | .ok read => stream.Moves read.rest sentence ∧
          (Clause.block clauses).Becomes scope (.block read.value.1.span read.value.1.stmts)
            read.value.2
      | .error error => error.Excused sentence := by
  refine ⟨fun read done => BodyParser.block_readAs stream done, ?_⟩
  intro sentence behind clauses ahead isBlock
  have legible : Legible sentence sentence := by
    intro token among
    refine ⟨among, tokenize_readable lexed token ?_⟩
    rw [← within, ahead]
    simp [among]
  have settles : Settles sentence (BodyParser.block names scope stream) _ :=
    BodyParser.block_settles stream isBlock ahead legible
  revert settles
  cases done : BodyParser.block names scope stream with
  | error error => exact id
  | ok read =>
      rintro ⟨left, becomes⟩
      obtain ⟨consumed, _, moves, _⟩ := BodyParser.block_readAs stream done
      have same : consumed = sentence := by
        have all := moves.ahead
        rw [left, ahead] at all
        exact (List.append_cancel_right all).symm
      exact ⟨same ▸ moves, becomes⟩

def Token.onLine (kind : TokenKind) (lexeme : String) (start : Nat) : Token :=
  ⟨kind, lexeme, ⟨1, start + 1, start, start + lexeme.utf8ByteSize⟩⟩

def subtracting : List Token :=
  [.onLine .leftBrace "\x7b" 0, .onLine .intKeyword "int" 2, .onLine .identifier "x" 6,
    .onLine .equal "=" 8, .onLine .intLiteral "1" 10, .onLine .minus "-" 12,
    .onLine .intLiteral "2" 14, .onLine .minus "-" 16, .onLine .intLiteral "3" 18,
    .onLine .star "*" 20, .onLine .intLiteral "4" 22, .onLine .semicolon ";" 23,
    .onLine .rightBrace "\x7d" 25]

def subtractingTree : List Clause :=
  let number (digit : String) (start : Nat) := Phrase.literal (.onLine .intLiteral digit start)
  let value := Phrase.operation .sub (.operation .sub (number "1" 10) (number "2" 14))
    (.operation .mul (number "3" 18) (number "4" 22))
  [.declare .int (.onLine .identifier "x" 6) (some value)]

theorem number_isUnary (digit : String) (start : Nat) :
    IsUnary [.onLine .intLiteral digit start] (.literal (.onLine .intLiteral digit start)) :=
  show IsUnary ([_] ++ []) _ from .calls (.receiver (.literal (Or.inl rfl)) .none)

theorem subtracting_isBlock (classes : ClassTable) :
    IsBlock classes subtracting subtractingTree := by
  have number (digit : String) (start : Nat) :=
    IsProduct.product (number_isUnary digit start) .none
  have product := IsProduct.product (number_isUnary "3" 18)
    (.more (@IsFactor.operation (.onLine .star "*" 20) _ _ _ _ rfl (number_isUnary "4" 22)) .none)
  have value := IsExpr.sum (number "1" 10)
    (.more (@IsSummand.operation (.onLine .minus "-" 12) _ _ _ _ rfl (number "2" 14))
      (.more (@IsSummand.operation (.onLine .minus "-" 16) _ _ _ _ rfl product) .none))
  have type : IsType classes [.onLine .intKeyword "int" 2] .int := .arrays (Or.inl rfl) .none
  have initial := @IsInitial.some (.onLine .equal "=" 8) _ _ rfl value
  have declaration := @IsSimple.declare classes (.onLine .identifier "x" 6)
    (.onLine .semicolon ";" 23) _ _ _ _ type rfl initial rfl
  exact @IsBlock.braces classes (.onLine .leftBrace "\x7b" 0) (.onLine .rightBrace "\x7d" 25) _ _
    rfl (.more (.simple declaration) .none) rfl

theorem bodies_follow_grammar_of_subtracting :
    ∃ (source : String) (stream : TokenStream) (names : CallScope) (scope : Scope)
      (read : Parsed stream (Block × Scope)),
      tokenize source = .ok stream.ahead ∧ BodyParser.block names scope stream = .ok read ∧
      stream.Moves read.rest subtracting ∧
      (Clause.block subtractingTree).Becomes scope (.block read.value.1.span read.value.1.stmts)
        read.value.2 ∧
      ∃ sentence clauses, stream.Moves read.rest sentence ∧
        IsBlock names.classes sentence clauses := by
  have lexed : tokenize "\x7b int x = 1 - 2 - 3 * 4; \x7d" =
      .ok (subtracting ++ [⟨.eof, "", ⟨1, 27, 26, 26⟩⟩]) := by
    decide +kernel
  let stream := TokenStream.ofTokens (subtracting ++ [⟨.eof, "", ⟨1, 27, 26, 26⟩⟩])
  let names : CallScope := ⟨{}, false, [], [], fun _ => []⟩
  let scope : Scope := { returns := .void }
  have read : (BodyParser.block names scope stream).isOk = true := by
    decide +kernel
  obtain ⟨sound, complete⟩ := bodies_follow_grammar lexed names scope stream rfl
  have accepted := complete subtracting _ subtractingTree rfl (subtracting_isBlock _)
  cases done : BodyParser.block names scope stream with
  | error error =>
      rw [done] at read
      cases read
  | ok read =>
      rw [done] at accepted
      obtain ⟨sentence, clauses, moves, isBlock, _⟩ := sound read done
      exact ⟨_, stream, names, scope, read, lexed, done, accepted.1, accepted.2, sentence, clauses,
        moves, isBlock⟩

end ScriptEngine
