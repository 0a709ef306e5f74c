import ScriptEngine.Proofs.FreeCalls
/-! Engines that number what they load in different ways. Identities take no part in what is compiled:
overload resolution looks at names and types, and the descent over a body passes on the identities
that it is given. So a unit that is compiled against renumbered functions is the renumbered unit. -/

namespace ScriptEngine

/-- What the functions and programs of one engine are called in another. -/
structure Renumbering where
  function : FunctionId → FunctionId
  program : ProgramId → ProgramId
  functions : ∀ first second, function first = function second → first = second
  programs : ∀ first second, program first = program second → first = second

section

variable (renumbering : Renumbering)

def Callable.renumber (callable : Callable) : Callable :=
  { callable with id := renumbering.function callable.id }

def CallSite.renumber (site : CallSite) : CallSite :=
  { site with callee := renumbering.function site.callee }

mutual

def Expr.renumber : Expr → Expr
  | .literal type span value => .literal type span value
  | .var type span target => .var type span target
  | .negate type span operand => .negate type span operand.renumber
  | .binary type span operator left right => .binary type span operator left.renumber right.renumber
  | .call type span site operands =>
      .call type span (site.renumber renumbering) (Expr.renumberIn operands)

def Expr.renumberIn : List Expr → List Expr
  | [] => []
  | first :: rest => first.renumber :: Expr.renumberIn rest

end

mutual

def Stmt.renumber : Stmt → Stmt
  | .block span stmts => .block span (Stmt.renumberIn stmts)
  | .return span value => .return span (value.map (Expr.renumber renumbering))
  | .wait span count => .wait span (count.renumber renumbering)
  | .declare span id name type init =>
      .declare span id name type (init.map (Expr.renumber renumbering))
  | .assign span target value => .assign span target (value.renumber renumbering)
  | .expr value => .expr (value.renumber renumbering)

def Stmt.renumberIn : List Stmt → List Stmt
  | [] => []
  | first :: rest => first.renumber :: Stmt.renumberIn rest

end

def Block.renumber (block : Block) : Block :=
  { block with stmts := Stmt.renumberIn renumbering block.stmts }

def Signature.renumber (signature : Signature) : Signature :=
  { signature with id := renumbering.function signature.id }

def Function.renumber (function : Function) : Function :=
  { signature := function.signature.renumber renumbering
    program := renumbering.program function.program
    body := function.body.renumber renumbering
    locals := function.locals }

def Renumbering.entry (entry : FunctionId × Function) : FunctionId × Function :=
  (renumbering.function entry.1, entry.2.renumber renumbering)

def Program.renumber (program : Program) : Program :=
  { program with
    id := renumbering.program program.id
    functions := program.functions.map (Function.renumber renumbering) }

def CallScope.renumber (names : CallScope) : CallScope :=
  { names with
    own := names.own.map (Callable.renumber renumbering)
    published := names.published.map (Callable.renumber renumbering)
    methods := fun className =>
      (names.methods className).map (Callable.renumber renumbering) }

end

section

variable {renumbering : Renumbering}

@[simp]
theorem Expr.type_renumber (expr : Expr) : (expr.renumber renumbering).type = expr.type := by
  cases expr <;> rfl

@[simp]
theorem Expr.span_renumber (expr : Expr) : (expr.renumber renumbering).span = expr.span := by
  cases expr <;> rfl

theorem Expr.withSpan_renumber (expr : Expr) (span : Span) :
    (expr.renumber renumbering).withSpan span = (expr.withSpan span).renumber renumbering := by
  cases expr <;> rfl

theorem Expr.types_renumberIn (exprs : List Expr) :
    (Expr.renumberIn renumbering exprs).map Expr.type = exprs.map Expr.type := by
  induction exprs with
  | nil => rfl
  | cons first rest ih => exact congrArg₂ List.cons (Expr.type_renumber first) ih

end

section

variable {renumbering : Renumbering}

def Renumbering.Keeps (renumbering : Renumbering) (calls : List (CallSite × List Expr)) : Prop :=
  ∀ call ∈ calls, renumbering.function call.1.callee = call.1.callee

theorem Renumbering.keeps_append {first second : List (CallSite × List Expr)} :
    renumbering.Keeps (first ++ second) ↔ renumbering.Keeps first ∧ renumbering.Keeps second :=
  List.forall_mem_append

mutual

theorem Expr.renumber_eq : ∀ {expr : Expr}, renumbering.Keeps expr.calls →
    expr.renumber renumbering = expr
  | .literal .., _ | .var .., _ => rfl
  | .negate _ _ inner, keeps => by
      rw [Expr.renumber, @Expr.renumber_eq inner keeps]
  | .binary _ _ _ left right, keeps => by
      obtain ⟨first, second⟩ := Renumbering.keeps_append.mp keeps
      rw [Expr.renumber, Expr.renumber_eq first, Expr.renumber_eq second]
  | .call _ _ site operands, keeps => by
      obtain ⟨callee, inner⟩ := List.forall_mem_cons.mp keeps
      rw [Expr.renumber, CallSite.renumber, callee, Expr.renumberIn_eq inner]

theorem Expr.renumberIn_eq : ∀ {exprs : List Expr}, renumbering.Keeps (Expr.callsIn exprs) →
    Expr.renumberIn renumbering exprs = exprs
  | [], _ => rfl
  | first :: rest, keeps => by
      obtain ⟨here, later⟩ := Renumbering.keeps_append.mp keeps
      rw [Expr.renumberIn, Expr.renumber_eq here, Expr.renumberIn_eq later]

end

mutual

theorem Stmt.renumber_eq : ∀ {stmt : Stmt}, renumbering.Keeps stmt.calls →
    stmt.renumber renumbering = stmt
  | .block _ stmts, keeps => by
      rw [Stmt.renumber, Stmt.renumberIn_eq keeps]
  | .return _ none, _ | .declare _ _ _ _ none, _ => rfl
  | .return _ (some value), keeps | .wait _ value, keeps | .declare _ _ _ _ (some value), keeps
  | .assign _ _ value, keeps | .expr value, keeps => by
      simp only [Stmt.renumber, Option.map_some, @Expr.renumber_eq _ value keeps]

theorem Stmt.renumberIn_eq : ∀ {stmts : List Stmt}, renumbering.Keeps (Stmt.callsIn stmts) →
    Stmt.renumberIn renumbering stmts = stmts
  | [], _ => rfl
  | first :: rest, keeps => by
      obtain ⟨here, later⟩ := Renumbering.keeps_append.mp keeps
      rw [Stmt.renumberIn, Stmt.renumber_eq here, Stmt.renumberIn_eq later]

end

theorem Function.renumber_eq {function : Function} (id : renumbering.function function.id = function.id)
    (program : renumbering.program function.program = function.program)
    (keeps : renumbering.Keeps function.calls) : function.renumber renumbering = function := by
  unfold renumber Signature.renumber Block.renumber
  rw [Stmt.renumberIn_eq keeps, program]
  unfold Function.id at id
  rw [id]

end

namespace Overload

variable {α β : Type} {view : β → Callable} {hierarchy : Hierarchy} {name : String}
  {args : List DataType}

def Best.map (change : α → β) : Best α → Best β
  | .nothing cause => .nothing cause
  | .candidate function distance => .candidate (change function) distance

@[simp]
theorem Best.map_nothing (change : α → β) (cause : CompileCause) :
    (nothing cause).map change = nothing cause := rfl

@[simp]
theorem Best.map_candidate (change : α → β) (function : α) (distance : Nat) :
    (candidate function distance).map change = candidate (change function) distance := rfl

theorem nearest_map {score : β → Score} {change : α → β} {candidates : List α} :
    ∀ best : Best α, nearest score (best.map change) (candidates.map change) =
      (nearest (score ∘ change) best candidates).map change := by
  induction candidates with
  | nil => exact fun _ => rfl
  | cons first rest ih =>
      intro best
      have given : (score ∘ change) first = score (change first) := rfl
      rw [List.map_cons]
      cases fits : score (change first) with
      | distance cost =>
          rw [fits] at given
          cases cost with
          | zero => simp only [nearest, fits, given, Best.map_candidate]
          | succ cost =>
              cases best with
              | nothing cause =>
                  simp only [Best.map_nothing, nearest, fits, given]
                  exact ih (.candidate first (cost + 1))
              | candidate found least =>
                  simp only [Best.map_candidate, nearest, fits, given]
                  rw [← ih, apply_ite (Best.map change)]
                  rfl
      | incompatible | tooMany | tooFew =>
          rw [fits] at given
          cases best with
          | nothing cause =>
              simp only [Best.map_nothing, nearest, fits, given]
              exact ih (.nothing _)
          | candidate found least =>
              simp only [Best.map_candidate, nearest, fits, given]
              exact ih (.candidate found least)

/-- Candidates that are called alike and take the same parameters behind a change. -/
def Alike (view : β → Callable) (other : α → Callable) (change : α → β) : Prop :=
  ∀ function, (view (change function)).name = (other function).name ∧
    (view (change function)).params = (other function).params

variable {other : α → Callable} {change : α → β} (alike : Alike view other change)
include alike

theorem search_change (candidates : List α) :
    search view hierarchy name args (candidates.map change) =
      (search other hierarchy name args candidates).map change := by
  have called : named view name (candidates.map change) =
      (named other name candidates).map change := by
    unfold named
    rw [List.filter_map]
    simp only [Function.comp_def, (alike _).1]
  have mapped := @nearest_map α β (fun function => Score.of hierarchy (view function).params.types args)
    change (named other name candidates) (.nothing .undefinedCall)
  simp only [Best.map_nothing, Function.comp_def, (alike _).2] at mapped
  unfold search
  rw [called]
  dsimp only
  rw [mapped]
  generalize nearest _ _ _ = best
  cases best <;> rfl

theorem resolve_change {withPublic : Bool} (own published : List α) :
    (resolve view hierarchy withPublic none name args (own.map change) (published.map change)).1 =
      (resolve other hierarchy withPublic none name args own published).1.map change := by
  rw [resolve_unkept, resolve_unkept, ← search_change alike, List.map_append,
    apply_ite (List.map change), List.map_nil]

theorem resolveAlong_change (offered : List (List α)) :
    ∀ {first : Option CompileCause},
      (resolveAlong view hierarchy none name args first (offered.map (List.map change))).1 =
        (resolveAlong other hierarchy none name args first offered).1.map change := by
  induction offered with
  | nil => exact rfl
  | cons candidates rest ih =>
      intro first
      have here := @resolve_change α β view hierarchy name args other change alike false candidates []
      rw [List.map_nil] at here
      rw [List.map_cons, resolveAlong, resolveAlong]
      generalize resolve other _ _ _ _ _ _ _ = plain at here ⊢
      generalize resolve view _ _ _ _ _ _ _ = changed at here ⊢
      obtain ⟨result, kept⟩ := plain
      obtain ⟨_, _⟩ := changed
      dsimp only at here
      subst here
      cases result with
      | ok function => rfl
      | error cause => exact ih

end Overload

namespace CallScope

variable {renumbering : Renumbering} {names : CallScope}

@[simp]
theorem classes_renumber : (names.renumber renumbering).classes = names.classes := rfl

theorem resolveCall_renumber (name : String) (args : List DataType) :
    (names.renumber renumbering).resolveCall name args =
      (names.resolveCall name args).map (Callable.renumber renumbering) := by
  have alike : Overload.Alike id id (Callable.renumber renumbering) := fun _ => ⟨rfl, rfl⟩
  exact Overload.resolve_change alike names.own names.published

theorem resolveMethod_renumber (className name : String) (args : List DataType) :
    (names.renumber renumbering).resolveMethod className name args =
      (names.resolveMethod className name args).map (Callable.renumber renumbering) := by
  have alike : Overload.Alike id id (Callable.renumber renumbering) := fun _ => ⟨rfl, rfl⟩
  have offered := @Overload.resolveAlong_change _ _ id names.classes.derives name args id _ alike
    ((names.classes.chain className).map fun decl => names.methods decl.name) none
  rw [List.map_map] at offered
  exact offered

end CallScope

theorem bind_change {ε α β γ δ : Type} {first : Except ε α} {changed : Except ε β}
    {next : α → Except ε γ} {after : β → Except ε δ} {before : α → β} {behind : γ → δ}
    (same : changed = first.map before)
    (each : ∀ value, after (before value) = (next value).map behind) :
    (changed >>= after) = (first >>= next).map behind := by
  subst same
  cases first with
  | error error => rfl
  | ok value => exact each value

theorem bind_unchanged {ε α γ δ : Type} {first : Except ε α} {next : α → Except ε γ}
    {after : α → Except ε δ} {behind : γ → δ}
    (each : ∀ value, after value = (next value).map behind) :
    (first >>= after) = (first >>= next).map behind := by
  cases first with
  | error error => rfl
  | ok value => exact each value

theorem ite_change {ε γ δ : Type} {condition : Prop} [Decidable condition] {behind : γ → δ}
    {first next : Except ε γ} {changed after : Except ε δ} (here : changed = first.map behind)
    (there : after = next.map behind) :
    (if condition then changed else after) = (if condition then first else next).map behind := by
  split
  · exact here
  · exact there

def Parsed.map {start : TokenStream} {α β : Type} (change : α → β) (parsed : Parsed start α) :
    Parsed start β :=
  ⟨change parsed.value, parsed.rest, parsed.shorter⟩

def Reached.map {start : TokenStream} {α β : Type} (change : α → β) (reached : Reached start α) :
    Reached start β :=
  ⟨change reached.value, reached.rest, reached.bounded⟩

namespace BodyParser

variable {renumbering : Renumbering}

theorem combine_renumber (operator : Operator) (left right : Expr) :
    combine operator (left.renumber renumbering) (right.renumber renumbering) =
      (combine operator left right).map (Expr.renumber renumbering) := by
  unfold combine
  simp only [Expr.type_renumber, Expr.span_renumber]
  split
  · rfl
  · split <;> rfl

theorem combineNegation_renumber (minus : Span) (operand : Expr) :
    combineNegation minus (operand.renumber renumbering) =
      (combineNegation minus operand).map (Expr.renumber renumbering) := by
  unfold combineNegation
  simp only [Expr.type_renumber, Expr.span_renumber]
  split <;> rfl

theorem intLiteral_renumber (token : Token) :
    (intLiteral token).map (Expr.renumber renumbering) = intLiteral token := by
  unfold intLiteral
  split <;> rfl

theorem floatLiteral_renumber (token : Token) :
    (floatLiteral token).map (Expr.renumber renumbering) = floatLiteral token := by
  unfold floatLiteral
  split
  · split <;> rfl
  · rfl

theorem nameExpr_renumber (scope : Scope) (token : Token) :
    (nameExpr scope token).map (Expr.renumber renumbering) = nameExpr scope token := by
  unfold nameExpr
  split <;> rfl

variable (names : CallScope)

theorem freeCall_renumber (name : Token) (args : List Expr) (stream : TokenStream) :
    freeCall (names.renumber renumbering) name (Expr.renumberIn renumbering args) stream =
      (freeCall names name args stream).map (Expr.renumber renumbering) := by
  unfold freeCall
  rw [CallScope.resolveCall_renumber, Expr.types_renumberIn]
  cases names.resolveCall name.lexeme (args.map Expr.type) <;> rfl

theorem dispatchOn_renumber (receiver : Expr) (className : String) :
    dispatchOn (receiver.renumber renumbering) className = dispatchOn receiver className := by
  cases receiver <;> rfl

theorem methodCall_renumber (receiver : Expr) (className : String) (name : Token)
    (args : List Expr) (stream : TokenStream) :
    methodCall (names.renumber renumbering) (receiver.renumber renumbering) className name
        (Expr.renumberIn renumbering args) stream =
      (methodCall names receiver className name args stream).map (Expr.renumber renumbering) := by
  unfold methodCall
  rw [CallScope.resolveMethod_renumber, Expr.types_renumberIn, Expr.span_renumber,
    dispatchOn_renumber]
  cases names.resolveMethod className name.lexeme (args.map Expr.type) <;> rfl

theorem receiverClass_renumber (receiver : Expr) :
    receiverClass (receiver.renumber renumbering) = receiverClass receiver := by
  unfold receiverClass
  rw [Expr.type_renumber, Expr.span_renumber]

mutual

theorem expr_renumber (scope : Scope) (stream : TokenStream) :
    expr (names.renumber renumbering) scope stream =
      (expr names scope stream).map (Parsed.map (Expr.renumber renumbering)) := by
  rw [expr, expr]
  refine bind_change (product_renumber scope stream) fun first => ?_
  exact bind_change (sums_renumber scope first.value first.rest) fun all => rfl
termination_by 8 * stream.size + 4
decreasing_by
  · omega
  · have := first.shorter
    omega

theorem sums_renumber (scope : Scope) (left : Expr) (stream : TokenStream) :
    sums (names.renumber renumbering) scope (left.renumber renumbering) stream =
      (sums names scope left stream).map (Reached.map (Expr.renumber renumbering)) := by
  rw [sums, sums]
  cases takeOperator? sumOperator? stream with
  | none => rfl
  | some operator =>
      refine bind_change (product_renumber scope operator.rest) fun right => ?_
      refine bind_change (combine_renumber operator.value left right.value) fun sum => ?_
      exact bind_change (sums_renumber scope sum right.rest) fun all => rfl
termination_by 8 * stream.size
decreasing_by
  · have := operator.shorter
    omega
  · have := operator.shorter
    have := right.shorter
    omega

theorem product_renumber (scope : Scope) (stream : TokenStream) :
    product (names.renumber renumbering) scope stream =
      (product names scope stream).map (Parsed.map (Expr.renumber renumbering)) := by
  rw [product, product]
  refine bind_change (unary_renumber scope stream) fun first => ?_
  exact bind_change (products_renumber scope first.value first.rest) fun all => rfl
termination_by 8 * stream.size + 3
decreasing_by
  · omega
  · have := first.shorter
    omega

theorem products_renumber (scope : Scope) (left : Expr) (stream : TokenStream) :
    products (names.renumber renumbering) scope (left.renumber renumbering) stream =
      (products names scope left stream).map (Reached.map (Expr.renumber renumbering)) := by
  rw [products, products]
  cases takeOperator? productOperator? stream with
  | none => rfl
  | some operator =>
      refine bind_change (unary_renumber scope operator.rest) fun right => ?_
      refine bind_change (combine_renumber operator.value left right.value) fun product => ?_
      exact bind_change (products_renumber scope product right.rest) fun all => rfl
termination_by 8 * stream.size
decreasing_by
  · have := operator.shorter
    omega
  · have := operator.shorter
    have := right.shorter
    omega

theorem unary_renumber (scope : Scope) (stream : TokenStream) :
    unary (names.renumber renumbering) scope stream =
      (unary names scope stream).map (Parsed.map (Expr.renumber renumbering)) := by
  rw [unary, unary]
  cases stream.take? .minus with
  | none => exact receiverCalls_renumber scope stream
  | some minus =>
      refine bind_change (unary_renumber scope minus.rest) fun operand => ?_
      exact bind_change (combineNegation_renumber minus.value.span operand.value) fun _ => rfl
termination_by 8 * stream.size + 2
decreasing_by
  · omega
  · have := minus.shorter
    omega

theorem receiverCalls_renumber (scope : Scope) (stream : TokenStream) :
    receiverCalls (names.renumber renumbering) scope stream =
      (receiverCalls names scope stream).map (Parsed.map (Expr.renumber renumbering)) := by
  rw [receiverCalls, receiverCalls]
  refine bind_change (primary_renumber scope stream) fun first => ?_
  exact bind_change (methodCalls_renumber scope first.value first.rest) fun all => rfl
termination_by 8 * stream.size + 1
decreasing_by
  · omega
  · have := first.shorter
    omega

theorem methodCalls_renumber (scope : Scope) (receiver : Expr) (stream : TokenStream) :
    methodCalls (names.renumber renumbering) scope (receiver.renumber renumbering) stream =
      (methodCalls names scope receiver stream).map (Reached.map (Expr.renumber renumbering)) := by
  rw [methodCalls, methodCalls]
  cases stream.take? .dot with
  | none => rfl
  | some dot =>
      refine bind_unchanged fun name => ?_
      rw [receiverClass_renumber]
      refine bind_unchanged fun className => ?_
      refine bind_change (arguments_renumber scope name.rest) fun args => ?_
      refine bind_change (methodCall_renumber names receiver className name.value args.value
        args.rest) fun call => ?_
      exact bind_change (methodCalls_renumber scope call args.rest) fun all => rfl
termination_by 8 * stream.size
decreasing_by
  · have := dot.shorter
    have := name.shorter
    omega
  · have := dot.shorter
    have := name.shorter
    have := args.shorter
    omega

theorem primary_renumber (scope : Scope) (stream : TokenStream) :
    primary (names.renumber renumbering) scope stream =
      (primary names scope stream).map (Parsed.map (Expr.renumber renumbering)) := by
  rw [primary, primary]
  cases stream.next? with
  | none => rfl
  | some token =>
      dsimp only
      cases token.value.kind with
      | intLiteral =>
          exact bind_change (intLiteral_renumber token.value).symm fun _ => rfl
      | floatLiteral | doubleLiteral =>
          exact bind_change (floatLiteral_renumber token.value).symm fun _ => rfl
      | identifier =>
          dsimp only
          split
          · refine bind_change (arguments_renumber scope token.rest) fun args => ?_
            exact bind_change (freeCall_renumber names token.value args.value args.rest) fun _ => rfl
          · exact bind_change (nameExpr_renumber scope token.value).symm fun _ => rfl
      | thisKeyword | superKeyword =>
          exact bind_change (nameExpr_renumber scope token.value).symm fun _ => rfl
      | leftParen =>
          refine bind_change (expr_renumber scope token.rest) fun inner => ?_
          refine bind_unchanged fun closing => ?_
          change Except.ok (Parsed.mk ((inner.value.renumber renumbering).withSpan _) _ _) = _
          rw [Expr.withSpan_renumber]
          rfl
      | _ => rfl
termination_by 8 * stream.size
decreasing_by
  · have := token.shorter
    omega
  · have := token.shorter
    omega

theorem arguments_renumber (scope : Scope) (stream : TokenStream) :
    arguments (names.renumber renumbering) scope stream =
      (arguments names scope stream).map (Parsed.map (Expr.renumberIn renumbering)) := by
  rw [arguments, arguments]
  refine bind_unchanged fun opening => ?_
  cases opening.rest.take? .rightParen with
  | some closing => rfl
  | none =>
      refine bind_change (exprs_renumber scope opening.rest) fun args => ?_
      exact bind_unchanged fun closing => rfl
termination_by 8 * stream.size
decreasing_by
  have := opening.shorter
  omega

theorem exprs_renumber (scope : Scope) (stream : TokenStream) :
    exprs (names.renumber renumbering) scope stream =
      (exprs names scope stream).map (Parsed.map (Expr.renumberIn renumbering)) := by
  rw [exprs, exprs]
  refine bind_change (expr_renumber scope stream) fun first => ?_
  dsimp only [Parsed.map]
  cases first.rest.take? .comma with
  | none => rfl
  | some comma => exact bind_change (exprs_renumber scope comma.rest) fun more => rfl
termination_by 8 * stream.size + 5
decreasing_by
  · omega
  · have := first.shorter
    have := comma.shorter
    omega

end

def changeStatement (renumbering : Renumbering) (read : Stmt × Scope) : Stmt × Scope :=
  (read.1.renumber renumbering, read.2)

theorem returnStatement_renumber (scope : Scope) (stream : TokenStream) :
    returnStatement (names.renumber renumbering) scope stream =
      (returnStatement names scope stream).map (Parsed.map (changeStatement renumbering)) := by
  unfold returnStatement
  refine bind_unchanged fun keyword => ?_
  cases keyword.rest.take? .semicolon with
  | some semicolon =>
      exact ite_change rfl rfl
  | none =>
      refine bind_change (expr_renumber names scope keyword.rest) fun value => ?_
      simp only [Parsed.map, Expr.type_renumber, Expr.span_renumber, CallScope.classes_renumber]
      exact ite_change rfl (bind_unchanged fun semicolon => rfl)

theorem waitStatement_renumber (scope : Scope) (stream : TokenStream) :
    waitStatement (names.renumber renumbering) scope stream =
      (waitStatement names scope stream).map (Parsed.map (changeStatement renumbering)) := by
  unfold waitStatement
  refine bind_unchanged fun keyword => ?_
  refine bind_unchanged fun opening => ?_
  refine bind_change (expr_renumber names scope opening.rest) fun count => ?_
  simp only [Parsed.map, Expr.type_renumber, Expr.span_renumber]
  refine ite_change rfl (bind_unchanged fun closing => ?_)
  exact bind_unchanged fun semicolon => rfl

theorem assignedExpr_renumber (scope : Scope) (type : DataType) (stream : TokenStream) :
    assignedExpr (names.renumber renumbering) scope type stream =
      (assignedExpr names scope type stream).map (Parsed.map (Expr.renumber renumbering)) := by
  unfold assignedExpr
  refine bind_change (expr_renumber names scope stream) fun value => ?_
  simp only [Parsed.map, Expr.type_renumber, Expr.span_renumber, CallScope.classes_renumber]
  exact ite_change rfl rfl

theorem initialValue_renumber (scope : Scope) (type : DataType) (stream : TokenStream) :
    initialValue (names.renumber renumbering) scope type stream =
      (initialValue names scope type stream).map
        (Reached.map (Option.map (Expr.renumber renumbering))) := by
  unfold initialValue
  cases stream.take? .equal with
  | none => rfl
  | some equal =>
      exact bind_change (assignedExpr_renumber names scope type equal.rest) fun value => rfl

theorem declaration_renumber (scope : Scope) (stream : TokenStream) :
    declaration (names.renumber renumbering) scope stream =
      (declaration names scope stream).map (Parsed.map (changeStatement renumbering)) := by
  unfold declaration
  rw [CallScope.classes_renumber]
  cases TypeName.read? names.classes stream with
  | none => rfl
  | some type =>
      refine ite_change rfl (bind_unchanged fun name => ?_)
      refine bind_change (initialValue_renumber names scope type.value name.rest) fun init => ?_
      refine bind_unchanged fun semicolon => ?_
      exact bind_unchanged fun declared => rfl

theorem assignment_renumber (scope : Scope) (stream : TokenStream) :
    assignment (names.renumber renumbering) scope stream =
      (assignment names scope stream).map (Parsed.map (changeStatement renumbering)) := by
  unfold assignment
  refine bind_unchanged fun name => ?_
  refine bind_unchanged fun found => ?_
  refine bind_unchanged fun equal => ?_
  refine bind_change (assignedExpr_renumber names scope found.type equal.rest) fun value => ?_
  exact bind_unchanged fun semicolon => rfl

theorem exprStatement_renumber (scope : Scope) (stream : TokenStream) :
    exprStatement (names.renumber renumbering) scope stream =
      (exprStatement names scope stream).map (Parsed.map (changeStatement renumbering)) := by
  unfold exprStatement
  refine bind_change (expr_renumber names scope stream) fun value => ?_
  exact bind_unchanged fun semicolon => rfl

theorem simpleStatement_renumber (scope : Scope) (stream : TokenStream) :
    simpleStatement (names.renumber renumbering) scope stream =
      (simpleStatement names scope stream).map (Parsed.map (changeStatement renumbering)) := by
  unfold simpleStatement
  refine ite_change (returnStatement_renumber names scope stream) ?_
  refine ite_change (waitStatement_renumber names scope stream) ?_
  refine ite_change (assignment_renumber names scope stream) ?_
  exact ite_change (declaration_renumber names scope stream) (exprStatement_renumber names scope stream)

mutual

theorem block_renumber (scope : Scope) (stream : TokenStream) :
    block (names.renumber renumbering) scope stream = (block names scope stream).map
      (Parsed.map fun read => (read.1.renumber renumbering, read.2)) := by
  rw [block, block]
  refine bind_unchanged fun opening => ?_
  exact bind_change (statements_renumber scope.pushBlock opening.rest) fun body => rfl
termination_by 8 * stream.size
decreasing_by
  have := opening.shorter
  omega

theorem statements_renumber (scope : Scope) (stream : TokenStream) :
    statements (names.renumber renumbering) scope stream = (statements names scope stream).map
      (Parsed.map fun read => (Stmt.renumberIn renumbering read.1, read.2)) := by
  rw [statements, statements]
  cases stream.closeBlock? with
  | some closing => rfl
  | none =>
      refine ite_change rfl (bind_change (statement_renumber scope stream) fun first => ?_)
      exact bind_change (statements_renumber first.value.2 first.rest) fun more => rfl
termination_by 8 * stream.size + 2
decreasing_by
  · omega
  · have := first.shorter
    omega

theorem statement_renumber (scope : Scope) (stream : TokenStream) :
    statement (names.renumber renumbering) scope stream =
      (statement names scope stream).map (Parsed.map (changeStatement renumbering)) := by
  rw [statement, statement]
  exact ite_change (bind_change (block_renumber scope stream) fun inner => rfl)
    (simpleStatement_renumber names scope stream)
termination_by 8 * stream.size + 1
decreasing_by omega

end

end BodyParser

end ScriptEngine
