import ScriptEngine.Proofs.Coherence
/-! What a compiled body is known to be. Each of its names is that of a local declared before, of the
object of the method or of a member; operations have the types of what they are made of, and calls
mean what the unit resolved them to. -/

namespace ScriptEngine

abbrev Locals := List (String × DataType)

structure Surroundings where
  names : CallScope
  owner : Option String
  returns : DataType

inductive Surroundings.Names (inside : Surroundings) (locals : Locals) : Target → DataType → Prop
  | «local» {id : VarId} {name : String} {type : DataType} :
      locals[id.number]? = some (name, type) → Names inside locals (.local id) type
  | this {owner : String} : inside.owner = some owner →
      Names inside locals (.reserved .this) (.object owner)
  | super {owner parent : String} : inside.owner = some owner →
      inside.names.classes.parent? owner = some parent →
      Names inside locals (.reserved .super) (.object parent)
  | member {owner : String} {fields : Variables} {field : Variable} :
      inside.owner = some owner → inside.names.classes.members? owner = some fields →
      field ∈ fields → Names inside locals (.member field.name) field.type

def Operator.Gives (operator : Operator) (left right type : DataType) : Prop :=
  (left.kind.isNumeric = true ∧ right.kind.isNumeric = true ∧ type = left.promote right) ∨
    (operator = .add ∧ type = .string)

inductive CallScope.Resolves (names : CallScope) : DataType → CallSite → List Expr → Prop
  | free {site : CallSite} {args : List Expr} {callee : Callable} : site.dispatch = .free →
      names.resolveCall site.name (args.map Expr.type) = .ok callee → callee.id = site.callee →
      Resolves names callee.returns site args
  | method {site : CallSite} {receiver : Expr} {args : List Expr} {className : String}
      {callee : Callable} : receiver.type.className? = some className →
      site.dispatch = BodyParser.dispatchOn receiver className →
      names.resolveMethod className site.name (args.map Expr.type) = .ok callee →
      callee.id = site.callee → Resolves names callee.returns site (receiver :: args)

section

variable (inside : Surroundings) (locals : Locals)

mutual

def Expr.Typed : Expr → Prop
  | .literal type _ value =>
      value.asObject? = none ∧ ∃ written : Value, written.convert? type = some value
  | .var type _ target => inside.Names locals target type
  | .negate type _ inner =>
      inner.Typed ∧ inner.type.kind.isNumeric = true ∧ type = inner.type.promote inner.type
  | .binary type _ operator left right =>
      left.Typed ∧ right.Typed ∧ operator.Gives left.type right.type type
  | .call type _ site operands => Expr.TypedIn operands ∧ inside.names.Resolves type site operands

def Expr.TypedIn : List Expr → Prop
  | [] => True
  | first :: rest => first.Typed ∧ Expr.TypedIn rest

end

end

mutual

def Stmt.locals : Stmt → Locals
  | .declare _ _ name type _ => [(name, type)]
  | .block _ stmts => Stmt.localsIn stmts
  | .return .. | .wait .. | .assign .. | .expr _ => []

def Stmt.localsIn : List Stmt → Locals
  | [] => []
  | first :: rest => first.locals ++ Stmt.localsIn rest

end

section

variable (inside : Surroundings)

def Expr.Assigned (locals : Locals) (type : DataType) (expr : Expr) : Prop :=
  expr.Typed inside locals ∧ type.accepts inside.names.classes.derives expr.type = true

mutual

def Stmt.Typed (locals : Locals) : Stmt → Prop
  | .block _ stmts => Stmt.TypedIn locals stmts
  | .return _ none => inside.returns.isVoid = true
  | .return _ (some value) => value.Assigned inside locals inside.returns
  | .wait _ count => count.Typed inside locals ∧ count.type.kind.isNumeric = true
  | .declare _ id _ type init =>
      id.number = locals.length ∧ ∀ value, init = some value → value.Assigned inside locals type
  | .assign _ target value =>
      (∀ name, target ≠ .reserved name) ∧ ∃ type, inside.Names locals target type ∧
        value.Assigned inside locals type
  | .expr value => value.Typed inside locals

def Stmt.TypedIn (locals : Locals) : List Stmt → Prop
  | [] => True
  | first :: rest => first.Typed locals ∧ Stmt.TypedIn (locals ++ first.locals) rest

end

end

section

variable {inside : Surroundings} {locals : Locals}

theorem Surroundings.Names.append {target : Target} {type : DataType}
    (named : inside.Names locals target type) (more : Locals) :
    inside.Names (locals ++ more) target type := by
  cases named with
  | «local» placed =>
      refine .local (Eq.trans ?_ placed)
      exact List.getElem?_append_left (List.getElem?_eq_some_iff.mp placed).1
  | this owned => exact .this owned
  | super owned parent => exact .super owned parent
  | member owned known among => exact .member owned known among

theorem Expr.Typed.withSpan {expr : Expr} (typed : expr.Typed inside locals) (span : Span) :
    (expr.withSpan span).Typed inside locals := by
  cases expr <;> exact typed

end

structure Scope.Describes (inside : Surroundings) (locals : Locals) (scope : Scope) : Prop where
  visible : ∀ entry ∈ scope.visible, inside.Names locals entry.target entry.type
  locals : scope.locals = locals.map Prod.fst
  returns : scope.returns = inside.returns

namespace Scope

variable {inside : Surroundings} {locals : Locals} {scope : Scope}

theorem mem_visible_add {visible entry : Visible} :
    entry ∈ (scope.add visible).visible ↔ entry = visible ∨ entry ∈ scope.visible := by
  rw [visible_add, List.mem_cons]

theorem Describes.pushBlock (describes : scope.Describes inside locals) :
    scope.pushBlock.Describes inside locals :=
  ⟨describes.visible, describes.locals, describes.returns⟩

theorem Describes.popBlock (describes : scope.Describes inside locals) :
    scope.popBlock.Describes inside locals where
  visible := by
    intro entry among
    refine describes.visible entry ?_
    rcases List.mem_append.mp among with inner | outer
    · obtain ⟨block, open?, among⟩ := List.mem_flatten.mp inner
      exact List.mem_append_left _
        (List.mem_flatten.mpr ⟨block, List.mem_of_mem_tail open?, among⟩)
    · exact List.mem_append_right _ outer
  locals := describes.locals
  returns := describes.returns

theorem Describes.addLocal (describes : scope.Describes inside locals) {name : String}
    {type : DataType} {span : Span} {id : VarId} {later : Scope}
    (added : scope.addLocal name type span = .ok (id, later)) :
    id.number = locals.length ∧ later.Describes inside (locals ++ [(name, type)]) := by
  have counted : scope.locals.length = locals.length := by
    rw [describes.locals, List.length_map]
  obtain ⟨_, rfl, rfl⟩ := addLocal_eq_ok_iff.mp added
  refine ⟨counted, fun entry among => ?_, by simp [describes.locals], ?_⟩
  · rcases mem_visible_add.mp among with rfl | old
    · have placed : (locals ++ [(name, type)])[scope.locals.length]? = some (name, type) := by
        simp [counted]
      exact .local placed
    · exact (describes.visible entry old).append _
  · unfold add
    split <;> exact describes.returns

theorem Describes.lookup (describes : scope.Describes inside locals) {name : String}
    {found : Visible} (known : scope.lookup name = some found) :
    inside.Names locals found.target found.type :=
  describes.visible found (List.mem_of_find?_eq_some known)

end Scope

namespace BodyParser

variable {inside : Surroundings} {locals : Locals} {scope : Scope}

theorem combine_typed {operator : Operator} {left right whole : Expr}
    (first : left.Typed inside locals) (second : right.Typed inside locals)
    (done : combine operator left right = .ok whole) : whole.Typed inside locals := by
  unfold combine at done
  dsimp only at done
  split at done
  · rename_i numeric
    cases done
    rw [Bool.and_eq_true] at numeric
    exact ⟨first, second, Or.inl ⟨numeric.1, numeric.2, rfl⟩⟩
  · split at done
    · rename_i joined
      cases done
      simp only [Bool.and_eq_true, decide_eq_true_eq] at joined
      exact ⟨first, second, Or.inr ⟨joined.1.1.1, rfl⟩⟩
    · cases done

theorem combineNegation_typed {minus : Span} {operand whole : Expr}
    (typed : operand.Typed inside locals) (done : combineNegation minus operand = .ok whole) :
    whole.Typed inside locals := by
  unfold combineNegation at done
  split at done
  · rename_i numeric
    cases done
    exact ⟨typed, numeric, rfl⟩
  · cases done

theorem intLiteral_typed {token : Token} {whole : Expr} (done : intLiteral token = .ok whole) :
    whole.Typed inside locals := by
  unfold intLiteral at done
  split at done
  · rename_i value _
    cases done
    refine ⟨rfl, .int value, ?_⟩
    split
    · rename_i fits
      exact congrArg (fun number => some (Value.int number)) fits
    · rfl
  · cases done

theorem floatLiteral_typed {token : Token} {whole : Expr} (done : floatLiteral token = .ok whole) :
    whole.Typed inside locals := by
  unfold floatLiteral at done
  split at done
  · rename_i value _
    split at done <;> cases done
    · exact ⟨rfl, .float value, rfl⟩
    · exact ⟨rfl, .float value, rfl⟩
  · cases done

theorem nameExpr_typed (describes : scope.Describes inside locals) {token : Token} {whole : Expr}
    (done : nameExpr scope token = .ok whole) : whole.Typed inside locals := by
  unfold nameExpr at done
  split at done
  · rename_i found known
    cases done
    exact describes.lookup known
  · cases done

theorem freeCall_typed {name : Token} {args : List Expr} {stream : TokenStream} {whole : Expr}
    (typed : Expr.TypedIn inside locals args)
    (done : freeCall inside.names name args stream = .ok whole) : whole.Typed inside locals := by
  unfold freeCall at done
  split at done
  · rename_i callee resolved
    cases done
    exact ⟨typed, .free rfl resolved rfl⟩
  · cases done

theorem methodCall_typed {receiver : Expr} {className : String} {name : Token} {args : List Expr}
    {stream : TokenStream} {whole : Expr} (typed : receiver.Typed inside locals)
    (also : Expr.TypedIn inside locals args)
    (classed : receiver.type.className? = some className)
    (done : methodCall inside.names receiver className name args stream = .ok whole) :
    whole.Typed inside locals := by
  unfold methodCall at done
  split at done
  · rename_i callee resolved
    cases done
    exact ⟨⟨typed, also⟩, .method classed rfl resolved rfl⟩
  · cases done

theorem receiverClass_eq {receiver : Expr} {className : String}
    (done : receiverClass receiver = .ok className) :
    receiver.type.className? = some className := by
  unfold receiverClass at done
  split at done
  · rename_i known
    cases done
    exact known
  · cases done

mutual

/-- Whatever is read where the scope describes what is declared is typed there. -/
theorem expr_typed (describes : scope.Describes inside locals) (stream : TokenStream)
    {read : Parsed stream Expr} (done : expr inside.names scope stream = .ok read) :
    read.value.Typed inside locals := by
  rw [expr] at done
  obtain ⟨first, leading, done⟩ := ok_of_bind done
  obtain ⟨all, behind, done⟩ := ok_of_bind done
  have shorter := first.shorter
  cases done
  exact sums_typed describes first.rest (product_typed describes stream leading) behind
termination_by 8 * stream.size + 4

theorem sums_typed (describes : scope.Describes inside locals) {left : Expr}
    (stream : TokenStream) {read : Reached stream Expr} (typed : left.Typed inside locals)
    (done : sums inside.names scope left stream = .ok read) : read.value.Typed inside locals := by
  rw [sums] at done
  split at done
  · cases done
    exact typed
  · rename_i operator _
    obtain ⟨right, leading, done⟩ := ok_of_bind done
    obtain ⟨sum, combined, done⟩ := ok_of_bind done
    obtain ⟨all, behind, done⟩ := ok_of_bind done
    have shorter := operator.shorter
    have further := right.shorter
    cases done
    exact sums_typed describes right.rest
      (combine_typed typed (product_typed describes operator.rest leading) combined) behind
termination_by 8 * stream.size

theorem product_typed (describes : scope.Describes inside locals) (stream : TokenStream)
    {read : Parsed stream Expr} (done : product inside.names scope stream = .ok read) :
    read.value.Typed inside locals := by
  rw [product] at done
  obtain ⟨first, leading, done⟩ := ok_of_bind done
  obtain ⟨all, behind, done⟩ := ok_of_bind done
  have shorter := first.shorter
  cases done
  exact products_typed describes first.rest (unary_typed describes stream leading) behind
termination_by 8 * stream.size + 3

theorem products_typed (describes : scope.Describes inside locals) {left : Expr}
    (stream : TokenStream) {read : Reached stream Expr} (typed : left.Typed inside locals)
    (done : products inside.names scope left stream = .ok read) :
    read.value.Typed inside locals := by
  rw [products] at done
  split at done
  · cases done
    exact typed
  · rename_i operator _
    obtain ⟨right, leading, done⟩ := ok_of_bind done
    obtain ⟨product, combined, done⟩ := ok_of_bind done
    obtain ⟨all, behind, done⟩ := ok_of_bind done
    have shorter := operator.shorter
    have further := right.shorter
    cases done
    exact products_typed describes right.rest
      (combine_typed typed (unary_typed describes operator.rest leading) combined) behind
termination_by 8 * stream.size

theorem unary_typed (describes : scope.Describes inside locals) (stream : TokenStream)
    {read : Parsed stream Expr} (done : unary inside.names scope stream = .ok read) :
    read.value.Typed inside locals := by
  rw [unary] at done
  split at done
  · exact receiverCalls_typed describes stream done
  · rename_i minus _
    obtain ⟨operand, leading, done⟩ := ok_of_bind done
    obtain ⟨negation, combined, done⟩ := ok_of_bind done
    have shorter := minus.shorter
    cases done
    exact combineNegation_typed (unary_typed describes minus.rest leading) combined
termination_by 8 * stream.size + 2

theorem receiverCalls_typed (describes : scope.Describes inside locals) (stream : TokenStream)
    {read : Parsed stream Expr} (done : receiverCalls inside.names scope stream = .ok read) :
    read.value.Typed inside locals := by
  rw [receiverCalls] at done
  obtain ⟨first, leading, done⟩ := ok_of_bind done
  obtain ⟨all, behind, done⟩ := ok_of_bind done
  have shorter := first.shorter
  cases done
  exact methodCalls_typed describes first.rest (primary_typed describes stream leading) behind
termination_by 8 * stream.size + 1

theorem methodCalls_typed (describes : scope.Describes inside locals) {receiver : Expr}
    (stream : TokenStream) {read : Reached stream Expr} (typed : receiver.Typed inside locals)
    (done : methodCalls inside.names scope receiver stream = .ok read) :
    read.value.Typed inside locals := by
  rw [methodCalls] at done
  split at done
  · cases done
    exact typed
  · rename_i dot _
    obtain ⟨name, _, done⟩ := ok_of_bind done
    obtain ⟨className, classed, done⟩ := ok_of_bind done
    obtain ⟨args, between, done⟩ := ok_of_bind done
    obtain ⟨call, called, done⟩ := ok_of_bind done
    obtain ⟨all, behind, done⟩ := ok_of_bind done
    have shorter := dot.shorter
    have further := name.shorter
    have furthest := args.shorter
    cases done
    exact methodCalls_typed describes args.rest
      (methodCall_typed typed (arguments_typed describes name.rest between)
        (receiverClass_eq classed) called) behind
termination_by 8 * stream.size

theorem primary_typed (describes : scope.Describes inside locals) (stream : TokenStream)
    {read : Parsed stream Expr} (done : primary inside.names scope stream = .ok read) :
    read.value.Typed inside locals := by
  rw [primary] at done
  split at done
  · cases done
  · rename_i token _
    have shorter := token.shorter
    dsimp only at done
    split at done
    · obtain ⟨whole, literal, done⟩ := ok_of_bind done
      cases done
      exact intLiteral_typed literal
    · obtain ⟨whole, literal, done⟩ := ok_of_bind done
      cases done
      exact floatLiteral_typed literal
    · obtain ⟨whole, literal, done⟩ := ok_of_bind done
      cases done
      exact floatLiteral_typed literal
    · cases done
      exact ⟨rfl, .string _, rfl⟩
    · cases done
      exact ⟨rfl, .bool true, rfl⟩
    · cases done
      exact ⟨rfl, .bool false, rfl⟩
    · cases done
      exact ⟨rfl, .null, rfl⟩
    · split at done
      · obtain ⟨args, between, done⟩ := ok_of_bind done
        obtain ⟨call, called, done⟩ := ok_of_bind done
        cases done
        exact freeCall_typed (arguments_typed describes token.rest between) called
      · obtain ⟨whole, named, done⟩ := ok_of_bind done
        cases done
        exact nameExpr_typed describes named
    · obtain ⟨whole, named, done⟩ := ok_of_bind done
      cases done
      exact nameExpr_typed describes named
    · obtain ⟨whole, named, done⟩ := ok_of_bind done
      cases done
      exact nameExpr_typed describes named
    · obtain ⟨inner, between, done⟩ := ok_of_bind done
      obtain ⟨closing, _, done⟩ := ok_of_bind done
      cases done
      exact (expr_typed describes token.rest between).withSpan _
    · cases done
termination_by 8 * stream.size

theorem arguments_typed (describes : scope.Describes inside locals) (stream : TokenStream)
    {read : Parsed stream (List Expr)} (done : arguments inside.names scope stream = .ok read) :
    Expr.TypedIn inside locals read.value := by
  rw [arguments] at done
  obtain ⟨opening, _, done⟩ := ok_of_bind done
  have shorter := opening.shorter
  split at done
  · cases done
    trivial
  · obtain ⟨args, between, done⟩ := ok_of_bind done
    obtain ⟨closing, _, done⟩ := ok_of_bind done
    cases done
    exact exprs_typed describes opening.rest between
termination_by 8 * stream.size

theorem exprs_typed (describes : scope.Describes inside locals) (stream : TokenStream)
    {read : Parsed stream (List Expr)} (done : exprs inside.names scope stream = .ok read) :
    Expr.TypedIn inside locals read.value := by
  rw [exprs] at done
  obtain ⟨first, leading, done⟩ := ok_of_bind done
  have typed := expr_typed describes stream leading
  have shorter := first.shorter
  split at done
  · cases done
    exact ⟨typed, trivial⟩
  · rename_i comma _
    obtain ⟨more, behind, done⟩ := ok_of_bind done
    have further := comma.shorter
    cases done
    exact ⟨typed, exprs_typed describes comma.rest behind⟩
termination_by 8 * stream.size + 5

end

theorem assignedExpr_typed (describes : scope.Describes inside locals) {type : DataType}
    {stream : TokenStream} {read : Parsed stream Expr}
    (done : assignedExpr inside.names scope type stream = .ok read) :
    read.value.Assigned inside locals type := by
  unfold assignedExpr at done
  obtain ⟨value, leading, done⟩ := ok_of_bind done
  split at done
  · rename_i accepted
    cases done
    exact ⟨expr_typed describes stream leading, accepted⟩
  · cases done

theorem declaration_typed (describes : scope.Describes inside locals) {stream : TokenStream}
    {read : Parsed stream (Stmt × Scope)}
    (done : declaration inside.names scope stream = .ok read) :
    read.value.1.Typed inside locals ∧
      read.value.2.Describes inside (locals ++ read.value.1.locals) := by
  unfold declaration at done
  dsimp only at done
  split at done
  · cases done
  · rename_i type _
    split at done
    · cases done
    · obtain ⟨name, _, done⟩ := ok_of_bind done
      obtain ⟨init, given, done⟩ := ok_of_bind done
      obtain ⟨semicolon, _, done⟩ := ok_of_bind done
      obtain ⟨⟨id, visible⟩, added, done⟩ := ok_of_bind done
      obtain ⟨counted, further⟩ := describes.addLocal added
      cases done
      refine ⟨⟨counted, fun value same => ?_⟩, further⟩
      unfold initialValue at given
      split at given
      · cases given
        cases same
      · obtain ⟨assigned, read, given⟩ := ok_of_bind given
        cases given
        cases same
        exact assignedExpr_typed describes read

theorem assignment_typed (describes : scope.Describes inside locals) {stream : TokenStream}
    {read : Parsed stream (Stmt × Scope)}
    (done : assignment inside.names scope stream = .ok read) :
    read.value.1.Typed inside locals ∧
      read.value.2.Describes inside (locals ++ read.value.1.locals) := by
  unfold assignment at done
  obtain ⟨name, _, done⟩ := ok_of_bind done
  obtain ⟨found, assigns, done⟩ := ok_of_bind done
  obtain ⟨equal, _, done⟩ := ok_of_bind done
  obtain ⟨value, assigned, done⟩ := ok_of_bind done
  obtain ⟨semicolon, _, done⟩ := ok_of_bind done
  cases done
  unfold assignable at assigns
  split at assigns
  · cases assigns
  · rename_i visible known
    split at assigns
    · cases assigns
    · rename_i free
      cases assigns
      refine ⟨⟨fun name same => free name same, _, describes.lookup known,
        assignedExpr_typed describes assigned⟩, ?_⟩
      simpa [Stmt.locals] using describes

theorem simpleStatement_typed (describes : scope.Describes inside locals) {stream : TokenStream}
    {read : Parsed stream (Stmt × Scope)}
    (done : simpleStatement inside.names scope stream = .ok read) :
    read.value.1.Typed inside locals ∧
      read.value.2.Describes inside (locals ++ read.value.1.locals) := by
  have same : scope.Describes inside (locals ++ []) := by simpa using describes
  unfold simpleStatement at done
  split at done
  · unfold returnStatement at done
    obtain ⟨keyword, _, done⟩ := ok_of_bind done
    dsimp only at done
    split at done
    · split at done
      · cases done
      · rename_i bare
        cases done
        refine ⟨?_, same⟩
        simpa [Stmt.Typed, describes.returns] using bare
    · obtain ⟨value, leading, done⟩ := ok_of_bind done
      split at done
      · cases done
      · rename_i accepted
        obtain ⟨semicolon, _, done⟩ := ok_of_bind done
        cases done
        simp only [Bool.or_eq_true, Bool.not_eq_true', not_or, Bool.not_eq_false,
          describes.returns] at accepted
        exact ⟨⟨expr_typed describes _ leading, accepted.2⟩, same⟩
  · split at done
    · unfold waitStatement at done
      obtain ⟨keyword, _, done⟩ := ok_of_bind done
      obtain ⟨opening, _, done⟩ := ok_of_bind done
      obtain ⟨count, leading, done⟩ := ok_of_bind done
      split at done
      · cases done
      · rename_i numeric
        obtain ⟨closing, _, done⟩ := ok_of_bind done
        obtain ⟨semicolon, _, done⟩ := ok_of_bind done
        cases done
        exact ⟨⟨expr_typed describes _ leading, by simpa using numeric⟩, same⟩
    · split at done
      · exact assignment_typed describes done
      · split at done
        · exact declaration_typed describes done
        · unfold exprStatement at done
          obtain ⟨value, leading, done⟩ := ok_of_bind done
          obtain ⟨semicolon, _, done⟩ := ok_of_bind done
          cases done
          exact ⟨expr_typed describes _ leading, same⟩

mutual

theorem block_typed {locals : Locals} {scope : Scope} (describes : scope.Describes inside locals)
    (stream : TokenStream) {read : Parsed stream (Block × Scope)}
    (done : block inside.names scope stream = .ok read) :
    Stmt.TypedIn inside locals read.value.1.stmts ∧
      read.value.2.Describes inside (locals ++ Stmt.localsIn read.value.1.stmts) := by
  rw [block] at done
  obtain ⟨opening, _, done⟩ := ok_of_bind done
  obtain ⟨body, leading, done⟩ := ok_of_bind done
  have shorter := opening.shorter
  have typed := statements_typed describes.pushBlock opening.rest leading
  cases done
  exact ⟨typed.1, typed.2.popBlock⟩
termination_by 8 * stream.size

theorem statements_typed {locals : Locals} {scope : Scope}
    (describes : scope.Describes inside locals) (stream : TokenStream)
    {read : Parsed stream (List Stmt × Token × Scope)}
    (done : statements inside.names scope stream = .ok read) :
    Stmt.TypedIn inside locals read.value.1 ∧
      read.value.2.2.Describes inside (locals ++ Stmt.localsIn read.value.1) := by
  rw [statements] at done
  split at done
  · cases done
    exact ⟨trivial, by simpa [Stmt.localsIn] using describes⟩
  · split at done
    · cases done
    · obtain ⟨first, leading, done⟩ := ok_of_bind done
      obtain ⟨more, behind, done⟩ := ok_of_bind done
      have shorter := first.shorter
      obtain ⟨typed, further⟩ := statement_typed describes stream leading
      obtain ⟨rest, last⟩ := statements_typed further first.rest behind
      cases done
      exact ⟨⟨typed, rest⟩, by simpa [Stmt.localsIn] using last⟩
termination_by 8 * stream.size + 2

theorem statement_typed {locals : Locals} {scope : Scope}
    (describes : scope.Describes inside locals) (stream : TokenStream)
    {read : Parsed stream (Stmt × Scope)} (done : statement inside.names scope stream = .ok read) :
    read.value.1.Typed inside locals ∧
      read.value.2.Describes inside (locals ++ read.value.1.locals) := by
  rw [statement] at done
  split at done
  · obtain ⟨inner, leading, done⟩ := ok_of_bind done
    have typed := block_typed describes stream leading
    cases done
    exact typed
  · exact simpleStatement_typed describes done
termination_by 8 * stream.size + 1

end

end BodyParser

end ScriptEngine
