import ScriptEngine.Proofs.BodyTokens
import ScriptEngine.Proofs.Shape
/-! Spans in a body lie in each other. An expression covers its operands, a statement its expressions
and a block its statements, which stand one behind the other. -/

namespace ScriptEngine

/-- An expression covers its operands and arguments, and each of those its own. -/
inductive Expr.Nested : Expr → Prop
  | over {expr : Expr} : (∀ operand ∈ expr.operands, operand.span.Inside expr.span) →
      (∀ operand ∈ expr.operands, operand.Nested) → expr.Nested

theorem Expr.Nested.withSpan {expr : Expr} {span : Span} (nested : expr.Nested)
    (wider : expr.span.Inside span) : (expr.withSpan span).Nested := by
  obtain ⟨inside, below⟩ := nested
  have same : (expr.withSpan span).operands = expr.operands := by
    cases expr <;> rfl
  refine .over (fun operand among => ?_) (fun operand among => below operand (same ▸ among))
  rw [Expr.span_withSpan]
  exact (inside operand (same ▸ among)).trans wider

theorem Expr.StandsAt.inside {expr : Expr} {sentence whole : List Token}
    (stands : expr.StandsAt sentence) (ordered : InOrder whole) (part : sentence.Sublist whole) :
    expr.span.Inside (.over whole) := by
  rw [stands.span_eq]
  exact ordered.over_inside part stands.ne_nil

theorem sublist_between (first last : Token) (sentence : List Token) :
    sentence.Sublist (first :: sentence ++ [last]) :=
  (List.sublist_cons_self ..).trans (List.sublist_append_left ..)

mutual

-- What stands in parentheses is the expression itself with another span, which is no part of it, so
-- the recursion is on the tokens.
theorem Expr.StandsAt.nested {sentence : List Token} {expr : Expr} (stands : expr.StandsAt sentence)
    (ordered : InOrder sentence) : expr.Nested := by
  cases stands with
  | literal | var => exact .over (List.forall_mem_nil _) (List.forall_mem_nil _)
  | @negate minus sentence _ operand _ stands =>
      have part := List.sublist_cons_self minus sentence
      exact .over (List.forall_mem_singleton.mpr (stands.inside ordered part))
        (List.forall_mem_singleton.mpr (stands.nested (ordered.sublist part)))
  | @binary sign first second _ _ left right _ one other =>
      have before : first.Sublist (first ++ sign :: second) := List.sublist_append_left ..
      have behind : second.Sublist (first ++ sign :: second) :=
        (List.sublist_cons_self ..).trans (List.sublist_append_right ..)
      refine .over ?_ ?_
      · rintro operand (_ | ⟨_, _ | ⟨_, ⟨⟩⟩⟩)
        · exact one.inside ordered before
        · exact other.inside ordered behind
      · rintro operand (_ | ⟨_, _ | ⟨_, ⟨⟩⟩⟩)
        · exact one.nested (ordered.sublist before)
        · exact other.nested (ordered.sublist behind)
  | @call name sentence _ _ args _ stand =>
      have all := stand.nested ordered (List.sublist_cons_self name sentence)
      exact .over (fun arg among => (all arg among).1) fun arg among => (all arg among).2
  | @method dot name first sentence _ _ receiver args stands _ _ stand =>
      have before : first.Sublist (first ++ dot :: name :: sentence) := List.sublist_append_left ..
      have behind : sentence.Sublist (first ++ dot :: name :: sentence) :=
        ((List.sublist_cons_self ..).trans (List.sublist_cons_self ..)).trans
          (List.sublist_append_right ..)
      have all := stand.nested ordered behind
      refine .over ?_ ?_
      · exact List.forall_mem_cons.mpr
          ⟨stands.inside ordered before, fun arg among => (all arg among).1⟩
      · exact List.forall_mem_cons.mpr
          ⟨stands.nested (ordered.sublist before), fun arg among => (all arg among).2⟩
  | @parens opening closing sentence inner _ stands =>
      have part := sublist_between opening closing sentence
      exact (stands.nested (ordered.sublist part)).withSpan (stands.inside ordered part)
termination_by 2 * sentence.length

theorem Expr.ArgumentsStandAt.nested {sentence whole : List Token} {args : List Expr}
    (stand : Expr.ArgumentsStandAt sentence args) (ordered : InOrder whole)
    (part : sentence.Sublist whole) :
    ∀ arg ∈ args, arg.span.Inside (.over whole) ∧ arg.Nested := by
  cases stand with
  | none => exact List.forall_mem_nil _
  | @some opening closing sentence _ _ stand =>
      exact stand.nested ordered ((sublist_between opening closing sentence).trans part)
termination_by 2 * sentence.length

theorem Expr.AllStandAt.nested {sentence whole : List Token} {exprs : List Expr}
    (stand : Expr.AllStandAt sentence exprs) (ordered : InOrder whole)
    (part : sentence.Sublist whole) :
    ∀ expr ∈ exprs, expr.span.Inside (.over whole) ∧ expr.Nested := by
  cases stand with
  | last stands =>
      exact List.forall_mem_singleton.mpr
        ⟨stands.inside ordered part, stands.nested (ordered.sublist part)⟩
  | @more comma sentence rest _ _ stands _ stand =>
      have before : sentence.Sublist (sentence ++ comma :: rest) := List.sublist_append_left ..
      have behind : rest.Sublist (sentence ++ comma :: rest) :=
        (List.sublist_cons_self ..).trans (List.sublist_append_right ..)
      exact List.forall_mem_cons.mpr
        ⟨⟨stands.inside ordered (before.trans part),
          stands.nested (ordered.sublist (before.trans part))⟩,
        stand.nested ordered (behind.trans part)⟩
termination_by 2 * sentence.length + 1

end

theorem Expr.StandsAt.only {sentence whole : List Token} {expr : Expr}
    (stands : expr.StandsAt sentence) (ordered : InOrder whole) (part : sentence.Sublist whole) :
    ∀ value ∈ [expr], value.span.Inside (.over whole) ∧ value.Nested :=
  List.forall_mem_singleton.mpr
    ⟨stands.inside ordered part, stands.nested (ordered.sublist part)⟩

def Stmt.exprs : Stmt → List Expr
  | .block _ _ => []
  | .return _ value => value.toList
  | .declare _ _ _ _ init => init.toList
  | .wait _ value | .assign _ _ value | .expr value => [value]

def Stmt.inner : Stmt → List Stmt
  | .block _ stmts => stmts
  | _ => []

/-- A statement covers its expressions. A block covers its statements, which stand one behind the
other. -/
inductive Stmt.Nested : Stmt → Prop
  | over {stmt : Stmt} : (∀ expr ∈ stmt.exprs, expr.span.Inside stmt.span ∧ expr.Nested) →
      (∀ inner ∈ stmt.inner, inner.span.Inside stmt.span) →
      (stmt.inner.Pairwise fun earlier later => earlier.span.Before later.span) →
      (∀ inner ∈ stmt.inner, inner.Nested) → stmt.Nested

section

variable {classes : ClassTable} {sentence whole : List Token} {stmt : Stmt} {stmts : List Stmt}

theorem Stmt.StandsAt.ne_nil (stands : stmt.StandsAt classes sentence) : sentence ≠ [] := by
  cases stands <;> simp

theorem Stmt.StandsAt.block_span {span : Span}
    (stands : (Stmt.block span stmts).StandsAt classes sentence) : span = .over sentence := by
  cases stands
  rfl

theorem Stmt.StandsAt.block_closed {span : Span}
    (stands : (Stmt.block span stmts).StandsAt classes sentence) :
    ∃ front closing, sentence = front ++ [closing] ∧ closing.kind = .rightBrace := by
  cases stands with
  | block _ _ closes => exact ⟨_, _, rfl, closes⟩

theorem Stmt.StandsAt.inside (stands : stmt.StandsAt classes sentence) (ordered : InOrder whole)
    (part : sentence.Sublist whole) : stmt.span.Inside (.over whole) := by
  have filled := stands.ne_nil
  cases stands with
  | expr stands => exact stands.inside ordered ((List.sublist_append_left ..).trans part)
  | _ => exact ordered.over_inside part filled

theorem Stmt.AllStandAt.each : ∀ {sentence : List Token} {stmts : List Stmt},
    AllStandAt classes sentence stmts →
      ∀ stmt ∈ stmts, ∃ part, part.Sublist sentence ∧ stmt.StandsAt classes part
  | _, _, .none => List.forall_mem_nil _
  | _, _, .more stands stand => List.forall_mem_cons.mpr
      ⟨⟨_, List.sublist_append_left .., stands⟩, fun stmt among =>
        have ⟨part, inner, stands⟩ := stand.each stmt among
        ⟨part, inner.trans (List.sublist_append_right ..), stands⟩⟩

theorem Stmt.AllStandAt.inside (stand : AllStandAt classes sentence stmts) (ordered : InOrder whole)
    (part : sentence.Sublist whole) : ∀ stmt ∈ stmts, stmt.span.Inside (.over whole) := by
  intro stmt among
  obtain ⟨_, inner, stands⟩ := stand.each stmt among
  exact stands.inside ordered (inner.trans part)

theorem Stmt.AllStandAt.apart : ∀ {sentence : List Token} {stmts : List Stmt},
    AllStandAt classes sentence stmts → InOrder sentence →
      stmts.Pairwise fun earlier later => earlier.span.Before later.span
  | _, _, .none, _ => .nil
  | _, _, @AllStandAt.more _ sentence rest _ _ stands stand, ordered => by
      have before := ordered.sublist (List.sublist_append_left sentence rest)
      have behind := ordered.sublist (List.sublist_append_right sentence rest)
      refine List.pairwise_cons.mpr ⟨fun later among => ?_, stand.apart behind⟩
      obtain ⟨part, inner, further⟩ := stand.each later among
      have remains : rest ≠ [] := by
        rintro rfl
        exact further.ne_nil (List.sublist_nil.mp inner)
      exact Nat.le_trans (stands.inside before (List.Sublist.refl _)).2
        (Nat.le_trans (ordered.over_before stands.ne_nil remains) (further.inside behind inner).1)

theorem Stmt.InitialStandsAt.nested {init : Option Expr} (stands : InitialStandsAt sentence init)
    (ordered : InOrder whole) (part : sentence.Sublist whole) :
    ∀ value ∈ init.toList, value.span.Inside (.over whole) ∧ value.Nested := by
  cases stands with
  | none => exact List.forall_mem_nil _
  | some _ stands => exact stands.only ordered ((List.sublist_cons_self ..).trans part)

theorem Stmt.Nested.simple (childless : stmt.inner = [])
    (each : ∀ expr ∈ stmt.exprs, expr.span.Inside stmt.span ∧ expr.Nested) : stmt.Nested := by
  refine .over each ?_ ?_ ?_ <;> rw [childless]
  · exact List.forall_mem_nil _
  · exact .nil
  · exact List.forall_mem_nil _

end

mutual

theorem Stmt.StandsAt.nested {classes : ClassTable} {sentence : List Token} {stmt : Stmt}
    (stands : stmt.StandsAt classes sentence) (ordered : InOrder sentence) : stmt.Nested := by
  cases stands with
  | @block opening closing sentence stmts _ stand =>
      have part := sublist_between opening closing sentence
      exact .over (List.forall_mem_nil _) (stand.inside ordered part)
        (stand.apart (ordered.sublist part)) (stand.nested (ordered.sublist part))
  | «return» => exact .simple rfl (List.forall_mem_nil _)
  | @returnValue keyword semicolon sentence value _ stands =>
      exact .simple rfl (stands.only ordered (sublist_between keyword semicolon sentence))
  | @wait keyword opening closing semicolon sentence count _ _ stands =>
      have part : sentence.Sublist (keyword :: opening :: sentence ++ [closing, semicolon]) :=
        ((List.sublist_cons_self ..).trans (List.sublist_cons_self ..)).trans
          (List.sublist_append_left ..)
      exact .simple rfl (stands.only ordered part)
  | @declare name semicolon typed initial _ _ init _ _ stands =>
      have part : initial.Sublist (typed ++ name :: initial ++ [semicolon]) := by
        rw [List.append_assoc]
        exact (sublist_between name semicolon initial).trans (List.sublist_append_right ..)
      exact .simple rfl (stands.nested ordered part)
  | @assign name equal semicolon sentence _ value _ _ stands =>
      have part : sentence.Sublist (name :: equal :: sentence ++ [semicolon]) :=
        (sublist_between equal semicolon sentence).trans (List.sublist_cons_self ..)
      exact .simple rfl (stands.only ordered part)
  | @expr semicolon sentence value stands =>
      have part : sentence.Sublist (sentence ++ [semicolon]) := List.sublist_append_left ..
      exact .simple rfl (List.forall_mem_singleton.mpr
        ⟨⟨Nat.le_refl _, Nat.le_refl _⟩, stands.nested (ordered.sublist part)⟩)
termination_by sizeOf stmt

theorem Stmt.AllStandAt.nested {classes : ClassTable} {sentence : List Token} {stmts : List Stmt}
    (stand : Stmt.AllStandAt classes sentence stmts) (ordered : InOrder sentence) :
    ∀ stmt ∈ stmts, stmt.Nested := by
  cases stand with
  | none => exact List.forall_mem_nil _
  | more stands stand =>
      exact List.forall_mem_cons.mpr
        ⟨stands.nested (ordered.sublist (List.sublist_append_left ..)),
          stand.nested (ordered.sublist (List.sublist_append_right ..))⟩
termination_by sizeOf stmts

end

end ScriptEngine
