import ScriptEngine.Proofs.Grammar
/-! What can be told from the next tokens. The first token of a sentence says what it is a sentence
of, or the first two where a statement starts with a name, and no sentence goes on with what may
stand behind it. -/

namespace ScriptEngine

open Grammar TokenStream

namespace Grammar

def Begins (kinds : List TokenKind) (tokens : List Token) : Prop :=
  ∃ first rest, tokens = first :: rest ∧ first.kind ∈ kinds

def Avoids (kinds : List TokenKind) (tokens : List Token) : Prop :=
  ∀ token ∈ tokens.head?, token.kind ∉ kinds

section

variable {kinds others : List TokenKind} {token : Token} {tokens rest : List Token}

theorem begins_cons (among : token.kind ∈ kinds) : Begins kinds (token :: rest) :=
  ⟨token, rest, rfl, among⟩

theorem Begins.append (begins : Begins kinds tokens) (more : List Token) :
    Begins kinds (tokens ++ more) := by
  obtain ⟨first, rest, rfl, among⟩ := begins
  exact begins_cons among

theorem Begins.mono (begins : Begins kinds tokens) (subset : kinds ⊆ others) :
    Begins others tokens := by
  obtain ⟨first, rest, rfl, among⟩ := begins
  exact begins_cons (subset among)

theorem avoids_cons (apart : token.kind ∉ kinds) : Avoids kinds (token :: rest) := by
  rintro first same
  rw [List.head?_cons, Option.mem_some] at same
  exact same ▸ apart

theorem Begins.avoids (begins : Begins kinds tokens) (apart : ∀ kind ∈ kinds, kind ∉ others) :
    Avoids others tokens := by
  obtain ⟨first, rest, rfl, among⟩ := begins
  exact avoids_cons (apart _ among)

theorem Avoids.mono (avoids : Avoids others tokens) (subset : kinds ⊆ others) :
    Avoids kinds tokens := fun token first among => avoids token first (subset among)

theorem Repeat.avoids {α : Type} {step : α → List Token → α → Prop} {tree whole : α}
    {sentence behind : List Token} (repeats : Repeat step tree sentence whole)
    (starts : ∀ {tree sentence next}, step tree sentence next → Begins kinds sentence)
    (apart : ∀ kind ∈ kinds, kind ∉ others) (ends : Avoids others behind) :
    Avoids others (sentence ++ behind) := by
  cases repeats with
  | none => exact ends
  | more step rest => exact (((starts step).append _).append _).avoids apart

end

def callMarks : List TokenKind := [.dot, .leftParen]

def factorMarks : List TokenKind := [.star, .slash] ++ callMarks

def summandMarks : List TokenKind := [.plus, .minus] ++ factorMarks

theorem IsSummand.begins {left tree : Phrase} {sentence : List Token}
    (isSummand : IsSummand left sentence tree) : Begins [.plus, .minus] sentence := by
  cases isSummand with
  | @operation token operator _ _ _ known =>
      refine begins_cons ?_
      cases kind : token.kind <;> rw [kind] at known <;> first | decide | cases known

theorem IsFactor.begins {left tree : Phrase} {sentence : List Token}
    (isFactor : IsFactor left sentence tree) : Begins [.star, .slash] sentence := by
  cases isFactor with
  | @operation token operator _ _ _ known =>
      refine begins_cons ?_
      cases kind : token.kind <;> rw [kind] at known <;> first | decide | cases known

theorem IsMethodCall.begins {receiver tree : Phrase} {sentence : List Token}
    (isMethodCall : IsMethodCall receiver sentence tree) : Begins [.dot] sentence := by
  cases isMethodCall with
  | call point => exact begins_cons (by simp [point])

theorem IsArguments.begins {args : List Phrase} {sentence : List Token}
    (isArguments : IsArguments sentence args) : Begins [.leftParen] sentence := by
  cases isArguments with
  | none opens | some opens => exact begins_cons (by simp [opens])

def operandMarks : List TokenKind :=
  [.intLiteral, .floatLiteral, .doubleLiteral, .stringLiteral, .trueKeyword, .falseKeyword,
    .nullKeyword, .identifier, .thisKeyword, .superKeyword, .leftParen]

def exprMarks : List TokenKind := .minus :: operandMarks

section

variable {sentence : List Token} {tree : Phrase}

theorem IsLiteral.cases {kind : TokenKind} (isLiteral : IsLiteral kind) :
    kind = .intLiteral ∨ (kind = .floatLiteral ∨ kind = .doubleLiteral) ∨ kind = .stringLiteral ∨
      kind = .trueKeyword ∨ kind = .falseKeyword ∨ kind = .nullKeyword := by
  cases kind <;> revert isLiteral <;> decide

theorem IsPrimary.begins (isPrimary : IsPrimary sentence tree) : Begins operandMarks sentence := by
  cases isPrimary with
  | literal isLiteral =>
      refine begins_cons ?_
      rcases isLiteral.cases with kind | (kind | kind) | kind | kind | kind | kind <;>
        (rw [kind]; decide)
  | name isName =>
      refine begins_cons ?_
      rcases isName with kind | kind | kind <;> (rw [kind]; decide)
  | call kind => exact begins_cons (by rw [kind]; decide)
  | parens opens => exact begins_cons (by rw [opens]; decide)

theorem IsCalls.begins (isCalls : IsCalls sentence tree) : Begins operandMarks sentence := by
  cases isCalls with
  | receiver isPrimary => exact isPrimary.begins.append _

theorem IsUnary.begins (isUnary : IsUnary sentence tree) : Begins exprMarks sentence := by
  cases isUnary with
  | negate kind => exact begins_cons (by rw [kind]; decide)
  | calls isCalls => exact isCalls.begins.mono (List.subset_cons_self ..)

theorem IsProduct.begins (isProduct : IsProduct sentence tree) : Begins exprMarks sentence := by
  cases isProduct with
  | product isUnary => exact isUnary.begins.append _

theorem IsExpr.begins (isExpr : IsExpr sentence tree) : Begins exprMarks sentence := by
  cases isExpr with
  | sum isProduct => exact isProduct.begins.append _

theorem IsExprs.begins {args : List Phrase} (isExprs : IsExprs sentence args) :
    Begins exprMarks sentence := by
  cases isExprs with
  | last isExpr => exact isExpr.begins
  | more isExpr => exact isExpr.begins.append _

end

def statementMarks : List TokenKind := [.equal, .identifier, .leftBracket]

def IsOperand (sentence : List Token) : Prop :=
  ∀ name rest behind, sentence = name :: rest → name.kind = .identifier →
    Avoids statementMarks behind → Avoids statementMarks (rest ++ behind)

section

variable {sentence tail : List Token} {tree : Phrase}

theorem IsOperand.repeated {kinds marks : List TokenKind} {left : Phrase}
    {step : Phrase → List Token → Phrase → Prop} (isOperand : IsOperand sentence)
    (begins : Begins kinds sentence) (repeats : Repeat step left tail tree)
    (starts : ∀ {tree sentence next}, step tree sentence next → Begins marks sentence)
    (apart : ∀ mark ∈ marks, mark ∉ statementMarks) : IsOperand (sentence ++ tail) := by
  intro name rest behind same kind ends
  obtain ⟨first, more, rfl, _⟩ := begins
  rw [List.cons_append] at same
  obtain ⟨rfl, rfl⟩ := List.cons.inj same
  rw [List.append_assoc]
  exact isOperand _ _ _ rfl kind (repeats.avoids starts apart ends)

theorem IsPrimary.isOperand (isPrimary : IsPrimary sentence tree) : IsOperand sentence := by
  intro name rest behind same kind ends
  cases isPrimary with
  | literal | name =>
      cases same
      exact ends
  | call _ isArguments =>
      cases same
      exact (isArguments.begins.append _).avoids (by decide)
  | parens opens =>
      cases same
      rw [opens] at kind
      cases kind

theorem IsCalls.isOperand (isCalls : IsCalls sentence tree) : IsOperand sentence := by
  cases isCalls with
  | receiver isPrimary calls =>
      exact isPrimary.isOperand.repeated isPrimary.begins calls IsMethodCall.begins (by decide)

theorem IsUnary.isOperand (isUnary : IsUnary sentence tree) : IsOperand sentence := by
  cases isUnary with
  | negate minus =>
      intro name rest behind same kind
      cases same
      rw [minus] at kind
      cases kind
  | calls isCalls => exact isCalls.isOperand

theorem IsProduct.isOperand (isProduct : IsProduct sentence tree) : IsOperand sentence := by
  cases isProduct with
  | product isUnary factors =>
      exact isUnary.isOperand.repeated isUnary.begins factors IsFactor.begins (by decide)

theorem IsExpr.isOperand (isExpr : IsExpr sentence tree) : IsOperand sentence := by
  cases isExpr with
  | sum isProduct summands =>
      exact isProduct.isOperand.repeated isProduct.begins summands IsSummand.begins (by decide)

end

def typeMarks : List TokenKind :=
  [.voidKeyword, .boolKeyword, .byteKeyword, .shortKeyword, .charKeyword, .intKeyword,
    .longKeyword, .floatKeyword, .doubleKeyword, .stringKeyword, .identifier]

def simpleMarks : List TokenKind := [.returnKeyword, .waitKeyword] ++ typeMarks ++ exprMarks

section

variable {classes : ClassTable} {sentence : List Token}

theorem IsBase.mark {token : Token} {type : DataType} (isBase : IsBase classes token type) :
    token.kind ∈ typeMarks := by
  rcases isBase with keyword | ⟨kind, _⟩
  · cases kind : token.kind <;> rw [kind] at keyword <;> first | decide | cases keyword
  · rw [kind]
    decide

theorem IsSimple.begins {clause : Clause} (isSimple : IsSimple classes sentence clause) :
    Begins simpleMarks sentence := by
  cases isSimple with
  | «return» kind | returnValue kind | wait kind | assign kind =>
      exact begins_cons (by rw [kind]; decide)
  | declare isType =>
      cases isType with
      | arrays isBase =>
          exact begins_cons (List.mem_append_left _ (List.mem_append_right _ isBase.mark))
  | expr isExpr => exact (isExpr.begins.append _).mono (List.subset_append_right ..)

theorem IsStatement.begins {clause : Clause} (isStatement : IsStatement classes sentence clause) :
    Begins (.leftBrace :: simpleMarks) sentence := by
  cases isStatement with
  | block isBlock =>
      cases isBlock with
      | braces opens => exact begins_cons (by rw [opens]; decide)
  | simple isSimple => exact isSimple.begins.mono (List.subset_cons_self ..)

end

end Grammar

open Grammar

namespace TokenStream

variable {stream : TokenStream} {token : Token} {kind : TokenKind} {behind : List Token}
  {kinds : List TokenKind}

theorem peek_of_ahead (ahead : stream.ahead = token :: behind) : stream.peek = token := by
  simp [peek, peekAt, ahead]

theorem check_of_ahead (ahead : stream.ahead = token :: behind) :
    stream.check kind = (token.kind == kind) := by
  rw [check, peek_of_ahead ahead]

theorem check_of_avoids (avoids : Avoids kinds stream.ahead) (among : kind ∈ kinds)
    (real : kind ≠ .eof) : stream.check kind = false := by
  cases ahead : stream.ahead with
  | nil => simpa [check, peek, peekAt, ahead, Token.endOfInput] using real.symm
  | cons first rest =>
      rw [check_of_ahead ahead, beq_eq_false_iff_ne]
      rw [ahead] at avoids
      rintro rfl
      exact avoids first rfl among

theorem next_of_begins (ahead : stream.ahead = token :: behind) (begins : Begins kinds behind) :
    (stream.peekAt 1).kind ∈ kinds := by
  obtain ⟨second, rest, rfl, among⟩ := begins
  simpa [peekAt, ahead] using among

theorem next_of_avoids (ahead : stream.ahead = token :: behind) (avoids : Avoids kinds behind)
    (real : .eof ∉ kinds) : (stream.peekAt 1).kind ∉ kinds := by
  cases behind with
  | nil => simpa [peekAt, ahead, Token.endOfInput] using real
  | cons second rest => simpa [peekAt, ahead] using avoids second rfl

theorem next?_of_ahead (ahead : stream.ahead = token :: behind) (real : token.kind ≠ .eof) :
    ∃ found : Parsed stream Token, stream.next? = some found ∧ found.value = token ∧
      found.rest.ahead = behind := by
  have peeked := peek_of_ahead ahead
  have more : stream.peek.kind ≠ .eof := peeked ▸ real
  refine ⟨⟨stream.peek, stream.advance, advance_size_lt more⟩, dif_neg more, peeked, ?_⟩
  simp [advance, ahead, real]

theorem eat_of_ahead (ahead : stream.ahead = token :: behind) (same : token.kind = kind)
    (real : kind ≠ .eof) :
    ∃ later, stream.eat kind = some (token, later) ∧ later.ahead = behind := by
  have more : token.kind ≠ .eof := same ▸ real
  refine ⟨stream.advance, by simp [eat, check_of_ahead ahead, same, peek_of_ahead ahead], ?_⟩
  simp [advance, ahead, more]

theorem take?_of_ahead (ahead : stream.ahead = token :: behind) (same : token.kind = kind)
    (real : kind ≠ .eof) : ∃ found : Parsed stream Token,
      stream.take? kind real = some found ∧ found.value = token ∧ found.rest.ahead = behind := by
  obtain ⟨later, eaten, left⟩ := eat_of_ahead ahead same real
  refine ⟨⟨token, later, eat_size eaten real⟩, ?_, rfl, left⟩
  unfold take?
  split
  · rename_i found read
    cases eaten.symm.trans read
    rfl
  · rename_i read
    cases eaten.symm.trans read

theorem take?_of_avoids (avoids : Avoids kinds stream.ahead) (among : kind ∈ kinds)
    {real : kind ≠ .eof} : stream.take? kind real = none := by
  have kept : stream.eat kind = none := by
    simp [eat, check_of_avoids avoids among real]
  unfold take?
  split
  · rename_i read
    cases kept.symm.trans read
  · rfl

theorem take_of_ahead (ahead : stream.ahead = token :: behind) (same : token.kind = kind)
    (cause : CompileCause) (real : kind ≠ .eof) : ∃ found : Parsed stream Token,
      stream.take kind cause real = .ok found ∧ found.value = token ∧
        found.rest.ahead = behind := by
  obtain ⟨later, eaten, left⟩ := eat_of_ahead ahead same real
  have expected : stream.expect kind cause = .ok (token, later) := by
    rw [TokenStream.expect, eaten]
  refine ⟨⟨token, later, eat_size eaten real⟩, ?_, rfl, left⟩
  unfold take
  split
  · rename_i found read
    cases expected.symm.trans read
    rfl
  · rename_i read
    cases expected.symm.trans read

end TokenStream

end ScriptEngine
