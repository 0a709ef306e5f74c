import ScriptEngine.Error
import ScriptEngine.Token
/-! Reading tokens one by one. A stream has the tokens it passed, the last one first, and those
ahead; it never moves past an end-of-file token. Every way of reading leaves at most as many tokens
ahead as there were, and fewer if a token other than that one was consumed. -/

namespace ScriptEngine

structure TokenStream where
  passed : List Token
  ahead : List Token
deriving DecidableEq, Repr, Inhabited

namespace TokenStream

def ofTokens (tokens : List Token) : TokenStream := ⟨[], tokens⟩

def peekAt (stream : TokenStream) (n : Nat) : Token := stream.ahead[n]?.getD .endOfInput

def peek (stream : TokenStream) : Token := stream.peekAt 0

def check (stream : TokenStream) (kind : TokenKind) : Bool := stream.peek.kind == kind

def isAtEnd (stream : TokenStream) : Bool := stream.check .eof

def advance (stream : TokenStream) : TokenStream :=
  match stream.ahead with
  | token :: rest => if token.kind = .eof then stream else ⟨token :: stream.passed, rest⟩
  | [] => stream

def eat (kind : TokenKind) (stream : TokenStream) : Option (Token × TokenStream) :=
  if stream.check kind then some (stream.peek, stream.advance) else none

def expect (kind : TokenKind) (cause : CompileCause) (stream : TokenStream) :
    Except CompileError (Token × TokenStream) :=
  match stream.eat kind with
  | some found => .ok found
  | none => .error ⟨cause, stream.peek.span, none⟩

def previous? (stream : TokenStream) : Option Token := stream.passed.head?

def position (stream : TokenStream) : Nat := stream.passed.length

def seek (stream : TokenStream) (position : Nat) : TokenStream :=
  let tokens := stream.passed.reverse ++ stream.ahead
  ⟨(tokens.take position).reverse, tokens.drop position⟩

/-- From `start` to the end of the token consumed last. -/
def spanSince (stream : TokenStream) (start : Span) : Span :=
  match stream.previous? with
  | some token => start.cover token.span
  | none => start

/-- The number of tokens ahead, which bounds what a parser can still do. -/
def size (stream : TokenStream) : Nat := stream.ahead.length

theorem advance_size_lt {stream : TokenStream} (more : stream.peek.kind ≠ .eof) :
    stream.advance.size < stream.size := by
  unfold advance size
  split
  · rename_i token rest ahead
    have same : stream.peek = token := by simp [peek, peekAt, ahead]
    rw [same] at more
    simp [more, ahead]
  · rename_i ahead
    have same : stream.peek = .endOfInput := by simp [peek, peekAt, ahead]
    simp [same, Token.endOfInput] at more

theorem eat_size {kind : TokenKind} {stream : TokenStream} {found : Token × TokenStream}
    (eaten : stream.eat kind = some found) (real : kind ≠ .eof) : found.2.size < stream.size := by
  unfold eat at eaten
  split at eaten
  · rename_i matching
    cases eaten
    have same : stream.peek.kind = kind := by simpa [check] using matching
    exact advance_size_lt (by rw [same]; exact real)
  · cases eaten

theorem expect_size {kind : TokenKind} {cause : CompileCause} {stream : TokenStream}
    {found : Token × TokenStream} (read : stream.expect kind cause = .ok found)
    (real : kind ≠ .eof) : found.2.size < stream.size := by
  unfold expect at read
  split at read
  · rename_i eaten
    cases read
    exact eat_size eaten real
  · cases read

end TokenStream

/-- Something read from the start of a stream, and the stream behind it. -/
structure Parsed (start : TokenStream) (α : Type) where
  value : α
  rest : TokenStream
  shorter : rest.size < start.size

/-- Something read from the start of a stream that may have consumed nothing. -/
structure Reached (start : TokenStream) (α : Type) where
  value : α
  rest : TokenStream
  bounded : rest.size ≤ start.size

namespace Parsed

variable {start : TokenStream} {α β γ : Type}

def behind (first : Parsed start α) (second : Parsed first.rest β) (value : γ) : Parsed start γ :=
  ⟨value, second.rest, Nat.lt_trans second.shorter first.shorter⟩

def reached (parsed : Parsed start α) : Reached start α :=
  ⟨parsed.value, parsed.rest, Nat.le_of_lt parsed.shorter⟩

end Parsed

namespace TokenStream

def take (kind : TokenKind) (cause : CompileCause) (stream : TokenStream)
    (real : kind ≠ .eof := by decide) : Except CompileError (Parsed stream Token) :=
  match read : stream.expect kind cause with
  | .ok found => .ok ⟨found.1, found.2, expect_size read real⟩
  | .error error => .error error

def take? (kind : TokenKind) (stream : TokenStream) (real : kind ≠ .eof := by decide) :
    Option (Parsed stream Token) :=
  match read : stream.eat kind with
  | some found => some ⟨found.1, found.2, eat_size read real⟩
  | none => none

def takeName (cause : CompileCause) (stream : TokenStream) :
    Except CompileError (Parsed stream Token) :=
  stream.take .identifier cause

def openBlock (stream : TokenStream) : Except CompileError (Parsed stream Token) :=
  stream.take .leftBrace .missingOpenBlock

def closeBlock? (stream : TokenStream) : Option (Parsed stream Token) := stream.take? .rightBrace

def next? (stream : TokenStream) : Option (Parsed stream Token) :=
  if more : stream.peek.kind = .eof then none
  else some ⟨stream.peek, stream.advance, advance_size_lt more⟩

/-- Move over tokens until `depth` more braces are closed than opened. The end of the input before
that is an error; the stream is there then. -/
def closeBraces (passed : List Token) : Nat → List Token → Option CompileError × TokenStream
  | 0, ahead => (none, ⟨passed, ahead⟩)
  | _ + 1, [] =>
      (some ⟨.unexpectedEof, Token.endOfInput.span, some "unclosed block"⟩, ⟨passed, []⟩)
  | depth + 1, token :: rest =>
      match token.kind with
      | .leftBrace => closeBraces (token :: passed) (depth + 2) rest
      | .rightBrace => closeBraces (token :: passed) depth rest
      | .eof => (some ⟨.unexpectedEof, token.span, some "unclosed block"⟩, ⟨passed, token :: rest⟩)
      | _ => closeBraces (token :: passed) (depth + 1) rest

/-- Move over a block in braces without looking at what is in it; the span of the whole block. -/
def skipBlock (stream : TokenStream) : Except CompileError Span × TokenStream :=
  match stream.expect .leftBrace .missingOpenBlock with
  | .error error => (.error error, stream)
  | .ok (opening, inside) =>
      match closeBraces inside.passed 1 inside.ahead with
      | (some error, reached) => (.error error, reached)
      | (none, behind) => (.ok (behind.spanSince opening.span), behind)

theorem closeBraces_size (passed : List Token) (depth : Nat) (ahead : List Token) :
    (closeBraces passed depth ahead).2.size ≤ ahead.length := by
  fun_induction closeBraces passed depth ahead with
  | case1 => exact Nat.le_refl _
  | case2 => exact Nat.le_refl _
  | case3 passed depth token rest _ ih => exact Nat.le_trans ih (by simp)
  | case4 passed depth token rest _ ih => exact Nat.le_trans ih (by simp)
  | case5 => exact Nat.le_refl _
  | case6 passed depth token rest _ _ _ ih => exact Nat.le_trans ih (by simp)

theorem skipBlock_size {stream behind : TokenStream} {span : Span}
    (skipped : stream.skipBlock = (.ok span, behind)) : behind.size < stream.size := by
  unfold skipBlock at skipped
  split at skipped
  · cases skipped
  · rename_i opening inside opened
    have bound := closeBraces_size inside.passed 1 inside.ahead
    have entered := expect_size opened (by decide)
    split at skipped
    · cases skipped
    · rename_i closed
      cases skipped
      rw [closed] at bound
      exact Nat.lt_of_le_of_lt bound entered

end TokenStream

end ScriptEngine
