import ScriptEngine.Lexer
import ScriptEngine.ParamList
import Mathlib.Data.List.Perm.Subperm
/-! What reading passes over. Each way of reading consumes the tokens that stand next in the source,
and a part of a body opens as many braces in it as it closes, so a body that is skipped ends where it
ends when it is read. The tokens of a source start at different places. -/

namespace ScriptEngine

namespace TokenStream

def Balanced (tokens : List Token) : Prop :=
  ∀ passed depth rest, closeBraces passed (depth + 1) (tokens ++ rest) =
    closeBraces (tokens.reverse ++ passed) (depth + 1) rest

namespace Balanced

variable {first second inner : List Token} {token opening closing : Token}

theorem nil : Balanced [] := fun _ _ _ => rfl

theorem append (one : Balanced first) (other : Balanced second) : Balanced (first ++ second) := by
  intro passed depth rest
  rw [List.append_assoc, one, other, List.reverse_append, List.append_assoc]

theorem single (plain : token.kind ≠ .leftBrace ∧ token.kind ≠ .rightBrace ∧ token.kind ≠ .eof) :
    Balanced [token] := by
  intro passed depth rest
  rw [List.singleton_append, closeBraces]
  split
  · rename_i brace
    exact absurd brace plain.1
  · rename_i brace
    exact absurd brace plain.2.1
  · rename_i ended
    exact absurd ended plain.2.2
  · rfl

theorem braces (balanced : Balanced inner) (opens : opening.kind = .leftBrace)
    (closes : closing.kind = .rightBrace) : Balanced (opening :: inner ++ [closing]) := by
  intro passed depth rest
  rw [List.cons_append, List.cons_append, closeBraces, opens, List.append_assoc]
  dsimp only
  rw [balanced, List.singleton_append, closeBraces, closes]
  simp

end Balanced

/-- The tokens between two places of one source. -/
structure Moves (stream later : TokenStream) (between : List Token) : Prop where
  ahead : stream.ahead = between ++ later.ahead
  passed : later.passed = between.reverse ++ stream.passed

namespace Moves

variable {stream middle later : TokenStream} {first second : List Token}

theorem refl (stream : TokenStream) : stream.Moves stream [] := ⟨rfl, rfl⟩

theorem trans (one : stream.Moves middle first) (other : middle.Moves later second) :
    stream.Moves later (first ++ second) where
  ahead := by rw [one.ahead, other.ahead, List.append_assoc]
  passed := by rw [other.passed, one.passed, List.reverse_append, List.append_assoc]

end Moves

def Reads (stream later : TokenStream) (places : List Nat) : Prop :=
  ∃ between, stream.Moves later between ∧ Balanced between ∧
    places.Subperm (between.map fun token => token.span.start)

section

variable {stream middle later : TokenStream} {places more : List Nat} {kind : TokenKind}
  {cause : CompileCause}

namespace Reads

theorem refl (stream : TokenStream) : stream.Reads stream [] :=
  ⟨[], .refl stream, .nil, .refl _⟩

theorem trans (first : stream.Reads middle places) (second : middle.Reads later more) :
    stream.Reads later (places ++ more) := by
  obtain ⟨one, moves, balanced, listed⟩ := first
  obtain ⟨other, further, also, known⟩ := second
  refine ⟨one ++ other, moves.trans further, balanced.append also, ?_⟩
  rw [List.map_append]
  exact listed.append known

theorem behind (first : stream.Reads middle []) (second : middle.Reads later more) :
    stream.Reads later more := first.trans second

theorem ahead (first : stream.Reads middle places) (second : middle.Reads later []) :
    stream.Reads later places := by
  simpa using first.trans second

theorem perm (reads : stream.Reads later places) (same : places.Perm more) :
    stream.Reads later more := by
  obtain ⟨between, moves, balanced, listed⟩ := reads
  exact ⟨between, moves, balanced, same.subperm_right.mp listed⟩

end Reads

theorem advance_moves (more : stream.peek.kind ≠ .eof) :
    stream.Moves stream.advance [stream.peek] := by
  obtain ⟨passed, ahead⟩ := stream
  cases ahead with
  | nil => exact absurd rfl more
  | cons token rest =>
      have real : token.kind ≠ .eof := more
      simp only [advance, if_neg real]
      exact ⟨rfl, rfl⟩

theorem eat_moves {found : Token × TokenStream} (eaten : stream.eat kind = some found)
    (real : kind ≠ .eof) : stream.Moves found.2 [found.1] ∧ found.1.kind = kind := by
  unfold eat at eaten
  split at eaten
  · rename_i standing
    cases eaten
    have same : stream.peek.kind = kind := by simpa [check] using standing
    exact ⟨advance_moves (same ▸ real), same⟩
  · cases eaten

theorem take_moves {real : kind ≠ .eof} {found : Parsed stream Token}
    (taken : stream.take kind cause real = .ok found) :
    stream.Moves found.rest [found.value] ∧ found.value.kind = kind := by
  unfold take at taken
  split at taken
  · rename_i read
    cases taken
    unfold expect at read
    split at read
    · rename_i eaten
      cases read
      exact eat_moves eaten real
    · cases read
  · cases taken

theorem take?_moves {real : kind ≠ .eof} {found : Parsed stream Token}
    (taken : stream.take? kind real = some found) :
    stream.Moves found.rest [found.value] ∧ found.value.kind = kind := by
  unfold take? at taken
  split at taken
  · rename_i eaten
    cases taken
    exact eat_moves eaten real
  · cases taken

theorem next?_moves {found : Parsed stream Token} (taken : stream.next? = some found) :
    stream.Moves found.rest [found.value] ∧ found.value = stream.peek ∧
      found.value.kind ≠ .eof := by
  unfold next? at taken
  split at taken
  · cases taken
  · rename_i more
    cases taken
    exact ⟨advance_moves more, rfl, more⟩

def Plain (kind : TokenKind) : Prop := kind ≠ .leftBrace ∧ kind ≠ .rightBrace ∧ kind ≠ .eof

instance (kind : TokenKind) : Decidable (Plain kind) :=
  inferInstanceAs (Decidable (_ ∧ _ ∧ _))

theorem Moves.reads {token : Token} (moves : stream.Moves later [token]) (plain : Plain token.kind) :
    stream.Reads later [token.span.start] :=
  ⟨[token], moves, .single plain, .refl _⟩

theorem Moves.passes {token : Token} (moves : stream.Moves later [token])
    (plain : Plain token.kind) : stream.Reads later [] :=
  ⟨[token], moves, .single plain, List.nil_subperm⟩

theorem take_passes {real : kind ≠ .eof} {found : Parsed stream Token}
    (taken : stream.take kind cause real = .ok found) (plain : Plain kind := by decide) :
    stream.Reads found.rest [] := by
  obtain ⟨moves, same⟩ := take_moves taken
  exact moves.passes (same ▸ plain)

theorem take?_passes {real : kind ≠ .eof} {found : Parsed stream Token}
    (taken : stream.take? kind real = some found) (plain : Plain kind := by decide) :
    stream.Reads found.rest [] := by
  obtain ⟨moves, same⟩ := take?_moves taken
  exact moves.passes (same ▸ plain)

structure Encloses (stream later : TokenStream) (places : List Nat) : Prop where
  parts : ∃ inside last : TokenStream, ∃ opening closing : Token,
    stream.Moves inside [opening] ∧ opening.kind = .leftBrace ∧ inside.Reads last places ∧
      last.Moves later [closing] ∧ closing.kind = .rightBrace

theorem Encloses.reads (encloses : stream.Encloses later places) : stream.Reads later places := by
  obtain ⟨inside, last, opening, closing, opened, opens, ⟨between, moves, balanced, listed⟩, closed,
    closes⟩ := encloses.parts
  refine ⟨opening :: between ++ [closing], (opened.trans moves).trans closed,
    balanced.braces opens closes, ?_⟩
  rw [List.cons_append, List.map_cons, List.map_append]
  exact (listed.trans (List.sublist_append_left ..).subperm).cons_right _

theorem Moves.expect {token : Token} (moves : stream.Moves later [token])
    (real : token.kind ≠ .eof) (cause : CompileCause) :
    stream.expect token.kind cause = .ok (token, later) := by
  obtain ⟨passed, ahead⟩ := stream
  obtain ⟨further, rest⟩ := later
  obtain ⟨listed, behind⟩ := moves
  dsimp only at listed behind
  subst listed behind
  simp [TokenStream.expect, eat, check, peek, peekAt, advance, real]

/-- A block that can be read is skipped up to where reading it ends, with the same span. -/
theorem skipBlock_of_read {inside last : TokenStream} {opening closing : Token}
    (opened : stream.Moves inside [opening]) (opens : opening.kind = .leftBrace)
    (reads : inside.Reads last places) (closed : last.Moves later [closing])
    (closes : closing.kind = .rightBrace) :
    stream.skipBlock = (.ok (opening.span.cover closing.span), later) := by
  obtain ⟨between, moves, balanced, _⟩ := reads
  have passed : later.passed = closing :: (between.reverse ++ inside.passed) := by
    rw [closed.passed, moves.passed]
    rfl
  have ends : closeBraces inside.passed 1 inside.ahead = (none, later) := by
    rw [moves.ahead, closed.ahead, balanced, List.singleton_append, closeBraces, closes]
    dsimp only
    rw [closeBraces, ← passed]
  have expected := opened.expect (opens ▸ by decide) .missingOpenBlock
  rw [opens] at expected
  simp only [TokenStream.skipBlock, expected, ends, spanSince, previous?, passed, List.head?_cons]

theorem Encloses.skipBlock (encloses : stream.Encloses later places) :
    ∃ span, stream.skipBlock = (.ok span, later) := by
  obtain ⟨inside, last, opening, closing, opened, opens, reads, closed, closes⟩ := encloses.parts
  exact ⟨_, skipBlock_of_read opened opens reads closed closes⟩

theorem closeBraces_moves (passed : List Token) (depth : Nat) (ahead : List Token) :
    ∃ between, (TokenStream.mk passed ahead).Moves (closeBraces passed depth ahead).2 between := by
  fun_induction closeBraces passed depth ahead with
  | case1 | case2 | case5 => exact ⟨[], .refl _⟩
  | case3 passed depth token rest _ ih | case4 passed depth token rest _ ih
  | case6 passed depth token rest _ _ _ ih =>
      obtain ⟨between, moves⟩ := ih
      have first : (TokenStream.mk passed (token :: rest)).Moves ⟨token :: passed, rest⟩ [token] :=
        ⟨rfl, rfl⟩
      exact ⟨token :: between, first.trans moves⟩

theorem skipBlock_moves {span : Span} (skipped : stream.skipBlock = (.ok span, later)) :
    ∃ between, stream.Moves later between := by
  unfold skipBlock at skipped
  split at skipped
  · cases skipped
  · rename_i opening inside opened
    have first : stream.Moves inside [opening] := by
      unfold TokenStream.expect at opened
      split at opened
      · rename_i eaten
        cases opened
        exact (eat_moves eaten (by decide)).1
      · cases opened
    obtain ⟨between, moves⟩ := closeBraces_moves inside.passed 1 inside.ahead
    split at skipped
    · cases skipped
    · rename_i closed
      cases skipped
      rw [closed] at moves
      exact ⟨_, first.trans moves⟩

def Within (stream : TokenStream) (tokens : List Token) : Prop :=
  stream.passed.reverse ++ stream.ahead = tokens

namespace Within

variable {tokens between : List Token}

theorem moves (within : stream.Within tokens) (moves : stream.Moves later between) :
    later.Within tokens := by
  unfold Within at within ⊢
  rw [moves.passed, List.reverse_append, List.reverse_reverse, List.append_assoc, ← moves.ahead,
    within]

theorem reads (within : stream.Within tokens) (reads : stream.Reads later places) :
    later.Within tokens := by
  obtain ⟨between, moves, _⟩ := reads
  exact within.moves moves

theorem seek (within : stream.Within tokens) : (ofTokens tokens).seek stream.position = stream := by
  unfold Within at within
  subst within
  simp [TokenStream.seek, ofTokens, position]

theorem of_seek (place : Nat) : ((ofTokens tokens).seek place).Within tokens := by
  simp [Within, TokenStream.seek, ofTokens]

theorem bounds (within : stream.Within tokens) (moves : stream.Moves later between) :
    between <:+ tokens.take later.position ∧ between <+: tokens.drop stream.position := by
  have further := within.moves moves
  constructor
  · rw [← further, position, ← List.length_reverse, List.take_left, moves.passed,
      List.reverse_append, List.reverse_reverse]
    exact List.suffix_append ..
  · rw [← within, position, ← List.length_reverse, List.drop_left, moves.ahead]
    exact List.prefix_append ..

theorem size_position (within : stream.Within tokens) :
    stream.size + stream.position = tokens.length := by
  rw [← within, List.length_append, List.length_reverse, Nat.add_comm]
  rfl

theorem position_le (within : stream.Within tokens) (also : later.Within tokens)
    (shorter : later.size < stream.size) : stream.position ≤ later.position := by
  have one := within.size_position
  have other := also.size_position
  omega

end Within

end

end TokenStream

open TokenStream

namespace TypeName

theorem arrays_passes {type : DataType} {passed ahead : List Token} :
    (TokenStream.mk passed ahead).Reads (arrays type passed ahead).2 [] := by
  fun_induction arrays type passed ahead with
  | case1 type passed opening closing rest both ih =>
      have first : (TokenStream.mk passed (opening :: closing :: rest)).Moves
          ⟨opening :: passed, closing :: rest⟩ [opening] := ⟨rfl, rfl⟩
      have second : (TokenStream.mk (opening :: passed) (closing :: rest)).Moves
          ⟨closing :: opening :: passed, rest⟩ [closing] := ⟨rfl, rfl⟩
      rw [Bool.and_eq_true, decide_eq_true_eq, decide_eq_true_eq] at both
      exact (first.passes (both.1 ▸ by decide)).behind
        ((second.passes (both.2 ▸ by decide)).behind ih)
  | case2 | case3 => exact .refl _

theorem read?_passes {classes : ClassTable} {stream : TokenStream}
    {found : Parsed stream DataType} (read : read? classes stream = some found) :
    stream.Reads found.rest [] := by
  unfold read? at read
  split at read
  · cases read
  · rename_i type named
    cases read
    have plain : Plain stream.peek.kind := by
      unfold ofToken? at named
      refine ⟨?_, ?_, ?_⟩ <;> intro same <;> simp [same, TokenKind.type?] at named
    exact ((advance_moves plain.2.2).passes plain).behind arrays_passes

end TypeName

namespace Lexer

theorem step_offset (position : Position) (char : Char) :
    position.offset < (position.step char).offset := by
  have wide : 0 < char.utf8Size := char.utf8Size_pos
  unfold Position.step
  split <;> exact Nat.lt_add_of_pos_right wide

theorem past_offset (text : List Char) : ∀ position : Position,
    position.offset ≤ (position.past text).offset := by
  induction text with
  | nil => exact fun _ => Nat.le_refl _
  | cons char rest ih =>
      exact fun position => Nat.le_trans (Nat.le_of_lt (step_offset position char)) (ih _)

theorem skipGap_offset {gap : Gap} {position : Position} {text : List Char}
    {found : Position × List Char} (skipped : skipGap gap position text = .ok found) :
    position.offset ≤ found.1.offset := by
  fun_induction skipGap gap position text with
  | case1 position rest ih | case2 position rest ih | case6 start position rest ih =>
      exact Nat.le_trans (past_offset _ position) (ih skipped)
  | case3 position char rest _ _ blank ih | case5 position char rest ih
  | case7 start position char rest _ ih =>
      exact Nat.le_trans (Nat.le_of_lt (step_offset position char)) (ih skipped)
  | case8 start position => cases skipped
  | case4 position | case9 position | case10 position =>
      cases skipped
      exact Nat.le_refl _

theorem tokensFrom_ascending (position : Position) (text : List Char) :
    (∀ token ∈ (tokensFrom position text).1, position.offset ≤ token.span.start) ∧
      (tokensFrom position text).1.Pairwise fun token later =>
        token.span.start < later.span.start := by
  fun_induction tokensFrom position text with
  | case1 position text error skipped => exact ⟨List.forall_mem_nil _, .nil⟩
  | case2 position text start skipped =>
      refine ⟨fun token only => ?_, List.pairwise_singleton ..⟩
      rw [List.mem_singleton.mp only]
      exact skipGap_offset skipped
  | case3 position text start first more skipped _ piece tail scanned stop error failed =>
      exact ⟨List.forall_mem_nil _, .nil⟩
  | case4 position text start first more skipped _ piece tail scanned stop token made tokens error behind
      ih =>
      have place : token.span.start = start.offset := by
        obtain ⟨kind, -, rfl⟩ := Piece.toToken_eq_ok made
        rfl
      have further : start.offset < stop.offset :=
        Nat.lt_of_lt_of_le (step_offset start first) (past_offset tail _)
      rw [behind] at ih
      refine ⟨fun other among => ?_, List.pairwise_cons.mpr ⟨fun other among => ?_, ih.2⟩⟩
      · rcases List.mem_cons.mp among with rfl | among
        · exact place ▸ skipGap_offset skipped
        · exact Nat.le_trans (skipGap_offset skipped)
            (Nat.le_trans (Nat.le_of_lt further) (ih.1 other among))
      · rw [place]
        exact Nat.lt_of_lt_of_le further (ih.1 other among)

end Lexer

theorem tokenize_ascending {source : String} {tokens : List Token}
    (read : tokenize source = .ok tokens) :
    tokens.Pairwise fun token later => token.span.start < later.span.start := by
  have ascending := (Lexer.tokensFrom_ascending {} source.toList).2
  rw [← Lexer.scanAll, scanAll_of_ok read] at ascending
  exact ascending

end ScriptEngine
