import Mathlib.Data.List.DropRight
import Mathlib.Data.List.Infix
import Mathlib.Data.String.Basic
import ScriptEngine.Proofs.Literals
/-! Tokens cover their source. Between them there are blank characters and comments and nothing else,
each token is the text at its place, and its place is what counting the text before it gives. -/

namespace ScriptEngine

/-- Blank characters and comments that end. Behind the last token the end of the source ends a line
comment as well. -/
inductive Filler (last : Bool) : List Char → Prop
  | empty : Filler last []
  | blank {char : Char} {rest : List Char} : isBlank char = true → Filler last rest →
      Filler last (char :: rest)
  | line {body rest : List Char} : '\n' ∉ body → Filler last rest →
      Filler last ('/' :: '/' :: (body ++ '\n' :: rest))
  | block {body rest : List Char} : ¬ ['*', '/'] <:+: body → Filler last rest →
      Filler last ('/' :: '*' :: (body ++ '*' :: '/' :: rest))
  | trailing {body : List Char} : last = true → '\n' ∉ body → Filler last ('/' :: '/' :: body)

def lastLine (text : List Char) : List Char := text.rtakeWhile fun char => char != '\n'

theorem lastLine_concat (text : List Char) (char : Char) :
    lastLine (text ++ [char]) = if char = '\n' then [] else lastLine text ++ [char] := by
  rw [lastLine, List.rtakeWhile_concat]
  by_cases ends : char = '\n'
  · simp [ends]
  · simp [ends, lastLine]

def Span.behind (ahead text : List Char) : Span where
  line := 1 + ahead.count '\n'
  col := String.utf8Len (lastLine ahead) + 1
  start := String.utf8Len ahead
  stop := String.utf8Len ahead + String.utf8Len text

namespace Position

theorem past_append (position : Position) (text more : List Char) :
    position.past (text ++ more) = (position.past text).past more := List.foldl_append

theorem past_counts (text : List Char) :
    let position := ({} : Position).past text
    position.offset = String.utf8Len text ∧ position.line = 1 + text.count '\n' ∧
      position.lineStart + String.utf8Len (lastLine text) = String.utf8Len text := by
  induction text using List.reverseRecOn with
  | nil => exact ⟨rfl, rfl, rfl⟩
  | append_singleton text char ih =>
      obtain ⟨offset, line, lineStart⟩ := ih
      rw [past_append]
      generalize ({} : Position).past text = position at offset line lineStart ⊢
      simp only [past, List.foldl_cons, List.foldl_nil, step, lastLine_concat, List.count_append,
        String.utf8Len_append, String.utf8Len_cons, String.utf8Len_nil]
      by_cases ends : char = '\n'
      · simp [ends, offset, line, Nat.add_assoc]
      · simp [ends, offset, line]
        omega

theorem spanTo_past (ahead text : List Char) :
    (({} : Position).past ahead).spanTo (({} : Position).past (ahead ++ text)) =
      .behind ahead text := by
  obtain ⟨offset, line, lineStart⟩ := past_counts ahead
  have stop := (past_counts (ahead ++ text)).1
  rw [String.utf8Len_append] at stop
  have col : (({} : Position).past ahead).offset - (({} : Position).past ahead).lineStart =
      String.utf8Len (lastLine ahead) := by
    omega
  rw [spanTo, Span.behind, col, offset, line, stop]

end Position

namespace Lexer

def Gap.Passes (last : Bool) (passed : List Char) : Gap → Prop
  | .blank => Filler last passed
  | .lineComment => (last = true ∧ '\n' ∉ passed) ∨
      ∃ body rest, passed = body ++ '\n' :: rest ∧ '\n' ∉ body ∧ Filler last rest
  | .blockComment _ =>
      ∃ body rest, passed = body ++ '*' :: '/' :: rest ∧ ¬ ['*', '/'] <:+: body ∧ Filler last rest

theorem Gap.Passes.line {last : Bool} {passed : List Char}
    (passes : Gap.lineComment.Passes last passed) : Filler last ('/' :: '/' :: passed) := by
  rcases passes with ⟨ends, unended⟩ | ⟨body, rest, rfl, closed, filler⟩
  · exact .trailing ends unended
  · exact .line closed filler

theorem Gap.Passes.block {last : Bool} {start : Position} {passed : List Char}
    (passes : (Gap.blockComment start).Passes last passed) :
    Filler last ('/' :: '*' :: passed) := by
  obtain ⟨body, rest, rfl, closed, filler⟩ := passes
  exact .block closed filler

theorem closing_cons {char : Char} {body rest behind : List Char}
    (goesOn : ∀ tail, char = '*' → body ++ '*' :: '/' :: rest ++ behind = '/' :: tail → False)
    (closed : ¬ ['*', '/'] <:+: body) : ¬ ['*', '/'] <:+: char :: body := by
  intro inside
  rcases List.infix_cons_iff.mp inside with here | later
  · obtain ⟨tail, same⟩ := here
    obtain ⟨first, second⟩ := List.cons.inj same
    exact goesOn (tail ++ '*' :: '/' :: rest ++ behind) first.symm (by simp [← second])
  · exact closed later

theorem skipGap_passes {gap : Gap} {position : Position} {text : List Char}
    {found : Position × List Char} (skipped : skipGap gap position text = .ok found) :
    ∃ passed, text = passed ++ found.2 ∧ found.1 = position.past passed ∧
      gap.Passes found.2.isEmpty passed := by
  fun_induction skipGap gap position text with
  | case1 position rest ih =>
      obtain ⟨passed, rfl, place, passes⟩ := ih skipped
      exact ⟨'/' :: '/' :: passed, rfl, place, passes.line⟩
  | case2 position rest ih =>
      obtain ⟨passed, rfl, place, passes⟩ := ih skipped
      exact ⟨'/' :: '*' :: passed, rfl, place, passes.block⟩
  | case3 position char rest _ _ blank ih =>
      obtain ⟨passed, rfl, place, passes⟩ := ih skipped
      exact ⟨char :: passed, rfl, place, .blank blank passes⟩
  | case4 position char rest _ _ blank =>
      cases skipped
      exact ⟨[], rfl, rfl, .empty⟩
  | case5 position char rest ih =>
      obtain ⟨passed, rfl, place, passes⟩ := ih skipped
      refine ⟨char :: passed, rfl, place, ?_⟩
      by_cases ends : char = '\n'
      · rw [if_pos ends] at passes
        exact Or.inr ⟨[], passed, by rw [ends]; rfl, List.not_mem_nil, passes⟩
      · rw [if_neg ends] at passes
        rcases passes with ⟨last, unended⟩ | ⟨body, rest, rfl, closed, filler⟩
        · exact Or.inl ⟨last, by simp [Ne.symm ends, unended]⟩
        · exact Or.inr ⟨char :: body, rest, rfl, by simp [Ne.symm ends, closed], filler⟩
  | case6 start position rest ih =>
      obtain ⟨passed, rfl, place, passes⟩ := ih skipped
      exact ⟨'*' :: '/' :: passed, rfl, place, [], passed, rfl, by simp, passes⟩
  | case7 start position char rest goesOn ih =>
      obtain ⟨passed, rfl, place, body, behind, rfl, closed, filler⟩ := ih skipped
      exact ⟨char :: (body ++ '*' :: '/' :: behind), rfl, place, char :: body, behind, rfl,
        closing_cons goesOn closed, filler⟩
  | case8 start position => cases skipped
  | case9 position =>
      cases skipped
      exact ⟨[], rfl, rfl, .empty⟩
  | case10 position =>
      cases skipped
      exact ⟨[], rfl, rfl, Or.inl ⟨rfl, List.not_mem_nil⟩⟩

theorem prefix_append {first second text : List Char} (here : first <+: text)
    (behind : second <+: text.drop first.length) : first ++ second <+: text := by
  obtain ⟨rest, rfl⟩ := here
  rw [List.drop_left] at behind
  exact (List.prefix_append_right_inj first).mpr behind

theorem stringTail_taken (text : List Char) : (stringTail text).2 <+: text := by
  fun_induction stringTail text with
  | case1 => exact List.prefix_rfl
  | case2 rest | case3 rest => exact ⟨rest, rfl⟩
  | case4 char rest piece tail read ih =>
      rw [read] at ih
      simpa using ih
  | case5 char rest _ _ _ piece tail read ih =>
      rw [read] at ih
      simpa using ih

theorem fractionPart_taken (text : List Char) : fractionPart text <+: text := by
  unfold fractionPart
  split
  · split
    · simpa using List.takeWhile_prefix _
    · exact List.nil_prefix
  · exact List.nil_prefix

theorem exponentPart_taken (text : List Char) :
    (exponentPart text).1 ++ (exponentPart text).2 <+: text := by
  have signed : ∀ mark rest, (exponentPart.signed mark rest).1 ++ (exponentPart.signed mark rest).2 <+:
      mark :: rest := by
    intro mark rest
    unfold exponentPart.signed
    split <;> simpa using List.takeWhile_prefix _
  unfold exponentPart
  split
  · exact signed ..
  · exact signed ..
  · exact List.nil_prefix

theorem decimalTail_taken (text : List Char) : (decimalTail text).2 <+: text := by
  let whole := text.takeWhile isDigit
  let mantissa := whole ++ fractionPart (text.drop whole.length)
  let power := exponentPart (text.drop mantissa.length)
  have wholeFits : whole <+: text := List.takeWhile_prefix isDigit
  have mantissaFits : mantissa <+: text := prefix_append wholeFits (fractionPart_taken _)
  have number : mantissa ++ power.1 ++ power.2 <+: text := by
    rw [List.append_assoc]
    exact prefix_append mantissaFits (exponentPart_taken _)
  unfold decimalTail
  dsimp only
  split
  · exact number
  · split
    · rename_i rest suffixed
      exact prefix_append number ⟨rest, by rw [suffixed]; rfl⟩
    · rename_i rest suffixed
      exact prefix_append number ⟨rest, by rw [suffixed]; rfl⟩
    · split
      · exact prefix_append number (List.takeWhile_prefix _)
      · split <;> exact number

theorem scan_taken (first : Char) (text : List Char) : (scan first text).2 <+: text := by
  unfold scan
  split
  · exact stringTail_taken text
  · split
    · unfold numberTail
      split
      · simpa [hexTail] using List.takeWhile_prefix _
      · simpa [hexTail] using List.takeWhile_prefix _
      · exact decimalTail_taken text
    · split
      · exact List.takeWhile_prefix _
      · unfold symbolTail
        split
        case h_16 =>
          split
          · rename_i rest
            exact ⟨rest, rfl⟩
          · exact List.nil_prefix
        all_goals exact List.nil_prefix

theorem taken_of_scan {first : Char} {text tail : List Char} {piece : Piece}
    (scanned : scan first text = (piece, tail)) : ∃ behind, text = tail ++ behind := by
  have taken := scan_taken first text
  rw [scanned] at taken
  obtain ⟨behind, same⟩ := taken
  exact ⟨behind, same.symm⟩

end Lexer

inductive Token.Laid : List Char → List Char → List Token → Prop
  | ended {ahead gap : List Char} : Filler true gap →
      Laid ahead gap [⟨.eof, "", .behind (ahead ++ gap) []⟩]
  | word {ahead gap lexeme behind : List Char} {kind : TokenKind} {tokens : List Token} :
      Filler false gap → lexeme ≠ [] → kind ≠ .eof →
      Laid (ahead ++ gap ++ lexeme) behind tokens →
      Laid ahead (gap ++ (lexeme ++ behind))
        (⟨kind, String.ofList lexeme, .behind (ahead ++ gap) lexeme⟩ :: tokens)

theorem Lexer.tokensFrom_laid (position : Position) (text : List Char) :
    ∀ ahead, position = ({} : Position).past ahead → (tokensFrom position text).2 = none →
      Token.Laid ahead text (tokensFrom position text).1 := by
  fun_induction tokensFrom position text with
  | case1 | case3 =>
      intro ahead place clean
      cases clean
  | case2 position text start skipped =>
      intro ahead place clean
      obtain ⟨gap, rfl, reached, filler⟩ := skipGap_passes skipped
      rw [place, ← Position.past_append] at reached
      dsimp only at reached
      rw [reached, List.append_nil]
      have span := Position.spanTo_past (ahead ++ gap) []
      rw [List.append_nil] at span
      rw [span]
      exact .ended filler
  | case4 position text start first more skipped _ piece tail scanned stop token made tokens error
      behind ih =>
      intro ahead place clean
      obtain ⟨gap, rfl, reached, filler⟩ := skipGap_passes skipped
      rw [place, ← Position.past_append] at reached
      dsimp only at reached
      have ended : stop = ({} : Position).past (ahead ++ gap ++ first :: tail) := by
        rw [Position.past_append, ← reached]
      have later := ih _ ended (by rw [behind]; exact clean)
      rw [behind] at later
      obtain ⟨rest, rfl⟩ := taken_of_scan scanned
      rw [List.drop_left] at later
      obtain ⟨kind, rfl, rfl⟩ := Piece.toToken_eq_ok made
      rw [ended, reached, Position.spanTo_past]
      exact .word filler (List.cons_ne_nil _ _) (scan_real scanned) later

def textBetween (source : String) (start stop : Nat) : String :=
  String.Pos.Raw.extract source ⟨start⟩ ⟨stop⟩

theorem textBetween_ofList (ahead text behind : List Char) :
    textBetween (String.ofList (ahead ++ text ++ behind)) (String.utf8Len ahead)
      (String.utf8Len ahead + String.utf8Len text) = String.ofList text :=
  String.extract_of_valid ahead text behind

def GapsFilled (source : String) : Nat → List Token → Prop
  | _, [] => True
  | place, token :: rest =>
      Filler rest.isEmpty (textBetween source place token.span.start).toList ∧
        GapsFilled source token.span.stop rest

namespace Token.Laid

variable {ahead text : List Char} {tokens : List Token}

theorem found (laid : Laid ahead text tokens) {token : Token} (among : token ∈ tokens) :
    ∃ passed lexeme behind, text = passed ++ lexeme ++ behind ∧
      token.lexeme = String.ofList lexeme ∧ token.span = .behind (ahead ++ passed) lexeme := by
  induction laid with
  | @ended ahead gap filler =>
      rw [List.mem_singleton.mp among]
      exact ⟨gap, [], [], by simp, rfl, rfl⟩
  | @word ahead gap lexeme behind kind tokens filler visible real later ih =>
      rcases List.mem_cons.mp among with rfl | among
      · exact ⟨gap, lexeme, behind, (List.append_assoc ..).symm, rfl, rfl⟩
      · obtain ⟨passed, spelling, rest, rfl, spelled, span⟩ := ih among
        refine ⟨gap ++ lexeme ++ passed, spelling, rest, by simp, spelled, ?_⟩
        rw [span]
        simp only [List.append_assoc]

theorem ordered (laid : Laid ahead text tokens) :
    tokens.Pairwise fun token later => token.span.stop ≤ later.span.start := by
  induction laid with
  | ended => exact List.pairwise_singleton ..
  | word filler visible real later ih =>
      refine List.pairwise_cons.mpr ⟨fun other among => ?_, ih⟩
      obtain ⟨passed, spelling, rest, -, -, span⟩ := later.found among
      simp only [span, Span.behind, String.utf8Len_append]
      omega

theorem ends (laid : Laid ahead text tokens) :
    ∃ words, tokens = words ++ [⟨.eof, "", .behind (ahead ++ text) []⟩] ∧
      ∀ token ∈ words, token.kind ≠ .eof ∧ token.lexeme ≠ "" := by
  induction laid with
  | ended => exact ⟨[], rfl, List.forall_mem_nil _⟩
  | @word ahead gap lexeme behind kind tokens filler visible real later ih =>
      obtain ⟨words, rfl, genuine⟩ := ih
      refine ⟨⟨kind, String.ofList lexeme, .behind (ahead ++ gap) lexeme⟩ :: words, ?_,
        List.forall_mem_cons.mpr ⟨⟨real, ?_⟩, genuine⟩⟩
      · simp only [List.append_assoc, List.cons_append]
      · simpa using visible

theorem filled (laid : Laid ahead text tokens) :
    GapsFilled (String.ofList (ahead ++ text)) (String.utf8Len ahead) tokens := by
  induction laid with
  | @ended ahead gap filler =>
      have between := textBetween_ofList ahead gap []
      rw [List.append_nil] at between
      refine ⟨?_, trivial⟩
      rw [Span.behind, String.utf8Len_append, between, String.toList_ofList]
      exact filler
  | @word ahead gap lexeme behind kind tokens filler visible real later ih =>
      have between := textBetween_ofList ahead gap (lexeme ++ behind)
      have unfinished : tokens.isEmpty = false := by
        cases later <;> rfl
      rw [List.append_assoc] at between
      refine ⟨?_, ?_⟩
      · rw [unfinished]
        simpa only [Span.behind, String.utf8Len_append, between, String.toList_ofList] using filler
      · simpa only [Span.behind, String.utf8Len_append, List.append_assoc, Nat.add_assoc] using ih

end Token.Laid

/-- Tokens from which, with what stands between them, the source can be read back, each at the place
that the text before it gives. -/
structure Lossless (source : String) (tokens : List Token) : Prop where
  ends : ∃ words span, tokens = words ++ [⟨.eof, "", span⟩] ∧
    span.start = source.utf8ByteSize ∧ span.stop = source.utf8ByteSize ∧
    ∀ token ∈ words, token.kind ≠ .eof ∧ token.lexeme ≠ ""
  ordered : tokens.Pairwise fun token later => token.span.stop ≤ later.span.start
  spelled : ∀ token ∈ tokens, token.span.start + token.lexeme.utf8ByteSize = token.span.stop ∧
    textBetween source token.span.start token.span.stop = token.lexeme
  filled : GapsFilled source 0 tokens
  placed : ∀ token ∈ tokens,
    token.span.line = 1 + (textBetween source 0 token.span.start).toList.count '\n' ∧
    token.span.col =
      String.utf8Len (lastLine (textBetween source 0 token.span.start).toList) + 1

theorem tokenize_laid {source : String} {tokens : List Token}
    (lexed : tokenize source = .ok tokens) : Token.Laid [] source.toList tokens := by
  have all := scanAll_of_ok lexed
  have laid := Lexer.tokensFrom_laid {} source.toList [] rfl (congrArg Prod.snd all)
  rw [← Lexer.scanAll, all] at laid
  exact laid

theorem tokens_cover_source {source : String} {tokens : List Token}
    (lexed : tokenize source = .ok tokens) : Lossless source tokens := by
  have laid := tokenize_laid lexed
  have found : ∀ token ∈ tokens, ∃ passed lexeme behind,
      source = String.ofList (passed ++ lexeme ++ behind) ∧
        token.lexeme = String.ofList lexeme ∧ token.span = .behind passed lexeme := by
    intro token among
    obtain ⟨passed, lexeme, behind, all, spelled, span⟩ := laid.found among
    exact ⟨passed, lexeme, behind, by rw [← all, String.ofList_toList], spelled, span⟩
  refine ⟨?_, laid.ordered, ?_, ?_, ?_⟩
  · obtain ⟨words, same, genuine⟩ := laid.ends
    refine ⟨words, _, same, ?_, ?_, genuine⟩ <;> simp [Span.behind]
  · intro token among
    obtain ⟨passed, lexeme, behind, rfl, spelled, span⟩ := found token among
    rw [span, spelled]
    exact ⟨by rw [String.utf8ByteSize_ofList]; rfl, textBetween_ofList passed lexeme behind⟩
  · simpa using laid.filled
  · intro token among
    obtain ⟨passed, lexeme, behind, rfl, spelled, span⟩ := found token among
    have before := textBetween_ofList [] passed (lexeme ++ behind)
    rw [List.nil_append, String.utf8Len_nil, Nat.zero_add, ← List.append_assoc] at before
    rw [span]
    simp only [Span.behind, before, String.toList_ofList, and_self]

theorem tokens_cover_source_of_broken_lines :
    let source := "/* ä\n*/ \"é\\\n\" + x // end"
    let tokens : List Token := [
      ⟨.stringLiteral, "\"é\\\n\"", ⟨2, 4, 9, 15⟩⟩, ⟨.plus, "+", ⟨3, 3, 16, 17⟩⟩,
      ⟨.identifier, "x", ⟨3, 5, 18, 19⟩⟩, ⟨.eof, "", ⟨3, 13, 26, 26⟩⟩]
    tokenize source = .ok tokens ∧ Lossless source tokens := by
  intro source tokens
  have lexed : tokenize source = .ok tokens := by decide +kernel
  exact ⟨lexed, tokens_cover_source lexed⟩

end ScriptEngine
