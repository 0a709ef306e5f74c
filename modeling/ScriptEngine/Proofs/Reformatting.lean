import ScriptEngine.Proofs.Adjoining
import ScriptEngine.Proofs.Quoting
/-! What stands between tokens means nothing. A token is scanned for the same kind wherever a blank or a
slash stands behind it, so the tokens of a source come back from every text in which their lexemes stand
in this order and apart. -/

namespace ScriptEngine

def Token.word (token : Token) : TokenKind × String := (token.kind, token.lexeme)

def LexesAs (source : String) (words : List (TokenKind × String)) : Prop :=
  ∃ tokens, tokenize source = .ok tokens ∧ tokens.map Token.word = words

namespace Lexer

def Parted (lexeme : String) (behind : List Char) : Prop :=
  ∀ char ∈ behind.head?, isBlank char = true ∨ (char = '/' ∧ lexeme ≠ "/")

/-- Lexemes in this order, with blank characters and comments around them. -/
inductive Spaced : List String → List Char → Prop
  | ended {gap : List Char} : Filler true gap → Spaced [] gap
  | word {gap behind : List Char} {lexeme : String} {lexemes : List String} : Filler false gap →
      Parted lexeme behind → Spaced lexemes behind →
      Spaced (lexeme :: lexemes) (gap ++ (lexeme.toList ++ behind))

variable {position : Position} {first : Char} {text tail body behind : List Char} {kind : TokenKind}

theorem Parted.apart {lexeme : String} (parted : Parted lexeme behind) :
    Apart behind ∧ fractionPart behind = [] := by
  cases behind with
  | nil => exact ⟨.nil, rfl⟩
  | cons char rest =>
      rcases parted char rfl with blank | ⟨rfl, -⟩
      · constructor
        · apply Apart.cons
          apply Bool.eq_false_iff.mpr
          intro part
          rw [visible_of_isWordPart part] at blank
          cases blank
        · unfold fractionPart
          split
          · rename_i same
            rw [(List.cons.inj same).1] at blank
            exact absurd blank (by decide)
          · rfl
      · exact ⟨.cons (by decide) rest, rfl⟩

theorem scan_apart (scanned : scan first text = (.token kind, tail)) (apart : Apart behind)
    (bare : fractionPart behind = []) : scan first (tail ++ behind) = (.token kind, tail) := by
  cases scan_cases scanned with
  | string read =>
      obtain ⟨contents, meant, rfl, decodes⟩ := decodes_of_stringTail read
      rw [List.append_assoc]
      exact stringTail_of_decodes decodes behind
  | number digit number =>
      obtain ⟨-, -, isNumeral, -⟩ := number_of_scan scanned number
      rw [scan_digit digit]
      exact numberTail_of_isNumeral isNumeral (.apart apart fun _ => bare)
  | word starts _ read =>
      obtain ⟨same, rfl⟩ := Prod.mk.inj read
      rw [scan_word starts (fun _ => List.mem_takeWhile_imp) apart, ← same]
      rfl
  | mark _ read => exact (symbolTail_mark read).2.2 behind

theorem visible_of_scan (scanned : scan first text = (.token kind, tail)) :
    isBlank first = false := by
  cases scan_cases scanned with
  | string => decide
  | number digit => exact visible_of_isWordPart (isWordPart_of_isHexDigit (isHexDigit_of_isDigit digit))
  | word starts => exact (isWordStart_plain starts).1
  | mark _ read => exact (symbolTail_mark read).2.1

theorem skipGap_line (unended : '\n' ∉ body) (position : Position) (text : List Char) :
    skipGap .lineComment position (body ++ '\n' :: text) =
      skipGap .blank (position.past (body ++ ['\n'])) text := by
  induction body generalizing position with
  | nil => rfl
  | cons char body ih =>
      rw [List.mem_cons, not_or] at unended
      rw [List.cons_append, skipGap, if_neg (Ne.symm unended.1), ih unended.2]
      rfl

theorem skipGap_trailing (unended : '\n' ∉ body) (position : Position) :
    skipGap .lineComment position body = .ok (position.past body, []) := by
  induction body generalizing position with
  | nil => rfl
  | cons char body ih =>
      rw [List.mem_cons, not_or] at unended
      rw [skipGap, if_neg (Ne.symm unended.1), ih unended.2]
      rfl

theorem skipGap_block {start : Position} (closed : ¬ ['*', '/'] <:+: body) (position : Position)
    (text : List Char) :
    skipGap (.blockComment start) position (body ++ '*' :: '/' :: text) =
      skipGap .blank (position.past (body ++ ['*', '/'])) text := by
  induction body generalizing position with
  | nil => rfl
  | cons char body ih =>
      have goesOn : ∀ rest, char = '*' → body ++ '*' :: '/' :: text = '/' :: rest → False := by
        rintro rest rfl same
        cases body with
        | nil => cases same
        | cons next body =>
            obtain ⟨rfl, -⟩ := List.cons.inj same
            exact closed (List.prefix_append ['*', '/'] body).isInfix
      have later : ¬ ['*', '/'] <:+: body := fun inside =>
        closed (inside.trans (List.suffix_cons char body).isInfix)
      rw [List.cons_append, skipGap, ih later]
      · rfl
      · exact goesOn

theorem skipGap_filler {last : Bool} {gap : List Char} (filler : Filler last gap)
    (ends : last = true → text = []) (position : Position) :
    skipGap .blank position (gap ++ text) = skipGap .blank (position.past gap) text := by
  induction filler generalizing position with
  | empty => rfl
  | @blank char rest blank _ ih =>
      have other : char ≠ '/' := by
        rintro rfl
        exact absurd blank (by decide)
      rw [List.cons_append, skipGap, if_pos blank, ih]
      · rfl
      · exact fun _ same _ => absurd same other
      · exact fun _ same _ => absurd same other
  | @line body rest unended _ ih =>
      have passed := skipGap_line unended (position.past ['/', '/']) (rest ++ text)
      rw [ih] at passed
      simpa [skipGap, Position.past] using passed
  | @block body rest closed _ ih =>
      have passed := @skipGap_block body position closed (position.past ['/', '*']) (rest ++ text)
      rw [ih] at passed
      simpa [skipGap, Position.past] using passed
  | @trailing body last unended =>
      rw [ends last, List.append_nil]
      exact skipGap_trailing unended _

theorem Parted.alone (scanned : scan first text = (.token kind, tail))
    (parted : Parted (String.ofList (first :: tail)) behind) (slash : first = '/') :
    ∀ char ∈ (tail ++ behind).head?, char ≠ '/' ∧ char ≠ '*' := by
  subst slash
  have bare : tail = [] := congrArg Prod.snd scanned.symm
  subst bare
  intro char next
  rcases parted char next with blank | ⟨-, other⟩
  · constructor <;> rintro rfl <;> exact absurd blank (by decide)
  · exact absurd rfl other

def IsScanned (word : TokenKind × String) : Prop :=
  ∃ first behind tail, scan first behind = (.token word.1, tail) ∧
    word.2 = String.ofList (first :: tail)

theorem Spaced.lexed {words : List (TokenKind × String)} (each : ∀ word ∈ words, IsScanned word)
    (spaced : Spaced (words.map Prod.snd) text) (position : Position) :
    ∃ tokens, tokensFrom position text = (tokens, none) ∧
      tokens.map Token.word = words ++ [(.eof, "")] := by
  induction words generalizing text position with
  | nil =>
      cases spaced with
      | ended filler =>
          have passed := skipGap_filler filler (fun _ => rfl) position
          rw [List.append_nil] at passed
          rw [tokensFrom_eq, passed]
          exact ⟨_, rfl, rfl⟩
  | cons word words ih =>
      obtain ⟨⟨first, further, tail, scanned, spelled⟩, each⟩ := List.forall_mem_cons.mp each
      cases spaced with
      | @word gap behind _ _ filler parted spaced =>
          obtain ⟨apart, bare⟩ := parted.apart
          rw [spelled] at parted ⊢
          have passed : skipGap .blank position (gap ++ first :: (tail ++ behind)) =
              skipGap .blank (position.past gap) (first :: (tail ++ behind)) :=
            skipGap_filler filler nofun position
          have reached := skipGap_visible (visible_of_scan scanned) (parted.alone scanned)
            (position.past gap)
          obtain ⟨span, stop, read⟩ := tokensFrom_reached reached (scan_apart scanned apart bare)
          obtain ⟨tokens, rest, same⟩ := ih each spaced stop
          rw [String.toList_ofList, List.cons_append, tokensFrom_skipped (passed.trans reached), read,
            rest]
          refine ⟨_, rfl, ?_⟩
          rw [List.map_cons, same, Token.word, ← spelled]
          rfl

theorem Spaced.lexesAs {words : List Token} (each : ∀ word ∈ words, IsScanned word.word)
    (spaced : Spaced (words.map Token.lexeme) text) :
    LexesAs (String.ofList text) (words.map Token.word ++ [Token.endOfInput.word]) := by
  have lexemes : (words.map Token.word).map Prod.snd = words.map Token.lexeme := by
    rw [List.map_map]
    rfl
  rw [← lexemes] at spaced
  obtain ⟨tokens, lexed, same⟩ := spaced.lexed (List.forall_mem_map.mpr each) {}
  exact ⟨tokens, by rw [tokenize, scanAll, String.toList_ofList, lexed], same⟩

theorem Spaced.blank {lexemes : List String} (spaced : Spaced lexemes text) :
    Spaced lexemes (' ' :: text) := by
  have blank : isBlank ' ' = true := by decide
  cases spaced with
  | ended filler => exact .ended (.blank blank filler)
  | word filler parted spaced => exact .word (.blank blank filler) parted spaced

theorem spaced_intercalate (lexemes : List String) :
    Spaced lexemes (" ".intercalate (lexemes ++ [""])).toList := by
  induction lexemes with
  | nil => exact .ended .empty
  | cons lexeme lexemes ih =>
      have parted : Parted lexeme (' ' :: (" ".intercalate (lexemes ++ [""])).toList) := by
        rintro _ ⟨⟩
        exact Or.inl (by decide)
      have joined : " ".intercalate (lexeme :: (lexemes ++ [""])) =
          lexeme ++ " " ++ " ".intercalate (lexemes ++ [""]) := by
        cases lexemes <;> exact String.intercalate_cons_cons
      rw [List.cons_append, joined, String.toList_append, String.toList_append, List.append_assoc]
      exact .word .empty parted ih.blank

end Lexer

/-- Tokens that come back from every text in which their lexemes stand in this order and apart, in
particular with single spaces between them, and each from its lexeme alone. -/
structure Reformattable (tokens : List Token) : Prop where
  joined : LexesAs (" ".intercalate (tokens.map Token.lexeme)) (tokens.map Token.word)
  spaced : ∀ text, Lexer.Spaced (tokens.dropLast.map Token.lexeme) text →
    LexesAs (String.ofList text) (tokens.map Token.word)
  alone : ∀ token ∈ tokens, token.kind ≠ .eof →
    LexesAs token.lexeme [token.word, Token.endOfInput.word]

open Lexer

theorem lexing_survives_reformatting {source : String} {tokens : List Token}
    (lexed : tokenize source = .ok tokens) : Reformattable tokens := by
  have scanned : ∀ token ∈ tokens, token.kind ≠ .eof → IsScanned token.word :=
    fun token among real => (tokenize_scanned lexed token among).resolve_left real
  obtain ⟨words, rfl, real⟩ := (tokenize_laid lexed).ends
  have each : ∀ word ∈ words, IsScanned word.word := fun word among =>
    scanned word (List.mem_append_left _ among) (real word among).1
  refine ⟨?_, fun text spaced => ?_, fun token among other => ?_⟩
  · have lexes := (spaced_intercalate (words.map Token.lexeme)).lexesAs each
    rw [String.ofList_toList] at lexes
    rw [List.map_append, List.map_append]
    exact lexes
  · rw [List.dropLast_concat] at spaced
    rw [List.map_append]
    exact spaced.lexesAs each
  · have only : ∀ word ∈ [token], IsScanned word.word :=
      List.forall_mem_singleton.mpr (scanned token among other)
    have spaced : Spaced ([token].map Token.lexeme) ([] ++ (token.lexeme.toList ++ [])) :=
      .word .empty nofun (.ended .empty)
    have lexes := spaced.lexesAs only
    rw [List.nil_append, List.append_nil, String.ofList_toList] at lexes
    exact lexes

theorem lexing_survives_reformatting_of_marks :
    let tokens : List Token := [⟨.identifier, "a", ⟨1, 1, 0, 1⟩⟩, ⟨.slash, "/", ⟨1, 2, 1, 2⟩⟩,
      ⟨.star, "*", ⟨1, 4, 3, 4⟩⟩, ⟨.floatLiteral, "1.5f", ⟨1, 5, 4, 8⟩⟩, ⟨.dot, ".", ⟨1, 9, 8, 9⟩⟩,
      ⟨.intLiteral, "0x2", ⟨1, 10, 9, 12⟩⟩, ⟨.stringLiteral, "\"\\\"\"", ⟨1, 13, 12, 16⟩⟩,
      ⟨.eof, "", ⟨1, 23, 22, 22⟩⟩]
    tokenize "a/ *1.5f.0x2\"\\\"\"// end" = .ok tokens ∧ Reformattable tokens := by
  intro tokens
  have lexed : tokenize "a/ *1.5f.0x2\"\\\"\"// end" = .ok tokens := by decide +kernel
  exact ⟨lexed, lexing_survives_reformatting lexed⟩

end ScriptEngine
