import ScriptEngine.Proofs.Reading
import ScriptEngine.Proofs.Words
/-! What may stand directly behind a number. A decimal without a suffix is never followed by a letter or a
digit: the lexer refuses such a text. Behind a suffix, and behind the digits of a hexadecimal number, it
does not look. -/

namespace ScriptEngine

namespace Lexer

/-- A token of the source is looked for at this place, in front of this text. -/
inductive Starts (source : String) : Position → List Char → Prop
  | first {place : Position} {text : List Char} :
      skipGap .blank {} source.toList = .ok (place, text) → Starts source place text
  | next {place later : Position} {first : Char} {more tail text : List Char} {kind : TokenKind} :
      Starts source place (first :: more) → scan first more = (.token kind, tail) →
      skipGap .blank (place.past (first :: tail)) (more.drop tail.length) = .ok (later, text) →
      Starts source later text

/-- A number stands in front of a text, and nothing behind it goes on with it. -/
def StartsNumber (text : List Char) : Prop :=
  ∃ kind lexeme behind, text = lexeme ++ behind ∧ IsNumeral kind lexeme ∧ Ends kind lexeme behind

def IsHexadecimal (lexeme : String) : Prop :=
  ∃ mark digits, (mark = 'x' ∨ mark = 'X') ∧ lexeme = String.ofList ('0' :: mark :: digits)

section

variable {source : String} {position place : Position} {text tail more : List Char} {first : Char}
  {kind : TokenKind}

theorem skipGap_again {gap : Gap} {found : Position × List Char}
    (skipped : skipGap gap position text = .ok found) :
    skipGap .blank found.1 found.2 = .ok found := by
  fun_induction skipGap gap position text with
  | case1 _ _ ih | case2 _ _ ih | case3 _ _ _ _ _ _ ih | case5 _ _ _ ih | case6 _ _ _ ih
  | case7 _ _ _ _ _ ih => exact ih skipped
  | case4 position char rest line block blank =>
      cases skipped
      rw [skipGap, if_neg blank] <;> assumption
  | case8 => cases skipped
  | case9 | case10 =>
      cases skipped
      rfl

theorem tokensFrom_skipped (skipped : skipGap .blank position text = .ok (place, more)) :
    tokensFrom position text = tokensFrom place more := by
  have again : skipGap .blank place more = .ok (place, more) := skipGap_again skipped
  rw [tokensFrom_eq, tokensFrom_eq place, skipped, again]

theorem Starts.skipped (starts : Starts source place text) :
    skipGap .blank place text = .ok (place, text) := by
  cases starts with
  | first skipped => exact skipGap_again skipped
  | next _ _ skipped => exact skipGap_again skipped

theorem Starts.scanAll (starts : Starts source place text) : ∃ read, scanAll source =
    (read ++ (tokensFrom place text).1, (tokensFrom place text).2) := by
  induction starts with
  | first skipped => exact ⟨[], tokensFrom_skipped skipped⟩
  | @next place later first more tail text kind starts scanned skipped ih =>
      obtain ⟨read, all⟩ := ih
      have here := tokensFrom_eq place (first :: more)
      rw [starts.skipped] at here
      simp only [scanned, Piece.toToken] at here
      rw [tokensFrom_skipped skipped] at here
      rw [here] at all
      exact ⟨read ++ [⟨kind, String.ofList (first :: tail), _⟩], by rw [all, List.append_assoc]; rfl⟩

theorem symbolTail_invalid (first : Char) (text : List Char) :
    (symbolTail first text).1 ≠ .invalidNumber := by
  unfold symbolTail
  split
  case h_16 => split <;> nofun
  all_goals nofun

theorem digit_of_scan (scanned : (scan first text).1 = .invalidNumber) : isDigit first = true := by
  unfold scan at scanned
  split at scanned
  · rcases stringTail_piece text with read | read <;>
      rw [read] at scanned <;> cases scanned
  · split at scanned
    · assumption
    · split at scanned
      · cases scanned
      · exact absurd scanned (symbolTail_invalid first text)

theorem scan_digit (digit : isDigit first = true) : scan first text = numberTail first text := by
  have other : first ≠ '"' := by
    rintro rfl
    exact absurd digit (by decide)
  rw [scan, if_neg other, if_pos digit]

theorem number_of_scan (scanned : scan first text = (.token kind, tail)) (number : IsNumber kind) :
    ∃ behind, text = tail ++ behind ∧ IsNumeral kind (first :: tail) ∧
      Ends kind (first :: tail) behind := by
  obtain ⟨behind, rfl⟩ := taken_of_scan scanned
  obtain ⟨digit, scanned⟩ := numberTail_of_scan scanned number
  have written := numberTail_isNumeral digit scanned
  rw [List.drop_left] at written
  exact ⟨behind, rfl, written⟩

theorem IsNumeral.ne_nil {lexeme : List Char} (isNumeral : IsNumeral kind lexeme) : lexeme ≠ [] := by
  cases isNumeral with
  | decimal isDecimal => cases isDecimal <;> simp_all
  | hexadecimal => exact List.cons_ne_nil _ _

theorem scan_invalid_iff (digit : isDigit first = true) :
    (scan first text).1 = .invalidNumber ↔ ¬ StartsNumber (first :: text) := by
  constructor
  · rintro refused ⟨kind, lexeme, behind, spelled, isNumeral, ends⟩
    obtain ⟨head, tail, rfl⟩ := List.exists_cons_of_ne_nil isNumeral.ne_nil
    rw [List.cons_append] at spelled
    obtain ⟨rfl, rfl⟩ := List.cons.inj spelled
    rw [scan_digit digit, numberTail_of_isNumeral isNumeral ends] at refused
    cases refused
  · intro unwritten
    cases scanned : scan first text with
    | mk piece tail =>
        have read := numberTail_piece first text
        rw [← scan_digit digit, scanned] at read
        rcases read with ⟨kind, number, rfl⟩ | refused
        · obtain ⟨behind, rfl, isNumeral, ends⟩ := number_of_scan scanned number
          exact absurd ⟨kind, first :: tail, behind, rfl, isNumeral, ends⟩ unwritten
        · exact refused

theorem skipGap_unended {gap : Gap} {error : LexError}
    (skipped : skipGap gap position text = .error error) :
    ∃ span, error = .unterminatedComment span := by
  fun_induction skipGap gap position text with
  | case1 _ _ ih | case2 _ _ ih | case3 _ _ _ _ _ _ ih | case5 _ _ _ ih | case6 _ _ _ ih
  | case7 _ _ _ _ _ ih => exact ih skipped
  | case4 | case9 | case10 => cases skipped
  | case8 start position =>
      cases skipped
      exact ⟨_, rfl⟩

/-- Lexing a text stops at a number that is refused only where a token is looked for. -/
theorem tokensFrom_refused {span : Span} (known : ∀ place more,
      skipGap .blank position text = .ok (place, more) → Starts source place more)
    (refused : (tokensFrom position text).2 = some (.invalidNumber span)) :
    ∃ place first more, Starts source place (first :: more) ∧
      (scan first more).1 = .invalidNumber := by
  fun_induction tokensFrom position text with
  | case1 position text error skipped =>
      obtain ⟨span, rfl⟩ := skipGap_unended skipped
      cases refused
  | case2 => cases refused
  | case3 position text start first more skipped _ piece tail scanned stop error failed =>
      refine ⟨start, first, more, known start (first :: more) skipped, ?_⟩
      rw [scanned]
      unfold Piece.toToken at failed
      split at failed <;> cases failed <;> cases refused
      rfl
  | case4 position text start first more skipped _ piece tail scanned stop token made tokens error
      behind ih =>
      rw [behind] at ih
      refine ih (fun place text found => ?_) refused
      obtain ⟨kind, rfl, rfl⟩ := Piece.toToken_eq_ok made
      exact .next (known start (first :: more) skipped) scanned found

theorem past_still {passed : List Char} (still : (position.past passed).offset = position.offset) :
    passed = [] := by
  cases passed with
  | nil => rfl
  | cons char rest =>
      have here := step_offset position char
      have later : (position.step char).offset ≤ (position.past (char :: rest)).offset :=
        past_offset rest (position.step char)
      omega

theorem tokensFrom_head {next : Token} {rest : List Token}
    (lexed : (tokensFrom position text).1 = next :: rest) (here : next.span.start = position.offset)
    (real : next.kind ≠ .eof) :
    ∃ first more tail, text = first :: more ∧ scan first more = (.token next.kind, tail) := by
  rw [tokensFrom_eq] at lexed
  split at lexed
  · cases lexed
  · cases lexed
    exact absurd rfl real
  · rename_i start first more skipped
    obtain ⟨passed, spelled, rfl, -⟩ := skipGap_passes skipped
    dsimp only at lexed
    split at lexed
    · cases lexed
    · rename_i token made
      obtain ⟨kind, piece, rfl⟩ := Piece.toToken_eq_ok made
      cases lexed
      obtain rfl := past_still here
      exact ⟨first, more, _, spelled, Prod.ext piece rfl⟩

theorem tokensFrom_adjoining {earlier next : Token}
    (adjoining : earlier.span.stop = next.span.start) (real : next.kind ≠ .eof)
    (position : Position) (text : List Char)
    (inside : [earlier, next] <:+: (tokensFrom position text).1) :
    ∃ first tail second later following, earlier.lexeme = String.ofList (first :: tail) ∧
      scan first (tail ++ second :: later) = (.token earlier.kind, tail) ∧
      scan second later = (.token next.kind, following) := by
  fun_induction tokensFrom position text with
  | case1 | case3 => simp at inside
  | case2 =>
      have short := inside.length_le
      simp at short
  | case4 position text start first more skipped _ piece tail scanned stop token made tokens error
      behind ih =>
      rw [behind] at ih
      rcases List.infix_cons_iff.mp inside with here | later
      · obtain ⟨rfl, rest, following⟩ := List.cons_prefix_cons.mp here
        obtain ⟨text, rfl⟩ := taken_of_scan scanned
        obtain ⟨kind, rfl, rfl⟩ := Piece.toToken_eq_ok made
        have head : (tokensFrom stop (List.drop tail.length (tail ++ text))).1 = next :: rest := by
          rw [behind, ← following]
          rfl
        rw [List.drop_left] at head
        obtain ⟨second, later, following, rfl, read⟩ := tokensFrom_head head adjoining.symm real
        exact ⟨first, tail, second, later, following, rfl, scanned, read⟩
      · exact ih later

theorem wordPart_of_scan (scanned : scan first text = (.token kind, tail))
    (goesOn : IsWordKind kind ∨ IsNumber kind) : isWordPart first = true := by
  cases scan_cases scanned with
  | string => exact absurd goesOn (by decide)
  | number digit => exact isWordPart_of_isHexDigit (isHexDigit_of_isDigit digit)
  | word starts => exact isWordPart_of_isWordStart starts
  | mark isMark =>
      have other : ∀ kind ∈ TokenKind.marks, ¬ (IsWordKind kind ∨ IsNumber kind) := by decide
      exact absurd goesOn (other kind isMark)

theorem adjoining_number {first second : Char} {tail later following : List Char}
    {kind next : TokenKind} (scanned : scan first (tail ++ second :: later) = (.token kind, tail))
    (number : IsNumber kind) (read : scan second later = (.token next, following))
    (goesOn : IsWordKind next ∨ IsNumber next) :
    kind = .floatLiteral ∨ (IsHexadecimal (String.ofList (first :: tail)) ∧ ¬ IsNumber next) := by
  obtain ⟨behind, same, -, ends⟩ := number_of_scan scanned number
  obtain rfl := List.append_cancel_left same
  have part := wordPart_of_scan read goesOn
  generalize spelled : first :: tail = lexeme at ends
  cases ends with
  | apart apart =>
      rw [apart second rfl] at part
      cases part
  | hexadecimal marked stops =>
      refine Or.inr ⟨⟨_, _, marked, by rw [← spelled]⟩, fun another => ?_⟩
      have digit := isHexDigit_of_isDigit (numberTail_of_scan read another).1
      rw [stops second rfl] at digit
      cases digit
  | suffixed => exact Or.inl rfl

theorem refused_iff (source : String) :
    (∃ span, tokenize source = .error (.invalidNumber span)) ↔ ∃ place first more,
      Starts source place (first :: more) ∧ isDigit first = true ∧
        ¬ StartsNumber (first :: more) := by
  constructor
  · rintro ⟨span, failed⟩
    obtain ⟨place, first, more, starts, invalid⟩ :=
      tokensFrom_refused (fun _ _ skipped => .first skipped) (tokenize_eq_error.mp failed)
    have digit := digit_of_scan invalid
    exact ⟨place, first, more, starts, digit, (scan_invalid_iff digit).mp invalid⟩
  · rintro ⟨place, first, more, starts, digit, unwritten⟩
    obtain ⟨read, all⟩ := starts.scanAll
    have invalid := (scan_invalid_iff digit).mpr unwritten
    have here := tokensFrom_eq place (first :: more)
    rw [starts.skipped] at here
    simp only [invalid, Piece.toToken] at here
    rw [here] at all
    exact ⟨_, tokenize_eq_error.mpr (congrArg Prod.snd all)⟩

end

end Lexer

open Lexer

theorem plain_numbers_stand_apart (source : String) :
    (∀ tokens, tokenize source = .ok tokens → ∀ token next, [token, next] <:+: tokens →
      IsNumber token.kind → token.span.stop = next.span.start →
      IsWordKind next.kind ∨ IsNumber next.kind →
      token.kind = .floatLiteral ∨ (IsHexadecimal token.lexeme ∧ ¬ IsNumber next.kind)) ∧
    (∀ token ∈ (scanAll source).1, IsNumber token.kind →
      IsNumeral token.kind token.lexeme.toList) ∧
    ((∃ span, tokenize source = .error (.invalidNumber span)) ↔ ∃ place first more,
      Starts source place (first :: more) ∧ isDigit first = true ∧
        ¬ StartsNumber (first :: more)) := by
  refine ⟨fun tokens lexed token next inside number adjoining goesOn => ?_,
    fun token among number => ?_, refused_iff source⟩
  · have all : (scanAll source).1 = tokens := congrArg Prod.fst (scanAll_of_ok lexed)
    have real : next.kind ≠ .eof := by
      rintro same
      rw [same] at goesOn
      exact absurd goesOn (by decide)
    rw [← all] at inside
    obtain ⟨first, tail, second, later, following, spelled, scanned, read⟩ :=
      tokensFrom_adjoining adjoining real {} source.toList inside
    rw [spelled]
    exact adjoining_number scanned number read goesOn
  · rcases tokensFrom_scanned {} source.toList token among with ended | ⟨first, behind, tail, read, spelled⟩
    · rw [ended] at number
      exact absurd number (by decide)
    · obtain ⟨-, -, isNumeral, -⟩ := number_of_scan read number
      rw [spelled, String.toList_ofList]
      exact isNumeral

theorem plain_numbers_stand_apart_of_letters :
    (let number : Token := ⟨.intLiteral, "0x1", ⟨1, 1, 0, 3⟩⟩
    let word : Token := ⟨.identifier, "g", ⟨1, 4, 3, 4⟩⟩
    [number, word] <:+: (scanAll "0x1g").1 ∧
      (number.kind = .floatLiteral ∨ (IsHexadecimal number.lexeme ∧ ¬ IsNumber word.kind))) ∧
    ∃ place first more, Starts "12ab" place (first :: more) ∧ isDigit first = true ∧
      ¬ StartsNumber (first :: more) := by
  have lexed : tokenize "0x1g" = .ok [⟨.intLiteral, "0x1", ⟨1, 1, 0, 3⟩⟩,
      ⟨.identifier, "g", ⟨1, 4, 3, 4⟩⟩, ⟨.eof, "", ⟨1, 5, 4, 4⟩⟩] := by decide +kernel
  have refused : tokenize "12ab" = .error (.invalidNumber ⟨1, 1, 0, 4⟩) := by decide +kernel
  have inside := List.infix_append [] [(⟨.intLiteral, "0x1", ⟨1, 1, 0, 3⟩⟩ : Token),
    ⟨.identifier, "g", ⟨1, 4, 3, 4⟩⟩] [⟨.eof, "", ⟨1, 5, 4, 4⟩⟩]
  obtain ⟨apart, -, -⟩ := plain_numbers_stand_apart "0x1g"
  obtain ⟨-, -, unwritten⟩ := plain_numbers_stand_apart "12ab"
  refine ⟨⟨?_, apart _ lexed _ _ inside (by decide) rfl (by decide)⟩, unwritten.mp ⟨_, refused⟩⟩
  rw [scanAll_of_ok lexed]
  exact inside

/-- Behind the digits of a hexadecimal number, and behind a suffix. -/
theorem number_runs_into_word :
    tokenize "0x1g" = .ok [⟨.intLiteral, "0x1", ⟨1, 1, 0, 3⟩⟩, ⟨.identifier, "g", ⟨1, 4, 3, 4⟩⟩,
      ⟨.eof, "", ⟨1, 5, 4, 4⟩⟩] ∧
    tokenize "1.5f2" = .ok [⟨.floatLiteral, "1.5f", ⟨1, 1, 0, 4⟩⟩, ⟨.intLiteral, "2", ⟨1, 5, 4, 5⟩⟩,
      ⟨.eof, "", ⟨1, 6, 5, 5⟩⟩] := by decide +kernel

end ScriptEngine
