import ScriptEngine.Proofs.Words
/-! String literals. Every text can be written as one, and the lexer and the reader of literals take the
same contents apart in the same way, so that a quote closes a literal for both or for neither. -/

namespace ScriptEngine

namespace Literal

def escape (text : List Char) : List Char :=
  text.flatMap fun char =>
    if char = '"' ∨ char = '\\' ∨ char = '\n' then ['\\', char] else [char]

def quote (text : String) : String := String.ofList ('"' :: (escape text.toList ++ ['"']))

def meaning (char : Char) : Char :=
  if char = 'n' then '\n' else if char = 't' then '\t' else char

/-- What stands between quotes, and the text that it stands for. A backslash has a character behind it,
and a quote or a line end has a backslash before it. -/
inductive Decodes : List Char → List Char → Prop
  | nil : Decodes [] []
  | plain {char : Char} {contents text : List Char} : char ≠ '"' → char ≠ '\\' → char ≠ '\n' →
      Decodes contents text → Decodes (char :: contents) (char :: text)
  | escaped {char : Char} {contents text : List Char} :
      Decodes contents text → Decodes ('\\' :: char :: contents) (meaning char :: text)

/-- Reading escapes from the left comes to a backslash with nothing behind it. -/
def breaksOff : List Char → Bool
  | [] => false
  | ['\\'] => true
  | '\\' :: _ :: rest => breaksOff rest
  | _ :: rest => breaksOff rest

variable {contents text : List Char}

theorem decodes_escape (text : List Char) : Decodes (escape text) text := by
  induction text with
  | nil => exact .nil
  | cons char text ih =>
      by_cases special : char = '"' ∨ char = '\\' ∨ char = '\n'
      · have same : meaning char = char := by
          rcases special with rfl | rfl | rfl <;> rfl
        have decoded := @Decodes.escaped char _ _ ih
        rw [same] at decoded
        simpa [escape, special] using decoded
      · rw [not_or, not_or] at special
        obtain ⟨quote, backslash, lineEnd⟩ := special
        simpa [escape, quote, backslash, lineEnd] using Decodes.plain quote backslash lineEnd ih

theorem unescape_escaped (char : Char) (rest : List Char) :
    unescape ('\\' :: char :: rest) = meaning char :: unescape rest := by
  by_cases lineEnd : char = 'n'
  · subst lineEnd
    rfl
  · by_cases tab : char = 't'
    · subst tab
      rfl
    · rw [meaning, if_neg lineEnd, if_neg tab, unescape]
      · rintro rfl
        exact lineEnd rfl
      · rintro rfl
        exact tab rfl

theorem Decodes.unescape (decodes : Decodes contents text) : unescape contents = text := by
  induction decodes with
  | nil => rfl
  | plain _ backslash _ _ ih =>
      rw [Literal.unescape, ih]
      · exact fun _ same _ => backslash same
      · exact fun _ same _ => backslash same
      · exact fun _ _ same _ => backslash same
  | escaped _ ih => rw [unescape_escaped, ih]

theorem Decodes.breaksOff (decodes : Decodes contents text) : breaksOff contents = false := by
  induction decodes with
  | nil => rfl
  | plain _ backslash _ _ ih =>
      rw [Literal.breaksOff, ih]
      · exact fun same _ => backslash same
      · exact fun _ _ same _ => backslash same
  | escaped _ ih => rw [Literal.breaksOff, ih]

theorem unquote_quoted (contents : List Char) : unquote ('"' :: (contents ++ ['"'])) = contents := by
  simp [unquote]

theorem Decodes.string (decodes : Decodes contents text) :
    string (String.ofList ('"' :: (contents ++ ['"']))) = String.ofList text := by
  rw [Literal.string, String.toList_ofList, unquote_quoted, decodes.unescape]

end Literal

namespace Lexer

open Literal

variable {contents text tail : List Char} {kind : TokenKind}

theorem stringTail_of_decodes (decodes : Decodes contents text) (behind : List Char) :
    stringTail (contents ++ '"' :: behind) = (.token .stringLiteral, contents ++ ['"']) := by
  induction decodes with
  | nil => rfl
  | plain quote backslash lineEnd _ ih =>
      rw [List.cons_append, stringTail, ih, List.cons_append]
      · exact quote
      · exact lineEnd
      · exact fun _ _ same _ => backslash same
  | escaped _ ih => rw [List.cons_append, List.cons_append, stringTail, ih, List.cons_append,
      List.cons_append]

theorem decodes_of_stringTail (scanned : stringTail text = (.token kind, tail)) :
    ∃ contents meant, tail = contents ++ ['"'] ∧ Decodes contents meant := by
  fun_induction stringTail text generalizing tail with
  | case1 | case3 => cases scanned
  | case2 =>
      cases scanned
      exact ⟨[], [], rfl, .nil⟩
  | case4 char rest piece following read ih =>
      cases scanned
      obtain ⟨contents, meant, rfl, decodes⟩ := ih read
      exact ⟨'\\' :: char :: contents, meaning char :: meant, rfl, .escaped decodes⟩
  | case5 char rest quote lineEnd unescaped piece following read ih =>
      cases scanned
      obtain ⟨contents, meant, rfl, decodes⟩ := ih read
      have backslash : char ≠ '\\' := by
        rintro rfl
        cases rest with
        | nil => cases read
        | cons next more => exact unescaped next more rfl rfl
      exact ⟨char :: contents, char :: meant, rfl, .plain quote backslash lineEnd decodes⟩

theorem string_of_scan {first : Char} (scanned : scan first text = (.token .stringLiteral, tail)) :
    first = '"' ∧ ∃ contents meant, tail = contents ++ ['"'] ∧ Decodes contents meant := by
  cases scan_cases scanned with
  | string read => exact ⟨rfl, decodes_of_stringTail read⟩
  | number _ number => exact absurd number (by decide)
  | word _ isWord => exact absurd isWord (by decide)
  | mark isMark => exact absurd isMark (by decide)

/-- The scanner closes a literal at a quote exactly if all before it can be decoded. -/
theorem decodes_iff_scan (contents : List Char) : (∃ text, Decodes contents text) ↔
    ∀ behind, scan '"' (contents ++ '"' :: behind) = (.token .stringLiteral, contents ++ ['"']) := by
  constructor
  · rintro ⟨text, decodes⟩ behind
    exact stringTail_of_decodes decodes behind
  · intro scanned
    obtain ⟨again, text, same, decodes⟩ := decodes_of_stringTail (scanned [])
    obtain rfl := List.append_cancel_right same
    exact ⟨text, decodes⟩

end Lexer

open Lexer Literal

theorem strings_read_back :
    (∀ text, ∃ opening ending,
      tokenize (quote text) = .ok [⟨.stringLiteral, quote text, opening⟩, ⟨.eof, "", ending⟩] ∧
        string (quote text) = text) ∧
    (∀ source, ∀ token ∈ (scanAll source).1, token.kind = .stringLiteral →
      ∃ contents text, token.lexeme = String.ofList ('"' :: (contents ++ ['"'])) ∧
        unquote token.lexeme.toList = contents ∧ Decodes contents text ∧
        breaksOff contents = false ∧ string token.lexeme = String.ofList text) ∧
    (∀ contents, (∃ text, Decodes contents text) ↔
      ∀ behind, scan '"' (contents ++ '"' :: behind) =
        (.token .stringLiteral, contents ++ ['"'])) := by
  refine ⟨fun text => ?_, fun source token among literal => ?_, decodes_iff_scan⟩
  · have decodes := decodes_escape text.toList
    have scanned : scan '"' (escape text.toList ++ ['"'] ++ []) =
        (.token .stringLiteral, escape text.toList ++ ['"']) := by
      rw [List.append_nil]
      exact stringTail_of_decodes decodes []
    obtain ⟨opening, stop, lexed⟩ := tokensFrom_token (by decide) (by decide) scanned {}
    rw [List.append_nil, tokensFrom_nil] at lexed
    refine ⟨opening, stop.spanTo stop, ?_, ?_⟩
    · rw [tokenize, scanAll, quote, String.toList_ofList, lexed]
    · rw [quote, decodes.string, String.ofList_toList]
  · rcases tokensFrom_scanned {} source.toList token among with ended | ⟨first, behind, tail, scanned, spelled⟩
    · rw [ended] at literal
      cases literal
    · rw [literal] at scanned
      obtain ⟨rfl, contents, text, rfl, decodes⟩ := string_of_scan scanned
      refine ⟨contents, text, spelled, ?_, decodes, decodes.breaksOff, ?_⟩
      · rw [spelled, String.toList_ofList, unquote_quoted]
      · rw [spelled, decodes.string]

theorem strings_read_back_of_escapes :
    let token : Token := ⟨.stringLiteral, "\"a\\\"\\\\\"", ⟨1, 1, 0, 7⟩⟩
    token ∈ (scanAll "\"a\\\"\\\\\" x").1 ∧ token.kind = .stringLiteral ∧
      ∃ contents text, token.lexeme = String.ofList ('"' :: (contents ++ ['"'])) ∧
        unquote token.lexeme.toList = contents ∧ Decodes contents text ∧
        breaksOff contents = false ∧ string token.lexeme = String.ofList text := by
  intro token
  have among : token ∈ (scanAll "\"a\\\"\\\\\" x").1 := by decide +kernel
  exact ⟨among, rfl, strings_read_back.2.1 _ token among rfl⟩

end ScriptEngine
