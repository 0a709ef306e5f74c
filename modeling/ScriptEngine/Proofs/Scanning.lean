import ScriptEngine.Proofs.Numerals
/-! How one token is scanned. A string, a number, a word and a mark start with different characters, and
what the scanner calls them tells them apart again. -/

namespace ScriptEngine

def TokenKind.marks : List TokenKind :=
  [.leftParen, .rightParen, .leftBrace, .rightBrace, .leftBracket, .rightBracket, .semicolon, .comma,
    .dot, .colonColon, .tilde, .plus, .minus, .star, .slash, .equal]

namespace Lexer

def IsNumber (kind : TokenKind) : Prop :=
  kind = .intLiteral ∨ kind = .floatLiteral ∨ kind = .doubleLiteral

instance (kind : TokenKind) : Decidable (IsNumber kind) :=
  inferInstanceAs (Decidable (_ ∨ _ ∨ _))

def IsWordKind (kind : TokenKind) : Prop := kind = .identifier ∨ kind ∈ TokenKind.keywords

instance (kind : TokenKind) : Decidable (IsWordKind kind) :=
  inferInstanceAs (Decidable (_ ∨ _))

def wordKind (word : String) : TokenKind := (TokenKind.keyword? word).getD .identifier

inductive Scans (text : List Char) : Char → TokenKind → List Char → Prop
  | string {tail : List Char} : stringTail text = (.token .stringLiteral, tail) →
      Scans text '"' .stringLiteral tail
  | number {first : Char} {kind : TokenKind} {tail : List Char} : isDigit first = true →
      IsNumber kind → numberTail first text = (.token kind, tail) → Scans text first kind tail
  | word {first : Char} {kind : TokenKind} {tail : List Char} : isWordStart first = true →
      IsWordKind kind → wordTail first text = (.token kind, tail) → Scans text first kind tail
  | mark {first : Char} {kind : TokenKind} {tail : List Char} : kind ∈ TokenKind.marks →
      symbolTail first text = (.token kind, tail) → Scans text first kind tail

variable {first : Char} {text tail : List Char} {kind : TokenKind}

theorem stringTail_piece (text : List Char) : (stringTail text).1 = .token .stringLiteral ∨
    (stringTail text).1 = .unterminatedString := by
  fun_induction stringTail text with
  | case1 | case3 => exact Or.inr rfl
  | case2 => exact Or.inl rfl
  | case4 _ _ _ _ read ih | case5 _ _ _ _ _ _ _ read ih =>
      rw [read] at ih
      exact ih

theorem stringTail_kind (scanned : stringTail text = (.token kind, tail)) :
    kind = .stringLiteral := by
  rcases stringTail_piece text with read | read <;> rw [scanned] at read <;> cases read
  rfl

theorem numberTail_piece (first : Char) (text : List Char) :
    (∃ kind, IsNumber kind ∧ (numberTail first text).1 = .token kind) ∨
      (numberTail first text).1 = .invalidNumber := by
  have hex (mark : Char) (text : List Char) :
      (∃ kind, IsNumber kind ∧ (hexTail mark text).1 = .token kind) ∨
        (hexTail mark text).1 = .invalidNumber := by
    unfold hexTail
    dsimp only
    split
    · exact Or.inr rfl
    · exact Or.inl ⟨.intLiteral, by decide, rfl⟩
  unfold numberTail
  split
  · exact hex ..
  · exact hex ..
  · unfold decimalTail
    dsimp only
    split
    · exact Or.inr rfl
    · split
      · exact Or.inl ⟨.floatLiteral, by decide, rfl⟩
      · exact Or.inl ⟨.floatLiteral, by decide, rfl⟩
      · split
        · exact Or.inr rfl
        · split
          · exact Or.inl ⟨.intLiteral, by decide, rfl⟩
          · exact Or.inl ⟨.doubleLiteral, by decide, rfl⟩

theorem numberTail_number (scanned : numberTail first text = (.token kind, tail)) :
    IsNumber kind := by
  rcases numberTail_piece first text with ⟨other, number, read⟩ | read <;>
    rw [scanned] at read <;> cases read
  exact number

theorem wordKind_isWordKind (word : String) : IsWordKind (wordKind word) := by
  cases known : TokenKind.keyword? word with
  | none =>
      rw [wordKind, known]
      exact Or.inl rfl
  | some kind =>
      rw [wordKind, known, Option.getD_some]
      unfold TokenKind.keyword? at known
      split at known
      · cases known
        decide
      · exact Or.inr (List.mem_of_find?_eq_some known)

theorem symbolTail_mark (scanned : symbolTail first text = (.token kind, tail)) :
    kind ∈ TokenKind.marks ∧ isBlank first = false ∧
      ∀ behind, scan first (tail ++ behind) = (.token kind, tail) := by
  unfold symbolTail at scanned
  split at scanned
  case h_16 =>
    split at scanned <;> cases scanned
    exact ⟨by decide, by decide, fun _ => rfl⟩
  all_goals cases scanned
  all_goals exact ⟨by decide, by decide, fun _ => rfl⟩

theorem scan_cases (scanned : scan first text = (.token kind, tail)) : Scans text first kind tail := by
  unfold scan at scanned
  split at scanned
  · rename_i quote
    obtain rfl := stringTail_kind scanned
    subst quote
    exact .string scanned
  · split at scanned
    · rename_i digit
      exact .number digit (numberTail_number scanned) scanned
    · split at scanned
      · rename_i starts
        have kinds := wordKind_isWordKind (String.ofList (first :: text.takeWhile isWordPart))
        refine .word starts ?_ scanned
        cases scanned
        exact kinds
      · exact .mark (symbolTail_mark scanned).1 scanned

theorem scan_real (scanned : scan first text = (.token kind, tail)) : kind ≠ .eof := by
  rintro rfl
  cases scan_cases scanned with
  | number _ number => exact absurd number (by decide)
  | word _ isWord => exact absurd isWord (by decide)
  | mark isMark => exact absurd isMark (by decide)

theorem numberTail_of_scan (scanned : scan first text = (.token kind, tail))
    (number : IsNumber kind) :
    isDigit first = true ∧ numberTail first text = (.token kind, tail) := by
  cases scan_cases scanned with
  | string => exact absurd number (by decide)
  | number digit _ read => exact ⟨digit, read⟩
  | word _ isWord =>
      rcases number with rfl | rfl | rfl <;> exact absurd isWord (by decide)
  | mark isMark =>
      rcases number with rfl | rfl | rfl <;> exact absurd isMark (by decide)

theorem tokensFrom_scanned (position : Position) (text : List Char) :
    ∀ token ∈ (tokensFrom position text).1, token.kind = .eof ∨ ∃ first behind tail,
      scan first behind = (.token token.kind, tail) ∧ token.lexeme = String.ofList (first :: tail) := by
  fun_induction tokensFrom position text with
  | case1 | case3 => exact List.forall_mem_nil _
  | case2 => exact List.forall_mem_singleton.mpr (Or.inl rfl)
  | case4 position text start first more skipped _ piece tail scanned stop token made tokens error
      behind ih =>
      rw [behind] at ih
      obtain ⟨kind, rfl, rfl⟩ := Piece.toToken_eq_ok made
      exact List.forall_mem_cons.mpr ⟨Or.inr ⟨first, more, tail, scanned, rfl⟩, ih⟩

end Lexer

theorem tokenize_scanned {source : String} {tokens : List Token}
    (lexed : tokenize source = .ok tokens) :
    ∀ token ∈ tokens, token.kind = .eof ∨ ∃ first behind tail,
      Lexer.scan first behind = (.token token.kind, tail) ∧
        token.lexeme = String.ofList (first :: tail) := by
  have scanned := Lexer.tokensFrom_scanned {} source.toList
  rw [← Lexer.scanAll, scanAll_of_ok lexed] at scanned
  exact scanned

end ScriptEngine
