import ScriptEngine.Proofs.Covering
/-! Words and marks are lexed as they are spelled. A piece of text is taken for the same kinds of
tokens wherever it stands, as long as no letter behind it goes on with its last word. -/

namespace ScriptEngine

namespace Lexer

def IsWord (word : String) : Prop :=
  ∃ first tail, word = String.ofList (first :: tail) ∧ isWordStart first = true ∧
    ∀ char ∈ tail, isWordPart char = true

theorem isWord_iff {word : String} : IsWord word ↔
    (word.toList.head?.any isWordStart && word.toList.tail.all isWordPart) = true := by
  constructor
  · rintro ⟨first, tail, rfl, starts, all⟩
    simpa [starts] using all
  · intro known
    cases spelled : word.toList with
    | nil => simp [spelled] at known
    | cons first tail =>
        rw [spelled] at known
        exact ⟨first, tail, by rw [← spelled, String.ofList_toList], by simpa using known⟩

instance (word : String) : Decidable (IsWord word) := decidable_of_iff' _ isWord_iff

theorem isWordStart_plain {first : Char} (starts : isWordStart first = true) :
    isBlank first = false ∧ first ≠ '/' ∧ first ≠ '"' ∧ isDigit first = false := by
  have codes := isWordStart_iff.mp starts
  refine ⟨visible_of_isWordPart (isWordPart_of_isWordStart starts), ?_, ?_, ?_⟩
  · rintro rfl
    exact absurd starts (by decide)
  · rintro rfl
    exact absurd starts (by decide)
  · apply Bool.eq_false_iff.mpr
    intro digit
    have others := isDigit_iff.mp digit
    omega

theorem scan_word {first : Char} {tail behind : List Char} (starts : isWordStart first = true)
    (all : ∀ char ∈ tail, isWordPart char = true) (apart : Apart behind) :
    scan first (tail ++ behind) =
      (.token (wordKind (String.ofList (first :: tail))), tail) := by
  obtain ⟨-, -, quote, digit⟩ := isWordStart_plain starts
  rw [scan, if_neg quote, digit, if_neg Bool.false_ne_true, if_pos starts, wordTail,
    takeWhile_upTo all apart]
  rfl

theorem word_of_scan {first : Char} {text tail : List Char}
    (scanned : scan first text = (.token .identifier, tail)) :
    IsWord (String.ofList (first :: tail)) ∧
      wordKind (String.ofList (first :: tail)) = .identifier := by
  cases scan_cases scanned with
  | number _ number => exact absurd number (by decide)
  | word starts _ read =>
      obtain ⟨kind, rfl⟩ := Prod.mk.inj read
      exact ⟨⟨first, _, rfl, starts, fun _ among => List.mem_takeWhile_imp among⟩,
        Piece.token.inj kind⟩
  | mark isMark => exact absurd isMark (by decide)

theorem tokensFrom_nil (position : Position) :
    tokensFrom position [] = ([⟨.eof, "", position.spanTo position⟩], none) := by
  rw [tokensFrom]
  rfl

def Spells (text : List Char) (sentence : List Token → Prop) : Prop :=
  ∀ position behind, Apart behind → ∃ tokens stop, sentence tokens ∧
    tokensFrom position (text ++ behind) =
      (tokens ++ (tokensFrom stop behind).1, (tokensFrom stop behind).2)

namespace Spells

variable {text more : List Char} {sentence other whole : List Token → Prop}

theorem empty (nothing : sentence []) : Spells [] sentence :=
  fun position _ _ => ⟨[], position, nothing, rfl⟩

theorem mono (spells : Spells text sentence) (wider : ∀ tokens, sentence tokens → whole tokens) :
    Spells text whole := by
  intro position behind apart
  obtain ⟨tokens, stop, good, lexed⟩ := spells position behind apart
  exact ⟨tokens, stop, wider tokens good, lexed⟩

theorem append (first : Spells text sentence) (second : Spells more other) (apart : Apart more)
    (join : ∀ tokens rest, sentence tokens → other rest → whole (tokens ++ rest)) :
    Spells (text ++ more) whole := by
  intro position behind ends
  obtain ⟨tokens, middle, good, lexed⟩ := first position (more ++ behind) (apart.append ends)
  obtain ⟨rest, stop, also, further⟩ := second middle behind ends
  refine ⟨tokens ++ rest, stop, join tokens rest good also, ?_⟩
  rw [List.append_assoc, lexed, further, List.append_assoc]

theorem tokenize (spells : Spells text sentence) : ∃ tokens ended, sentence tokens ∧
    ended.kind = .eof ∧ tokenize (String.ofList text) = .ok (tokens ++ [ended]) := by
  obtain ⟨tokens, stop, good, lexed⟩ := spells {} [] .nil
  refine ⟨tokens, ⟨.eof, "", stop.spanTo stop⟩, good, rfl, ?_⟩
  rw [List.append_nil, tokensFrom_nil] at lexed
  rw [ScriptEngine.tokenize, scanAll, String.toList_ofList, lexed]

end Spells

/-- The tokens from some place on, by what the text before the first of them leaves. -/
theorem tokensFrom_eq (position : Position) (text : List Char) :
    tokensFrom position text =
      match skipGap .blank position text with
      | .error error => ([], some error)
      | .ok (start, []) => ([⟨.eof, "", start.spanTo start⟩], none)
      | .ok (start, first :: more) =>
          let (piece, tail) := scan first more
          let stop := start.past (first :: tail)
          match piece.toToken (first :: tail) (start.spanTo stop) with
          | .error error => ([], some error)
          | .ok token =>
              let (tokens, error) := tokensFrom stop (more.drop tail.length)
              (token :: tokens, error) := by
  rw [tokensFrom]
  split <;> rename_i skipped
  · rw [skipped]
  · rw [skipped]
  · -- the lemma that justifies the recursion stands in the way of rewriting
    dsimp only
    rewrite [skipped]
    rfl

theorem tokensFrom_blank (position : Position) (text : List Char) :
    tokensFrom position (' ' :: text) = tokensFrom (position.step ' ') text := by
  have skipped : skipGap .blank position (' ' :: text) = skipGap .blank (position.step ' ') text := by
    rw [skipGap, if_pos (by decide)] <;> rintro _ ⟨⟩
  rw [tokensFrom_eq, tokensFrom_eq, skipped]

theorem spells_blank {text : List Char} {sentence : List Token → Prop}
    (spells : Spells text sentence) : Spells (' ' :: text) sentence := by
  intro position behind apart
  obtain ⟨tokens, stop, good, lexed⟩ := spells (position.step ' ') behind apart
  exact ⟨tokens, stop, good, (tokensFrom_blank ..).trans lexed⟩

theorem skipGap_visible {first : Char} {text : List Char} (visible : isBlank first = false)
    (alone : first = '/' → ∀ char ∈ text.head?, char ≠ '/' ∧ char ≠ '*') (position : Position) :
    skipGap .blank position (first :: text) = .ok (position, first :: text) := by
  rw [skipGap, visible, if_neg Bool.false_ne_true]
  · rintro rest rfl rfl
    exact (alone rfl '/' rfl).1 rfl
  · rintro rest rfl rfl
    exact (alone rfl '*' rfl).2 rfl

theorem tokensFrom_reached {first : Char} {tail text : List Char} {kind : TokenKind}
    {position : Position}
    (reached : skipGap .blank position (first :: (tail ++ text)) =
      .ok (position, first :: (tail ++ text)))
    (scanned : scan first (tail ++ text) = (.token kind, tail)) :
    ∃ span stop, tokensFrom position (first :: (tail ++ text)) =
      (⟨kind, String.ofList (first :: tail), span⟩ :: (tokensFrom stop text).1,
        (tokensFrom stop text).2) := by
  refine ⟨position.spanTo (position.past (first :: tail)), position.past (first :: tail), ?_⟩
  rw [tokensFrom_eq, reached]
  simp only [scanned, Piece.toToken, List.drop_left]

theorem tokensFrom_token {first : Char} {tail text : List Char} {kind : TokenKind}
    (visible : isBlank first = false) (other : first ≠ '/')
    (scanned : scan first (tail ++ text) = (.token kind, tail)) (position : Position) :
    ∃ span stop, tokensFrom position (first :: (tail ++ text)) =
      (⟨kind, String.ofList (first :: tail), span⟩ :: (tokensFrom stop text).1,
        (tokensFrom stop text).2) := by
  apply tokensFrom_reached _ scanned
  exact skipGap_visible visible (fun slash => absurd slash other) position

theorem spells_word {word : String} (isWord : IsWord word) :
    Spells word.toList fun tokens => ∃ span, tokens = [⟨wordKind word, word, span⟩] := by
  obtain ⟨first, tail, rfl, starts, all⟩ := isWord
  obtain ⟨visible, other, -⟩ := isWordStart_plain starts
  intro position behind apart
  obtain ⟨span, stop, lexed⟩ :=
    tokensFrom_token visible other (scan_word starts all apart) position
  rw [String.toList_ofList]
  exact ⟨_, stop, ⟨span, rfl⟩, lexed⟩

def Led (kind : TokenKind) (sentence : List Token → Prop) (tokens : List Token) : Prop :=
  ∃ first rest, tokens = first :: rest ∧ first.kind = kind ∧ sentence rest

theorem spells_mark {mark : Char} {kind : TokenKind} {text : List Char}
    {sentence : List Token → Prop} (visible : isBlank mark = false) (other : mark ≠ '/')
    (scanned : ∀ text, scan mark text = (.token kind, [])) (spells : Spells text sentence) :
    Spells (mark :: text) (Led kind sentence) := by
  intro position behind apart
  obtain ⟨span, middle, lexed⟩ :=
    tokensFrom_token visible other (scanned ([] ++ (text ++ behind))) position
  obtain ⟨rest, stop, good, further⟩ := spells middle behind apart
  refine ⟨⟨kind, String.ofList [mark], span⟩ :: rest, stop, ⟨_, rest, rfl, rfl, good⟩, ?_⟩
  rw [List.nil_append] at lexed
  rw [List.cons_append, lexed, further, List.cons_append]

end Lexer

def Token.Named (token : Token) : Prop :=
  token.kind = .identifier →
    Lexer.IsWord token.lexeme ∧ Lexer.wordKind token.lexeme = .identifier

theorem tokenize_named {source : String} {tokens : List Token}
    (lexed : tokenize source = .ok tokens) : ∀ token ∈ tokens, token.Named := by
  intro token among identifier
  rcases tokenize_scanned lexed token among with ended | ⟨first, behind, tail, scanned, spelled⟩
  · rw [identifier] at ended
    cases ended
  · rw [identifier] at scanned
    rw [spelled]
    exact Lexer.word_of_scan scanned

end ScriptEngine
