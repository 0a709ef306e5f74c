import ScriptEngine.Blank
import ScriptEngine.Error
import ScriptEngine.Number.Reading
import ScriptEngine.Token
/-! Splitting a source text into tokens. Scanning a token looks at characters only and answers how
far it goes; places are worked out from the characters passed over, so that they are right by
construction. -/

namespace ScriptEngine

/-- A place in a source text: the bytes before it, its line, and where that line starts. -/
structure Position where
  offset : Nat := 0
  line : Nat := 1
  lineStart : Nat := 0
deriving DecidableEq, Repr

namespace Position

def step (position : Position) (char : Char) : Position :=
  let offset := position.offset + char.utf8Size
  if char = '\n' then ⟨offset, position.line + 1, offset⟩
  else { position with offset }

def past (position : Position) (text : List Char) : Position := text.foldl step position

def spanTo (start stop : Position) : Span :=
  ⟨start.line, start.offset - start.lineStart + 1, start.offset, stop.offset⟩

end Position

namespace Lexer

def isWordStart (char : Char) : Bool := char = '_' || char.isAlpha

def isWordPart (char : Char) : Bool := char = '_' || char.isAlphanum

def isDigit (char : Char) : Bool := char.isDigit

def isHexDigit (char : Char) : Bool := (Reading.digit? 16 char).isSome

/-- What the text between two tokens is at some place. -/
inductive Gap where
  | blank
  | lineComment
  | blockComment (start : Position)

def skipGap : Gap → Position → List Char → Except LexError (Position × List Char)
  | .blank, position, '/' :: '/' :: rest => skipGap .lineComment (position.past ['/', '/']) rest
  | .blank, position, '/' :: '*' :: rest =>
      skipGap (.blockComment position) (position.past ['/', '*']) rest
  | .blank, position, char :: rest =>
      if isBlank char then skipGap .blank (position.step char) rest
      else .ok (position, char :: rest)
  | .lineComment, position, char :: rest =>
      skipGap (if char = '\n' then .blank else .lineComment) (position.step char) rest
  | .blockComment _, position, '*' :: '/' :: rest => skipGap .blank (position.past ['*', '/']) rest
  | .blockComment start, position, char :: rest =>
      skipGap (.blockComment start) (position.step char) rest
  | .blockComment start, position, [] => .error (.unterminatedComment (start.spanTo position))
  | .blank, position, [] => .ok (position, [])
  | .lineComment, position, [] => .ok (position, [])

/-- What a scanned piece of text turned out to be. -/
inductive Piece where
  | token (kind : TokenKind)
  | unexpectedChar (char : Char)
  | unterminatedString
  | invalidNumber
deriving DecidableEq, Repr

/-- The text of a string after its opening quote, up to the closing quote. A backslash takes the
next character with it, whatever it is; a line end without one breaks the string off. -/
def stringTail : List Char → Piece × List Char
  | [] => (.unterminatedString, [])
  | '"' :: _ => (.token .stringLiteral, ['"'])
  | '\n' :: _ => (.unterminatedString, ['\n'])
  | '\\' :: char :: rest => let (piece, tail) := stringTail rest; (piece, '\\' :: char :: tail)
  | char :: rest => let (piece, tail) := stringTail rest; (piece, char :: tail)

def fractionPart : List Char → List Char
  | '.' :: digit :: rest => if isDigit digit then '.' :: digit :: rest.takeWhile isDigit else []
  | _ => []

def exponentPart : List Char → List Char × List Char
  | 'e' :: rest => signed 'e' rest
  | 'E' :: rest => signed 'E' rest
  | _ => ([], [])
where
  signed (mark : Char) : List Char → List Char × List Char
    | '+' :: rest => ([mark, '+'], rest.takeWhile isDigit)
    | '-' :: rest => ([mark, '-'], rest.takeWhile isDigit)
    | rest => ([mark], rest.takeWhile isDigit)

/-- A decimal number whose first digit was read. The suffix `f` ends it; without the suffix a word
must not follow. -/
def decimalTail (text : List Char) : Piece × List Char :=
  let whole := text.takeWhile isDigit
  let fraction := fractionPart (text.drop whole.length)
  let mantissa := whole ++ fraction
  let (mark, digits) := exponentPart (text.drop mantissa.length)
  let number := mantissa ++ mark ++ digits
  if !mark.isEmpty && digits.isEmpty then (.invalidNumber, number)
  else match text.drop number.length with
    | 'f' :: _ => (.token .floatLiteral, number ++ ['f'])
    | 'F' :: _ => (.token .floatLiteral, number ++ ['F'])
    | rest =>
        let word := rest.takeWhile isWordPart
        if !word.isEmpty then (.invalidNumber, number ++ word)
        else if fraction.isEmpty && mark.isEmpty then (.token .intLiteral, number)
        else (.token .doubleLiteral, number)

def hexTail (mark : Char) (text : List Char) : Piece × List Char :=
  let digits := text.takeWhile isHexDigit
  -- What stands behind the digits is not looked at.
  (if digits.isEmpty then .invalidNumber else .token .intLiteral, mark :: digits)

def numberTail (first : Char) (text : List Char) : Piece × List Char :=
  match first, text with
  | '0', 'x' :: rest => hexTail 'x' rest
  | '0', 'X' :: rest => hexTail 'X' rest
  | _, text => decimalTail text

def wordTail (first : Char) (text : List Char) : Piece × List Char :=
  let tail := text.takeWhile isWordPart
  (.token ((TokenKind.keyword? (String.ofList (first :: tail))).getD .identifier), tail)

def symbolTail (first : Char) (text : List Char) : Piece × List Char :=
  match first with
  | '(' => (.token .leftParen, [])
  | ')' => (.token .rightParen, [])
  | '{' => (.token .leftBrace, [])
  | '}' => (.token .rightBrace, [])
  | '[' => (.token .leftBracket, [])
  | ']' => (.token .rightBracket, [])
  | ';' => (.token .semicolon, [])
  | ',' => (.token .comma, [])
  | '.' => (.token .dot, [])
  | '~' => (.token .tilde, [])
  | '+' => (.token .plus, [])
  | '-' => (.token .minus, [])
  | '*' => (.token .star, [])
  | '/' => (.token .slash, [])
  | '=' => (.token .equal, [])
  | ':' =>
      match text with
      | ':' :: _ => (.token .colonColon, [':'])
      | _ => (.unexpectedChar ':', [])
  | char => (.unexpectedChar char, [])

/-- The piece that starts with `first`, and how much of the text behind `first` belongs to it. -/
def scan (first : Char) (text : List Char) : Piece × List Char :=
  if first = '"' then stringTail text
  else if isDigit first then numberTail first text
  else if isWordStart first then wordTail first text
  else symbolTail first text

def Piece.toToken (piece : Piece) (lexeme : List Char) (span : Span) : Except LexError Token :=
  match piece with
  | .token kind => .ok ⟨kind, String.ofList lexeme, span⟩
  | .unexpectedChar char => .error (.unexpectedChar char span)
  | .unterminatedString => .error (.unterminatedString span)
  | .invalidNumber => .error (.invalidNumber span)

theorem Piece.toToken_eq_ok {piece : Piece} {lexeme : List Char} {span : Span} {token : Token}
    (made : piece.toToken lexeme span = .ok token) :
    ∃ kind, piece = .token kind ∧ token = ⟨kind, String.ofList lexeme, span⟩ := by
  cases piece with
  | token kind => exact ⟨kind, rfl, (Except.ok.inj made).symm⟩
  | unexpectedChar | unterminatedString | invalidNumber => cases made

theorem skipGap_length {gap : Gap} {position : Position} {text : List Char}
    {found : Position × List Char} (skipped : skipGap gap position text = .ok found) :
    found.2.length ≤ text.length := by
  fun_induction skipGap gap position text with
  | case1 position rest ih => exact Nat.le_trans (ih skipped) (by simp; omega)
  | case2 position rest ih => exact Nat.le_trans (ih skipped) (by simp; omega)
  | case3 position char rest _ _ blank ih => exact Nat.le_trans (ih skipped) (by simp)
  | case4 position char rest _ _ blank => cases skipped; simp
  | case5 position char rest ih => exact Nat.le_trans (ih skipped) (by simp)
  | case6 start position rest ih => exact Nat.le_trans (ih skipped) (by simp; omega)
  | case7 start position char rest _ ih => exact Nat.le_trans (ih skipped) (by simp)
  | case8 start position => cases skipped
  | case9 position => cases skipped; simp
  | case10 position => cases skipped; simp

/-- The tokens of a text from some place on, up to the end-of-file token or the first error. -/
def tokensFrom (position : Position) (text : List Char) : List Token × Option LexError :=
  match skipped : skipGap .blank position text with
  | .error error => ([], some error)
  | .ok (start, []) => ([⟨.eof, "", start.spanTo start⟩], none)
  | .ok (start, first :: more) =>
      have := skipGap_length skipped
      let (piece, tail) := scan first more
      let stop := start.past (first :: tail)
      match piece.toToken (first :: tail) (start.spanTo stop) with
      | .error error => ([], some error)
      | .ok token =>
          let (tokens, error) := tokensFrom stop (more.drop tail.length)
          (token :: tokens, error)
termination_by text.length
decreasing_by
  simp only [List.length_cons, List.length_drop] at this ⊢
  omega

def scanAll (source : String) : List Token × Option LexError := tokensFrom {} source.toList

end Lexer

/-- The tokens of a source text, the last of them the end-of-file token. -/
def tokenize (source : String) : Except LexError (List Token) :=
  match Lexer.scanAll source with
  | (tokens, none) => .ok tokens
  | (_, some error) => .error error

section

variable {source : String} {tokens : List Token} {error : LexError}

theorem scanAll_of_ok (lexed : tokenize source = .ok tokens) :
    Lexer.scanAll source = (tokens, none) := by
  unfold tokenize at lexed
  split at lexed
  · rename_i read
    rw [read, Except.ok.inj lexed]
  · cases lexed

theorem tokenize_eq_error : tokenize source = .error error ↔
    (Lexer.scanAll source).2 = some error := by
  unfold tokenize
  split
  · rename_i read
    rw [read]
    constructor <;> nofun
  · rename_i read
    rw [read, Except.error.injEq, Option.some.injEq]

end

end ScriptEngine
