import Mathlib.Algebra.Group.Int.Defs
import Mathlib.Algebra.Group.Nat.Defs
import ScriptEngine.Literal
import ScriptEngine.Proofs.Scanning
/-! What the lexer takes for a number can be read as one. A decimal always has a value, and so has an
integer that fits 64 bits; how large an integer is can be told even if it does not. -/

namespace ScriptEngine

open Json (AreDigits IsFraction StartsIn startsIn_cons)

def Literal.magnitude? (lexeme : String) : Option Nat :=
  match lexeme.toList with
  | '0' :: 'x' :: digits => Reading.nat? 16 digits
  | '0' :: 'X' :: digits => Reading.nat? 16 digits
  | digits => Reading.nat? 10 digits

structure Token.Readable (token : Token) : Prop where
  integer : token.kind = .intLiteral → (Literal.magnitude? token.lexeme).isSome = true
  decimal : token.kind = .floatLiteral ∨ token.kind = .doubleLiteral →
    (Literal.float? token.lexeme).isSome = true

namespace Token.Readable

variable {kind : TokenKind} {lexeme : String}

theorem ofInteger (read : (Literal.magnitude? lexeme).isSome = true) (span : Span) :
    Readable ⟨.intLiteral, lexeme, span⟩ :=
  ⟨fun _ => read, by rintro (same | same) <;> cases same⟩

theorem ofDecimal (other : kind ≠ .intLiteral) (read : (Literal.float? lexeme).isSome = true)
    (span : Span) : Readable ⟨kind, lexeme, span⟩ :=
  ⟨fun same => absurd same other, fun _ => read⟩

end Token.Readable

namespace Reading

variable {radix value : Nat} {digits rest : List Char}

theorem digit?_minus : digit? radix '-' = none := by simp [digit?]

theorem digit?_plus : digit? radix '+' = none := by simp [digit?]

theorem isSome_digits? (all : ∀ char ∈ digits, (digit? radix char).isSome = true) (value : Nat) :
    (digits? radix value digits).isSome = true := by
  induction digits generalizing value with
  | nil => rfl
  | cons char rest ih =>
      rw [List.forall_mem_cons] at all
      obtain ⟨next, known⟩ := Option.isSome_iff_exists.mp all.1
      rw [digits?, known, Option.bind_some]
      exact ih all.2 _

theorem isSome_nat? (some_digit : digits ≠ [])
    (all : ∀ char ∈ digits, (digit? radix char).isSome = true) :
    (nat? radix digits).isSome = true := by
  rw [nat?, if_neg (by simpa using some_digit)]
  exact isSome_digits? all 0

theorem sign_of_ne {first : Char} (minus : first ≠ '-') (plus : first ≠ '+') :
    sign (first :: rest) = (false, first :: rest) :=
  sign.eq_3 _ (fun _ same => minus (List.cons.inj same).1) fun _ same =>
    plus (List.cons.inj same).1

theorem magnitude_of_int64? (known : nat? radix digits = some value)
    (unread : int64? radix digits = none) : 2 ^ 63 ≤ value := by
  have unsigned : sign digits = (false, digits) := by
    cases digits with
    | nil => rfl
    | cons first rest =>
        rw [nat?, if_neg (by simp), digits?] at known
        refine sign_of_ne ?_ ?_
        · rintro rfl
          rw [digit?_minus] at known
          cases known
        · rintro rfl
          rw [digit?_plus] at known
          cases known
  have read : int? radix digits = some (value : Int) := by
    simp [int?, unsigned, known]
  have bounds : Int64.minValue.toInt = -2 ^ 63 ∧ Int64.maxValue.toInt = 2 ^ 63 - 1 := by decide
  rw [int64?, read, Option.bind_some, ite_eq_right_iff] at unread
  simp only [bounds, Bool.and_eq_true, decide_eq_true_eq, reduceCtorEq, imp_false] at unread
  omega

end Reading

theorem Literal.magnitude_of_int? {lexeme : String} {value : Nat}
    (known : magnitude? lexeme = some value) (unread : int? lexeme = none) : 2 ^ 63 ≤ value := by
  unfold magnitude? at known
  unfold int? at unread
  split at known
  · rename_i spelled
    rw [spelled] at unread
    exact Reading.magnitude_of_int64? known unread
  · rename_i spelled
    rw [spelled] at unread
    exact Reading.magnitude_of_int64? known unread
  · rename_i digits small large
    split at unread
    · rename_i spelled
      exact absurd spelled (small _)
    · rename_i spelled
      exact absurd spelled (large _)
    · exact Reading.magnitude_of_int64? known unread

namespace Reading

variable {whole fraction power : List Char}

theorem isSome_exponent? (isPower : IsPower power) : (exponent? power).isSome = true := by
  cases isPower with
  | none => rfl
  | @power mark sign digits marked signed some_digit areDigits =>
      have unsigned : (Reading.sign (sign ++ digits)).2 = digits := by
        rcases signed with rfl | rfl | rfl
        · exact congrArg Prod.snd areDigits.sign
        · rfl
        · rfl
      have read : (int? 10 (sign ++ digits)).isSome = true := by
        obtain ⟨value, known⟩ := Option.isSome_iff_exists.mp (isSome_nat? some_digit areDigits)
        rw [int?, Option.isSome_map, unsigned, known]
        rfl
      rcases marked with rfl | rfl <;> exact read

theorem dropWhile_digits (areDigits : AreDigits whole)
    (starts : StartsIn ['.', 'e', 'E'] power) :
    (whole ++ power).takeWhile isDigit = whole ∧ (whole ++ power).dropWhile isDigit = power := by
  have taken := areDigits.takeWhile starts rfl
  have all := (whole ++ power).takeWhile_append_dropWhile (p := isDigit)
  rw [taken] at all
  exact ⟨taken, List.append_cancel_left all⟩

theorem startsIn_power (isPower : IsPower power) : StartsIn ['.', 'e', 'E'] power := by
  cases isPower with
  | none => nofun
  | power marked => rcases marked with rfl | rfl <;> exact startsIn_cons (by decide)

theorem isSome_decimal? (negative : Bool) (some_digit : whole ≠ []) (areDigits : AreDigits whole)
    (isFraction : IsFraction fraction) (isPower : IsPower power) :
    (decimal? negative (whole ++ (fraction ++ power))).isSome = true := by
  obtain ⟨exponent, known⟩ := Option.isSome_iff_exists.mp (isSome_exponent? isPower)
  have read {places : List Char} (arePlaces : AreDigits places)
      (parts : parts? (whole ++ (fraction ++ power)) = some ⟨whole, places, exponent⟩) :
      (decimal? negative (whole ++ (fraction ++ power))).isSome = true := by
    rw [decimal?, parts, Option.bind_some, Option.isSome_map]
    exact isSome_nat? (by simp [some_digit]) (List.forall_mem_append.mpr ⟨areDigits, arePlaces⟩)
  have starts := startsIn_power isPower
  cases isFraction with
  | none =>
      obtain ⟨taken, left⟩ := dropWhile_digits areDigits starts
      refine read (List.forall_mem_nil _) ?_
      simp only [parts?, List.nil_append, taken, left]
      cases isPower with
      | none => simp [some_digit, known]
      | power marked => rcases marked with rfl | rfl <;> simp [some_digit, ← known]
  | @places places some_place arePlaces =>
      have point : StartsIn ['.', 'e', 'E'] ('.' :: places ++ power) := startsIn_cons (by decide)
      obtain ⟨taken, left⟩ := dropWhile_digits areDigits point
      obtain ⟨placed, behind⟩ := dropWhile_digits arePlaces starts
      refine read arePlaces ?_
      simp only [parts?, taken, left]
      simp [placed, behind, some_digit, known]

theorem last_digit {digits : List Char} (some_digit : digits ≠ []) (areDigits : AreDigits digits) :
    ∃ init last, digits = init ++ [last] ∧ isDigit last = true :=
  ⟨digits.dropLast, digits.getLast some_digit, (List.dropLast_concat_getLast some_digit).symm,
    areDigits _ (List.getLast_mem some_digit)⟩

theorem decimal_last (some_digit : whole ≠ []) (areDigits : AreDigits whole)
    (isFraction : IsFraction fraction) (isPower : IsPower power) :
    ∃ init last, whole ++ (fraction ++ power) = init ++ [last] ∧ isDigit last = true := by
  cases isPower with
  | none =>
      cases isFraction with
      | none => simpa using last_digit some_digit areDigits
      | places some_place arePlaces =>
          obtain ⟨init, last, rfl, digit⟩ := last_digit some_place arePlaces
          exact ⟨whole ++ '.' :: init, last, by simp, digit⟩
  | @power mark sign digits _ _ some_digit areDigits =>
      obtain ⟨init, last, rfl, digit⟩ := last_digit some_digit areDigits
      exact ⟨whole ++ fraction ++ mark :: sign ++ init, last, by simp, digit⟩

end Reading

theorem Literal.isSome_float? {whole fraction power suffix : List Char} (some_digit : whole ≠ [])
    (areDigits : AreDigits whole) (isFraction : IsFraction fraction) (isPower : IsPower power)
    (marks : ∀ char ∈ suffix, isFloatSuffix char = true) :
    (float? (String.ofList (whole ++ (fraction ++ power) ++ suffix))).isSome = true := by
  obtain ⟨value, read⟩ := Option.isSome_iff_exists.mp
    (Reading.isSome_decimal? false some_digit areDigits isFraction isPower)
  obtain ⟨init, last, ends, digit⟩ :=
    Reading.decimal_last some_digit areDigits isFraction isPower
  have stripped : ((whole ++ (fraction ++ power) ++ suffix).reverse.dropWhile
      isFloatSuffix).reverse = whole ++ (fraction ++ power) := by
    have plain : ¬ isFloatSuffix last = true := by
      intro mark
      simp only [isFloatSuffix, Bool.or_eq_true, decide_eq_true_eq] at mark
      rcases mark with rfl | rfl <;> exact absurd digit (by decide)
    rw [List.reverse_append, List.dropWhile_append_of_pos (by simpa using marks), ends,
      List.reverse_append, List.reverse_singleton, List.singleton_append,
      List.dropWhile_cons_of_neg plain, List.reverse_cons, List.reverse_reverse]
  obtain ⟨first, more, rfl⟩ := List.exists_cons_of_ne_nil some_digit
  have unsigned : Reading.sign (first :: more ++ (fraction ++ power)) =
      (false, first :: more ++ (fraction ++ power)) :=
    Reading.sign_of_ne areDigits.not_sign.1 areDigits.not_sign.2
  rw [float?, String.toList_ofList, stripped, Reading.float?, unsigned]
  simp only [read, Option.isSome_some]

namespace Lexer

variable {first : Char} {text tail : List Char} {kind : TokenKind}

theorem isSome_magnitude? {digits : List Char} (areDigits : AreDigits digits)
    (some_digit : digits ≠ []) :
    (Literal.magnitude? (String.ofList digits)).isSome = true := by
  have read : (Reading.nat? 10 digits).isSome = true := Reading.isSome_nat? some_digit areDigits
  have other {mark : Char} {rest : List Char} (marked : Reading.isDigit mark = false) :
      digits ≠ '0' :: mark :: rest := by
    rintro rfl
    have digit := areDigits mark (List.mem_cons_of_mem _ (List.mem_cons_self ..))
    rw [marked] at digit
    cases digit
  rw [Literal.magnitude?, String.toList_ofList]
  split
  · exact absurd rfl (other (by decide))
  · exact absurd rfl (other (by decide))
  · exact read

theorem IsDecimal.readable {text : List Char} (isDecimal : IsDecimal kind text) (span : Span) :
    Token.Readable ⟨kind, String.ofList text, span⟩ := by
  cases isDecimal with
  | integer some_digit areDigits => exact .ofInteger (isSome_magnitude? areDigits some_digit) span
  | double some_digit areDigits isFraction isPower =>
      have read := Literal.isSome_float? some_digit areDigits isFraction isPower
        (List.forall_mem_nil _)
      rw [List.append_nil] at read
      exact .ofDecimal (by decide) read span
  | float some_digit areDigits isFraction isPower suffixed =>
      refine .ofDecimal (by decide) (Literal.isSome_float? some_digit areDigits isFraction isPower ?_)
        span
      rw [List.forall_mem_singleton]
      rcases suffixed with rfl | rfl <;> rfl

theorem IsNumeral.readable {text : List Char} (isNumeral : IsNumeral kind text) (span : Span) :
    Token.Readable ⟨kind, String.ofList text, span⟩ := by
  cases isNumeral with
  | decimal isDecimal => exact isDecimal.readable span
  | @hexadecimal mark digits marked some_digit all =>
      refine .ofInteger ?_ span
      have read : (Reading.nat? 16 digits).isSome = true := Reading.isSome_nat? some_digit all
      rcases marked with rfl | rfl <;> simpa [Literal.magnitude?] using read

theorem scan_readable (scanned : scan first text = (.token kind, tail)) (span : Span) :
    Token.Readable ⟨kind, String.ofList (first :: tail), span⟩ := by
  by_cases number : IsNumber kind
  · obtain ⟨digit, scanned⟩ := numberTail_of_scan scanned number
    exact (numberTail_isNumeral digit scanned).1.readable span
  · exact ⟨fun same => absurd (Or.inl same) number, fun same => absurd (Or.inr same) number⟩

end Lexer

theorem tokenize_readable {source : String} {tokens : List Token}
    (read : tokenize source = .ok tokens) : ∀ token ∈ tokens, token.Readable := by
  rintro ⟨kind, lexeme, span⟩ among
  rcases tokenize_scanned read _ among with ended | ⟨first, behind, tail, scanned, spelled⟩
  · cases ended
    exact ⟨nofun, by rintro (same | same) <;> cases same⟩
  · cases spelled
    exact Lexer.scan_readable scanned span

end ScriptEngine
