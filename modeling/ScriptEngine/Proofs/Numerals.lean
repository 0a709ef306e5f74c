import ScriptEngine.Lexer
import ScriptEngine.Proofs.Spelling
/-! How numbers are written. The lexer reads a number exactly where one is written that way and what
stands behind it does not go on with it; any other text that starts with a digit is refused. -/

namespace ScriptEngine

open Json (AreDigits IsFraction)

section

variable {char : Char}

theorem between_iff (first last char : Char) : (first ≤ char && char ≤ last) = true ↔
    first.toNat ≤ char.toNat ∧ char.toNat ≤ last.toNat := by
  rw [Bool.and_eq_true, decide_eq_true_eq, decide_eq_true_eq]
  exact Iff.rfl

theorem Reading.isSome_digit?_iff {radix : Nat} (low : 10 ≤ radix) :
    (digit? radix char).isSome = true ↔ (48 ≤ char.toNat ∧ char.toNat ≤ 57) ∨
      (97 ≤ char.toNat ∧ char.toNat ≤ 102 ∧ char.toNat < 87 + radix) ∨
      (65 ≤ char.toNat ∧ char.toNat ≤ 70 ∧ char.toNat < 55 + radix) := by
  simp only [digit?, between_iff, Char.reduceToNat]
  rw [Option.isSome_ite]
  repeat' split
  all_goals omega

namespace Lexer

theorem isDigit_iff : isDigit char = true ↔ 48 ≤ char.toNat ∧ char.toNat ≤ 57 := by
  rw [isDigit, Char.isDigit, Bool.and_eq_true, decide_eq_true_eq, decide_eq_true_eq]
  exact Iff.rfl

theorem isAlpha_iff : char.isAlpha = true ↔ (65 ≤ char.toNat ∧ char.toNat ≤ 90) ∨
    (97 ≤ char.toNat ∧ char.toNat ≤ 122) := by
  have cases : char.isAlpha = (decide ('A'.val ≤ char.val ∧ char.val ≤ 'Z'.val) ||
      (decide ('a'.val ≤ char.val) && decide (char.val ≤ 'z'.val))) := rfl
  rw [cases, Bool.or_eq_true, Bool.and_eq_true, decide_eq_true_eq, decide_eq_true_eq,
    decide_eq_true_eq]
  exact Iff.rfl

theorem isWordStart_iff : isWordStart char = true ↔ char.toNat = 95 ∨
    (65 ≤ char.toNat ∧ char.toNat ≤ 90) ∨ (97 ≤ char.toNat ∧ char.toNat ≤ 122) := by
  have underscore : char = '_' ↔ char.toNat = 95 := Char.toNat_inj.symm
  rw [isWordStart, Bool.or_eq_true, decide_eq_true_eq, underscore, isAlpha_iff]

theorem isWordPart_iff : isWordPart char = true ↔ char.toNat = 95 ∨
    (65 ≤ char.toNat ∧ char.toNat ≤ 90) ∨ (97 ≤ char.toNat ∧ char.toNat ≤ 122) ∨
    (48 ≤ char.toNat ∧ char.toNat ≤ 57) := by
  have underscore : char = '_' ↔ char.toNat = 95 := Char.toNat_inj.symm
  have digit : char.isDigit = true ↔ _ := isDigit_iff
  rw [isWordPart, Bool.or_eq_true, decide_eq_true_eq, underscore, Char.isAlphanum, Bool.or_eq_true,
    isAlpha_iff, digit, or_assoc]

theorem isWordPart_of_isWordStart (starts : isWordStart char = true) : isWordPart char = true := by
  have codes := isWordStart_iff.mp starts
  rw [isWordPart_iff]
  omega

theorem visible_of_isWordPart (part : isWordPart char = true) : isBlank char = false := by
  have codes := isWordPart_iff.mp part
  simp only [isBlank, blankRuns, List.any_cons, List.any_nil, Bool.or_false, Bool.or_eq_false_iff,
    Bool.and_eq_false_iff, decide_eq_false_iff_not]
  omega

theorem isDigit_eq (char : Char) : isDigit char = Reading.isDigit char := by
  rw [Bool.eq_iff_iff, isDigit_iff, Reading.isDigit, Reading.isSome_digit?_iff (Nat.le_refl 10)]
  omega

theorem isHexDigit_of_isDigit (digit : isDigit char = true) : isHexDigit char = true :=
  (Reading.isSome_digit?_iff (by decide)).mpr (Or.inl (isDigit_iff.mp digit))

theorem isWordPart_of_isHexDigit (digit : isHexDigit char = true) : isWordPart char = true := by
  have codes := (Reading.isSome_digit?_iff (by decide)).mp digit
  rw [isWordPart_iff]
  omega

end Lexer

end

inductive IsPower : List Char → Prop
  | none : IsPower []
  | power {mark : Char} {sign digits : List Char} : mark = 'e' ∨ mark = 'E' →
      sign = [] ∨ sign = ['+'] ∨ sign = ['-'] → digits ≠ [] → AreDigits digits →
      IsPower (mark :: sign ++ digits)

namespace Lexer

inductive IsDecimal : TokenKind → List Char → Prop
  | integer {digits : List Char} : digits ≠ [] → AreDigits digits → IsDecimal .intLiteral digits
  | double {whole fraction power : List Char} : whole ≠ [] → AreDigits whole →
      IsFraction fraction → IsPower power → fraction ++ power ≠ [] →
      IsDecimal .doubleLiteral (whole ++ (fraction ++ power))
  | float {whole fraction power : List Char} {suffix : Char} : whole ≠ [] → AreDigits whole →
      IsFraction fraction → IsPower power → suffix = 'f' ∨ suffix = 'F' →
      IsDecimal .floatLiteral (whole ++ (fraction ++ power) ++ [suffix])

/-- How a number is written, by the kind of token that it is. -/
inductive IsNumeral : TokenKind → List Char → Prop
  | decimal {kind : TokenKind} {text : List Char} : IsDecimal kind text → IsNumeral kind text
  | hexadecimal {mark : Char} {digits : List Char} : mark = 'x' ∨ mark = 'X' → digits ≠ [] →
      (∀ digit ∈ digits, isHexDigit digit = true) → IsNumeral .intLiteral ('0' :: mark :: digits)

def Apart (text : List Char) : Prop := ∀ char ∈ text.head?, isWordPart char = false

/-- What stands behind a number does not go on with it. Behind a hexadecimal number nothing but its
digits counts, and behind a suffix nothing at all. -/
inductive Ends : TokenKind → List Char → List Char → Prop
  | apart {kind : TokenKind} {text behind : List Char} : Apart behind →
      (kind = .intLiteral → fractionPart behind = []) → Ends kind text behind
  | hexadecimal {mark : Char} {digits behind : List Char} : mark = 'x' ∨ mark = 'X' →
      (∀ char ∈ behind.head?, isHexDigit char = false) →
      Ends .intLiteral ('0' :: mark :: digits) behind
  | suffixed {text behind : List Char} : Ends .floatLiteral text behind

section

variable {wanted : Char → Bool} {tail behind : List Char}

theorem takeWhile_upTo (all : ∀ char ∈ tail, wanted char = true)
    (stops : ∀ char ∈ behind.head?, wanted char = false) :
    (tail ++ behind).takeWhile wanted = tail := by
  rw [List.takeWhile_append_of_pos all]
  cases behind with
  | nil => rw [List.takeWhile_nil, List.append_nil]
  | cons char rest =>
      have other : ¬ wanted char = true := by
        rw [stops char rfl]
        exact Bool.false_ne_true
      rw [List.takeWhile_cons_of_neg other, List.append_nil]

theorem drop_takeWhile (wanted : Char → Bool) (text : List Char) :
    ∀ char ∈ (text.drop (text.takeWhile wanted).length).head?, wanted char = false := by
  induction text with
  | nil => nofun
  | cons char rest ih =>
      by_cases taken : wanted char = true
      · rw [List.takeWhile_cons_of_pos taken]
        exact ih
      · rw [List.takeWhile_cons_of_neg taken]
        rintro _ ⟨⟩
        exact Bool.eq_false_iff.mpr taken

end

theorem Apart.nil : Apart [] := nofun

theorem Apart.cons {char : Char} (other : isWordPart char = false) (rest : List Char) :
    Apart (char :: rest) := by
  rintro _ ⟨⟩
  exact other

theorem Apart.append {text behind : List Char} (here : Apart text) (apart : Apart behind) :
    Apart (text ++ behind) := by
  cases text with
  | nil => exact apart
  | cons char rest => exact .cons (here char rfl) _

theorem Apart.takeWhile {text : List Char} (apart : Apart text) :
    text.takeWhile isWordPart = [] := takeWhile_upTo (List.forall_mem_nil _) apart

theorem apart_of_takeWhile {text : List Char}
    (apart : (!(text.takeWhile isWordPart).isEmpty) ≠ true) : Apart text := by
  cases text with
  | nil => exact .nil
  | cons char rest =>
      by_cases part : isWordPart char = true
      · simp [part] at apart
      · exact .cons (Bool.eq_false_iff.mpr part) rest

section

variable {text : List Char}

theorem areDigits_takeWhile : AreDigits (text.takeWhile isDigit) :=
  fun _ among => (isDigit_eq _).symm.trans (List.mem_takeWhile_imp among)

theorem fractionPart_isFraction : IsFraction (fractionPart text) := by
  unfold fractionPart
  split
  · rename_i digit rest
    split
    · rename_i isDigit
      refine .places (List.cons_ne_nil _ _) ?_
      rw [AreDigits, List.forall_mem_cons]
      exact ⟨(isDigit_eq digit).symm.trans isDigit, areDigits_takeWhile⟩
    · exact .none
  · exact .none

theorem signed_isPower {mark : Char} (marked : mark = 'e' ∨ mark = 'E')
    (some_digit : (exponentPart.signed mark text).2 ≠ []) :
    IsPower ((exponentPart.signed mark text).1 ++ (exponentPart.signed mark text).2) := by
  unfold exponentPart.signed at some_digit ⊢
  split at some_digit
  · exact .power marked (Or.inr (Or.inl rfl)) some_digit areDigits_takeWhile
  · exact .power marked (Or.inr (Or.inr rfl)) some_digit areDigits_takeWhile
  · exact .power marked (Or.inl rfl) some_digit areDigits_takeWhile

theorem signed_mark (mark : Char) (text : List Char) : (exponentPart.signed mark text).1 ≠ [] := by
  unfold exponentPart.signed
  split <;> exact List.cons_ne_nil _ _

theorem exponentPart_isPower (text : List Char)
    (finished : (exponentPart text).1 ≠ [] → (exponentPart text).2 ≠ []) :
    IsPower ((exponentPart text).1 ++ (exponentPart text).2) := by
  unfold exponentPart at finished ⊢
  split at finished
  · exact signed_isPower (Or.inl rfl) (finished (signed_mark _ _))
  · exact signed_isPower (Or.inr rfl) (finished (signed_mark _ _))
  · exact .none

theorem exponentPart_digits (text : List Char) (unmarked : (exponentPart text).1 = []) :
    (exponentPart text).2 = [] := by
  unfold exponentPart at unmarked ⊢
  split at unmarked
  · exact absurd unmarked (signed_mark _ _)
  · exact absurd unmarked (signed_mark _ _)
  · rfl

end

def Closes (text : List Char) : Prop :=
  ∀ char ∈ text.head?, isDigit char = false ∧ char ≠ 'e' ∧ char ≠ 'E'

theorem Closes.cons {char : Char} (other : isDigit char = false ∧ char ≠ 'e' ∧ char ≠ 'E')
    (rest : List Char) : Closes (char :: rest) := by
  rintro _ ⟨⟩
  exact other

section

variable {whole fraction power rest : List Char}

theorem fractionPart_append (isFraction : IsFraction fraction)
    (stops : ∀ char ∈ rest.head?, isDigit char = false)
    (bare : fraction = [] → fractionPart rest = []) :
    fractionPart (fraction ++ rest) = fraction := by
  cases isFraction with
  | none => exact bare rfl
  | @places digits some_digit areDigits =>
      obtain ⟨digit, more, rfl⟩ := List.exists_cons_of_ne_nil some_digit
      rw [AreDigits, List.forall_mem_cons] at areDigits
      rw [List.cons_append, List.cons_append, fractionPart, isDigit_eq, if_pos areDigits.1,
        takeWhile_upTo (fun char among => (isDigit_eq char).trans (areDigits.2 char among)) stops]

theorem exponentPart_append (isPower : IsPower power) (closes : Closes rest) :
    ∃ mark digits, exponentPart (power ++ rest) = (mark, digits) ∧ mark ++ digits = power ∧
      (mark = [] ↔ digits = []) := by
  cases isPower with
  | none =>
      refine ⟨[], [], ?_, rfl, Iff.rfl⟩
      rw [List.nil_append]
      unfold exponentPart
      split
      · exact absurd rfl (closes 'e' rfl).2.1
      · exact absurd rfl (closes 'E' rfl).2.2
      · rfl
  | @power mark sign digits marked signed some_digit areDigits =>
      have all : ∀ char ∈ digits, isDigit char = true := fun char among =>
        (isDigit_eq char).trans (areDigits char among)
      have taken := takeWhile_upTo all fun char first => (closes char first).1
      obtain ⟨digit, more, rfl⟩ := List.exists_cons_of_ne_nil some_digit
      have read : exponentPart.signed mark (sign ++ (digit :: more) ++ rest) =
          (mark :: sign, digit :: more) := by
        rcases signed with rfl | rfl | rfl
        · have real := all digit (List.mem_cons_self ..)
          rw [List.nil_append, List.cons_append]
          unfold exponentPart.signed
          split
          · rename_i same
            rw [(List.cons.inj same).1] at real
            exact absurd real (by decide)
          · rename_i same
            rw [(List.cons.inj same).1] at real
            exact absurd real (by decide)
          · rw [← List.cons_append, taken]
        · exact congrArg (Prod.mk _) taken
        · exact congrArg (Prod.mk _) taken
      refine ⟨mark :: sign, digit :: more, ?_, rfl, by simp⟩
      rcases marked with rfl | rfl <;> exact read

theorem power_stops (isPower : IsPower power) (closes : Closes rest) :
    ∀ char ∈ (power ++ rest).head?, isDigit char = false := by
  intro char first
  cases isPower with
  | none => exact (closes char first).1
  | power marked => rcases marked with rfl | rfl <;> cases first <;> rfl

theorem fraction_stops (isFraction : IsFraction fraction)
    (stops : ∀ char ∈ rest.head?, isDigit char = false) :
    ∀ char ∈ (fraction ++ rest).head?, isDigit char = false := by
  intro char first
  cases isFraction with
  | none => exact stops char first
  | places =>
      cases first
      rfl

theorem dissected (areDigits : AreDigits whole) (isFraction : IsFraction fraction)
    (isPower : IsPower power) (closes : Closes rest)
    (bare : fraction = [] → power = [] → fractionPart rest = []) :
    ∃ mark digits, mark ++ digits = power ∧ (mark = [] ↔ digits = []) ∧
      let text := whole ++ (fraction ++ (power ++ rest))
      text.takeWhile isDigit = whole ∧ fractionPart (text.drop whole.length) = fraction ∧
        exponentPart (text.drop (whole ++ fraction).length) = (mark, digits) ∧
        text.drop (whole ++ fraction ++ mark ++ digits).length = rest := by
  obtain ⟨mark, digits, read, rfl, both⟩ := exponentPart_append isPower closes
  have stops := power_stops isPower closes
  refine ⟨mark, digits, rfl, both, ?_, ?_, ?_, ?_⟩
  · exact takeWhile_upTo (fun char among => (isDigit_eq char).trans (areDigits char among))
      (fraction_stops isFraction stops)
  · rw [List.drop_left]
    refine fractionPart_append isFraction stops fun bareFraction => ?_
    generalize mark ++ digits = power at isPower bare
    cases isPower with
    | none => exact bare bareFraction rfl
    | power marked => rcases marked with rfl | rfl <;> rfl
  · rw [← List.append_assoc whole, List.drop_left, read]
  · have all : whole ++ (fraction ++ (mark ++ digits ++ rest)) =
        (whole ++ fraction ++ mark ++ digits) ++ rest := by
      simp only [List.append_assoc]
    rw [all, List.drop_left]

theorem exponent_finished {mark digits : List Char} (both : mark = [] ↔ digits = []) :
    (!mark.isEmpty && digits.isEmpty) = false := by
  by_cases unmarked : mark = []
  · simp [unmarked]
  · simp [mt both.mpr unmarked]

theorem decimalTail_suffixed {suffix : Char} (areDigits : AreDigits whole)
    (isFraction : IsFraction fraction) (isPower : IsPower power)
    (suffixed : suffix = 'f' ∨ suffix = 'F') :
    decimalTail (whole ++ (fraction ++ (power ++ suffix :: rest))) =
      (.token .floatLiteral, whole ++ (fraction ++ power) ++ [suffix]) := by
  have closes : Closes (suffix :: rest) := by
    rcases suffixed with rfl | rfl <;> exact .cons (by decide) rest
  have bare : fractionPart (suffix :: rest) = [] := by
    rcases suffixed with rfl | rfl <;> rfl
  obtain ⟨mark, digits, rfl, both, wholeTaken, fractionTaken, powerTaken, left⟩ :=
    dissected areDigits isFraction isPower closes fun _ _ => bare
  have finished := exponent_finished both
  unfold decimalTail
  simp only [wholeTaken, fractionTaken, powerTaken, left, finished]
  rcases suffixed with rfl | rfl <;> simp

theorem Apart.stops (apart : Apart rest) : ∀ char ∈ rest.head?, isHexDigit char = false := by
  intro char first
  apply Bool.eq_false_iff.mpr
  intro digit
  have part := isWordPart_of_isHexDigit digit
  rw [apart char first] at part
  cases part

theorem Apart.closes (apart : Apart rest) : Closes rest := by
  intro char first
  have other := apart char first
  refine ⟨?_, ?_, ?_⟩
  · apply Bool.eq_false_iff.mpr
    intro digit
    exact Bool.eq_false_iff.mp (apart.stops char first) (isHexDigit_of_isDigit digit)
  · rintro rfl
    exact absurd other (by decide)
  · rintro rfl
    exact absurd other (by decide)

theorem decimalTail_apart (areDigits : AreDigits whole)
    (isFraction : IsFraction fraction) (isPower : IsPower power) (apart : Apart rest)
    (bare : fraction = [] → power = [] → fractionPart rest = []) :
    decimalTail (whole ++ (fraction ++ (power ++ rest))) =
      (.token (if fraction ++ power = [] then .intLiteral else .doubleLiteral),
        whole ++ (fraction ++ power)) := by
  obtain ⟨mark, digits, rfl, both, wholeTaken, fractionTaken, powerTaken, left⟩ :=
    dissected areDigits isFraction isPower apart.closes bare
  have finished := exponent_finished both
  unfold decimalTail
  simp only [wholeTaken, fractionTaken, powerTaken, left, finished, Bool.false_eq_true, if_false]
  split
  · exact absurd (apart 'f' rfl) (by decide)
  · exact absurd (apart 'F' rfl) (by decide)
  · cases fraction <;> cases mark <;> simp_all [Apart.takeWhile]

end

section

variable {first : Char} {text tail behind : List Char} {kind : TokenKind}

theorem decimalTail_isDecimal (digit : isDigit first = true)
    (scanned : decimalTail text = (.token kind, tail)) :
    IsDecimal kind (first :: tail) ∧ Ends kind (first :: tail) (text.drop tail.length) := by
  have areDigits : AreDigits (first :: text.takeWhile isDigit) := by
    rw [AreDigits, List.forall_mem_cons]
    exact ⟨(isDigit_eq first).symm.trans digit, areDigits_takeWhile⟩
  have some_digit := List.cons_ne_nil first (text.takeWhile isDigit)
  unfold decimalTail at scanned
  dsimp only at scanned
  have isFraction : IsFraction (fractionPart (text.drop (text.takeWhile isDigit).length)) :=
    fractionPart_isFraction
  generalize read : fractionPart (text.drop (text.takeWhile isDigit).length) = fraction
    at scanned isFraction
  split at scanned
  · cases scanned
  · rename_i finished
    have isPower := exponentPart_isPower (text.drop (text.takeWhile isDigit ++ fraction).length)
      (by simpa only [Bool.and_eq_true, Bool.not_eq_true', List.isEmpty_iff, not_and,
        List.isEmpty_eq_false_iff] using finished)
    have unmarked := exponentPart_digits (text.drop (text.takeWhile isDigit ++ fraction).length)
    generalize exponentPart (text.drop (text.takeWhile isDigit ++ fraction).length) = parts
      at scanned isPower unmarked
    have suffixed {suffix : Char} (marks : suffix = 'f' ∨ suffix = 'F') :
        IsDecimal .floatLiteral (first :: (text.takeWhile isDigit ++ fraction ++ parts.1 ++
          parts.2 ++ [suffix])) := by
      have written := IsDecimal.float some_digit areDigits isFraction isPower marks
      simp only [List.append_assoc, List.cons_append] at written ⊢
      exact written
    split at scanned
    · cases scanned
      exact ⟨suffixed (Or.inl rfl), .suffixed⟩
    · cases scanned
      exact ⟨suffixed (Or.inr rfl), .suffixed⟩
    · split at scanned
      · cases scanned
      · rename_i separate
        have apart := apart_of_takeWhile separate
        split at scanned
        · rename_i whole
          cases scanned
          rw [Bool.and_eq_true, List.isEmpty_iff, List.isEmpty_iff] at whole
          rw [whole.1, whole.2, unmarked whole.2, List.append_nil, List.append_nil, List.append_nil]
            at apart ⊢
          exact ⟨.integer some_digit areDigits, .apart apart fun _ => read.trans whole.1⟩
        · rename_i more
          cases scanned
          have filled : fraction ++ (parts.1 ++ parts.2) ≠ [] := by
            rintro empty
            simp_all
          have written := IsDecimal.double some_digit areDigits isFraction isPower filled
          refine ⟨?_, .apart apart fun same => absurd same (by decide)⟩
          simp only [List.append_assoc, List.cons_append] at written ⊢
          exact written

theorem decimalTail_of_isDecimal (isDecimal : IsDecimal kind (first :: tail))
    (ends : Ends kind (first :: tail) behind) :
    decimalTail (tail ++ behind) = (.token kind, tail) := by
  generalize spelled : first :: tail = lexeme at isDecimal ends
  cases isDecimal with
  | integer some_digit areDigits =>
      subst spelled
      rw [AreDigits, List.forall_mem_cons] at areDigits
      cases ends with
      | apart apart bare =>
          have read := decimalTail_apart areDigits.2 .none .none apart fun _ _ => bare rfl
          simpa using read
      | hexadecimal marked =>
          have digit := areDigits.2 _ (List.mem_cons_self ..)
          rcases marked with rfl | rfl <;> exact absurd digit (by decide)
  | @double whole fraction power some_digit areDigits isFraction isPower filled =>
      obtain ⟨digit, more, rfl⟩ := List.exists_cons_of_ne_nil some_digit
      rw [AreDigits, List.forall_mem_cons] at areDigits
      simp only [List.cons_append] at spelled
      obtain ⟨rfl, rfl⟩ := List.cons.inj spelled
      cases ends with
      | apart apart bare =>
          have read := decimalTail_apart areDigits.2 isFraction isPower apart fun bare both =>
            absurd (by rw [bare, both]; rfl) filled
          rw [if_neg filled] at read
          simpa only [List.append_assoc] using read
  | @float whole fraction power suffix some_digit areDigits isFraction isPower suffixed =>
      obtain ⟨digit, more, rfl⟩ := List.exists_cons_of_ne_nil some_digit
      rw [AreDigits, List.forall_mem_cons] at areDigits
      simp only [List.cons_append] at spelled
      obtain ⟨rfl, rfl⟩ := List.cons.inj spelled
      have read := @decimalTail_suffixed more fraction power behind suffix areDigits.2 isFraction
        isPower suffixed
      simpa only [List.append_assoc, List.singleton_append] using read

theorem decimalTail_mark {mark : Char} {rest : List Char} (marked : mark = 'x' ∨ mark = 'X') :
    (decimalTail (mark :: rest)).1 = .invalidNumber := by
  rcases marked with rfl | rfl <;>
    simp [decimalTail, fractionPart, exponentPart, isDigit, isWordPart]

theorem hexTail_isNumeral {mark : Char} (marked : mark = 'x' ∨ mark = 'X')
    (scanned : hexTail mark text = (.token kind, tail)) :
    IsNumeral kind ('0' :: tail) ∧ Ends kind ('0' :: tail) ((mark :: text).drop tail.length) := by
  unfold hexTail at scanned
  dsimp only at scanned
  split at scanned
  · cases scanned
  · rename_i some_digit
    cases scanned
    exact ⟨.hexadecimal marked (by simpa using some_digit) fun _ => List.mem_takeWhile_imp,
      .hexadecimal marked (drop_takeWhile isHexDigit text)⟩

theorem numberTail_isNumeral (digit : isDigit first = true)
    (scanned : numberTail first text = (.token kind, tail)) :
    IsNumeral kind (first :: tail) ∧ Ends kind (first :: tail) (text.drop tail.length) := by
  unfold numberTail at scanned
  split at scanned
  · exact hexTail_isNumeral (Or.inl rfl) scanned
  · exact hexTail_isNumeral (Or.inr rfl) scanned
  · obtain ⟨isDecimal, ends⟩ := decimalTail_isDecimal digit scanned
    exact ⟨.decimal isDecimal, ends⟩

theorem numberTail_of_isNumeral (isNumeral : IsNumeral kind (first :: tail))
    (ends : Ends kind (first :: tail) behind) :
    numberTail first (tail ++ behind) = (.token kind, tail) := by
  generalize spelled : first :: tail = lexeme at isNumeral
  cases isNumeral with
  | decimal isDecimal =>
      subst spelled
      have read := decimalTail_of_isDecimal isDecimal ends
      unfold numberTail
      split
      · rename_i same
        rw [same] at read
        exact absurd (congrArg Prod.fst read) (by rw [decimalTail_mark (Or.inl rfl)]; nofun)
      · rename_i same
        rw [same] at read
        exact absurd (congrArg Prod.fst read) (by rw [decimalTail_mark (Or.inr rfl)]; nofun)
      · exact read
  | @hexadecimal mark digits marked some_digit all =>
      obtain ⟨rfl, rfl⟩ := List.cons.inj spelled
      have stops : ∀ char ∈ behind.head?, isHexDigit char = false := by
        cases ends with
        | apart apart => exact apart.stops
        | hexadecimal _ stops => exact stops
      have read : hexTail mark (digits ++ behind) = (.token .intLiteral, mark :: digits) := by
        rw [hexTail, takeWhile_upTo all stops]
        simp [some_digit]
      rcases marked with rfl | rfl <;> exact read

end

end Lexer

end ScriptEngine
