import Mathlib.Data.List.TakeWhile
import ScriptEngine.Json.Reader
/-! How texts and numbers are spelled in a document. What the writer makes of a text, a natural
number, an integer or a float is taken by the reader as it stands, up to its end and no further, and
of all but the float it is read as what it was. -/

namespace ScriptEngine

theorem bind_some_eq_map {α β : Type} (read : Option α) (change : α → β) :
    (read.bind fun value => some (change value)) = read.map change := by
  cases read <;> rfl

namespace Json

inductive Escape : Char → List Char → Prop
  | letter {char letter : Char} : escaped? letter = some char → Escape char ['\\', letter]
  | unit {char : Char} : char.toNat < 32 → Escape char
      ['\\', 'u', '0', '0', hexDigit (char.toNat / 16), hexDigit (char.toNat % 16)]
  | plain {char : Char} : char ≠ '"' → char ≠ '\\' → ¬ char < ' ' → Escape char [char]

theorem escapeChar_escape (char : Char) : Escape char (escapeChar char) := by
  unfold escapeChar
  split
  case h_8 char quote backslash _ _ _ _ _ =>
    split
    · rename_i control
      exact .unit control
    · rename_i printed
      exact .plain quote backslash printed
  all_goals exact .letter rfl

theorem unit?_hexDigit : ∀ code < 32,
    unit? '0' '0' (hexDigit (code / 16)) (hexDigit (code % 16)) = some code := by
  decide

theorem letter_ne_u {char letter : Char} (short : escaped? letter = some char) : letter ≠ 'u' := by
  rintro rfl
  cases short

theorem spelling?_escapeChar (char : Char) (rest : List Char) :
    Mark.spelling? (escapeChar char ++ rest) =
      (Mark.spelling? rest).map (escapeChar char ++ ·) := by
  have escape := escapeChar_escape char
  generalize escapeChar char = spelled at escape ⊢
  cases escape with
  | letter short =>
      rw [List.cons_append, List.cons_append, Mark.spelling?, if_pos (by rw [short]; rfl)]
      · rfl
      · exact fun _ _ _ _ _ unit _ => letter_ne_u short unit
  | unit small => simp [Mark.spelling?, unit?_hexDigit _ small]
  | plain quote backslash printed => simp [Mark.spelling?, backslash, printed]

def IsQuotable (spelling : List Char) : Prop :=
  ∀ rest, Mark.spelling? (spelling ++ '"' :: rest) = some spelling

theorem isQuotable_escape (text : List Char) : IsQuotable (escape text) := by
  intro rest
  induction text with
  | nil => rfl
  | cons char text ih =>
      rw [escape, List.flatMap_cons, List.append_assoc, spelling?_escapeChar]
      rw [escape] at ih
      rw [ih, Option.map_some]

theorem units?_escapeChar (char : Char) (rest : List Char) :
    units? (escapeChar char ++ rest) = (units? rest).map (char.toNat :: ·) := by
  have escape := escapeChar_escape char
  generalize escapeChar char = spelled at escape ⊢
  cases escape with
  | letter short =>
      rw [List.cons_append, List.cons_append, List.nil_append, units?, short]
      · cases units? rest <;> rfl
      · exact fun _ _ _ _ _ unit _ => letter_ne_u short unit
  | unit small => simp [units?, unit?_hexDigit _ small, bind_some_eq_map]
  | plain quote backslash printed =>
      simp [units?, backslash, bind_some_eq_map]

theorem units?_escape (text : List Char) : units? (escape text) = some (text.map Char.toNat) := by
  induction text with
  | nil => rfl
  | cons char text ih =>
      rw [escape, List.flatMap_cons, units?_escapeChar]
      rw [escape] at ih
      rw [ih]
      rfl

theorem not_half (char : Char) :
    isLowHalf char.toNat = false ∧ isHighHalf char.toNat = false := by
  have valid := char.valid
  simp only [UInt32.isValidChar, Nat.isValidChar] at valid
  simp only [isLowHalf, isHighHalf, Char.toNat]
  constructor <;> (rw [Bool.and_eq_false_iff]; simp only [decide_eq_false_iff_not]; omega)

theorem joinHalves?_toNat (text : List Char) :
    joinHalves? (text.map Char.toNat) = some text := by
  induction text with
  | nil => rfl
  | cons char text ih =>
      obtain ⟨low, high⟩ := not_half char
      rw [List.map_cons, joinHalves?.eq_def]
      simp [low, high, ih]

theorem unescape?_escape (text : String) : unescape? (escape text.toList) = some text := by
  simp [unescape?, units?_escape, joinHalves?_toNat]

@[simp] theorem text?_ofText (text : String) : (ofText text).text? = some text :=
  unescape?_escape text

def AreDigits (chars : List Char) : Prop := ∀ char ∈ chars, Reading.isDigit char = true

theorem toDigits_rec {holds : Nat → List Char → Prop}
    (single : ∀ number < 10, holds number [number.digitChar])
    (longer : ∀ number digit, 0 < number → digit < 10 → holds number (Nat.toDigits 10 number) →
      holds (10 * number + digit) (Nat.toDigits 10 number ++ [digit.digitChar])) :
    ∀ number, holds number (Nat.toDigits 10 number) := by
  intro number
  induction number using Nat.strongRecOn with
  | ind number ih =>
      by_cases small : number < 10
      · rw [Nat.toDigits_of_lt_base small]
        exact single number small
      · have next := longer (number / 10) (number % 10) (by omega) (by omega)
          (ih (number / 10) (by omega))
        rw [Nat.div_add_mod] at next
        rw [Nat.toDigits_of_base_le (by decide) (by omega)]
        exact next

theorem digit?_digitChar : ∀ digit < 10, Reading.digit? 10 digit.digitChar = some digit := by
  decide

theorem isDigit_digitChar {digit : Nat} (small : digit < 10) :
    Reading.isDigit digit.digitChar = true := by
  rw [Reading.isDigit, digit?_digitChar digit small]
  rfl

theorem digitChar_zero : ∀ digit < 10, digit.digitChar = '0' → digit = 0 := by
  decide

theorem areDigits_toDigits (number : Nat) : AreDigits (Nat.toDigits 10 number) := by
  induction number using toDigits_rec with
  | single number small =>
      rw [AreDigits, List.forall_mem_singleton]
      exact isDigit_digitChar small
  | longer number digit _ small ih =>
      rw [AreDigits, List.forall_mem_append, List.forall_mem_singleton]
      exact ⟨ih, isDigit_digitChar small⟩

theorem toDigits_head (number : Nat) :
    (Nat.toDigits 10 number).head? = some '0' → number = 0 := by
  induction number using toDigits_rec with
  | single number small => exact fun zero => digitChar_zero number small (Option.some.inj zero)
  | longer number digit positive _ ih =>
      obtain ⟨first, rest, shape⟩ := List.exists_cons_of_ne_nil (@Nat.toDigits_ne_nil number 10)
      rw [shape] at ih ⊢
      exact fun zero => absurd (ih zero) (Nat.ne_of_gt positive)

theorem digits?_concat (digits : List Char) (last : Char) (value : Nat) :
    Reading.digits? 10 value (digits ++ [last]) =
      (Reading.digits? 10 value digits).bind fun shorter =>
        (Reading.digit? 10 last).map (shorter * 10 + ·) := by
  induction digits generalizing value with
  | nil => simp [Reading.digits?, bind_some_eq_map]
  | cons first digits ih => simp [Reading.digits?, ih, Option.bind_assoc]

theorem nat?_toDigits (number : Nat) :
    Reading.nat? 10 (Nat.toDigits 10 number) = some number := by
  rw [Reading.nat?, if_neg (by simp)]
  induction number using toDigits_rec with
  | single number small => simp [Reading.digits?, digit?_digitChar number small]
  | longer number digit _ small ih =>
      rw [digits?_concat, ih, digit?_digitChar digit small, Option.bind_some, Option.map_some,
        Nat.mul_comm]

theorem not_control {char : Char} (digit : Reading.isDigit char = true) : ¬ char < ' ' := by
  intro control
  have below : ∀ {least : Char}, ' ' < least → decide (least ≤ char) = false := by
    intro least above
    simp only [Char.lt_def, Char.le_def, decide_eq_false_iff_not, UInt32.lt_iff_toNat_lt,
      UInt32.le_iff_toNat_le] at control above ⊢
    omega
  simp [Reading.isDigit, Reading.digit?, below] at digit

theorem AreDigits.isQuotable {digits : List Char} (areDigits : AreDigits digits) :
    IsQuotable digits := by
  intro rest
  induction digits with
  | nil => rfl
  | cons char digits ih =>
      have digit := areDigits char (List.mem_cons_self ..)
      have quote : char ≠ '"' := by
        rintro rfl
        exact absurd digit (by decide)
      have backslash : char ≠ '\\' := by
        rintro rfl
        exact absurd digit (by decide)
      have taken := ih fun other among => areDigits other (List.mem_cons_of_mem _ among)
      simp [Mark.spelling?, backslash, not_control digit, taken]

structure IsWhole (chars : List Char) : Prop where
  some_digit : chars ≠ []
  digits : AreDigits chars
  zero : chars.head? = some '0' → chars = ['0']

inductive IsFraction : List Char → Prop
  | none : IsFraction []
  | places {digits : List Char} : digits ≠ [] → AreDigits digits → IsFraction ('.' :: digits)

inductive IsExponent : List Char → Prop
  | none : IsExponent []
  | power {sign : Char} {digits : List Char} : sign = '+' ∨ sign = '-' → digits ≠ [] →
      AreDigits digits → IsExponent ('e' :: sign :: digits)

inductive IsUnsigned : List Char → Prop
  | parts {whole fraction exponent : List Char} : IsWhole whole → IsFraction fraction →
      IsExponent exponent → IsUnsigned (whole ++ (fraction ++ exponent))

inductive IsNumber : List Char → Prop
  | unsigned {spelling : List Char} : IsUnsigned spelling → IsNumber spelling
  | negative {spelling : List Char} : IsUnsigned spelling → IsNumber ('-' :: spelling)

theorem isWhole_toDigits (number : Nat) : IsWhole (Nat.toDigits 10 number) where
  some_digit := Nat.toDigits_ne_nil
  digits := areDigits_toDigits number
  zero := by
    intro zero
    rw [toDigits_head number zero]
    rfl

def StartsIn (chars text : List Char) : Prop := ∀ char ∈ text.head?, char ∈ chars

abbrev IsBehind : List Char → Prop := StartsIn [',', ']', '}']

section

variable {chars rest : List Char}

theorem startsIn_cons {char : Char} (among : char ∈ chars) : StartsIn chars (char :: rest) := by
  rintro first first_eq
  rw [List.head?_cons, Option.mem_some] at first_eq
  exact first_eq ▸ among

theorem StartsIn.takeWhile (starts : StartsIn chars rest) {wanted : Char → Bool}
    (unwanted : chars.any wanted = false) : rest.takeWhile wanted = [] := by
  cases rest with
  | nil => rfl
  | cons first rest =>
      rw [List.takeWhile_cons, if_neg (List.any_eq_false.mp unwanted first (starts first rfl))]

theorem AreDigits.takeWhile {digits : List Char} (areDigits : AreDigits digits)
    (starts : StartsIn chars rest) (other : chars.any Reading.isDigit = false) :
    (digits ++ rest).takeWhile Reading.isDigit = digits := by
  rw [List.takeWhile_append_of_pos areDigits, starts.takeWhile other, List.append_nil]

theorem IsExponent.startsIn {exponent : List Char} (isExponent : IsExponent exponent)
    (behind : IsBehind rest) : StartsIn ['e', ',', ']', '}'] (exponent ++ rest) := by
  cases isExponent with
  | none => exact fun char first => List.mem_cons_of_mem _ (behind char first)
  | power => exact startsIn_cons (by decide)

theorem IsFraction.startsIn {fraction : List Char} (isFraction : IsFraction fraction)
    (starts : StartsIn ['e', ',', ']', '}'] rest) :
    StartsIn ['.', 'e', ',', ']', '}'] (fraction ++ rest) := by
  cases isFraction with
  | none => exact fun char first => List.mem_cons_of_mem _ (starts char first)
  | places => exact startsIn_cons (by decide)

theorem IsWhole.taken {whole : List Char} (isWhole : IsWhole whole)
    (starts : StartsIn ['.', 'e', ',', ']', '}'] rest) : Mark.whole (whole ++ rest) = whole := by
  obtain ⟨first, more, rfl⟩ := List.exists_cons_of_ne_nil isWhole.some_digit
  by_cases zero : first = '0'
  · subst zero
    rw [isWhole.zero rfl]
    rfl
  · rw [List.cons_append, Mark.whole.eq_2 _ fun _ same => zero (List.cons.inj same).1]
    exact isWhole.digits.takeWhile starts rfl

theorem IsFraction.taken {fraction : List Char} (isFraction : IsFraction fraction)
    (starts : StartsIn ['e', ',', ']', '}'] rest) :
    Mark.fraction (fraction ++ rest) = fraction := by
  cases isFraction with
  | none =>
      rw [List.nil_append, Mark.fraction.eq_def]
      split
      · exact absurd (starts _ rfl) (by decide)
      · rfl
  | places some_digit digits =>
      rw [List.cons_append, Mark.fraction, digits.takeWhile starts rfl]
      simpa using some_digit

theorem IsExponent.taken {exponent : List Char} (isExponent : IsExponent exponent)
    (behind : IsBehind rest) : Mark.exponent (exponent ++ rest) = exponent := by
  cases isExponent with
  | none =>
      cases rest with
      | nil => rfl
      | cons first rest =>
          have plain : first ≠ 'e' ∧ first ≠ 'E' := by
            have among := behind first rfl
            constructor <;> (rintro rfl; exact absurd among (by decide))
          simp [Mark.exponent, plain]
  | power sign some_digit digits =>
      have taken := digits.takeWhile behind rfl
      rcases sign with rfl | rfl <;> simp [Mark.exponent, Mark.sign, taken, some_digit]

theorem IsUnsigned.taken {spelling : List Char} (isUnsigned : IsUnsigned spelling)
    (behind : IsBehind rest) : Mark.unsigned (spelling ++ rest) = spelling := by
  cases isUnsigned with
  | @parts whole fraction exponent isWhole isFraction isExponent =>
      have starts := isExponent.startsIn behind
      have taken := isWhole.taken (isFraction.startsIn starts)
      simp only [List.append_assoc, Mark.unsigned, taken, List.isEmpty_iff, isWhole.some_digit,
        if_false, List.drop_left, isFraction.taken starts]
      rw [← List.append_assoc whole fraction (exponent ++ rest), List.drop_left,
        isExponent.taken behind]

theorem IsUnsigned.first {spelling : List Char} (isUnsigned : IsUnsigned spelling) :
    ∃ first more, spelling = first :: more ∧ Reading.isDigit first = true := by
  cases isUnsigned with
  | parts isWhole =>
      obtain ⟨first, more, rfl⟩ := List.exists_cons_of_ne_nil isWhole.some_digit
      exact ⟨first, _, rfl, isWhole.digits _ (List.mem_cons_self ..)⟩

theorem IsNumber.taken {spelling : List Char} (isNumber : IsNumber spelling)
    (behind : IsBehind rest) : Mark.number (spelling ++ rest) = spelling := by
  cases isNumber with
  | unsigned isUnsigned =>
      have taken := isUnsigned.taken behind
      obtain ⟨first, more, rfl, digit⟩ := isUnsigned.first
      have other : first ≠ '-' := by
        rintro rfl
        exact absurd digit (by decide)
      rw [List.cons_append, Mark.number.eq_2 _ fun _ same => other (List.cons.inj same).1]
      exact taken
  | negative isUnsigned =>
      have taken := isUnsigned.taken behind
      obtain ⟨first, more, rfl, _⟩ := isUnsigned.first
      rw [List.cons_append, Mark.number, taken]
      rfl

theorem IsNumber.first {spelling : List Char} (isNumber : IsNumber spelling) :
    ∃ first more, spelling = first :: more ∧ (Reading.isDigit first = true ∨ first = '-') := by
  cases isNumber with
  | unsigned isUnsigned =>
      obtain ⟨first, more, same, digit⟩ := isUnsigned.first
      exact ⟨first, more, same, Or.inl digit⟩
  | negative => exact ⟨'-', _, rfl, Or.inr rfl⟩

end

theorem IsWhole.isUnsigned {whole : List Char} (isWhole : IsWhole whole) : IsUnsigned whole := by
  have plain := IsUnsigned.parts isWhole .none .none
  rwa [List.append_nil, List.append_nil] at plain

theorem isNumber_toDigits (number : Nat) : IsNumber (Nat.toDigits 10 number) :=
  .unsigned (isWhole_toDigits number).isUnsigned

theorem toString_toList (number : Int) :
    (toString number).toList =
      if number < 0 then '-' :: Nat.toDigits 10 number.natAbs
      else Nat.toDigits 10 number.natAbs := by
  cases number with
  | ofNat amount => simp [Int.toString_eq_repr, Int.repr]
  | negSucc amount => simp [Int.repr]

theorem isNumber_toString (number : Int) : IsNumber (toString number).toList := by
  rw [toString_toList]
  split
  · exact .negative (isWhole_toDigits _).isUnsigned
  · exact isNumber_toDigits _

theorem AreDigits.not_sign {char : Char} {digits : List Char}
    (areDigits : AreDigits (char :: digits)) : char ≠ '-' ∧ char ≠ '+' := by
  have digit := areDigits char (List.mem_cons_self ..)
  constructor <;> (rintro rfl; exact absurd digit (by decide))

theorem AreDigits.sign {digits : List Char} (areDigits : AreDigits digits) :
    Reading.sign digits = (false, digits) := by
  refine Reading.sign.eq_3 digits (fun rest same => ?_) fun rest same => ?_
  all_goals
    subst same
    have := areDigits.not_sign
    simp_all

theorem int?_toDigits (number : Nat) :
    Reading.int? 10 (Nat.toDigits 10 number) = some (number : Int) := by
  simp [Reading.int?, (areDigits_toDigits number).sign, nat?_toDigits]

theorem int?_neg_toDigits (number : Nat) :
    Reading.int? 10 ('-' :: Nat.toDigits 10 number) = some (-(number : Int)) := by
  simp [Reading.int?, Reading.sign, nat?_toDigits]

@[simp] theorem int?_ofNat (number : Nat) : (ofNat number).int? = some (number : Int) := by
  have digits := areDigits_toDigits number
  rw [ofNat, int?.eq_2 _ fun same => (same ▸ digits).not_sign.1 rfl, int?_toDigits]

@[simp] theorem int?_ofInt (number : Int) : (ofInt number).int? = some number := by
  rw [ofInt, toString_toList]
  split
  · rename_i negative
    rw [int?.eq_2, int?_neg_toDigits]
    · congr 1
      omega
    · intro same
      have zero : number.natAbs = 0 := toDigits_head _ (by rw [(List.cons.inj same).2]; rfl)
      omega
  · have read := int?_ofNat number.natAbs
    rw [ofNat] at read
    rw [read]
    congr 1
    omega

end Json

namespace Decimal

open Json

structure IsProper (decimal : Decimal) : Prop where
  some_digit : decimal.digits ≠ []
  digits : AreDigits decimal.digits
  zero : decimal.digits.head? = some '0' → decimal.digits = ['0'] ∧ decimal.lead = 0

theorem zero_isProper : zero.IsProper :=
  ⟨List.cons_ne_nil _ _, areDigits_toDigits 0, fun _ => ⟨rfl, rfl⟩⟩

theorem ofNat_isProper {number : Nat} (positive : 0 < number) (exponent : Int) :
    (ofNat number exponent).IsProper := by
  have nonzero : (Nat.toDigits 10 number).head? ≠ some '0' := fun zero =>
    Nat.ne_of_gt positive (toDigits_head number zero)
  have within : (ofNat number exponent).digits <+: Nat.toDigits 10 number := by
    rw [← List.reverse_suffix, ofNat, List.reverse_reverse]
    exact List.dropWhile_suffix _
  obtain ⟨first, more, shape⟩ := List.exists_cons_of_ne_nil (@Nat.toDigits_ne_nil number 10)
  rw [shape] at nonzero
  have kept : (ofNat number exponent).digits ≠ [] := by
    intro empty
    have zeros := List.dropWhile_eq_nil_iff.mp (List.reverse_eq_nil_iff.mp empty) first
    rw [List.mem_reverse, shape, decide_eq_true_eq] at zeros
    exact nonzero (congrArg some (zeros (List.mem_cons_self ..)))
  refine ⟨kept, fun char among => areDigits_toDigits number char (within.subset among),
    fun zero => ?_⟩
  obtain ⟨leading, others, digits⟩ := List.exists_cons_of_ne_nil kept
  rw [digits, shape] at within
  rw [digits, (List.cons_prefix_cons.mp within).1] at zero
  exact absurd zero nonzero

theorem coarsest_pos {interval : Interval} {value : Nat} (low : 0 < interval.low)
    (high : 0 < interval.high) (positive : 0 < value) (tie : Tie) (power : Nat) :
    0 < coarsest interval tie value power := by
  have inside : ∀ number, interval.contains number = true → 0 < number := by
    intro number contains
    simp only [Interval.contains, Bool.or_eq_true, Bool.and_eq_true, decide_eq_true_eq,
      beq_iff_eq] at contains
    omega
  induction power with
  | zero => exact positive
  | succ power ih =>
      have unit : 0 < Nat.pow 10 (power + 1) := Nat.pow_pos (by decide)
      simp only [coarsest]
      split
      · rename_i below above
        have lower := inside _ below
        have upper := inside _ above
        repeat' split
        all_goals assumption
      · rename_i below _
        exact inside _ below
      · rename_i _ above
        exact inside _ above
      · exact ih

theorem ofDouble_isProper (tie : Tie) (significand : Nat) (exponent : Int) :
    (ofDouble tie significand exponent).IsProper := by
  unfold ofDouble
  split
  · exact zero_isProper
  · have scale : ∀ quarter : Int, 0 < Nat.pow 5 (-quarter).toNat <<< quarter.toNat := by
      intro quarter
      rw [Nat.shiftLeft_eq]
      exact Nat.mul_pos (Nat.pow_pos (by decide)) (Nat.two_pow_pos _)
    have low : 0 < 4 * significand - 2 := by omega
    refine ofNat_isProper (coarsest_pos ?_ ?_ ?_ tie _) _
    · refine Nat.mul_pos ?_ (scale _)
      split <;> omega
    · exact Nat.mul_pos (Nat.succ_pos _) (scale _)
    · exact Nat.mul_pos (by omega) (scale _)

end Decimal

namespace Layout

open Json

theorem isWhole_single {digit : Char} (isDigit : Reading.isDigit digit = true) :
    IsWhole [digit] where
  some_digit := List.cons_ne_nil _ _
  digits := by
    rw [AreDigits, List.forall_mem_singleton]
    exact isDigit
  zero := fun zero => congrArg (fun char => [char]) (Option.some.inj zero)

theorem areDigits_replicate (count : Nat) : AreDigits (List.replicate count '0') := by
  intro char among
  rw [List.eq_of_mem_replicate among]
  decide

theorem places_spelled {decimal : Decimal} (proper : decimal.IsProper) :
    IsWhole (places decimal).1 ∧ AreDigits (places decimal).2 := by
  unfold places
  dsimp only
  split
  · refine ⟨isWhole_single (by decide), ?_⟩
    rw [AreDigits, List.forall_mem_append]
    exact ⟨areDigits_replicate _, proper.digits⟩
  · rename_i above
    refine ⟨?_, fun char among => proper.digits char (List.drop_subset _ _ among)⟩
    have count : (decimal.lead + 1).toNat = decimal.lead.toNat + 1 := by omega
    obtain ⟨first, more, shape⟩ := List.exists_cons_of_ne_nil proper.some_digit
    refine ⟨?_, ?_, fun zero => ?_⟩
    · rw [count, shape, List.take_succ_cons]
      exact List.cons_ne_nil _ _
    · rw [AreDigits, List.forall_mem_append]
      exact ⟨fun char among => proper.digits char (List.take_subset _ _ among),
        areDigits_replicate _⟩
    · rw [count, shape, List.take_succ_cons] at zero
      obtain ⟨alone, lead⟩ := proper.zero (by rw [shape]; exact zero)
      rw [alone, lead]
      rfl

theorem plainText_isUnsigned (layout : Layout) {decimal : Decimal} (proper : decimal.IsProper) :
    IsUnsigned (layout.plainText decimal) := by
  obtain ⟨isWhole, digits⟩ := places_spelled proper
  unfold plainText
  generalize places decimal = spelled at isWhole digits ⊢
  obtain ⟨whole, fraction⟩ := spelled
  cases fraction with
  | nil =>
      dsimp only
      split
      · have zero : AreDigits ['0'] := areDigits_replicate 1
        exact .parts isWhole (.places (List.cons_ne_nil _ _) zero) .none
      · exact isWhole.isUnsigned
  | cons first more =>
      have plain := IsUnsigned.parts isWhole (.places (List.cons_ne_nil _ _) digits) .none
      rwa [List.append_nil] at plain

theorem exponentText_isUnsigned {decimal : Decimal} (proper : decimal.IsProper) :
    IsUnsigned (exponentText decimal) := by
  have digits := proper.digits
  obtain ⟨first, more, shape⟩ := List.exists_cons_of_ne_nil proper.some_digit
  rw [shape, AreDigits, List.forall_mem_cons] at digits
  have whole := isWhole_single digits.1
  have fraction : IsFraction (if more.isEmpty then [] else '.' :: more) := by
    split
    · exact .none
    · rename_i filled
      exact .places (by simpa using filled) digits.2
  have sign : (if decimal.lead < 0 then '-' else '+') = '+' ∨
      (if decimal.lead < 0 then '-' else '+') = '-' := by
    split
    · exact Or.inr rfl
    · exact Or.inl rfl
  simp only [exponentText, shape, List.drop_succ_cons, List.drop_zero, List.take_succ_cons,
    List.take_zero, List.append_assoc]
  exact .parts whole fraction (.power sign Nat.toDigits_ne_nil (areDigits_toDigits _))

theorem decimalText_isUnsigned (layout : Layout) {decimal : Decimal}
    (proper : decimal.IsProper) : IsUnsigned (layout.decimalText decimal) := by
  unfold decimalText
  split
  · exact plainText_isUnsigned layout proper
  · exact exponentText_isUnsigned proper

end Layout

namespace Json

theorem ofFloat_spelled (number : Float) :
    ofFloat number = .null ∨
      ∃ spelling, ofFloat number = .number spelling ∧ IsNumber spelling := by
  unfold ofFloat Layout.writeDouble Layout.write
  cases Binary64.decode number with
  | nan | infinite => exact Or.inl rfl
  | finite negative significand exponent =>
      have isUnsigned := Layout.decimalText_isUnsigned floatText
        (Decimal.ofDouble_isProper floatText.tie significand exponent)
      refine Or.inr ⟨_, rfl, ?_⟩
      dsimp only
      rw [String.toList_ofList]
      split
      · exact .negative isUnsigned
      · exact .unsigned isUnsigned

end Json

end ScriptEngine
