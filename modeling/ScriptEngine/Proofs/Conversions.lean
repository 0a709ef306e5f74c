import Mathlib
import ScriptEngine.Value
/-! Converting a value once more changes nothing. A number that was cut or rounded to a type is one of
the numbers of that type, which are cut and rounded to themselves. -/

namespace ScriptEngine

namespace Binary64

section

open Float.Model Float.Model.UnpackedFloat

theorem components (bits : BitVec Format.binary64.numBits) :
    packComponents Format.binary64 (Sign.ofBitVec (unpackSign bits)) (unpackExponent bits)
      (unpackMantissa bits) = bits := by
  have sign : ∀ bit : BitVec 1, (Sign.ofBitVec bit).toBitVec = bit := by decide
  unfold packComponents
  rw [sign]
  unfold unpackSign unpackExponent unpackMantissa
  apply BitVec.eq_of_toNat_eq
  have bound : bits.toNat < 2 ^ 64 := bits.isLt
  simp only [BitVec.toNat_append, BitVec.toNat_cast, BitVec.extractLsb_toNat]
  rw [← Nat.shiftLeft_add_eq_or_of_lt, ← Nat.shiftLeft_add_eq_or_of_lt]
  · simp only [Nat.shiftLeft_eq, Nat.shiftRight_eq_div_pow]
    omega
  · exact Nat.mod_lt _ (by decide)
  · exact Nat.mod_lt _ (by decide)

theorem pack_finite (sign : Sign) {mantissa biased : Nat} {exponent : Int} (positive : 0 < mantissa)
    (placed : exponent + 1075 = biased) (below : biased < 2047) :
    UnpackedFloat.pack Format.binary64 (.finite sign mantissa exponent positive) =
      packComponents Format.binary64 sign
        (if mantissa.log2 = 52 then BitVec.ofNat 11 biased else 0) (BitVec.ofNat 52 mantissa) := by
  have bias : exponent + (Format.binary64.exponentBias : Int) +
      (Format.binary64.mantissaBitsWithoutImplicit : Int) = biased := by
    change exponent + 1023 + 52 = biased
    omega
  have width : Format.binary64.mantissaBits = 52 + 1 := rfl
  unfold UnpackedFloat.pack
  dsimp only
  rw [bias, Int.toNat_natCast, width, if_neg (by omega)]
  by_cases leading : mantissa.log2 = 52
  · rw [if_pos leading, if_pos (congrArg (· + 1) leading)]
  · rw [if_neg leading, if_neg fun same => leading (Nat.add_right_cancel same)]
    rfl

theorem pack_unpack {bits : BitVec Format.binary64.numBits} (valid : Format.binary64.Valid bits) :
    UnpackedFloat.pack Format.binary64 (UnpackedFloat.unpack Format.binary64 bits) = bits := by
  have whole := components bits
  have short : (unpackMantissa bits).toNat < 2 ^ 52 := (unpackMantissa bits).isLt
  unfold UnpackedFloat.unpack
  dsimp only
  split
  · rename_i full
    split
    · rename_i empty
      rw [full, empty] at whole
      exact whole
    · rename_i payload
      exact (valid.eq_packedNaN full payload).symm
  · rename_i partly
    split
    · rename_i least
      split
      · rename_i empty
        rw [least, empty] at whole
        exact whole
      · rename_i present
        have positive : (unpackMantissa bits).toNat ≠ 0 :=
          fun zero => present (BitVec.eq_of_toNat_eq zero)
        have leading := (Nat.log2_lt positive).mpr short
        have placed : ((1 : Int) - (1023 + 52)) + 1075 = (1 : Nat) := by decide
        have finite := pack_finite (Sign.ofBitVec (unpackSign bits))
          (Nat.pos_of_ne_zero positive) placed (by decide)
        rw [if_neg (Nat.ne_of_lt leading), BitVec.ofNat_toNat, BitVec.setWidth_eq] at finite
        rw [least] at whole ⊢
        exact finite.trans whole
    · rename_i normal
      have below : (unpackExponent bits).toNat < 2047 := by
        have bound : (unpackExponent bits).toNat < 2 ^ 11 := (unpackExponent bits).isLt
        have different : (unpackExponent bits).toNat ≠ 2047 :=
          fun same => partly (BitVec.eq_of_toNat_eq same)
        omega
      have joined : (1#1 ++ unpackMantissa bits).toNat = 2 ^ 52 + (unpackMantissa bits).toNat := by
        rw [BitVec.toNat_append, ← Nat.shiftLeft_add_eq_or_of_lt short]
        rfl
      have leading : (2 ^ 52 + (unpackMantissa bits).toNat).log2 = 52 := by
        rw [Nat.log2_eq_iff (by omega)]
        omega
      have same : BitVec.ofNat 52 (1#1 ++ unpackMantissa bits).toNat = unpackMantissa bits := by
        apply BitVec.eq_of_toNat_eq
        rw [joined, BitVec.toNat_ofNat, Nat.add_mod_left, Nat.mod_eq_of_lt short]
      rw [← joined] at leading
      have positive : 0 < (1#1 ++ unpackMantissa bits).toNat := by
        rw [joined]
        exact Nat.add_pos_left (by decide) _
      have placed : (((unpackExponent bits).toNat : Int) - (1023 + 52)) + 1075 =
          (unpackExponent bits).toNat := by omega
      have finite := pack_finite (Sign.ofBitVec (unpackSign bits)) positive placed below
      rw [if_pos leading, same, BitVec.ofNat_toNat, BitVec.setWidth_eq, whole] at finite
      exact finite

theorem ofBits_toBits (number : Float) : Float.ofBits number.toBits = number := by
  obtain ⟨bits, valid⟩ := number
  exact congrArg Float.ofModel (by
    unfold Float.Model.ofBits Float.Model.pack Float.toBits
    simp only [pack_unpack valid])

theorem toBits_ofBits {bits : UInt64}
    (finite : bits.toNat % 2 ^ 63 ≤ 2047 <<< 52) : (Float.ofBits bits).toBits = bits := by
  have valid : Format.binary64.Valid bits.toBitVec := by
    refine ⟨fun full payload => absurd (BitVec.eq_of_toNat_eq ?_) payload⟩
    have exponent := congrArg BitVec.toNat full
    simp only [unpackExponent, unpackMantissa, BitVec.toNat_cast, BitVec.extractLsb_toNat,
      Nat.shiftRight_eq_div_pow] at exponent ⊢
    change bits.toNat / 2 ^ 52 % 2 ^ 11 = 2047 at exponent
    change bits.toNat / 2 ^ 0 % 2 ^ 52 = 0
    omega
  unfold Float.toBits Float.ofBits Float.Model.ofBits Float.Model.pack
  simp only [pack_unpack valid]

end

theorem toNat_signed (negative : Bool) {magnitude : Nat} (bound : magnitude < 2 ^ 63) :
    (UInt64.ofNat ((if negative then 1 <<< 63 else 0) + magnitude)).toNat =
      (if negative then 2 ^ 63 else 0) + magnitude := by
  rw [UInt64.toNat_ofNat']
  cases negative
  · simp only [Bool.false_eq_true, if_false]
    omega
  · simp only [if_true, Nat.shiftLeft_eq]
    omega

theorem parts_ofMagnitude (negative : Bool) {bits : Nat} (finite : bits ≤ 2047 <<< 52) :
    isNegative (ofMagnitude negative bits) = negative ∧
      magnitude (ofMagnitude negative bits) = bits := by
  have below : bits < 2 ^ 63 := Nat.lt_of_le_of_lt finite (by decide)
  have signed := toNat_signed negative below
  have same : (ofMagnitude negative bits).toBits =
      UInt64.ofNat ((if negative then 1 <<< 63 else 0) + bits) := by
    refine toBits_ofBits ?_
    rw [signed]
    cases negative
    · simp only [Bool.false_eq_true, if_false]
      omega
    · simp only [if_true]
      omega
  unfold isNegative magnitude
  rw [same, signed, Nat.shiftLeft_eq]
  cases negative
  · simp only [Bool.false_eq_true, if_false, decide_eq_false_iff_not]
    omega
  · simp only [if_true, decide_eq_true_eq]
    omega

theorem ofMagnitude_parts (number : Float) :
    ofMagnitude (isNegative number) (magnitude number) = number := by
  have bound : number.toBits.toNat < 2 ^ 64 := number.toBits.toNat_lt
  unfold ofMagnitude isNegative magnitude
  refine Eq.trans (congrArg Float.ofBits (UInt64.toNat_inj.mp ?_)) (ofBits_toBits number)
  rw [UInt64.toNat_ofNat', Nat.shiftLeft_eq]
  split
  · rename_i negative
    rw [decide_eq_true_eq] at negative
    omega
  · rename_i positive
    rw [decide_eq_true_eq] at positive
    omega

theorem roundToEven_bounds (amount unit : Nat) :
    amount / unit ≤ roundToEven amount unit ∧ roundToEven amount unit ≤ amount / unit + 1 := by
  unfold roundToEven
  dsimp only
  split
  · exact ⟨Nat.le_succ _, Nat.le_refl _⟩
  · exact ⟨Nat.le_refl _, Nat.le_succ _⟩

theorem fields_normal (exponent : Nat) {significand : Nat} (leading : 2 ^ 52 ≤ significand)
    (short : significand < 2 ^ 53) :
    (exponent * 2 ^ 52 + significand - 2 ^ 52) / 2 ^ 52 = exponent ∧
      2 ^ 52 + (exponent * 2 ^ 52 + significand - 2 ^ 52) % 2 ^ 52 = significand := by
  omega

theorem singleMagnitude_exact {bits : Nat} (normal : 872 < bits / 2 ^ 52)
    (below : bits < 1151 <<< 52)
    (divides : 2 ^ (29 + (897 - bits / 2 ^ 52)) ∣ 2 ^ 52 + bits % 2 ^ 52) :
    singleMagnitude bits = bits := by
  obtain ⟨multiple, whole⟩ := divides
  have whole : 2 ^ 52 + bits % 2 ^ 52 = multiple * 2 ^ (29 + (897 - bits / 2 ^ 52)) := by
    rw [whole, Nat.mul_comm]
  have present : multiple ≠ 0 := by
    rintro rfl
    omega
  have kept := roundToEven_mul multiple (2 ^ (29 + (897 - bits / 2 ^ 52))) (Nat.pow_pos (by decide))
  rw [← whole] at kept
  unfold singleMagnitude fields
  simp only [Nat.shiftRight_eq_div_pow, Nat.shiftLeft_eq, Nat.one_mul] at below ⊢
  rw [kept, ← whole, if_neg (by omega), if_neg (by omega), if_neg present, if_neg (by omega)]
  omega

/-- A magnitude rounded to single precision is one of single precision. -/
theorem singleMagnitude_again (bits : Nat) :
    singleMagnitude (singleMagnitude bits) = singleMagnitude bits := by
  have still : singleMagnitude 0 = 0 := by decide
  have endless : singleMagnitude (2047 <<< 52) = 2047 <<< 52 := by decide
  generalize result : singleMagnitude bits = rounded
  unfold singleMagnitude fields at result
  simp only [Nat.shiftRight_eq_div_pow, Nat.shiftLeft_eq, Nat.one_mul] at result
  have positive : 0 < 2 ^ (29 + (897 - bits / 2 ^ 52)) := Nat.pow_pos (by decide)
  split at result
  · rename_i full
    subst result
    unfold singleMagnitude fields
    simp only [Nat.shiftRight_eq_div_pow, full, if_true]
  · split at result
    · subst result
      exact still
    · rename_i short
      have leading : bits % 2 ^ 52 < 2 ^ 52 := Nat.mod_lt _ (by decide)
      generalize bits / 2 ^ 52 = exponent at *
      generalize bits % 2 ^ 52 = fraction at *
      generalize dropped : 29 + (897 - exponent) = digits at *
      obtain ⟨lower, upper⟩ := roundToEven_bounds (2 ^ 52 + fraction) (2 ^ digits)
      generalize roundToEven (2 ^ 52 + fraction) (2 ^ digits) = kept at *
      have most : kept * 2 ^ digits ≤ 2 ^ 53 := by
        have whole : 2 ^ 53 = 2 ^ (53 - digits) * 2 ^ digits := by
          rw [← Nat.pow_add, Nat.sub_add_cancel (by omega)]
        have quotient : (2 ^ 52 + fraction) / 2 ^ digits < 2 ^ (53 - digits) := by
          rw [Nat.div_lt_iff_lt_mul positive, ← whole]
          omega
        rw [whole]
        exact Nat.mul_le_mul_right _ (Nat.le_trans upper quotient)
      split at result
      · subst result
        exact still
      · rename_i present
        have least : 2 ^ 52 ≤ kept * 2 ^ digits := by
          by_cases all : digits = 53
          · rw [all]
            omega
          · have whole : 2 ^ 52 = 2 ^ (52 - digits) * 2 ^ digits := by
              rw [← Nat.pow_add, Nat.sub_add_cancel (by omega)]
            have quotient : 2 ^ (52 - digits) ≤ (2 ^ 52 + fraction) / 2 ^ digits := by
              rw [Nat.le_div_iff_mul_le positive, ← whole]
              exact Nat.le_add_right ..
            rw [whole]
            exact Nat.mul_le_mul_right _ (Nat.le_trans quotient lower)
        split at result
        · subst result
          exact endless
        · rename_i within
          subst result
          -- A carry out of the fraction goes to the next exponent, and leaves the fraction empty.
          by_cases carries : kept * 2 ^ digits = 2 ^ 53
          · have next : exponent * 2 ^ 52 + kept * 2 ^ digits - 2 ^ 52 =
                (exponent + 1) * 2 ^ 52 := by omega
            rw [next] at within ⊢
            refine singleMagnitude_exact ?_ (by rw [Nat.shiftLeft_eq]; omega) ?_
            · rw [Nat.mul_div_cancel _ (by decide)]
              omega
            · rw [Nat.mul_div_cancel _ (by decide), Nat.mul_mod_left]
              exact Nat.pow_dvd_pow 2 (by omega)
          · obtain ⟨quotient, rest⟩ :=
              fields_normal exponent least (Nat.lt_of_le_of_ne most carries)
            refine singleMagnitude_exact ?_ (by rw [Nat.shiftLeft_eq]; omega) ?_
            · rw [quotient]
              omega
            · rw [quotient, rest, dropped]
              exact Nat.dvd_mul_left ..

theorem singleMagnitude_finite (bits : Nat) :
    singleMagnitude bits = bits ∨ singleMagnitude bits ≤ 2047 <<< 52 := by
  unfold singleMagnitude fields
  dsimp only
  split
  · exact Or.inl rfl
  · split
    · exact Or.inr (Nat.zero_le _)
    · split
      · exact Or.inr (Nat.zero_le _)
      · split
        · exact Or.inr (Nat.le_refl _)
        · rename_i within
          refine Or.inr (Nat.le_trans (Nat.le_of_not_le within) ?_)
          decide

theorem toSingle_ofMagnitude (negative : Bool) {bits : Nat} (finite : bits ≤ 2047 <<< 52)
    (single : singleMagnitude bits = bits) :
    toSingle (ofMagnitude negative bits) = ofMagnitude negative bits := by
  obtain ⟨sign, rest⟩ := parts_ofMagnitude negative finite
  rw [toSingle, sign, rest, single]

theorem toSingle_toSingle (number : Float) : toSingle (toSingle number) = toSingle number := by
  rcases singleMagnitude_finite (magnitude number) with same | finite
  · have kept : toSingle number = number := by
      rw [toSingle, same, ofMagnitude_parts]
    rw [kept, kept]
  · exact toSingle_ofMagnitude _ finite (singleMagnitude_again _)

theorem singleMagnitude_natural {kept place : Nat} (digits : kept ≤ 2 ^ 24) (places : place ≤ 40) :
    singleMagnitude (naturalMagnitude (kept * 2 ^ place)) = naturalMagnitude (kept * 2 ^ place) ∧
      naturalMagnitude (kept * 2 ^ place) ≤ 2047 <<< 52 := by
  by_cases none : kept = 0
  · subst none
    rw [Nat.zero_mul]
    decide
  · obtain ⟨atLeast, below⟩ := (Nat.log2_eq_iff none).mp rfl
    generalize kept.log2 = leading at atLeast below
    have short : leading ≤ 24 :=
      (Nat.pow_le_pow_iff_right (by decide)).mp (Nat.le_trans atLeast digits)
    have positive : 0 < 2 ^ place := Nat.pow_pos (by decide)
    have present : kept * 2 ^ place ≠ 0 := Nat.mul_ne_zero none (Nat.ne_of_gt positive)
    have log : (kept * 2 ^ place).log2 = leading + place := by
      rw [Nat.log2_eq_iff present, Nat.pow_add, Nat.add_right_comm, Nat.pow_add]
      exact ⟨Nat.mul_le_mul_right _ atLeast, Nat.mul_lt_mul_of_pos_right below positive⟩
    have shifted : kept * 2 ^ place * 2 ^ 52 / 2 ^ (leading + place) =
        kept * 2 ^ (52 - leading) := by
      have whole : kept * 2 ^ place * 2 ^ 52 =
          kept * 2 ^ (52 - leading) * 2 ^ (leading + place) := by
        rw [Nat.mul_assoc, Nat.mul_assoc, ← Nat.pow_add, ← Nat.pow_add]
        congr 2
        omega
      rw [whole, Nat.mul_div_cancel _ (Nat.pow_pos (by decide))]
    have even : 2 ^ 29 ∣ kept * 2 ^ (52 - leading) := by
      by_cases whole : leading = 24
      · subst whole
        rw [Nat.le_antisymm digits atLeast]
        decide
      · exact Nat.dvd_trans (Nat.pow_dvd_pow 2 (by omega)) (Nat.dvd_mul_left ..)
    have between : 2 ^ 52 ≤ kept * 2 ^ (52 - leading) ∧ kept * 2 ^ (52 - leading) < 2 ^ 53 := by
      have lower := Nat.mul_le_mul_right (2 ^ (52 - leading)) atLeast
      have upper := Nat.mul_lt_mul_of_pos_right below
        (Nat.pow_pos (by decide) : 0 < 2 ^ (52 - leading))
      rw [← Nat.pow_add, Nat.add_sub_cancel' (by omega)] at lower
      rw [← Nat.pow_add, Nat.add_right_comm, Nat.add_sub_cancel' (by omega)] at upper
      exact ⟨lower, upper⟩
    have bits : naturalMagnitude (kept * 2 ^ place) =
        (1023 + (leading + place)) * 2 ^ 52 + kept * 2 ^ (52 - leading) - 2 ^ 52 := by
      unfold naturalMagnitude
      rw [if_neg present, log]
      simp only [Nat.shiftRight_eq_div_pow, Nat.shiftLeft_eq, Nat.one_mul, shifted]
      exact (Nat.add_sub_assoc between.1 _).symm
    obtain ⟨quotient, rest⟩ := fields_normal (1023 + (leading + place)) between.1 between.2
    have least : naturalMagnitude (kept * 2 ^ place) < 1151 <<< 52 := by
      rw [bits, Nat.shiftLeft_eq, ← Nat.div_lt_iff_lt_mul (by decide), quotient]
      omega
    rw [bits] at least ⊢
    refine ⟨singleMagnitude_exact ?_ least ?_, Nat.le_trans (Nat.le_of_lt least) (by decide)⟩
    · rw [quotient]
      omega
    · rw [quotient, rest, Nat.sub_eq_zero_of_le (by omega)]
      exact even

theorem toSingle_singleOfInt64 (number : Int64) :
    toSingle (singleOfInt64 number) = singleOfInt64 number := by
  have bound : number.toInt.natAbs < 2 ^ 64 := by
    have upper := number.toInt_lt
    have lower := number.le_toInt
    omega
  unfold singleOfInt64
  dsimp only
  generalize number.toInt.natAbs = amount at bound
  have digits : roundToEven amount (1 <<< (amount.log2 + 1 - 24)) ≤ 2 ^ 24 := by
    have upper := (roundToEven_bounds amount (1 <<< (amount.log2 + 1 - 24))).2
    have quotient : amount / 1 <<< (amount.log2 + 1 - 24) < 2 ^ 24 := by
      rw [Nat.shiftLeft_eq, Nat.one_mul, Nat.div_lt_iff_lt_mul (Nat.pow_pos (by decide)),
        ← Nat.pow_add]
      exact Nat.lt_of_lt_of_le Nat.lt_log2_self (Nat.pow_le_pow_right (by decide) (by omega))
    exact Nat.le_trans upper quotient
  have places : amount.log2 + 1 - 24 ≤ 40 := by
    by_cases none : amount = 0
    · subst none
      decide
    · have leading := (Nat.log2_lt none).mpr bound
      omega
  obtain ⟨single, finite⟩ := singleMagnitude_natural digits places
  rw [Nat.shiftLeft_eq, Nat.one_mul] at single finite ⊢
  exact toSingle_ofMagnitude _ finite single

end Binary64

namespace Value

theorem wrap_wrap (kind : Kind) (value : Int64) : wrap kind (wrap kind value) = wrap kind value := by
  cases kind <;> simp [wrap]

theorem convert?_default (type : DataType) :
    convert? (.default type) type = some (.default type) := by
  cases kind : type.kind <;>
    simp only [Value.default, kind, convert?, Kind.isIntegral, Kind.isReference, if_true, wrap] <;>
    rfl

theorem convert?_convert? {value stored : Value} {type : DataType}
    (converted : value.convert? type = some stored) : stored.convert? type = some stored := by
  cases value with
  | int number | float number =>
      cases kind : type.kind with
      | byte | short | char | int | long =>
          simp only [convert?, kind, Kind.isIntegral, if_true, Option.some.injEq] at converted
          subst converted
          simp [convert?, kind, Kind.isIntegral, wrap_wrap]
      | float =>
          simp [convert?, kind, Kind.isIntegral] at converted
          subst converted
          simp [convert?, kind, Kind.isIntegral, Binary64.toSingle_toSingle,
            Binary64.toSingle_singleOfInt64]
      | double =>
          simp [convert?, kind, Kind.isIntegral] at converted
          subst converted
          simp [convert?, kind, Kind.isIntegral]
      | void | bool | string | array | object | null =>
          simp [convert?, kind, Kind.isIntegral] at converted
  | bool | string | object | null | void =>
      unfold convert? at converted
      dsimp only at converted
      split at converted
      · rename_i kind
        cases converted
        simp only [convert?, kind, if_true]
      · cases converted

end Value

end ScriptEngine
