/-! Double-precision numbers as exact integers. A finite number is a natural significand times a
power of two; rounding to single precision, cutting off the fraction and making floats from integers
are done on those naturals, so each is exact arithmetic followed by one rounding. -/

namespace ScriptEngine

/-- What the bits of a float stand for; a finite one is `significand * 2 ^ exponent` with a sign. -/
inductive Decoded where
  | nan
  | infinite (negative : Bool)
  | finite (negative : Bool) (significand : Nat) (exponent : Int)
deriving DecidableEq, Repr

def roundToEven (amount unit : Nat) : Nat :=
  let quotient := amount / unit
  let rest := amount % unit
  if unit < 2 * rest || (2 * rest == unit && quotient % 2 == 1) then quotient + 1 else quotient

theorem roundToEven_mul (multiple unit : Nat) (positive : 0 < unit) :
    roundToEven (multiple * unit) unit = multiple := by
  simp [roundToEven, Nat.mul_div_cancel _ positive, Nat.ne_of_lt positive]

namespace Binary64

/-- The exponent field and the fraction field of a float's bits without the sign. -/
def fields (magnitude : Nat) : Nat × Nat := (magnitude >>> 52, magnitude % 1 <<< 52)

def isNegative (number : Float) : Bool := 1 <<< 63 ≤ number.toBits.toNat

def magnitude (number : Float) : Nat := number.toBits.toNat % 1 <<< 63

def ofMagnitude (negative : Bool) (magnitude : Nat) : Float :=
  Float.ofBits (UInt64.ofNat ((if negative then 1 <<< 63 else 0) + magnitude))

def infinity (negative : Bool) : Float := ofMagnitude negative (2047 <<< 52)

def decode (number : Float) : Decoded :=
  let (exponent, fraction) := fields (magnitude number)
  let negative := isNegative number
  if exponent = 2047 then
    if fraction = 0 then .infinite negative else .nan
  else if exponent = 0 then .finite negative fraction (-1074)
  else .finite negative (1 <<< 52 + fraction) (exponent - 1075)

/-- The number without its fraction, in the range of 64-bit integers: numbers beyond an end of the
range give that end and what is not a number gives zero. -/
def truncate (number : Float) : Int64 :=
  match decode number with
  | .nan => 0
  | .infinite negative => if negative then Int64.minValue else Int64.maxValue
  | .finite negative significand exponent =>
      let whole := significand <<< exponent.toNat >>> (-exponent).toNat
      Int64.ofIntClamp (if negative then -whole else whole)

/-- The magnitude bits of the single-precision number nearest to that of `magnitude`. A double keeps
52 bits of fraction, a single 23 and fewer below `2 ^ -126`; a carry runs into the exponent field,
where it belongs. -/
def singleMagnitude (magnitude : Nat) : Nat :=
  let (exponent, fraction) := fields magnitude
  let dropped := 29 + (897 - exponent)
  if exponent = 2047 then magnitude
  else if 53 < dropped then 0
  else
    let kept := roundToEven (1 <<< 52 + fraction) (1 <<< dropped)
    let rounded := exponent <<< 52 + kept <<< dropped - 1 <<< 52
    if kept = 0 then 0
    else if 1151 <<< 52 ≤ rounded then 2047 <<< 52
    else rounded

def toSingle (number : Float) : Float :=
  ofMagnitude (isNegative number) (singleMagnitude (magnitude number))

def ofInt64 (number : Int64) : Float := Float.ofInt number.toInt

def naturalMagnitude (amount : Nat) : Nat :=
  if amount = 0 then 0
  else (1023 + amount.log2) <<< 52 + (amount <<< 52 >>> amount.log2 - 1 <<< 52)

def singleOfInt64 (number : Int64) : Float :=
  let amount := number.toInt.natAbs
  let unit := 1 <<< (amount.log2 + 1 - 24)
  ofMagnitude (number.toInt < 0) (naturalMagnitude (roundToEven amount unit * unit))

end Binary64

end ScriptEngine
