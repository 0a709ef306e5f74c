import ScriptEngine.Number.Reading
/-! Decimals read by scaling. The leading digits that fit 64 bits make a significand, of the digits
behind them only the number counts, and the significand is multiplied with or divided by a power of
ten. Each step rounds, so the result can be off the double nearest to the decimal by its last bits;
it is that double if the significand is below `2 ^ 53` and the power between `10 ^ -22` and
`10 ^ 22`. -/

namespace ScriptEngine.Scaling

def extend (significand : Nat) : List Char → Nat × Nat
  | [] => (significand, 0)
  | char :: rest =>
      let longer := 10 * significand + (char.toNat - '0'.toNat)
      if longer < 2 ^ 64 then extend longer rest else (significand, rest.length + 1)

/-- The significand of a decimal and its power of ten: a whole digit that is left out raises the
power, a fraction digit that is taken in lowers it. -/
def scaled (parts : Reading.Parts) : Nat × Int :=
  let (whole, dropped) := extend 0 parts.whole
  let (significand, ignored) := extend whole parts.fraction
  (significand, parts.exponent + dropped - (parts.fraction.length - ignored : Nat))

def powerOfTen (power : Nat) : Float := Reading.nearest false 1 power

/-- `significand * 10 ^ power` by one multiplication or division. Powers below `10 ^ -308` take a
second division; as the first one leaves less than `10 ^ -288` of a significand of 64 bits, a divisor
that is infinite gives zero rightly. -/
def scale (significand : Nat) (power : Int) : Float :=
  let places := (-power).toNat
  if significand = 0 then 0.0
  else
    Reading.nearest false significand 0 * powerOfTen power.toNat / powerOfTen (min places 308) /
      powerOfTen (places - 308)

def float? (text : List Char) : Option Float :=
  let (negative, unsigned) := Reading.sign text
  (Reading.parts? unsigned).bind fun parts =>
    let (significand, power) := scaled parts
    let magnitude := scale significand power
    if magnitude.isFinite then some (if negative then -magnitude else magnitude) else none

end ScriptEngine.Scaling
