import ScriptEngine.Number.Binary64
/-! The fewest decimal digits that read back as a given float. The reals that round to a float form
an interval around it; scaled by a power of ten its ends and the float itself are naturals, and the
multiple of the largest power of ten inside the interval has the fewest digits. -/

namespace ScriptEngine

/-- The significant digits, the first of them not zero unless it is the only one and no zeros at the
end, and the power of ten that the first one stands for. -/
structure Decimal where
  digits : List Char
  lead : Int
deriving DecidableEq, Repr

/-- The width of the significand of a binary format and the exponent of its smallest step. -/
structure Precision where
  width : Nat
  least : Int

def Precision.double : Precision := ⟨53, -1074⟩

def Precision.single : Precision := ⟨24, -149⟩

/-- Which of two equally near decimals is taken. -/
inductive Tie where
  | even
  | up
deriving DecidableEq, Repr

namespace Decimal

def zero : Decimal := ⟨['0'], 0⟩

def ofNat (number : Nat) (exponent : Int) : Decimal :=
  let digits := Nat.toDigits 10 number
  ⟨(digits.reverse.dropWhile (· = '0')).reverse, digits.length - 1 + exponent⟩

/-- The naturals that count as the value: between `low` and `high`, or at an end if `closed`. -/
structure Interval where
  low : Nat
  high : Nat
  closed : Bool

def Interval.contains (interval : Interval) (number : Nat) : Bool :=
  (interval.low < number && number < interval.high) ||
    (interval.closed && (number == interval.low || number == interval.high))

/-- The multiple of the largest power of ten, at most `10 ^ power`, that lies in the interval; of
two the nearer to `value`. The value itself is left when no coarser multiple fits. -/
def coarsest (interval : Interval) (tie : Tie) (value : Nat) : Nat → Nat
  | 0 => value
  | power + 1 =>
      let unit := Nat.pow 10 (power + 1)
      let below := value / unit * unit
      let above := below + unit
      match interval.contains below, interval.contains above with
      | true, true =>
          if 2 * value < below + above then below
          else if below + above < 2 * value then above
          else if tie = .even && value / unit % 2 = 0 then below
          else above
      | true, false => below
      | false, true => above
      | false, false => coarsest interval tie value power

/-- The shortest decimal that reads back as `significand * 2 ^ exponent`, a positive number of the
given precision. The interval ends halfway to the neighbours, of which the lower one is nearer below
a power of two; an end rounds to the even significand. -/
def shortest (precision : Precision) (tie : Tie) (significand : Nat) (exponent : Int) : Decimal :=
  let narrow := significand = 1 <<< (precision.width - 1) && precision.least < exponent
  let quarter := exponent - 2
  let scale := Nat.pow 5 (-quarter).toNat <<< quarter.toNat
  let value := 4 * significand * scale
  let interval : Interval :=
    ⟨(4 * significand - (if narrow then 1 else 2)) * scale, (4 * significand + 2) * scale,
      significand % 2 = 0⟩
  let power := (Nat.toDigits 10 value).length - 1
  ofNat (coarsest interval tie value power) (min quarter 0)

def ofDouble (tie : Tie) (significand : Nat) (exponent : Int) : Decimal :=
  if significand = 0 then zero else shortest .double tie significand exponent

/-- The shortest decimal, among those that read back in single precision, of a double that is itself
a single-precision number. -/
def ofSingle (tie : Tie) (significand : Nat) (exponent : Int) : Decimal :=
  let step := max (exponent + 29) Precision.single.least
  let narrowed := significand >>> (step - exponent).toNat
  if narrowed = 0 then zero else shortest .single tie narrowed step

end Decimal

end ScriptEngine
