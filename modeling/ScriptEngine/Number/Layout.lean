import ScriptEngine.Number.Shortest
/-! How a decimal is written: with all its places, or as one digit, a point and a power of ten. -/

namespace ScriptEngine

/-- The choices of one way to write numbers. Numbers whose leading digit stands for a power of ten
from the first to the second bound of `plain` are written with all their places, the others with an
exponent; without bounds all are written with their places. -/
structure Layout where
  plain : Option (Int × Int)
  pointZero : Bool
  tie : Tie
  nan : String
  infinity : String

namespace Layout

def isPlain (layout : Layout) (lead : Int) : Bool :=
  match layout.plain with
  | none => true
  | some (least, greatest) => least ≤ lead && lead ≤ greatest

def places (decimal : Decimal) : List Char × List Char :=
  let whole := (decimal.lead + 1).toNat
  if decimal.lead < 0 then
    (['0'], List.replicate (-decimal.lead - 1).toNat '0' ++ decimal.digits)
  else
    (decimal.digits.take whole ++ List.replicate (whole - decimal.digits.length) '0',
      decimal.digits.drop whole)

def plainText (layout : Layout) (decimal : Decimal) : List Char :=
  match places decimal with
  | (whole, []) => if layout.pointZero then whole ++ ['.', '0'] else whole
  | (whole, fraction) => whole ++ '.' :: fraction

def exponentText (decimal : Decimal) : List Char :=
  let fraction := decimal.digits.drop 1
  let sign := if decimal.lead < 0 then '-' else '+'
  decimal.digits.take 1 ++ (if fraction.isEmpty then [] else '.' :: fraction) ++
    'e' :: sign :: Nat.toDigits 10 decimal.lead.natAbs

def decimalText (layout : Layout) (decimal : Decimal) : List Char :=
  if layout.isPlain decimal.lead then layout.plainText decimal else exponentText decimal

def write (layout : Layout) (decimal : Tie → Nat → Int → Decimal) (number : Float) : String :=
  match Binary64.decode number with
  | .nan => layout.nan
  | .infinite negative => (if negative then "-" else "") ++ layout.infinity
  | .finite negative significand exponent =>
      let text := layout.decimalText (decimal layout.tie significand exponent)
      String.ofList (if negative then '-' :: text else text)

def writeDouble (layout : Layout) (number : Float) : String :=
  layout.write Decimal.ofDouble number

def writeSingle (layout : Layout) (number : Float) : String :=
  layout.write Decimal.ofSingle (Binary64.toSingle number)

end Layout

end ScriptEngine
