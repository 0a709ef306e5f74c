import ScriptEngine.Number.Binary64
/-! Numbers read from text: integers of 64 bits in any radix up to sixteen, and floats as the
nearest double to a decimal. Nothing but the number may stand in the text. -/

namespace ScriptEngine.Reading

def digit? (radix : Nat) (char : Char) : Option Nat :=
  let value :=
    if '0' ≤ char && char ≤ '9' then char.toNat - '0'.toNat
    else if 'a' ≤ char && char ≤ 'f' then char.toNat - 'a'.toNat + 10
    else if 'A' ≤ char && char ≤ 'F' then char.toNat - 'A'.toNat + 10
    else radix
  if value < radix then some value else none

def digits? (radix : Nat) : Nat → List Char → Option Nat
  | value, [] => some value
  | value, char :: rest =>
      (digit? radix char).bind fun next => digits? radix (value * radix + next) rest

def nat? (radix : Nat) (text : List Char) : Option Nat :=
  if text.isEmpty then none else digits? radix 0 text

def sign : List Char → Bool × List Char
  | '-' :: rest => (true, rest)
  | '+' :: rest => (false, rest)
  | text => (false, text)

def int? (radix : Nat) (text : List Char) : Option Int :=
  let (negative, digits) := sign text
  (nat? radix digits).map fun value => if negative then -(value : Int) else value

def int64? (radix : Nat) (text : List Char) : Option Int64 :=
  (int? radix text).bind fun value =>
    if Int64.minValue.toInt ≤ value && value ≤ Int64.maxValue.toInt then some (Int64.ofInt value)
    else none

/-- The double nearest to `digits * 10 ^ exponent`. Decimals far beyond the range of doubles are
settled by their size, so that no power of ten is formed for them. -/
def nearest (negative : Bool) (digits : Nat) (exponent : Int) : Float :=
  let places : Int := (Nat.toDigits 10 digits).length
  let magnitude :=
    if digits = 0 || places + exponent < -330 then 0.0
    else if 310 < places + exponent then Binary64.infinity false
    else Float.ofScientific digits (exponent < 0) exponent.natAbs
  if negative then -magnitude else magnitude

def isDigit (char : Char) : Bool := (digit? 10 char).isSome

def exponent? : List Char → Option Int
  | [] => some 0
  | 'e' :: rest | 'E' :: rest => int? 10 rest
  | _ => none

/-- The digits of a decimal before and after its point, and the power of ten behind them. -/
structure Parts where
  whole : List Char
  fraction : List Char
  exponent : Int

def parts? (text : List Char) : Option Parts :=
  let whole := text.takeWhile isDigit
  let afterWhole := text.dropWhile isDigit
  let (fraction, tail) := match afterWhole with
    | '.' :: rest => (rest.takeWhile isDigit, rest.dropWhile isDigit)
    | rest => ([], rest)
  if whole.isEmpty && fraction.isEmpty then none
  else (exponent? tail).map fun exponent => ⟨whole, fraction, exponent⟩

def decimal? (negative : Bool) (text : List Char) : Option Float :=
  (parts? text).bind fun parts =>
    (nat? 10 (parts.whole ++ parts.fraction)).map fun digits =>
      nearest negative digits (parts.exponent - parts.fraction.length)

/-- A decimal, or infinity or not-a-number by name in any case. -/
def float? (text : List Char) : Option Float :=
  let (negative, rest) := sign text
  match decimal? negative rest with
  | some number => some number
  | none =>
      let word := rest.map Char.toLower
      if word = "inf".toList || word = "infinity".toList then some (Binary64.infinity negative)
      else if word = "nan".toList then some (0.0 / 0.0)
      else none

end ScriptEngine.Reading
