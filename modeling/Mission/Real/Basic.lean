import Mission.Real.Decimal

/-! Reals of the script language: binary64 numbers, their text, and the few functions on them that
are not operators. -/
namespace Mission.Real

/-- How a double is built up: the sign is that of the sign bit, also for zero. -/
inductive Form
  | nan
  | infinite (negative : Bool)
  | zero (negative : Bool)
  | finite (negative : Bool) (magnitude : Binary)

def signBit : Nat := 0x8000000000000000

def form (x : Float) : Form :=
  let bits := x.toBits.toNat
  let negative : Bool := bits / signBit = 1
  let exponent : Nat := bits / hiddenBit % 2048
  let fraction : Nat := bits % hiddenBit
  if exponent = 2047 then
    if fraction = 0 then .infinite negative else .nan
  else if exponent = 0 then
    if fraction = 0 then .zero negative else .finite negative ⟨fraction, -1074, false⟩
  else .finite negative ⟨hiddenBit + fraction, (exponent : Int) - 1075, fraction = 0 && 1 < exponent⟩

def signText (negative : Bool) : String :=
  if negative then "-" else ""

def zeros (count : Nat) : String :=
  String.ofList (List.replicate count '0')

/-- Writes a decimal without exponent: zeros fill up to the point on either side. -/
def Decimal.positional (d : Decimal) : String :=
  let digits := Nat.toDigits 10 d.digits
  if 0 ≤ d.exponent then String.ofList digits ++ zeros d.exponent.toNat
  else
    let places := (-d.exponent).toNat
    if places < digits.length then
      let whole := digits.length - places
      String.ofList (digits.take whole) ++ "." ++ String.ofList (digits.drop whole)
    else "0." ++ zeros (places - digits.length) ++ String.ofList digits

/-- Writes a decimal with one digit in front of the point and an exponent. -/
def Decimal.scientific (d : Decimal) : String :=
  let digits := Nat.toDigits 10 d.digits
  let exponent := d.exponent + (digits.length - 1 : Nat)
  let rest := if digits.length ≤ 1 then "" else "." ++ String.ofList (digits.drop 1)
  String.ofList (digits.take 1) ++ rest ++ "e" ++ toString exponent

/-- The text of a real in messages and reports: the fewest digits that read back, never an exponent,
and a sign on negative zero. -/
def toText (x : Float) : String :=
  match form x with
  | .nan => "NaN"
  | .infinite negative => signText negative ++ "inf"
  | .zero negative => signText negative ++ "0"
  | .finite negative magnitude => signText negative ++ magnitude.shortest.positional

/-- The text of a real with `count` significant digits and an exponent. -/
def toScientific (count : Nat) (x : Float) : String :=
  match form x with
  | .nan => "NaN"
  | .infinite negative => signText negative ++ "inf"
  | .zero negative =>
    signText negative ++ (if count ≤ 1 then "0" else "0." ++ zeros (count - 1)) ++ "e0"
  | .finite negative magnitude =>
    signText negative ++ (magnitude.significant count).scientific

/-- The value of a run of digits. -/
def digitsValue (digits : List Char) : Nat :=
  digits.foldl (fun n c => n * 10 + (c.toNat - '0'.toNat)) 0

/-- Splits a sign off the front. -/
def splitSign : List Char → Bool × List Char
  | '-' :: rest => (true, rest)
  | '+' :: rest => (false, rest)
  | rest => (false, rest)

/-- The exponent part of a number: absent, or a mark with a sign and at least one digit. Nothing may
follow it. -/
def readExponent : List Char → Option Int
  | [] => some 0
  | mark :: rest =>
    if mark = 'e' || mark = 'E' then
      let (negative, digits) := splitSign rest
      if digits.isEmpty || !digits.all Char.isDigit then none
      else
        let value : Int := digitsValue digits
        some (if negative then -value else value)
    else none

/-- Reads an unsigned decimal number: digits with at most one point, at least one digit, and an
optional exponent. -/
def readDecimal (cs : List Char) : Option Decimal :=
  let whole := cs.takeWhile Char.isDigit
  let rest := cs.dropWhile Char.isDigit
  let (places, rest) :=
    match rest with
    | '.' :: after => (after.takeWhile Char.isDigit, after.dropWhile Char.isDigit)
    | _ => ([], rest)
  if whole.isEmpty && places.isEmpty then none
  else (readExponent rest).map fun exponent =>
    ⟨digitsValue (whole ++ places), exponent - places.length⟩

def ofParts (negative : Bool) (magnitudeBits : Nat) : Float :=
  Float.ofBits (UInt64.ofNat (magnitudeBits + if negative then signBit else 0))

/-- Reads a real: an optional sign, then a decimal number or one of the words for infinity and
not-a-number in any case. The result is the double nearest to the number written. -/
def ofChars? (cs : List Char) : Option Float :=
  let (negative, body) := splitSign cs
  match readDecimal body with
  | some d => some (ofParts negative d.nearestBits)
  | none =>
    let word := String.ofList (body.map Char.toLower)
    if word = "inf" || word = "infinity" then some (ofParts negative 0x7FF0000000000000)
    else if word = "nan" then some (ofParts negative 0x7FF8000000000000)
    else none

def ofText? (text : String) : Option Float :=
  ofChars? text.toList

def pi : Float := Float.ofBits 0x400921FB54442D18

def toRadians (x : Float) : Float := x * (pi / 180.0)

def toDegrees (x : Float) : Float := x * (180.0 / pi)

/-- Whether a magnitude has no fractional part. -/
def Binary.isIntegral (x : Binary) : Bool :=
  0 ≤ x.exponent || x.mantissa % Nat.pow 2 (-x.exponent).toNat = 0

/-- Whether the fractional part is zero. Infinities and not-a-number have none that is. -/
def isIntegral (x : Float) : Bool :=
  match form x with
  | .zero _ => true
  | .finite _ magnitude => magnitude.isIntegral
  | _ => false

/-- The real nearest to an integer. -/
def ofInteger (n : Int64) : Float :=
  if n < 0 then -(-n).toUInt64.toFloat else n.toUInt64.toFloat

/-- The integer that an integral real is, below `2 ^ 63` in magnitude. -/
def toInteger (x : Float) : Int64 :=
  if x < 0.0 then -(-x).toUInt64.toInt64 else x.toUInt64.toInt64

/-- Restricts to an interval. Not-a-number stays what it is. -/
def clamp (x low high : Float) : Float :=
  if x < low then low else if high < x then high else x

end Mission.Real
