import ImportRank.Number.Binary

/-!
# Decimal texts of doubles

Two forms are written: a fixed number of decimals (the table's rank column) and a fixed number of
significant digits (the solver's last change). Both round the exact dyadic value once, half to
even, by `roundDiv`; neither goes through a shorter decimal first.
-/

namespace ImportRank.Decimal

/-- The integer nearest to `numerator / denominator`; a tie goes to the even neighbour. -/
def roundDiv (numerator denominator : Nat) : Nat :=
  let quotient := numerator / denominator
  let twice := 2 * (numerator % denominator)
  if denominator < twice ∨ (twice = denominator ∧ quotient % 2 = 1) then quotient + 1
  else quotient

/-- `mantissa · 2 ^ exponent · 10 ^ shift` as a fraction of natural numbers. -/
def scaled (mantissa : Nat) (exponent shift : Int) : Nat × Nat :=
  (mantissa * Nat.pow 2 exponent.toNat * Nat.pow 10 shift.toNat,
    Nat.pow 2 (-exponent).toNat * Nat.pow 10 (-shift).toNat)

/-- `mantissa · 2 ^ exponent · 10 ^ shift`, rounded to an integer. -/
def roundScaled (mantissa : Nat) (exponent shift : Int) : Nat :=
  let fraction := scaled mantissa exponent shift
  roundDiv fraction.1 fraction.2

/-- The decimal digits of a natural number. -/
def digits (n : Nat) : List Char := Nat.toDigits 10 n

/-- The decimal digits of a natural number, with zeros in front up to the given width. -/
def paddedDigits (width n : Nat) : List Char :=
  let text := digits n
  List.replicate (width - text.length) '0' ++ text

/-- Puts a point before the last `places` digits; with no places there is no point. -/
def withPoint (places : Nat) (text : List Char) : List Char :=
  if places = 0 then text
  else text.take (text.length - places) ++ '.' :: text.drop (text.length - places)

/-- A text with its sign in front. -/
def signed (negative : Bool) (text : List Char) : String :=
  String.ofList (if negative then '-' :: text else text)

/-- The text of an infinity. -/
def infinityText (negative : Bool) : String := if negative then "-inf" else "inf"

/-- The text of a double with a fixed number of decimals. -/
def fixed (places : Nat) (x : Float) : String :=
  match Binary.ofFloat x with
  | .nan => "nan"
  | .infinity negative => infinityText negative
  | .finite negative mantissa exponent =>
    signed negative (withPoint places (paddedDigits (places + 1) (roundScaled mantissa exponent places)))

/-- The power of ten of the leading digit of `mantissa · 2 ^ exponent`, for a positive mantissa. -/
def leadingPower (mantissa : Nat) (exponent : Int) : Int :=
  let (numerator, denominator) := scaled mantissa exponent 0
  if denominator ≤ numerator then ((digits (numerator / denominator)).length : Int) - 1
  else
    let places := (digits (denominator / numerator)).length
    if denominator ≤ numerator * Nat.pow 10 (places - 1) then -((places : Int) - 1) else -(places : Int)

/-- Drops the zeros that end a fraction, and the point when nothing follows it. -/
def trimFraction (text : List Char) : List Char :=
  if text.contains '.' then
    let trimmed := (text.reverse.dropWhile (· == '0'))
    (if trimmed.head? == some '.' then trimmed.drop 1 else trimmed).reverse
  else text

/-- An exponent with its sign and at least two digits. -/
def exponentText (power : Int) : List Char :=
  'e' :: (if power < 0 then '-' else '+') :: paddedDigits 2 power.natAbs

/-- The text of a positive value with `count` significant digits: positional while the leading
power is from -4 up to the digit count, with an exponent elsewhere. -/
def significantText (count mantissa : Nat) (exponent : Int) : List Char :=
  let power := leadingPower mantissa exponent
  let rounded := roundScaled mantissa exponent ((count : Int) - 1 - power)
  let (rounded, power) :=
    if rounded = Nat.pow 10 count then (Nat.pow 10 (count - 1), power + 1) else (rounded, power)
  if -4 ≤ power ∧ power < count then
    let places := ((count : Int) - 1 - power).toNat
    trimFraction (withPoint places (paddedDigits (places + 1) rounded))
  else trimFraction (withPoint (count - 1) (digits rounded)) ++ exponentText power

/-- The text of a double with the given number of significant digits, without trailing zeros. -/
def significant (count : Nat) (x : Float) : String :=
  match Binary.ofFloat x with
  | .nan => "nan"
  | .infinity negative => infinityText negative
  | .finite negative 0 _ => signed negative ['0']
  | .finite negative mantissa exponent => signed negative (significantText count mantissa exponent)

end ImportRank.Decimal
