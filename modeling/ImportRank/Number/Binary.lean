/-!
# Doubles as dyadic fractions

Every finite double is a signed natural number times a power of two. The decimal texts of this
library are computed from that fraction in exact integer arithmetic, so what is printed depends
on the value alone.
-/

namespace ImportRank

/-- The value of a double: no number, an infinity, or `± mantissa · 2 ^ exponent`. -/
inductive Binary where
  | nan
  | infinity (negative : Bool)
  | finite (negative : Bool) (mantissa : Nat) (exponent : Int)
deriving Repr, DecidableEq

namespace Binary

/-- Reads the sign, the eleven exponent bits and the 52 fraction bits of an encoded double. -/
def ofBits (bits : UInt64) : Binary :=
  let negative := bits >>> 63 != 0
  let exponent := ((bits >>> 52) &&& 0x7FF).toNat
  let fraction := (bits &&& 0xFFFFFFFFFFFFF).toNat
  if exponent = 2047 then
    if fraction = 0 then .infinity negative else .nan
  else if exponent = 0 then .finite negative fraction (-1074)
  else .finite negative (fraction + Nat.pow 2 52) ((exponent : Int) - 1075)

/-- The value of a double. -/
def ofFloat (x : Float) : Binary := ofBits x.toBits

end Binary

end ImportRank
