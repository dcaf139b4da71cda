set_option autoImplicit false

/-! # Binary floating-point formats

The bit patterns of the IEEE 754 interchange formats and their values. A finite value is a
natural number times a power of two, so reading a pattern is exact and writing one is a single
rounding of a natural number to the digits of the format: to the nearest, and to the even
neighbour when two are equally near. A value past the largest finite one becomes infinite. -/

namespace MeshWeave.Number

/-- A binary interchange format, given by the number of significant binary digits (the implicit
    leading one included) and the width of the exponent field. -/
structure Format where
  digits : Nat
  exponentBits : Nat
  deriving DecidableEq, Repr

/-- The 32-bit format. -/
def Format.binary32 : Format := ⟨24, 8⟩

/-- The 64-bit format. -/
def Format.binary64 : Format := ⟨53, 11⟩

/-- What a bit pattern stands for. A finite value is `mantissa * 2 ^ scale`. -/
inductive Value where
  | nan
  | infinite (negative : Bool)
  | finite (negative : Bool) (mantissa : Nat) (scale : Int)
  deriving DecidableEq, Repr

namespace Format

/-- Number of bits below the exponent field. -/
def fractionBits (f : Format) : Nat := f.digits - 1

/-- The exponent of the smallest positive value. -/
def minScale (f : Format) : Int := 3 - (1 <<< (f.exponentBits - 1) : Nat) - f.digits

/-- The pattern of positive infinity: an exponent field of ones over a zero fraction. -/
def infinityBits (f : Format) : Nat := (1 <<< f.exponentBits - 1) <<< f.fractionBits

/-- The bit that marks a negative value. -/
def signBit (f : Format) : Nat := 1 <<< (f.exponentBits + f.fractionBits)

/-- Read a bit pattern. -/
def decode (f : Format) (bits : Nat) : Value :=
  let negative := decide (f.signBit ≤ bits)
  let magnitude := bits % f.signBit
  let exponent := magnitude >>> f.fractionBits
  let fraction := magnitude % (1 <<< f.fractionBits)
  if magnitude = f.infinityBits then .infinite negative
  else if f.infinityBits < magnitude then .nan
  else if exponent = 0 then .finite negative fraction f.minScale
  else .finite negative (fraction + 1 <<< f.fractionBits) (f.minScale + (exponent - 1 : Nat))

/-- Divide by a power of two, to the nearest natural number, a half to the even neighbour. -/
def roundShift (m shift : Nat) : Nat :=
  let unit := 1 <<< shift
  let q := m / unit
  let r := m % unit
  if 2 * r < unit then q
  else if unit < 2 * r then q + 1
  else q + q % 2

/-- The pattern of the magnitude nearest to `mantissa * 2 ^ scale`. The digits kept are the
    leading ones, but none below the smallest positive value of the format. Adding the rounded
    digits to the exponent field carries into it when they fill up. -/
def encodeMagnitude (f : Format) (mantissa : Nat) (scale : Int) : Nat :=
  if mantissa = 0 then 0
  else
    let length : Int := mantissa.log2 + 1
    let kept := max (scale + length - f.digits) f.minScale
    let digits :=
      if kept ≤ scale then mantissa <<< (scale - kept).toNat
      else roundShift mantissa (kept - scale).toNat
    min ((kept - f.minScale).toNat <<< f.fractionBits + digits) f.infinityBits

/-- Write a value. Every NaN is written as the quiet one without a payload. -/
def encode (f : Format) : Value → Nat
  | .nan => f.infinityBits + 1 <<< (f.fractionBits - 1)
  | .infinite negative => (if negative then f.signBit else 0) + f.infinityBits
  | .finite negative mantissa scale =>
      (if negative then f.signBit else 0) + f.encodeMagnitude mantissa scale

end Format

/-- One, the largest finite value, the smallest positive one and minus zero in 32 bits. -/
example : Format.binary32.encode (.finite false 1 0) = 0x3f800000
    ∧ Format.binary32.encode (.finite false 0xffffff 104) = 0x7f7fffff
    ∧ Format.binary32.encode (.finite false 1 (-149)) = 1
    ∧ Format.binary32.encode (.finite true 0 0) = 0x80000000 := by decide

/-- Half way past the largest finite value is infinite, and half of the smallest is zero. -/
example : Format.binary32.encode (.finite false 0x1ffffff 103) = 0x7f800000
    ∧ Format.binary32.encode (.finite false 1 (-150)) = 0
    ∧ Format.binary32.encode (.finite false 3 (-151)) = 1 := by decide

end MeshWeave.Number
