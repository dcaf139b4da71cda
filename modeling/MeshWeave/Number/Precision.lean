import MeshWeave.Number.Binary

set_option autoImplicit false

/-! # Single and double precision

The two scalar types of vertex data. A scalar is kept as its bit pattern, so that equal scalars
are equal as data and copying one changes no bit. Going from double to single rounds, going from
single to double is exact. -/

namespace MeshWeave

/-- A number in the 32-bit format. -/
structure Single where
  bits : UInt32
  deriving DecidableEq, Repr, Inhabited

/-- A number in the 64-bit format. -/
structure Double where
  bits : UInt64
  deriving DecidableEq, Repr, Inhabited

namespace Single

/-- The value that the bits stand for. -/
def value (x : Single) : Number.Value := Number.Format.binary32.decode x.bits.toNat

/-- The nearest number. -/
def ofValue (v : Number.Value) : Single := ⟨(Number.Format.binary32.encode v).toUInt32⟩

/-- The number nearest to an integer. -/
def ofInt (n : Int) : Single := ofValue (.finite (decide (n < 0)) n.natAbs 0)

/-- The same value in double precision. -/
def toDouble (x : Single) : Double := ⟨(Number.Format.binary64.encode x.value).toUInt64⟩

/-- Whether the bits stand for no number. -/
def isNaN (x : Single) : Bool := x.value == .nan

end Single

namespace Double

/-- The value that the bits stand for. -/
def value (x : Double) : Number.Value := Number.Format.binary64.decode x.bits.toNat

/-- The nearest number. -/
def ofValue (v : Number.Value) : Double := ⟨(Number.Format.binary64.encode v).toUInt64⟩

/-- The number nearest to an integer. -/
def ofInt (n : Int) : Double := ofValue (.finite (decide (n < 0)) n.natAbs 0)

/-- The nearest value in single precision. -/
def toSingle (x : Double) : Single := Single.ofValue x.value

/-- Whether the bits stand for no number. -/
def isNaN (x : Double) : Bool := x.value == .nan

end Double

/-- One tenth loses digits on the way to single precision and does not get them back. -/
example : (Double.mk 0x3fb999999999999a).toSingle = ⟨0x3dcccccd⟩
    ∧ (Single.mk 0x3dcccccd).toDouble = ⟨0x3fb99999a0000000⟩ := by decide

end MeshWeave
