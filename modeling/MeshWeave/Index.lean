set_option autoImplicit false

/-! # Indices

A mesh addresses its vertex data with 32-bit indices. Indices in a document have no such bound:
one that is too large becomes the largest there is. Face numbers keep their low bits instead. -/

namespace MeshWeave.Index

/-- The largest index. -/
def limit : Nat := 0xffffffff

/-- The index nearest to a number. -/
def saturate (n : Nat) : UInt32 := (min n limit).toUInt32

/-- The low 32 bits of a face number. -/
def face (n : Nat) : UInt32 := n.toUInt32

@[simp] theorem toNat_saturate (n : Nat) : (saturate n).toNat = min n limit :=
  UInt32.toNat_ofNat_of_lt' (Nat.lt_of_le_of_lt (Nat.min_le_right _ _) (by decide))

end MeshWeave.Index
