import MeshWeave.Primitive.Basic

set_option autoImplicit false

/-! # Going back to earlier lengths

Indices are appended while an element is read, and some turn out not to be wanted. The lengths
of all index arrays are taken beforehand; later the arrays are cut back to them, or to a fixed
number of indices past them. A channel that did not exist yet counts as having had no indices. -/

namespace MeshWeave

/-- The lengths of the index arrays of a primitive. -/
structure Lengths where
  positions : Nat
  normals : Nat
  texCoords : List Nat
  colors : List Nat
  deriving DecidableEq, Repr, Inhabited

/-- Cut each channel back to its length and a number of indices more. -/
def Channel.takeEach (extra : Nat) : List Channel → List Nat → List Channel
  | [], _ => []
  | c :: cs, [] => c.take extra :: takeEach extra cs []
  | c :: cs, n :: ns => c.take (n + extra) :: takeEach extra cs ns

namespace Primitive

/-- The present lengths. -/
def lengths (p : Primitive) : Lengths :=
  { positions := p.positions.size
    normals := p.normals.size
    texCoords := p.texCoords.map (·.indices.size)
    colors := p.colors.map (·.indices.size) }

/-- Keep a number of indices past the earlier lengths. -/
def takeAfter (p : Primitive) (start : Lengths) (extra : Nat) : Primitive :=
  { p with
    positions := p.positions.take (start.positions + extra)
    normals := p.normals.take (start.normals + extra)
    texCoords := Channel.takeEach extra p.texCoords start.texCoords
    colors := Channel.takeEach extra p.colors start.colors }

/-- Go back to the earlier lengths. -/
def restore (p : Primitive) (start : Lengths) : Primitive := p.takeAfter start 0

/-- Keep the same number of indices in every array. -/
def take (p : Primitive) (n : Nat) : Primitive :=
  { p with
    positions := p.positions.take n
    normals := p.normals.take n
    texCoords := p.texCoords.map (·.take n)
    colors := p.colors.map (·.take n) }

end Primitive

end MeshWeave
