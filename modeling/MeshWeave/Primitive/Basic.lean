import MeshWeave.Element
import MeshWeave.Index
import MeshWeave.Total

set_option autoImplicit false

/-! # Primitives

A primitive is a group of faces with one material. Its faces are given by parallel arrays of
indices, one for positions, one for normals and one for each channel of texture coordinates or
colors, together with the number of vertices of each polygon, strip or fan. A hole of a polygon
stands behind its polygon with a negative number of vertices. -/

namespace MeshWeave

/-- Indices into one channel of texture coordinates or colors. -/
structure Channel where
  /-- The id of the source that the indices were read for. -/
  name : String
  set : Nat
  stride : Nat
  /-- The place of the source's first scalar in the merged buffer. -/
  initial : Nat
  indices : Array UInt32
  deriving DecidableEq, Repr, Inhabited

namespace Channel

/-- Append an index. -/
def push (c : Channel) (i : UInt32) : Channel := { c with indices := c.indices.push i }

/-- Append indices. -/
def append (c : Channel) (is : Array UInt32) : Channel := { c with indices := c.indices ++ is }

/-- Keep at most the first indices. -/
def take (c : Channel) (n : Nat) : Channel := { c with indices := c.indices.take n }

end Channel

/-- A hole of a polygon. -/
structure Hole where
  /-- The place of the hole's negative entry among the vertex counts. -/
  entry : Nat
  /-- The polygon that has the hole. -/
  face : UInt32
  deriving DecidableEq, Repr, Inhabited

/-- A group of faces with one material. -/
structure Primitive where
  grouping : Grouping
  positions : Array UInt32
  normals : Array UInt32
  texCoords : List Channel
  colors : List Channel
  /-- The vertex counts of polygons, strips or fans; a hole has a negative one. -/
  counts : Array Int
  holes : Array Hole
  /-- The number of strips or fans. -/
  groups : Nat
  faces : Nat
  materialId : Nat
  /-- The symbol of the material. -/
  material : String
  deriving DecidableEq, Repr

/-- The largest vertex count of a polygon, strip, fan or hole that is told apart. -/
def vertexCountLimit : Nat := 0x7fffffff

/-- The entry for a number of vertices. -/
def vertexCountEntry (n : Nat) : Int := (min n vertexCountLimit : Nat)

namespace Primitive

/-- A primitive without faces. -/
def empty (grouping : Grouping) : Primitive :=
  { grouping, positions := #[], normals := #[], texCoords := [], colors := [], counts := #[],
    holes := #[], groups := 0, faces := 0, materialId := 0, material := "" }

instance : Inhabited Primitive := ⟨empty default⟩

/-- Append the vertex count of a polygon, strip or fan. -/
def pushCount (p : Primitive) (count : Int) : Primitive :=
  { p with counts := p.counts.push count }

/-- Append a hole of a polygon, with its number of vertices. -/
def pushHole (p : Primitive) (face : UInt32) (vertices : Nat) : Primitive :=
  { p with
    counts := p.counts.push (-vertexCountEntry vertices)
    holes := p.holes.push ⟨p.counts.size, face⟩ }

/-! ## Counting -/

/-- The vertices of polygons, strips and fans, those of holes left out. -/
def faceVertexSum (p : Primitive) : Nat :=
  total (p.counts.toList.map Int.toNat)

/-- The number of indices that each array of a complete primitive has. -/
def indexCount (p : Primitive) : Nat :=
  match p.grouping with
  | .triangles => p.faces * 3
  | _ => total (p.counts.toList.map Int.natAbs)

/-- The number of triangles after every polygon is cut into triangles. -/
def triangleCount (p : Primitive) : Nat :=
  match p.grouping with
  | .polygons => total (p.counts.toList.map (fun c => c.toNat - 2))
  | _ => p.faces

/-- Whether all faces are listed as triangles. -/
def onlyTriangles (p : Primitive) : Bool :=
  match p.grouping with
  | .triangles => true
  | .polygons => p.counts.all (· == 3)
  | .strips | .fans => false

end Primitive

end MeshWeave
