set_option autoImplicit false

/-! # Host meshes

A host application answers questions about the polygons of its mesh. A polygon is a run of face
vertices; those of its holes follow those of its outline. Indices of the host's vertices,
normals, texture coordinates and colors are given for each face vertex, by polygon and position
in the run. -/

namespace MeshWeave

/-- What the host says about a hole. -/
structure HoleRecord where
  polygon : Nat
  /-- The number of vertices around the hole. -/
  size : Nat
  /-- The mesh vertex at which the hole begins. -/
  first : UInt32
  deriving DecidableEq, Repr, Inhabited

/-- A set of colors, and its color for face vertices that have none. -/
structure ColorSet where
  name : String
  white : UInt32
  deriving DecidableEq, Repr, Inhabited

/-- A triangle, by the positions of its corners in the run of a polygon. -/
structure Triangle where
  a : Nat
  b : Nat
  c : Nat
  deriving DecidableEq, Repr, Inhabited

/-- The corners in order. -/
def Triangle.corners (t : Triangle) : List Nat := [t.a, t.b, t.c]

/-- The answers of a host mesh. -/
structure Host where
  polygonCount : Nat
  /-- The number of face vertices of a polygon, those of holes included. -/
  vertexCount : (polygon : Nat) → Nat
  /-- The mesh vertex at a face vertex. -/
  vertex : (polygon position : Nat) → UInt32
  /-- Whether face vertices have normals of their own. -/
  hasNormals : Bool
  normal : (polygon position : Nat) → Option UInt32
  texCoordSets : List String
  texCoord : (polygon position set : Nat) → Option UInt32
  colorSets : List ColorSet
  color : (polygon position set : Nat) → Option UInt32
  isHoled : (polygon : Nat) → Bool
  /-- The holes of all polygons. -/
  holes : List HoleRecord
  /-- Triangles that cover a polygon. -/
  triangles : (polygon : Nat) → Option (List Triangle)
  /-- The materials of the shader slots. -/
  shaders : List String
  /-- The shader slot of a polygon. -/
  shader : (polygon : Nat) → Option Nat

end MeshWeave
