import MeshWeave.Host.Basic
import MeshWeave.Total

set_option autoImplicit false

/-! # Polygon sets

A host mesh kept in memory, for programs that build their meshes themselves. Adding a polygon
records its holes. The start of each hole follows from the sizes of all holes, counted from the
end of the run. -/

namespace MeshWeave

/-- A polygon with its indices at each face vertex. -/
structure Polygon where
  /-- The vertices of the outline, then those of each hole. -/
  vertices : Array UInt32
  normals : Option (Array UInt32)
  texCoords : Array (Array UInt32)
  colors : Array (Array (Option UInt32))
  holeSizes : List Nat
  shader : Option Nat
  deriving DecidableEq, Repr, Inhabited

namespace Polygon

/-- A polygon that consists of an outline only. -/
def ofOutline (vertices : Array UInt32) : Polygon :=
  { vertices, normals := none, texCoords := #[], colors := #[], holeSizes := [], shader := none }

/-- Add a hole. -/
def addHole (p : Polygon) (vertices : Array UInt32) : Polygon :=
  { p with
    vertices := p.vertices ++ vertices
    holeSizes := p.holeSizes ++ [vertices.size] }

/-- The number of vertices before the first hole. -/
def outlineSize (p : Polygon) : Nat := p.vertices.size - total p.holeSizes

/-- The records of holes of given sizes, the first of which begins at a place of the run. Holes
    that begin past the end have no record. -/
def recordsFrom (p : Polygon) (index start : Nat) : List Nat → List HoleRecord
  | [] => []
  | size :: sizes =>
      match p.vertices[start]? with
      | some first => ⟨index, size, first⟩ :: recordsFrom p index (start + size) sizes
      | none => recordsFrom p index (start + size) sizes

/-- The records of all holes. -/
def holeRecords (p : Polygon) (index : Nat) : List HoleRecord :=
  p.recordsFrom index p.outlineSize p.holeSizes

/-- The fan of triangles around the first of a number of vertices. -/
def fan (size : Nat) : List Triangle :=
  (List.range (size - 2)).map fun i => ⟨0, i + 1, i + 2⟩

/-- Triangles that cover the polygon, which must have no holes. -/
def triangles (p : Polygon) : Option (List Triangle) :=
  if p.holeSizes.isEmpty && 3 ≤ p.vertices.size then some (fan p.vertices.size) else none

end Polygon

/-- A mesh in memory. -/
structure PolygonSet where
  polygons : Array Polygon
  holes : List HoleRecord
  shaders : List String
  texCoordSets : List String
  colorSets : List ColorSet
  deriving DecidableEq, Repr, Inhabited

namespace PolygonSet

/-- A mesh without polygons. -/
def empty (shaders texCoordSets : List String) (colorSets : List ColorSet) : PolygonSet :=
  { polygons := #[], holes := [], shaders, texCoordSets, colorSets }

/-- The index that the next polygon gets. -/
def size (m : PolygonSet) : Nat := m.polygons.size

/-- Append a polygon and record its holes. -/
def add (m : PolygonSet) (p : Polygon) : PolygonSet :=
  { m with polygons := m.polygons.push p, holes := m.holes ++ p.holeRecords m.size }

/-- Whether every polygon has normals, and there are polygons. -/
def hasNormals (m : PolygonSet) : Bool :=
  !m.polygons.isEmpty && m.polygons.all (·.normals.isSome)

/-- The answers of the mesh. There is none about polygons and face vertices past the end, except
    that a vertex there is the first one of the mesh. -/
def host (m : PolygonSet) : Host where
  polygonCount := m.size
  vertexCount p := (m.polygons[p]?.map (·.vertices.size)).getD 0
  vertex p i := (m.polygons[p]?.bind (·.vertices[i]?)).getD 0
  hasNormals := m.hasNormals
  normal p i := do (← (← m.polygons[p]?).normals)[i]?
  texCoordSets := m.texCoordSets
  texCoord p i set := do (← (← m.polygons[p]?).texCoords[set]?)[i]?
  colorSets := m.colorSets
  color p i set := do (← (← (← m.polygons[p]?).colors[set]?)[i]?)
  isHoled p := m.polygons[p]?.any (fun q => !q.holeSizes.isEmpty)
  holes := m.holes
  triangles p := m.polygons[p]?.bind (·.triangles)
  shaders := m.shaders
  shader p := m.polygons[p]?.bind (·.shader)

end PolygonSet

end MeshWeave
