import MeshWeave.Semantic

set_option autoImplicit false

/-! # What to export

The choices that an export leaves to its caller, and the sources that its primitives refer
to. -/

namespace MeshWeave

/-- The choices of an export. -/
structure ExportOptions where
  /-- Write triangles, if the host has triangles for every larger polygon. -/
  triangulate : Bool
  /-- Write a mesh vertex once for each polygon. -/
  removeDuplicates : Bool
  /-- What makes the id of the vertices element from the id of the mesh. -/
  verticesSuffix : String
  deriving DecidableEq, Repr

namespace ExportOptions

/-- Polygons as they are. -/
def plain : ExportOptions :=
  { triangulate := false, removeDuplicates := false, verticesSuffix := "-vertices" }

instance : Inhabited ExportOptions := ⟨plain⟩

/-- The id of the vertices element. -/
def verticesId (o : ExportOptions) (mesh : String) : String := mesh ++ o.verticesSuffix

end ExportOptions

/-- A source that the faces refer to. -/
structure ExportSource where
  semantic : Semantic
  id : String
  set : Nat
  deriving DecidableEq, Repr, Inhabited

/-- The sources of an export. -/
structure ExportSources where
  /-- The sources that the faces refer to. -/
  faces : List ExportSource
  /-- The ids of the sources that the vertices element refers to. -/
  vertices : List String
  deriving DecidableEq, Repr, Inhabited

end MeshWeave
