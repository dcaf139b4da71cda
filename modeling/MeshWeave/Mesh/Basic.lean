import MeshWeave.Buffer
import MeshWeave.Primitive.Basic

set_option autoImplicit false

/-! # Meshes

A mesh holds one merged buffer for each kind of vertex data and the primitives that index into
them. -/

namespace MeshWeave

/-- Merged vertex data and the faces over them. -/
structure Mesh where
  id : String
  name : String
  positions : Buffer
  normals : Buffer
  colors : Buffer
  texCoords : Buffer
  primitives : Array Primitive
  deriving DecidableEq, Repr

namespace Mesh

/-- A mesh without data. -/
def empty (id name : String) : Mesh :=
  { id, name, positions := .empty, normals := .empty, colors := .empty, texCoords := .empty,
    primitives := #[] }

instance : Inhabited Mesh := ⟨empty "" ""⟩

/-- The faces of all primitives. -/
def faces (m : Mesh) : Nat := total (m.primitives.toList.map (·.faces))

/-- The triangles that cover all faces. -/
def triangleCount (m : Mesh) : Nat := total (m.primitives.toList.map (·.triangleCount))

/-- Whether no primitive lists anything but triangles. -/
def onlyTriangles (m : Mesh) : Bool := m.primitives.all (·.onlyTriangles)

/-- Append a primitive. -/
def push (m : Mesh) (p : Primitive) : Mesh := { m with primitives := m.primitives.push p }

/-- The first occurrence of each number, in order. -/
def firstUses : List Nat → List Nat
  | [] => []
  | n :: ns => n :: (firstUses ns).filter (· != n)

/-- The material ids in use, numbered from one in the order in which the primitives first use
    them. -/
def materialMap (m : Mesh) : List (Nat × Nat) :=
  (firstUses (m.primitives.toList.map (·.materialId))).zipIdx 1

end Mesh

end MeshWeave
