import MeshWeave.Notice
import MeshWeave.Text.Reference

set_option autoImplicit false

/-! # Inputs

An input says which source provides the values of a semantic. The inputs of the vertices element
apply to every vertex and have no place of their own in the indices of a face; the inputs of a
primitive element do, and one of semantic `vertex` stands for all inputs of the vertices
element. -/

namespace MeshWeave

/-- An input of the vertices element. -/
structure VertexInput where
  semantic : Semantic
  source : String
  deriving DecidableEq, Repr, Inhabited

/-- The id of the source. -/
def VertexInput.sourceId (i : VertexInput) : String := Text.fragment i.source

/-- An input of a primitive element. -/
structure SharedInput where
  semantic : Semantic
  source : String
  /-- The place of the index in the tuple of indices of a face vertex. -/
  offset : Nat
  set : Nat
  deriving DecidableEq, Repr, Inhabited

/-- The id of the source. -/
def SharedInput.sourceId (i : SharedInput) : String := Text.fragment i.source

/-- The vertices element of a mesh. -/
structure Vertices where
  id : String
  name : String
  inputs : List VertexInput
  deriving DecidableEq, Repr

namespace Vertices

/-- A mesh without a vertices element. -/
def empty : Vertices := ⟨"", "", []⟩

instance : Inhabited Vertices := ⟨empty⟩

/-- The first input of a semantic. -/
def find? (v : Vertices) (semantic : Semantic) : Option VertexInput :=
  v.inputs.find? (·.semantic == semantic)

end Vertices

/-- The inputs that an input of a primitive stands for. -/
def SharedInput.expand (i : SharedInput) (v : Vertices) : List SharedInput :=
  match i.semantic with
  | .vertex => v.inputs.map (fun u => { i with semantic := u.semantic, source := u.source })
  | _ => [i]

/-- The inputs of a primitive, in order of declaration. -/
structure InputList where
  inputs : List SharedInput
  deriving DecidableEq, Repr, Inhabited

namespace InputList

/-- No inputs. -/
def empty : InputList := ⟨[]⟩

/-- The largest offset in use, zero without inputs. -/
def maxOffset (l : InputList) : Nat := (l.inputs.map (·.offset)).foldr max 0

/-- The number of indices of a face vertex. -/
def width (l : InputList) : Nat := l.maxOffset + 1

/-- The first input of a semantic. -/
def find? (l : InputList) (semantic : Semantic) : Option SharedInput :=
  l.inputs.find? (·.semantic == semantic)

/-- Add the inputs that an input stands for. -/
def add (l : InputList) (i : SharedInput) (v : Vertices) : Noted InputList := do
  Noted.noteIf (i.expand v).isEmpty (.verticesWithoutInputs i.source)
  return ⟨l.inputs ++ i.expand v⟩

end InputList

end MeshWeave
