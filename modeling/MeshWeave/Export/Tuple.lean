import MeshWeave.Export.Request
import MeshWeave.Host.Basic
import MeshWeave.Listing.Basic
import MeshWeave.Notice

set_option autoImplicit false

/-! # Index tuples

Every face vertex is written as a tuple with one index for each attribute. Inputs share an
attribute, and so an offset, if they have the same semantic and set; all normal-like inputs
share one. -/

namespace MeshWeave

/-- What one index of a tuple stands for. -/
structure Attribute where
  semantic : Semantic
  set : Nat
  deriving DecidableEq, Repr, Inhabited

namespace Attribute

/-- Whether one index serves both. -/
def sharesIndex (a b : Attribute) : Bool :=
  (a.semantic.isNormalLike && b.semantic.isNormalLike) || a == b

/-- The index of the attribute at a face vertex. What the host does not know is the first one,
    but a missing color is the white of its set. -/
def value (a : Attribute) (h : Host) (polygon position : Nat) : UInt32 :=
  match a.semantic with
  | .vertex | .position => h.vertex polygon position
  | .normal | .tangent | .binormal => (h.normal polygon position).getD 0
  | .texCoord | .uv => (h.texCoord polygon position a.set).getD 0
  | .color =>
      ((h.color polygon position a.set).or (h.colorSets[a.set]?.map (·.white))).getD 0
  | _ => 0

end Attribute

/-- Whether faces can refer to a source of a semantic. -/
def Semantic.isExportable : Semantic → Bool
  | vertex | position | normal | tangent | binormal | texCoord | uv | color => true
  | _ => false

/-- The inputs of all listings of an export, and the attributes that they are written with. -/
structure Tuple where
  inputs : List ListedInput
  attributes : List Attribute
  deriving DecidableEq, Repr, Inhabited

namespace Tuple

/-- No inputs. -/
def empty : Tuple := ⟨[], []⟩

/-- Add an input that refers to an element by id. -/
def add (t : Tuple) (s : ExportSource) (id : String) : Tuple :=
  let a : Attribute := ⟨s.semantic, s.set⟩
  let offset := t.attributes.findIdx (·.sharesIndex a)
  let set := if s.semantic.isTexCoord || s.semantic == .color then some s.set else none
  { inputs := t.inputs ++ [⟨s.semantic, "#" ++ id, offset, set⟩]
    attributes := if offset < t.attributes.length then t.attributes else t.attributes ++ [a] }

/-- The indices of face vertices of a polygon. -/
def indices (t : Tuple) (h : Host) (polygon : Nat) (positions : List Nat) : List UInt32 :=
  positions.flatMap fun i => t.attributes.map fun a => a.value h polygon i

end Tuple

/-! ## Choosing inputs -/

/-- Whether the faces refer to a source: not if it has no meaning for them, if the vertices
    element refers to it, or if it needs normals that the host does not have. -/
def ExportSource.isWritten (s : ExportSource) (h : Host) (mesh : String)
    (vertices : List String) : Noted Bool := do
  if !s.semantic.isExportable then
    Noted.note (.writing mesh (.sourceNotWritten s.id s.semantic))
    return false
  else if s.semantic != .vertex && vertices.contains s.id then
    return false
  else if s.semantic.isNormalLike && !h.hasNormals then
    Noted.note (.writing mesh (.noNormals s.semantic))
    return false
  else
    return true

/-- Add the sources that are written, in order. The vertices element stands for a source of
    semantic `vertex`. -/
def Tuple.addAll (h : Host) (mesh : String) (options : ExportOptions) (vertices : List String) :
    Tuple → List ExportSource → Noted Tuple
  | t, [] => return t
  | t, s :: ss => do
      if ← s.isWritten h mesh vertices then
        let id := if s.semantic == .vertex then options.verticesId mesh else s.id
        addAll h mesh options vertices (t.add s id) ss
      else
        addAll h mesh options vertices t ss

end MeshWeave
