import MeshWeave.Mesh.Basic
import MeshWeave.Notice
import MeshWeave.Source.Basic

set_option autoImplicit false

/-! # Merging sources into a mesh

Each source is appended once to the buffer of its semantic. The first source to bring scalars to
a buffer hands its array over and decides the type; later ones are copied and converted. The
source remembers the place of its first scalar, from which the correction of its indices
follows.

A source that cannot be part of a mesh, because of its type or its stride, is marked as loaded
like one that was merged, so that the fault is noticed only once. -/

namespace MeshWeave

/-- A mesh and a source of it after an attempt to merge the source. -/
structure Merge where
  mesh : Mesh
  source : Source
  /-- The place of the source's first scalar, or why the source was not merged. -/
  result : Except Refusal Nat
  deriving Repr

/-- The kinds of vertex data that a mesh has a buffer for. -/
inductive DataKind where
  | position
  | normal
  | color
  | texCoord
  deriving DecidableEq, Repr

namespace DataKind

/-- The kind of data that a semantic stands for. -/
def ofSemantic? : Semantic → Option DataKind
  | .position => some position
  | .normal => some normal
  | .color => some color
  | .texCoord | .uv => some texCoord
  | _ => none

/-- The semantic that messages name. -/
def semantic : DataKind → Semantic
  | position => .position
  | normal => .normal
  | color => .color
  | texCoord => .texCoord

/-- The strides allowed, if the kind restricts them. -/
def strideRange? : DataKind → Option StrideRange
  | position | normal => none
  | color => some .color
  | texCoord => some .texCoord

/-- Whether the mesh lists which source contributed which part of the buffer. -/
def hasSegments : DataKind → Bool
  | position | normal => false
  | color | texCoord => true

end DataKind

namespace Mesh

/-- The buffer of a kind of data. -/
def buffer (m : Mesh) : DataKind → Buffer
  | .position => m.positions
  | .normal => m.normals
  | .color => m.colors
  | .texCoord => m.texCoords

/-- Replace the buffer of a kind of data. -/
def setBuffer (m : Mesh) (k : DataKind) (b : Buffer) : Mesh :=
  match k with
  | .position => { m with positions := b }
  | .normal => { m with normals := b }
  | .color => { m with colors := b }
  | .texCoord => { m with texCoords := b }

end Mesh

/-- The buffer and the source after the source's scalars were appended. A buffer without
    scalars takes the array over. -/
def Buffer.merge (b : Buffer) (s : Source) : Buffer × Source :=
  let placed := s.placeAt b.size
  match s.values with
  | .float values =>
      match b.adoptFloat? values with
      | some adopted => (adopted, placed.handOver)
      | none => (b.appendFloat values, placed)
  | .double values =>
      match b.adoptDouble? values with
      | some adopted => (adopted, placed.handOver)
      | none => (b.appendDouble values, placed)
  | _ => (b, placed)

namespace Mesh

/-- Why a source cannot become data of a kind. That it is loaded is told first, then its type,
    then its stride. -/
def refusal? (k : DataKind) (s : Source) : Option Refusal :=
  if s.loaded then some (.alreadyLoaded s.id)
  else if !s.type.isFloating then some (.unsupportedType s.id s.type)
  else match k.strideRange? with
    | some range =>
        if range.contains s.stride then none
        else some (.invalidStride s.id k.semantic s.stride range)
    | none => none

/-- What is noticed when a source is refused. -/
def refusalNotices : Refusal → List Notice
  | .unsupportedType source type => [.typeNotMerged source type]
  | .invalidStride source semantic stride range =>
      [.strideNotMerged source stride semantic range]
  | _ => []

/-- Merge a source as data of a kind. -/
def mergeKind (m : Mesh) (s : Source) (k : DataKind) : Noted Merge :=
  match refusal? k s with
  | some why => ⟨⟨m, s.refused, .error why⟩, refusalNotices why⟩
  | none =>
      let b := m.buffer k
      let (merged, placed) := b.merge s
      let listed :=
        if k.hasSegments then merged.addSegment ⟨s.id, s.stride, s.size⟩ else merged
      let oddNormals := k == .normal && s.stride != 3
      ⟨⟨m.setBuffer k listed, placed, .ok b.size⟩,
        if oddNormals then [.normalStride s.id s.stride] else []⟩

/-- Merge a source as data of a semantic. A semantic without a buffer leaves the source as it
    is. -/
def merge (m : Mesh) (s : Source) (semantic : Semantic) : Noted Merge :=
  match DataKind.ofSemantic? semantic with
  | some k => m.mergeKind s k
  | none =>
      ⟨⟨m, s, .error (.unsupportedSemantic semantic)⟩, [.semanticNotMerged s.id semantic]⟩

end Mesh

end MeshWeave
