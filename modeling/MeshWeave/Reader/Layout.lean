import MeshWeave.Input
import MeshWeave.Mesh.Merge
import MeshWeave.Source.Table

set_option autoImplicit false

/-! # Index layouts

The indices of a primitive come in tuples, one tuple for each face vertex; an input takes the
index at its offset. A layout says where the index arrays of a primitive find their values: each
array has a lane, which picks one place of the tuple and adds the correction of its source.

A layout follows from the inputs of the primitive. Resolving them merges every source that is
not part of the mesh yet. The first usable input for positions and the first for normals count,
while every usable channel of texture coordinates or colors has a lane. The channels of a kind
are ordered by offset, and those of one offset by declaration. -/

namespace MeshWeave

/-- A place in the tuple, and what is added to the values found there. -/
structure Lane where
  offset : Nat
  correction : Nat
  deriving DecidableEq, Repr, Inhabited

/-- The index that a lane takes from a tuple. -/
def Lane.read (l : Lane) (tuple : Array Nat) : UInt32 :=
  Index.saturate (tuple.getD l.offset 0 + l.correction)

/-- The lane of a channel, and the channel as it is before any index is read. -/
structure ChannelLane where
  lane : Lane
  channel : Channel
  deriving DecidableEq, Repr, Inhabited

/-- Insert behind all lanes with the same or a smaller offset. -/
def ChannelLane.insert (c : ChannelLane) : List ChannelLane → List ChannelLane
  | [] => [c]
  | d :: ds => if d.lane.offset ≤ c.lane.offset then d :: insert c ds else c :: d :: ds

/-- Where the index arrays of a primitive find their values. -/
structure Layout where
  /-- The number of indices in a tuple. -/
  width : Nat
  position : Option Lane
  normal : Option Lane
  texCoords : List ChannelLane
  colors : List ChannelLane
  deriving DecidableEq, Repr, Inhabited

namespace Layout

/-- Tuples of a width, of which nothing is used. -/
def unused (width : Nat) : Layout :=
  { width, position := none, normal := none, texCoords := [], colors := [] }

/-- The primitive with all its channels, which are empty. -/
def prepare (l : Layout) (p : Primitive) : Primitive :=
  { p with texCoords := l.texCoords.map (·.channel), colors := l.colors.map (·.channel) }

/-- Append the index of a lane, if there is one. -/
def pushLane (lane : Option Lane) (tuple : Array Nat) (indices : Array UInt32) : Array UInt32 :=
  match lane with
  | some l => indices.push (l.read tuple)
  | none => indices

/-- Append the index of its lane to each channel. -/
def pushChannels (lanes : List ChannelLane) (tuple : Array Nat) (channels : List Channel) :
    List Channel :=
  List.zipWith (fun l c => c.push (l.lane.read tuple)) lanes channels

/-- Append the indices of one face vertex to the primitive. -/
def pushTuple (l : Layout) (tuple : Array Nat) (p : Primitive) : Primitive :=
  { p with
    positions := pushLane l.position tuple p.positions
    normals := pushLane l.normal tuple p.normals
    texCoords := pushChannels l.texCoords tuple p.texCoords
    colors := pushChannels l.colors tuple p.colors }

end Layout

/-! ## From inputs to layouts -/

/-- A mesh, its sources and a layout while the inputs of a primitive are resolved. -/
structure Resolution where
  mesh : Mesh
  sources : SourceTable
  layout : Layout
  deriving DecidableEq, Repr, Inhabited

namespace Resolution

/-- Take notice of something about the mesh. -/
def tell (r : Resolution) (n : ReadingNotice) : Noted Unit := Noted.note (.reading r.mesh.id n)

/-- Change the layout only. -/
def setLayout (r : Resolution) (l : Layout) : Resolution := { r with layout := l }

/-- Give an input a lane, if its source can be indexed. -/
def index (r : Resolution) (i : SharedInput) (s : Source) (k : DataKind) : Noted Resolution :=
  let l := r.layout
  let lane : Lane := ⟨i.offset, s.correction⟩
  let channel : ChannelLane := ⟨lane, ⟨s.id, i.set, s.stride, s.initial, #[]⟩⟩
  match k with
  | .position => return r.setLayout { l with position := l.position.or (some lane) }
  | .normal => do
      if s.stride == 3 then
        return r.setLayout { l with normal := l.normal.or (some lane) }
      else
        r.tell (.normalsNotIndexed s.id s.stride)
        return r
  | .texCoord =>
      if StrideRange.texCoord.contains s.stride then
        return r.setLayout { l with texCoords := channel.insert l.texCoords }
      else return r
  | .color =>
      if StrideRange.color.contains s.stride then
        return r.setLayout { l with colors := channel.insert l.colors }
      else return r

/-- Index a source that is part of the mesh, or was refused by it earlier. -/
def indexLoaded (r : Resolution) (i : SharedInput) (s : Source) : Noted Resolution :=
  match DataKind.ofSemantic? i.semantic with
  | some k => if s.type.isFloating then r.index i s k else return r
  | none => return r

/-- Resolve one input. An input that cannot be used is left out. -/
def resolve (r : Resolution) (i : SharedInput) : Noted Resolution := do
  match r.sources.find? i.sourceId with
  | none =>
      r.tell (.unknownSource i.sourceId)
      return r
  | some s =>
      let m ← r.mesh.merge s i.semantic
      let r : Resolution :=
        { r with mesh := m.mesh, sources := r.sources.put i.sourceId m.source }
      match m.result with
      | .ok _ | .error (.alreadyLoaded _) => r.indexLoaded i m.source
      | .error why =>
          r.tell (.inputSkipped i.semantic why)
          return r

/-- Resolve inputs in order. -/
def resolveAll : Resolution → List SharedInput → Noted Resolution
  | r, [] => return r
  | r, i :: is => do resolveAll (← r.resolve i) is

end Resolution

end MeshWeave
