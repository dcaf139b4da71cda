import MeshWeave.Export.Tuple
import MeshWeave.Export.Rings

set_option autoImplicit false

/-! # Faces of host polygons

What is written for one polygon of the host: its triangles, or one face with or without holes.
Polygons with less than three vertices, from the start or after repeated vertices were removed,
have no faces. Removing repeated vertices looks at the mesh vertices of one polygon only and
keeps the first of each; triangles are taken as the host gives them. -/

namespace MeshWeave

/-- The faces of one polygon, by positions in its run. -/
inductive Faces where
  | triangles (polygon : Nat) (corners : List Triangle)
  | plain (polygon : Nat) (run : List Nat)
  | holed (polygon : Nat) (rings : Rings)
  deriving DecidableEq, Repr

namespace Faces

/-- The number of faces. -/
def count : Faces → Nat
  | triangles _ ts => ts.length
  | plain .. | holed .. => 1

/-- The number of vertices of each face without holes. -/
def sizes : Faces → List Nat
  | triangles _ ts => ts.map fun _ => 3
  | plain _ run => [run.length]
  | holed _ rings => [rings.outline.length + rings.holes.flatten.length]

/-- Whether the polygon is written as one with holes. -/
def isHoled : Faces → Bool
  | holed .. => true
  | _ => false

/-- The indices of all face vertices. -/
def indices (t : Tuple) (h : Host) : Faces → List UInt32
  | triangles p ts => t.indices h p (ts.flatMap Triangle.corners)
  | plain p run => t.indices h p run
  | holed p rings => t.indices h p (rings.outline ++ rings.holes.flatten)

/-- The index element of the polygon by itself. A hole is only written if its vertices have
    indices. -/
def group (t : Tuple) (h : Host) : Faces → Group
  | holed p rings =>
      let holes := if t.attributes.isEmpty then [] else rings.holes
      .holed (t.indices h p rings.outline).toArray
        (holes.map fun r => (t.indices h p r).toArray).toArray
  | f => .polygon (f.indices t h).toArray

end Faces

/-- The positions at which a mesh vertex stands for the first time, given those before. -/
def dropRepeated (vertex : Nat → UInt32) : List Nat → List UInt32 → List Nat
  | [], _ => []
  | i :: is, seen =>
      if seen.contains (vertex i) then dropRepeated vertex is seen
      else i :: dropRepeated vertex is (vertex i :: seen)

/-- The faces of a polygon, and the hole records that are still unused. -/
def Faces.ofPolygon (h : Host) (mesh : String) (removeDuplicates triangulated : Bool)
    (polygon : Nat) (records : List HoleRecord) :
    Noted (Option Faces × List HoleRecord) := do
  let size := h.vertexCount polygon
  if triangulated && 3 < size then
    return (some (.triangles polygon ((h.triangles polygon).getD [])), records)
  else if size < 3 then
    Noted.note (.writing mesh (.polygonTooSmall polygon size))
    return (none, records)
  else
    let all := List.range size
    let run := if removeDuplicates then dropRepeated (h.vertex polygon) all [] else all
    let (faces, records) ←
      if h.isHoled polygon && !triangulated then
        let (rings, records) ← Rings.ofRun h mesh polygon run records
        pure (Faces.holed polygon rings, records)
      else
        pure (Faces.plain polygon run, records)
    if run.length < 3 then
      Noted.note (.writing mesh (.polygonDegenerate polygon))
      return (none, records)
    else
      return (some faces, records)

/-- The faces of polygons in order, those without faces left out. -/
def Faces.ofPolygons (h : Host) (mesh : String) (removeDuplicates triangulated : Bool) :
    List Nat → List HoleRecord → Noted (List Faces × List HoleRecord)
  | [], records => return ([], records)
  | p :: ps, records => do
      let (faces, records) ← Faces.ofPolygon h mesh removeDuplicates triangulated p records
      let (rest, records) ← Faces.ofPolygons h mesh removeDuplicates triangulated ps records
      return (faces.toList ++ rest, records)

end MeshWeave
