import MeshWeave.Export.Faces
import MeshWeave.Listing.Command
import MeshWeave.Total

set_option autoImplicit false

/-! # Exporting host meshes

The polygons of a host mesh become one listing for each shader slot that has faces, and one for
the polygons without a shader, which comes last. All listings of an export have the same inputs.
The host's hole records are used up from slot to slot.

An export first decides whether it writes triangles. It does only if the host has triangles for
every polygon with more than three vertices. -/

namespace MeshWeave

/-- A host mesh that is to be exported. -/
structure Exporter where
  host : Host
  /-- The id of the mesh. -/
  mesh : String
  sources : ExportSources
  options : ExportOptions
  /-- Whether the last export wrote triangles. -/
  triangulated : Bool

namespace Exporter

/-- An export that has not been made yet. -/
def new (host : Host) (mesh : String) (sources : ExportSources) (options : ExportOptions) :
    Exporter :=
  { host, mesh, sources, options, triangulated := false }

/-- The first polygon that needs triangles and has none. -/
def untriangulated? (e : Exporter) : Option Nat :=
  (List.range e.host.polygonCount).find? fun p =>
    3 < e.host.vertexCount p && ((e.host.triangles p).getD []).isEmpty

/-- Decide whether to write triangles. -/
def decideTriangles (e : Exporter) : Noted Bool :=
  if e.options.triangulate then
    match e.untriangulated? with
    | none => return true
    | some p => do
        Noted.note (.writing e.mesh (.notTriangulated p))
        return false
  else return false

/-- The inputs of all listings. -/
def tuple (e : Exporter) : Noted Tuple :=
  Tuple.addAll e.host e.mesh e.options e.sources.vertices .empty e.sources.faces

/-! ## Slots -/

/-- The slot of a polygon. A shader that does not exist is none. -/
def slot (e : Exporter) (polygon : Nat) : Nat :=
  match e.host.shader polygon with
  | some i => if i < e.host.shaders.length then i else e.host.shaders.length
  | none => e.host.shaders.length

/-- The polygons of a slot. -/
def slotPolygons (e : Exporter) (slot : Nat) : List Nat :=
  (List.range e.host.polygonCount).filter fun p => e.slot p == slot

/-- The shape for faces that are written together. -/
def shape (triangulated : Bool) (faces : List Faces) : Shape :=
  if triangulated then .triangles
  else if faces.any Faces.isHoled then .polygons
  else .polylist

/-- The listing of a slot. -/
def listing (e : Exporter) (tuple : Tuple) (triangulated : Bool) (slot : Nat)
    (faces : List Faces) : Listing :=
  let shape := shape triangulated faces
  { header :=
      { shape
        count := total (faces.map Faces.count)
        material := e.host.shaders[slot]?
        inputs := tuple.inputs
        counts := if shape = .polylist then faces.flatMap Faces.sizes else [] }
    groups :=
      if shape = .polygons then (faces.map (·.group tuple e.host)).toArray
      else #[.polygon (faces.flatMap (·.indices tuple e.host)).toArray] }

/-- The listing of the faces of a slot, if there are any. -/
def listing? (e : Exporter) (tuple : Tuple) (triangulated : Bool) (slot : Nat)
    (faces : List Faces) : Noted (Option Listing) :=
  let l := e.listing tuple triangulated slot faces
  if l.header.count == 0 then return none
  else do
    Noted.note (.writing e.mesh (.writing l.header.shape.element l.header.count))
    return some l

/-- The listings of slots in order, each with what is noticed before it is written. -/
def plan (e : Exporter) (tuple : Tuple) (triangulated : Bool) :
    List Nat → List HoleRecord → List (Noted (Option Listing))
  | [], _ => []
  | slot :: slots, records =>
      let faces := Faces.ofPolygons e.host e.mesh e.options.removeDuplicates triangulated
        (e.slotPolygons slot) records
      (do e.listing? tuple triangulated slot (← faces).1)
        :: e.plan tuple triangulated slots faces.value.2

/-- All slots, the one without a shader last. -/
def slots (e : Exporter) : List Nat := List.range (e.host.shaders.length + 1)

/-! ## Writing -/

variable {σ : Type} [Writer σ]

/-- Write planned listings, up to the first failure. The number of listings written so far is
    given, and the number in the end results. -/
def writePlan : σ → Nat → List (Noted (Option Listing)) → Noted (σ × Except Failure Nat)
  | w, written, [] => return (w, .ok written)
  | w, written, s :: ss => do
      match ← s with
      | none => writePlan w written ss
      | some l =>
          match Writer.performAll w l.commands with
          | (w, none) => writePlan w (written + 1) ss
          | (w, some failure) => return (w, .error failure)

/-- The listings that the export writes, each with what is noticed before it is written. -/
def listings (e : Exporter) : Noted (Bool × List (Noted (Option Listing))) := do
  let triangulated ← e.decideTriangles
  let tuple ← e.tuple
  return (triangulated, e.plan tuple triangulated e.slots e.host.holes)

/-- Export to a writer. The result is the number of listings written, or the first failure. -/
def write (e : Exporter) (w : σ) : Noted (Exporter × σ × Except Failure Nat) := do
  let (triangulated, plan) ← e.listings
  let (w, result) ← writePlan w 0 plan
  return ({ e with triangulated }, w, result)

end Exporter

end MeshWeave
