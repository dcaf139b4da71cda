import MeshWeave.Host.Basic
import MeshWeave.Notice

set_option autoImplicit false

/-! # Rings of polygons with holes

The face vertices of a polygon with holes come as one run. The host's records tell at which mesh
vertex each hole begins. Walking along the run, every vertex but the first is looked up among
the records that were not used yet: if a record of the polygon begins at that vertex, it is used
and a new ring begins there. The sizes in the records are only compared, with what is left of
the run when the ring begins. -/

namespace MeshWeave

/-- The rest of a run, cut into rings. -/
structure Cut where
  /-- The vertices that continue the ring before. -/
  continued : List Nat
  /-- The rings that begin in the rest of the run. -/
  rings : List (List Nat)
  /-- The records that are still unused. -/
  records : List HoleRecord
  notices : List Notice
  deriving Repr

/-- Whether a hole begins at a vertex of a polygon. -/
def HoleRecord.beginsAt (polygon : Nat) (vertex : UInt32) (r : HoleRecord) : Bool :=
  r.polygon == polygon && r.first == vertex

/-- What is noticed when a hole begins with a number of vertices left. -/
def HoleRecord.spanNotices (mesh : String) (r : HoleRecord) (left : Nat) : List Notice :=
  if r.size == left then [] else [.writing mesh (.holeSpan r.polygon left r.size)]

/-- Cut the rest of a run, given by positions. -/
def Cut.ofRun (h : Host) (mesh : String) (polygon : Nat) :
    List Nat → List HoleRecord → Cut
  | [], records => ⟨[], [], records, []⟩
  | i :: is, records =>
      match records.find? (HoleRecord.beginsAt polygon (h.vertex polygon i)) with
      | none =>
          let c := ofRun h mesh polygon is records
          { c with continued := i :: c.continued }
      | some r =>
          let unused := records.eraseP (HoleRecord.beginsAt polygon (h.vertex polygon i))
          let c := ofRun h mesh polygon is unused
          { continued := []
            rings := (i :: c.continued) :: c.rings
            records := c.records
            notices := r.spanNotices mesh (is.length + 1) ++ c.notices }

/-- A polygon cut into its outline and its holes. -/
structure Rings where
  outline : List Nat
  holes : List (List Nat)
  deriving DecidableEq, Repr, Inhabited

/-- Cut a run. It begins with the outline. -/
def Rings.ofRun (h : Host) (mesh : String) (polygon : Nat) (run : List Nat)
    (records : List HoleRecord) : Noted (Rings × List HoleRecord) :=
  match run with
  | [] => return (⟨[], []⟩, records)
  | i :: is =>
      let c := Cut.ofRun h mesh polygon is records
      ⟨(⟨i :: c.continued, c.rings⟩, c.records), c.notices⟩

end MeshWeave
