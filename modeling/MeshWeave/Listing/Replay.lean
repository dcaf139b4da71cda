import MeshWeave.Listing.Basic
import MeshWeave.Reader.Basic

set_option autoImplicit false

/-! # Reading listings

A listing says the same as the events of a document that spells it out. Replaying listings reads
those events; a listing counts as taken if every one of its events had its place. -/

namespace MeshWeave

/-- The events of a run of indices. -/
def Event.run (kind : RunKind) (indices : Array UInt32) : List Event :=
  [.openRun kind, .indices kind (indices.toList.map UInt32.toNat), .closeRun kind]

/-- The events of an index element. -/
def Group.events : Group → List Event
  | polygon indices => Event.run .polygon indices
  | holed outer holes =>
      .openHoled :: (Event.run .polygon outer ++ holes.toList.flatMap (Event.run .hole)
        ++ [.closeHoled])

/-- The events of the vertex counts, which only a list of polygons has. -/
def Header.countEvents (h : Header) : List Event :=
  match h.shape with
  | .polylist => [.openCounts, .counts h.counts, .closeCounts]
  | _ => []

/-- The events of a listing. -/
def Listing.events (l : Listing) : List Event :=
  .openPrimitive l.header.shape.element l.header.material
    :: (l.header.inputs.map (fun i => .input i.shared) ++ l.header.countEvents
      ++ l.groups.toList.flatMap Group.events ++ [.closePrimitive])

namespace Reader

/-- Read a listing, and tell whether all of it was taken. -/
def replay (r : Reader) (l : Listing) : Noted (Bool × Reader) := do
  let (accepted, r) ← r.run l.events
  let taken := accepted.all id
  Noted.noteIf (!taken) (.replayRefused l.header.shape.element)
  return (taken, r)

/-- Read listings in order, and tell whether all of them were taken. -/
def replayAll : Reader → List Listing → Noted (Bool × Reader)
  | r, [] => return (true, r)
  | r, l :: ls => do
      let (taken, r) ← r.replay l
      let (rest, r) ← r.replayAll ls
      return (taken && rest, r)

end Reader

end MeshWeave
