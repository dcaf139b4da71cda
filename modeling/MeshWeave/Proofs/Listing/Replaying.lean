import MeshWeave.Listing.Replay
import MeshWeave.Proofs.Reader.Session

set_option autoImplicit false

/-! # Listings as primitive elements

The events of a listing are those of a session: a primitive element from its begin tag to its end
tag whose contents come in one piece each. So a reader that is at no element takes a listing as a
whole, unless it has a polygon with holes in an element that allows none. -/

namespace MeshWeave

/-- The values of a run of indices. -/
def Group.values (indices : Array UInt32) : List Nat := indices.toList.map UInt32.toNat

/-- The index element that a reader finds. -/
def Group.node : Group → IndexNode
  | polygon indices => .run .polygon [values indices]
  | holed outer holes =>
      .holed ((.polygon, [values outer]) :: holes.toList.map fun hole => (.hole, [values hole]))

namespace Listing

/-- The primitive element that a reader finds. -/
def session (l : Listing) : Session :=
  { element := l.header.shape.element
    material := l.header.material
    inputs := l.header.inputs.map ListedInput.shared
    counts := if l.header.shape = .polylist then some [l.header.counts] else none
    nodes := l.groups.toList.map Group.node }

/-- Polygons with holes are in an element for them. -/
def IsPlaced (l : Listing) : Prop :=
  ∀ outer holes, .holed outer holes ∈ l.groups.toList → l.header.shape = .polygons

theorem events_node (g : Group) : g.node.events = g.events := by
  cases g with
  | polygon indices => rfl
  | holed outer holes =>
      show Event.openHoled :: ((_ :: holes.toList.map _).flatMap _ ++ _) = _
      rw [List.flatMap_cons, List.flatMap_map]
      rfl

theorem events_session (l : Listing) : l.session.events = l.events := by
  have hcounts : l.session.countEvents = l.header.countEvents := by
    unfold session Session.countEvents Header.countEvents
    cases l.header.shape <;> rfl
  have hnodes : l.session.nodes.flatMap IndexNode.events
      = l.groups.toList.flatMap Group.events := by
    rw [session, List.flatMap_map]
    exact List.flatMap_congr fun g _ => events_node g
  rw [Session.events, hcounts, Session.bodyEvents, hnodes, session, events, List.map_map]
  simp only [List.append_assoc]
  rfl

theorem fits_session {l : Listing} (h : l.IsPlaced) :
    ∀ n ∈ l.session.nodes, n.fits l.session.element = true := by
  intro n hn
  obtain ⟨g, hg, rfl⟩ := List.mem_map.mp hn
  cases g with
  | polygon indices => rfl
  | holed outer holes =>
      show (l.header.shape.element == .polygons) = true
      rw [h outer holes hg]
      rfl

/-- **A listing is read as a whole** by a reader that is at no element. -/
theorem reads_listing {l : Listing} (h : l.IsPlaced) {r : Reader} (hidle : r.current = none)
    (hsource : r.source = none) : r.Reads l.events (l.session.behind r) := by
  rw [← events_session]
  apply l.session.reads_session r hidle hsource
  · intro hcounts
    unfold session at hcounts ⊢
    cases hshape : l.header.shape with
    | polylist => rfl
    | _ => simp [hshape] at hcounts
  · exact fits_session h

end Listing

namespace Reader

/-- Whether all listings are taken, and the reader behind them. -/
theorem replayAll_cons (r : Reader) (l : Listing) (ls : List Listing) :
    (r.replayAll (l :: ls)).value
      = (r.takes l.events && ((r.after l.events).replayAll ls).value.1,
        ((r.after l.events).replayAll ls).value.2) := rfl

/-- Reading a listing that is taken, and the listings behind it. -/
theorem replayAll_of_reads {r r' : Reader} {l : Listing} (h : r.Reads l.events r')
    (ls : List Listing) : (r.replayAll (l :: ls)).value = (r'.replayAll ls).value := by
  obtain ⟨hafter, htakes⟩ := h
  rw [replayAll_cons, hafter, htakes, Bool.true_and]

end Reader

end MeshWeave
