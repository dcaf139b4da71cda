import MeshWeave.Listing.Command

set_option autoImplicit false

/-! # Recording listings

A recorder keeps what is written as listings. Besides the finished listings it has a draft of
the open one, which holds exactly what the open elements need. In an element for a polygon with
holes every polygon run continues the same outer ring, while every hole run starts a ring of its
own. -/

namespace MeshWeave

/-- The listing that is being recorded, by the elements that are open. -/
inductive Draft where
  | outside
  | primitive (listing : Listing)
  | polygon (listing : Listing) (indices : Array UInt32)
  | holed (listing : Listing) (outer : Array UInt32) (holes : Array (Array UInt32))
  | holedPolygon (listing : Listing) (outer : Array UInt32) (holes : Array (Array UInt32))
  | hole (listing : Listing) (outer : Array UInt32) (holes : Array (Array UInt32))
      (indices : Array UInt32)
  deriving DecidableEq, Repr, Inhabited

/-- Which elements are open. -/
def Draft.place : Draft → Place
  | outside => .outside
  | primitive _ => .primitive
  | polygon .. => .polygon
  | holed .. => .holed
  | holedPolygon .. => .holedPolygon
  | hole .. => .hole

/-- What was written so far. -/
structure Recorder where
  /-- The finished listings. -/
  listings : Array Listing
  draft : Draft
  deriving DecidableEq, Repr

namespace Recorder

/-- Nothing was written. -/
def empty : Recorder := ⟨#[], .outside⟩

instance : Inhabited Recorder := ⟨empty⟩

/-- Change the draft only. -/
def setDraft (r : Recorder) (d : Draft) : Recorder := { r with draft := d }

/-- Perform a command that is allowed. -/
def step (r : Recorder) (c : Command) : Except Misuse Recorder :=
  match r.draft, c with
  | .outside, .openPrimitive h => .ok (r.setDraft (.primitive ⟨h, #[]⟩))
  | .primitive l, .openElement .p => .ok (r.setDraft (.polygon l #[]))
  | .primitive l, .openElement .ph => .ok (r.setDraft (.holed l #[] #[]))
  | .primitive l, .closePrimitive => .ok ⟨r.listings.push l, .outside⟩
  | .polygon l is, .index i => .ok (r.setDraft (.polygon l (is.push i)))
  | .polygon l is, .closeElement => .ok (r.setDraft (.primitive (l.push (.polygon is))))
  | .holed l outer holes, .openElement .p => .ok (r.setDraft (.holedPolygon l outer holes))
  | .holed l outer holes, .openElement .h => .ok (r.setDraft (.hole l outer holes #[]))
  | .holed l outer holes, .closeElement =>
      .ok (r.setDraft (.primitive (l.push (.holed outer holes))))
  | .holedPolygon l outer holes, .index i =>
      .ok (r.setDraft (.holedPolygon l (outer.push i) holes))
  | .holedPolygon l outer holes, .closeElement => .ok (r.setDraft (.holed l outer holes))
  | .hole l outer holes is, .index i => .ok (r.setDraft (.hole l outer holes (is.push i)))
  | .hole l outer holes is, .closeElement => .ok (r.setDraft (.holed l outer (holes.push is)))
  | d, c => .error (d.place.misuse c)

instance : Writer Recorder where
  perform r c :=
    match r.step c with
    | .ok r => (r, none)
    | .error m => (r, some (.misuse m))

end Recorder

end MeshWeave
