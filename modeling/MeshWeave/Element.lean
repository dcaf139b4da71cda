set_option autoImplicit false

/-! # Primitive elements

The five elements of a mesh that list faces, the four ways in which a primitive groups its
vertices into faces, and the three elements that hold indices. -/

namespace MeshWeave

/-- How the vertices of a primitive form faces. -/
inductive Grouping where
  | triangles
  | polygons
  | strips
  | fans
  deriving DecidableEq, Repr, Inhabited

/-- Strips and fans list several triangles in one run. -/
def Grouping.isStripOrFan : Grouping → Bool
  | strips | fans => true
  | _ => false

/-- An element that lists faces. -/
inductive Element where
  | triangles
  | polylist
  | polygons
  | tristrips
  | trifans
  deriving DecidableEq, Repr, Inhabited

namespace Element

/-- The tag of the element. -/
def name : Element → String
  | triangles => "triangles"
  | polylist => "polylist"
  | polygons => "polygons"
  | tristrips => "tristrips"
  | trifans => "trifans"

instance : ToString Element := ⟨name⟩

/-- A list of polygons and single polygons lead to the same kind of primitive. -/
def grouping : Element → Grouping
  | triangles => .triangles
  | polylist | polygons => .polygons
  | tristrips => .strips
  | trifans => .fans

end Element

/-- An element that holds indices, or that groups those of one polygon. -/
inductive IndexTag where
  /-- The vertices of a polygon, or of many. -/
  | p
  /-- A polygon together with its holes. -/
  | ph
  /-- The vertices of a hole. -/
  | h
  deriving DecidableEq, Repr, Inhabited

/-- The tag of the element. -/
def IndexTag.name : IndexTag → String
  | p => "p"
  | ph => "ph"
  | h => "h"

/-- A run of indices that makes a face: the vertices of polygons, or those of a hole. -/
inductive RunKind where
  | polygon
  | hole
  deriving DecidableEq, Repr, Inhabited

/-- The element that holds such a run. -/
def RunKind.tag : RunKind → IndexTag
  | polygon => .p
  | hole => .h

end MeshWeave
