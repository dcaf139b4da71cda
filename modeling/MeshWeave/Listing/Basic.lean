import MeshWeave.Element
import MeshWeave.Input

set_option autoImplicit false

/-! # Listings

A listing is a primitive element as it is spelled out in a document: the attributes and inputs
of the element, and the index elements inside. -/

namespace MeshWeave

/-- The primitive elements that meshes are written as. -/
inductive Shape where
  | triangles
  | polylist
  | polygons
  deriving DecidableEq, Repr, Inhabited

/-- The element of a shape. -/
def Shape.element : Shape → Element
  | triangles => .triangles
  | polylist => .polylist
  | polygons => .polygons

/-- The name of the element. -/
def Shape.name (s : Shape) : String := s.element.name

/-- An input as it is written. -/
structure ListedInput where
  semantic : Semantic
  /-- The reference to the source. -/
  source : String
  offset : Nat
  set : Option Nat
  deriving DecidableEq, Repr, Inhabited

/-- The input as a reader takes it. A set that is not given is the first one. -/
def ListedInput.shared (i : ListedInput) : SharedInput :=
  ⟨i.semantic, i.source, i.offset, i.set.getD 0⟩

/-- All that stands before the first index. -/
structure Header where
  shape : Shape
  /-- The number of faces. -/
  count : Nat
  material : Option String
  inputs : List ListedInput
  /-- The number of vertices of each polygon, where the element lists them. -/
  counts : List Nat
  deriving DecidableEq, Repr, Inhabited

/-- An index element: a run of vertices, or a polygon with its holes. -/
inductive Group where
  | polygon (indices : Array UInt32)
  | holed (outer : Array UInt32) (holes : Array (Array UInt32))
  deriving DecidableEq, Repr, Inhabited

/-- The indices in document order. -/
def Group.indices : Group → Array UInt32
  | polygon indices => indices
  | holed outer holes => outer ++ holes.flatten

/-- A primitive element with its contents. -/
structure Listing where
  header : Header
  groups : Array Group
  deriving DecidableEq, Repr, Inhabited

namespace Listing

/-- All indices in document order. -/
def indices (l : Listing) : Array UInt32 := l.groups.flatMap Group.indices

/-- Append an index element. -/
def push (l : Listing) (g : Group) : Listing := { l with groups := l.groups.push g }

end Listing

end MeshWeave
