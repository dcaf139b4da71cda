import MeshWeave.Scalar

set_option autoImplicit false

/-! # Sources

A source is a flat array of scalars with an id. Its accessor divides the array into elements of
`stride` scalars each. When a source becomes part of a mesh its array may be handed over; the
source then still knows how many scalars it had, and where the first of them went. -/

namespace MeshWeave

/-- A parameter of an accessor. -/
structure Param where
  name : String
  type : ScalarType
  deriving DecidableEq, Repr, Inhabited

/-- A source array and its place in a mesh. -/
structure Source where
  id : String
  values : Scalars
  stride : Nat
  params : List Param
  /-- Whether the source was merged into a mesh, or refused for good. -/
  loaded : Bool
  /-- The place of the first scalar in the buffer the source was merged into. -/
  initial : Nat
  /-- The number of scalars noted when the array was handed over. -/
  noted : Nat
  deriving DecidableEq, Repr, Inhabited

namespace Source

/-- A source that is not part of any mesh yet. -/
def fresh (id : String) (values : Scalars) (stride : Nat) : Source :=
  { id, values, stride, params := [], loaded := false, initial := 0, noted := values.size }

/-- The type of the scalars. -/
def type (s : Source) : ScalarType := s.values.type

/-- The number of scalars, those handed over included. -/
def size (s : Source) : Nat := max s.noted s.values.size

/-- The number of whole elements. -/
def elementCount (s : Source) : Nat := s.size / s.stride

/-- What is added to an index into this source to make it an index into the merged buffer: the
    number of elements of this stride that lie before the first one. -/
def correction (s : Source) : Nat := s.initial / s.stride

/-- The source after its array was handed over. -/
def handOver (s : Source) : Source :=
  { s with values := s.values.cleared, noted := s.size }

/-- The source after it was merged at a place. -/
def placeAt (s : Source) (initial : Nat) : Source := { s with initial, loaded := true }

/-- The source after it was refused for good. -/
def refused (s : Source) : Source := { s with loaded := true }

@[simp] theorem size_handOver (s : Source) : s.handOver.size = s.size := by
  simp [handOver, size]

@[simp] theorem type_handOver (s : Source) : s.handOver.type = s.type := by
  simp [handOver, type]

@[simp] theorem size_fresh (id : String) (values : Scalars) (stride : Nat) :
    (fresh id values stride).size = values.size := by
  simp [fresh, size]

end Source

end MeshWeave
