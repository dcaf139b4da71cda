import MeshWeave.Element

set_option autoImplicit false

/-! # Stages of a primitive element

Where a reader stands between the begin tag and the end tag of a primitive element. -/

namespace MeshWeave

/-- How far a primitive element was read. -/
inductive Stage where
  /-- Its inputs are being declared. -/
  | declaring
  /-- The vertex counts of a list of polygons are being read. -/
  | counting
  /-- Index elements may open. -/
  | indexing
  /-- A polygon with holes is open. Its holes belong to a face, unless it has none. -/
  | holed (face : Option UInt32)
  deriving DecidableEq, Repr, Inhabited

namespace Stage

/-- The name of a stage; a reader without an open primitive element is at none. -/
def phase : Option Stage → String
  | none => "Idle"
  | some declaring => "DeclaringInputs"
  | some counting => "ReadingVCount"
  | some indexing => "ReadingIndices"
  | some (holed _) => "ReadingHoleIndices"

/-- Whether a run may open: polygons with or without holes around, holes only inside. -/
def takesRuns : Stage → RunKind → Bool
  | indexing, .polygon => true
  | holed _, _ => true
  | _, _ => false

/-- Whether a polygon with holes is open. -/
def isHoled : Stage → Bool
  | holed _ => true
  | _ => false

/-- The stage after a polygon was read: an open polygon with holes has it as its face. -/
def afterPolygon (face : Option UInt32) : Stage → Stage
  | holed _ => holed face
  | s => s

end Stage

end MeshWeave
