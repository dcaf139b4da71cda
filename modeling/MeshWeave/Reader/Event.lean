import MeshWeave.Input
import MeshWeave.Source.Basic

set_option autoImplicit false

/-! # Events of a mesh

What a document says about one mesh, tag by tag: its sources, its vertices element and its
primitive elements. Long contents come in pieces. The counts that begin tags announce are left
out, because they say nothing that the contents do not. -/

namespace MeshWeave

/-- The types of arrays that a source is read from. -/
inductive ArrayType where
  | float
  | double
  | int
  deriving DecidableEq, Repr, Inhabited

namespace ArrayType

/-- The name of the type. -/
def name : ArrayType → String
  | float => "float"
  | double => "double"
  | int => "int"

/-- An array of the type without values. -/
def empty : ArrayType → Scalars
  | float => .float #[]
  | double => .double #[]
  | int => .int #[]

end ArrayType

/-- One piece of what a document says about a mesh. -/
inductive Event where
  /-- A source that was read as a whole. -/
  | addSource (source : Source)
  | openSource (id : String)
  | openArray (type : ArrayType)
  | floats (values : Array Single)
  | doubles (values : Array Double)
  | ints (values : Array Int)
  | accessor (stride : Nat)
  | param (name type : String)
  | closeSource
  | openVertices (id name : String)
  | vertexInput (semantic : Semantic) (source : String)
  | closeVertices
  | openPrimitive (element : Element) (material : Option String)
  | input (input : SharedInput)
  | openCounts
  | counts (values : List Nat)
  | closeCounts
  | openRun (kind : RunKind)
  | indices (kind : RunKind) (values : List Nat)
  | closeRun (kind : RunKind)
  | openHoled
  | closeHoled
  | closePrimitive
  deriving DecidableEq, Repr

namespace Event

/-- The name of an event in notices. -/
def label : Event → String
  | addSource _ => "add_source"
  | openSource _ => "begin_source"
  | openArray type => "begin_" ++ type.name ++ "_array"
  | floats _ => "data_float_array"
  | doubles _ => "data_double_array"
  | ints _ => "data_int_array"
  | accessor _ => "begin_accessor"
  | param .. => "begin_param"
  | closeSource => "end_source"
  | openVertices .. => "begin_vertices"
  | vertexInput .. => "vertices_input"
  | closeVertices => "end_vertices"
  | openPrimitive .. => "begin_primitive"
  | input _ => "primitive_input"
  | openCounts => "begin_vcount"
  | counts _ => "data_vcount"
  | closeCounts => "end_vcount"
  | openRun kind => "begin_" ++ kind.tag.name
  | indices kind _ => "data_" ++ kind.tag.name
  | closeRun kind => "end_" ++ kind.tag.name
  | openHoled => "begin_ph"
  | closeHoled => "end_ph"
  | closePrimitive => "end_primitive"

/-- Whether the event ends the declaration of inputs even where it has no place itself. -/
def settles : Event → Bool
  | openRun .polygon | openHoled | closePrimitive => true
  | _ => false

/-- Whether the event has its place only inside a primitive element. -/
def isInner : Event → Bool
  | input _ | openCounts | counts _ | closeCounts | openRun _ | indices .. | closeRun _
  | openHoled | closeHoled | closePrimitive => true
  | _ => false

end Event

end MeshWeave
