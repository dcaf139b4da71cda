import MeshWeave.Scalar

set_option autoImplicit false

/-! # Vertex buffers

The vertex data of one semantic: the arrays of all its sources, one behind the other. A buffer
has no type until it receives an array and then takes the type of that array; scalars of the
other precision that arrive later are converted. For semantics with several channels the buffer
also lists which source contributed which part. -/

namespace MeshWeave

/-- The scalars of a buffer. -/
inductive Coordinates where
  | untyped
  | float (values : Array Single)
  | double (values : Array Double)
  deriving DecidableEq, Repr, Inhabited

namespace Coordinates

/-- The type of the scalars. -/
def type : Coordinates → ScalarType
  | untyped => .invalid
  | float _ => .float32
  | double _ => .float64

/-- The number of scalars. -/
def size : Coordinates → Nat
  | untyped => 0
  | float xs => xs.size
  | double xs => xs.size

/-- Append single-precision scalars. -/
def appendFloat : Coordinates → Array Single → Coordinates
  | untyped, ys => float ys
  | float xs, ys => float (xs ++ ys)
  | double xs, ys => double (xs ++ ys.map Single.toDouble)

/-- Append double-precision scalars. -/
def appendDouble : Coordinates → Array Double → Coordinates
  | untyped, ys => double ys
  | float xs, ys => float (xs ++ ys.map Double.toSingle)
  | double xs, ys => double (xs ++ ys)

@[simp] theorem size_appendFloat (c : Coordinates) (ys : Array Single) :
    (c.appendFloat ys).size = c.size + ys.size := by
  cases c <;> simp [appendFloat, size]

@[simp] theorem size_appendDouble (c : Coordinates) (ys : Array Double) :
    (c.appendDouble ys).size = c.size + ys.size := by
  cases c <;> simp [appendDouble, size]

end Coordinates

/-- The part of a buffer that one source contributed. -/
structure Segment where
  name : String
  stride : Nat
  length : Nat
  deriving DecidableEq, Repr, Inhabited

/-- The merged vertex data of one semantic. -/
structure Buffer where
  data : Coordinates
  segments : Array Segment
  deriving DecidableEq, Repr

namespace Buffer

/-- The buffer without type and data. -/
def empty : Buffer := ⟨.untyped, #[]⟩

instance : Inhabited Buffer := ⟨empty⟩

/-- The type of the scalars. -/
def type (b : Buffer) : ScalarType := b.data.type

/-- The number of scalars. -/
def size (b : Buffer) : Nat := b.data.size

/-- Whether there are no scalars, with or without a type. -/
def isEmpty (b : Buffer) : Bool := b.size == 0

/-- Take over an array as the first one. A buffer that holds data refuses. -/
def adoptFloat? (b : Buffer) (values : Array Single) : Option Buffer :=
  if b.isEmpty then some { b with data := .float values } else none

/-- Take over an array as the first one. A buffer that holds data refuses. -/
def adoptDouble? (b : Buffer) (values : Array Double) : Option Buffer :=
  if b.isEmpty then some { b with data := .double values } else none

/-- Append scalars, converted to the type of the buffer. -/
def appendFloat (b : Buffer) (values : Array Single) : Buffer :=
  { b with data := b.data.appendFloat values }

/-- Append scalars, converted to the type of the buffer. -/
def appendDouble (b : Buffer) (values : Array Double) : Buffer :=
  { b with data := b.data.appendDouble values }

/-- List one more contribution. -/
def addSegment (b : Buffer) (s : Segment) : Buffer :=
  { b with segments := b.segments.push s }

end Buffer

end MeshWeave
