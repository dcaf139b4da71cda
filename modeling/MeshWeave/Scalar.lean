import MeshWeave.Number.Precision

set_option autoImplicit false

/-! # Scalars

The value types of source arrays, and the arrays themselves. Vertex data are floating-point
scalars; arrays of the other types are carried but never become part of a mesh. -/

namespace MeshWeave

/-- The type of the values of an array. `invalid` stands for a type that is not known, and for
    a buffer that has no type yet. -/
inductive ScalarType where
  | invalid
  | bool
  | int32
  | float32
  | float64
  | name
  deriving DecidableEq, Repr, Inhabited

namespace ScalarType

/-- The name that messages use. -/
def label : ScalarType → String
  | invalid => "Invalid"
  | bool => "Bool"
  | int32 => "Int32"
  | float32 => "Float32"
  | float64 => "Float64"
  | name => "Name"

instance : ToString ScalarType := ⟨label⟩

/-- The type that an accessor's parameter declares. -/
def ofParam : String → ScalarType
  | "float" => float32
  | "double" => float64
  | "int" => int32
  | "bool" => bool
  | "name" | "Name" | "IDREF" => name
  | _ => invalid

/-- The types of vertex data. -/
def isFloating : ScalarType → Bool
  | float32 | float64 => true
  | _ => false

end ScalarType

/-- An array of scalars of one type. -/
inductive Scalars where
  | float (values : Array Single)
  | double (values : Array Double)
  | int (values : Array Int)
  | bool (values : Array Bool)
  | name (values : Array String)
  deriving DecidableEq, Repr

namespace Scalars

instance : Inhabited Scalars := ⟨.float #[]⟩

/-- The type of the values. -/
def type : Scalars → ScalarType
  | float _ => .float32
  | double _ => .float64
  | int _ => .int32
  | bool _ => .bool
  | name _ => .name

/-- The number of values. -/
def size : Scalars → Nat
  | float xs => xs.size
  | double xs => xs.size
  | int xs => xs.size
  | bool xs => xs.size
  | name xs => xs.size

/-- Whether there are no values. -/
def isEmpty (xs : Scalars) : Bool := xs.size == 0

/-- The empty array of the same type. -/
def cleared : Scalars → Scalars
  | float _ => float #[]
  | double _ => double #[]
  | int _ => int #[]
  | bool _ => bool #[]
  | name _ => name #[]

/-- Append values of the same type. Values of another type are not taken. -/
def append? : Scalars → Scalars → Option Scalars
  | float xs, float ys => some (float (xs ++ ys))
  | double xs, double ys => some (double (xs ++ ys))
  | int xs, int ys => some (int (xs ++ ys))
  | bool xs, bool ys => some (bool (xs ++ ys))
  | name xs, name ys => some (name (xs ++ ys))
  | _, _ => none

@[simp] theorem type_cleared (xs : Scalars) : xs.cleared.type = xs.type := by
  cases xs <;> rfl

@[simp] theorem size_cleared (xs : Scalars) : xs.cleared.size = 0 := by
  cases xs <;> rfl

end Scalars

end MeshWeave
