import MeshWeave.Semantic
import MeshWeave.Scalar

set_option autoImplicit false

/-! # Why a source is not merged

A mesh takes each source at most once, only floating-point scalars, and only the semantics that
it has a buffer for; channels of texture coordinates and colors restrict the stride. -/

namespace MeshWeave

/-- The strides that a kind of channel allows, both ends included. -/
structure StrideRange where
  least : Nat
  greatest : Nat
  deriving DecidableEq, Repr

namespace StrideRange

/-- Whether a stride is allowed. -/
def contains (r : StrideRange) (stride : Nat) : Bool :=
  decide (r.least ≤ stride ∧ stride ≤ r.greatest)

/-- Colors have three or four components. -/
def color : StrideRange := ⟨3, 4⟩

/-- Texture coordinates have two to four components. -/
def texCoord : StrideRange := ⟨2, 4⟩

instance : ToString StrideRange := ⟨fun r => toString r.least ++ "..=" ++ toString r.greatest⟩

end StrideRange

/-- The reason why a source is not merged. -/
inductive Refusal where
  | alreadyLoaded (source : String)
  | unsupportedType (source : String) (type : ScalarType)
  | invalidStride (source : String) (semantic : Semantic) (stride : Nat) (range : StrideRange)
  | unsupportedSemantic (semantic : Semantic)
  deriving DecidableEq, Repr

/-- The wording of a refusal. -/
def Refusal.message : Refusal → String
  | alreadyLoaded source => s!"Source '{source}' is already loaded"
  | unsupportedType source type =>
      s!"Source '{source}' has data type {type}, expected float or double"
  | invalidStride source semantic stride range =>
      s!"Source '{source}' has stride {stride} for {semantic}, allowed range is {range}"
  | unsupportedSemantic semantic => s!"Semantic {semantic} is not supported for mesh sources"

instance : ToString Refusal := ⟨Refusal.message⟩

end MeshWeave
