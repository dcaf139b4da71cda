import MeshWeave.Text.Blank

set_option autoImplicit false

/-! # Input semantics

What the values of a source mean to a mesh. Names that are not known to the library are all one
semantic, `unknown`. -/

namespace MeshWeave

/-- The meaning of an input. -/
inductive Semantic where
  | binormal
  | color
  | normal
  | position
  | tangent
  | texBinormal
  | texCoord
  | texTangent
  | uv
  | vertex
  | unknown
  deriving DecidableEq, Repr, Inhabited

namespace Semantic

/-- The name in a document. -/
def name : Semantic → String
  | binormal => "BINORMAL"
  | color => "COLOR"
  | normal => "NORMAL"
  | position => "POSITION"
  | tangent => "TANGENT"
  | texBinormal => "TEXBINORMAL"
  | texCoord => "TEXCOORD"
  | texTangent => "TEXTANGENT"
  | uv => "UV"
  | vertex => "VERTEX"
  | unknown => "UNKNOWN"

instance : ToString Semantic := ⟨name⟩

/-- The semantics that a document can name. -/
def named : List Semantic :=
  [binormal, color, normal, position, tangent, texBinormal, texCoord, texTangent, uv, vertex]

/-- The semantic that a text names, blanks around it ignored. -/
def ofName (text : String) : Semantic :=
  let trimmed := String.ofList (Text.trim text.toList)
  (named.find? (fun s => s.name == trimmed)).getD unknown

/-- Normals and the tangent frame at a vertex are indexed together. -/
def isNormalLike : Semantic → Bool
  | normal | tangent | binormal => true
  | _ => false

/-- The two spellings of texture coordinates. -/
def isTexCoord : Semantic → Bool
  | texCoord | uv => true
  | _ => false

end Semantic

end MeshWeave
