set_option autoImplicit false

/-! # Attribute values

A value stands between double quotes, so the quote and the three characters with a meaning in
markup are written as entities. `unescape` reads the four entities back and leaves everything
else alone. -/

namespace MeshWeave.Text

/-- The written form of one character inside an attribute value. -/
def escapeChar : Char → List Char
  | '&' => ['&', 'a', 'm', 'p', ';']
  | '<' => ['&', 'l', 't', ';']
  | '>' => ['&', 'g', 't', ';']
  | '"' => ['&', 'q', 'u', 'o', 't', ';']
  | c => [c]

/-- The written form of an attribute value. -/
def escape (value : String) : String :=
  String.ofList (value.toList.flatMap escapeChar)

/-- Read entities from left to right, each once. -/
def unescapeChars : List Char → List Char
  | '&' :: 'a' :: 'm' :: 'p' :: ';' :: s => '&' :: unescapeChars s
  | '&' :: 'l' :: 't' :: ';' :: s => '<' :: unescapeChars s
  | '&' :: 'g' :: 't' :: ';' :: s => '>' :: unescapeChars s
  | '&' :: 'q' :: 'u' :: 'o' :: 't' :: ';' :: s => '"' :: unescapeChars s
  | c :: s => c :: unescapeChars s
  | [] => []

/-- The value that a written form stands for. -/
def unescape (text : String) : String :=
  String.ofList (unescapeChars text.toList)

end MeshWeave.Text
