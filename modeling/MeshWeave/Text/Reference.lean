import MeshWeave.Text.Blank

set_option autoImplicit false

/-! # References to elements of the same document

An input names its source by a URI that consists of a fragment only, such as `#positions`. The
part that names the element is what is left when the blanks around the text are ignored, one
number sign at the front is dropped, and everything from the first blank on is cut. A text
without a number sign is taken for the name itself. -/

namespace MeshWeave.Text

/-- Drop one number sign at the front, if there is one. -/
def dropHash : List Char → List Char
  | '#' :: s => s
  | s => s

/-- The characters of a reference that name an element. -/
def fragmentChars (s : List Char) : List Char :=
  (dropHash (trim s)).takeWhile (fun c => !isBlank c)

/-- The id that a reference names. -/
def fragment (uri : String) : String :=
  String.ofList (fragmentChars uri.toList)

/-- Only one number sign is dropped, and the rest of the text ends the id at a blank. -/
example : fragment " \t#positions tail\u3000" = "positions" ∧ fragment "##a" = "#a" := by
  decide +kernel

end MeshWeave.Text
