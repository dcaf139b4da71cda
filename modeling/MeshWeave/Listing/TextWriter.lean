import MeshWeave.Listing.Command
import MeshWeave.Text.Attribute

set_option autoImplicit false

/-! # Writing listings as text

A text writer appends the markup of every command to an output. Each element stands on lines of
its own, indented by the number of elements around it; a run of indices stays on the line of its
element. The text of a command depends only on where it is given, so a command either is written
whole, or the output is full, and then it holds as much of the text as it could take. -/

namespace MeshWeave

/-- Bytes that were written, and how many there may be. -/
structure Output where
  bytes : ByteArray
  capacity : Option Nat

namespace Output

/-- An output that holds nothing yet. -/
def empty (capacity : Option Nat) : Output := ⟨.empty, capacity⟩

instance : Inhabited Output := ⟨empty none⟩

/-- The bytes of a text that the output still takes. -/
def accepted (o : Output) (text : String) : ByteArray :=
  match o.capacity with
  | none => text.toUTF8
  | some n => text.toUTF8.extract 0 (n - o.bytes.size)

/-- Append as much of a text as the output takes, and tell whether that was all. -/
def write (o : Output) (text : String) : Output × Bool :=
  let part := o.accepted text
  ({ o with bytes := o.bytes ++ part }, part.size == text.utf8ByteSize)

end Output

/-- How lines are indented. -/
structure Indentation where
  /-- The text of one step. -/
  unit : String
  /-- The steps before a primitive element. -/
  base : Nat
  deriving DecidableEq, Repr

namespace Indentation

/-- Two blanks for every element around. -/
def spaces (base : Nat) : Indentation := ⟨"  ", base⟩

/-- A tabulator for every element around. -/
def tabs (base : Nat) : Indentation := ⟨"\t", base⟩

/-- The text before an element that stands a number of elements deep in a primitive. -/
def text (i : Indentation) (depth : Nat) : String :=
  String.join (List.replicate (i.base + depth) i.unit)

end Indentation

/-! ## Markup -/

/-- An attribute with a blank before it. -/
def attr (name value : String) : String :=
  " " ++ name ++ "=\"" ++ Text.escape value ++ "\""

/-- An attribute that may be left out. -/
def attr? (name : String) : Option String → String
  | some value => attr name value
  | none => ""

/-- Numbers with a blank between them. -/
def numberList (numbers : List Nat) : String :=
  " ".intercalate (numbers.map toString)

/-- The line of an input. -/
def ListedInput.line (i : ListedInput) (ind : Indentation) : String :=
  ind.text 1 ++ "<input" ++ attr "semantic" i.semantic.name ++ attr "source" i.source
    ++ attr "offset" (toString i.offset) ++ attr? "set" (i.set.map toString) ++ "/>\n"

namespace Header

/-- The line of the begin tag. -/
def tagLine (h : Header) (ind : Indentation) : String :=
  ind.text 0 ++ "<" ++ h.shape.name ++ attr "count" (toString h.count)
    ++ attr? "material" h.material ++ ">\n"

/-- The line of the vertex counts, which only a list of polygons has. -/
def countsLine (h : Header) (ind : Indentation) : String :=
  match h.shape with
  | .polylist => ind.text 1 ++ "<vcount>" ++ numberList h.counts ++ "</vcount>\n"
  | _ => ""

/-- The lines before the first index element. -/
def lines (h : Header) (ind : Indentation) : String :=
  h.tagLine ind ++ String.join (h.inputs.map (·.line ind)) ++ h.countsLine ind

end Header

/-! ## The writer -/

/-- A writer of text. -/
structure TextWriter where
  indentation : Indentation
  place : Place
  /-- The shape of the primitive element that is open. -/
  shape : Shape
  /-- Whether the open run has no index yet. -/
  fresh : Bool
  output : Output

namespace TextWriter

/-- A writer that has written nothing. -/
def start (indentation : Indentation) (capacity : Option Nat) : TextWriter :=
  { indentation, place := .outside, shape := .triangles, fresh := true,
    output := .empty capacity }

instance : Inhabited TextWriter := ⟨start (.spaces 0) none⟩

/-- The text of the end tag of the innermost element, as it continues its line or begins one. -/
def closing (w : TextWriter) : String :=
  match w.place with
  | .holed => w.indentation.text 1 ++ "</ph>\n"
  | .hole => "</h>\n"
  | _ => "</p>\n"

/-- The text of a command that is allowed. -/
def text (w : TextWriter) : Command → String
  | .openPrimitive h => h.lines w.indentation
  | .openElement .ph => w.indentation.text 1 ++ "<ph>\n"
  | .openElement tag =>
      w.indentation.text (if w.place = .holed then 2 else 1) ++ "<" ++ tag.name ++ ">"
  | .index i => (if w.fresh then "" else " ") ++ toString i.toNat
  | .closeElement => w.closing
  | .closePrimitive => w.indentation.text 0 ++ "</" ++ w.shape.name ++ ">\n"

/-- What a command changes besides the output and the place. -/
def note (w : TextWriter) : Command → TextWriter
  | .openPrimitive h => { w with shape := h.shape }
  | .openElement _ => { w with fresh := true }
  | .index _ => { w with fresh := false }
  | _ => w

/-- Perform a command. When the output is full the command still counts as given. -/
def perform (w : TextWriter) (c : Command) : TextWriter × Option Failure :=
  match w.place.step c with
  | .error m => (w, some (.misuse m))
  | .ok place =>
      let (output, whole) := w.output.write (w.text c)
      ({ w.note c with place, output }, if whole then none else some .outputFull)

instance : Writer TextWriter := ⟨perform⟩

end TextWriter

end MeshWeave
