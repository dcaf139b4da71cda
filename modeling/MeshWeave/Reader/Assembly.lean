import MeshWeave.Primitive.Lengths
import MeshWeave.Reader.Layout

set_option autoImplicit false

/-! # Primitives under construction

While a primitive element is read its indices arrive in runs, the contents of the index
elements, and a run arrives in pieces of any size. Only complete tuples reach the index arrays;
the values of the last, incomplete one wait, and are dropped if the run ends before it is
complete. What a run means depends on the element: triangles and lists of polygons just collect
tuples, for single polygons a run is a face, and for strips and fans it is a group of at least
three vertices. -/

namespace MeshWeave

/-- An open run of indices. -/
structure Run where
  kind : RunKind
  /-- The lengths of the index arrays when the run opened. -/
  start : Lengths
  /-- The values of the incomplete tuple. -/
  pending : Array Nat
  /-- The number of complete tuples. -/
  tuples : Nat
  deriving DecidableEq, Repr, Inhabited

namespace Layout

/-- Take one value of a run. -/
def readValue (l : Layout) : Primitive × Run → Nat → Primitive × Run
  | (p, run), v =>
    let tuple := run.pending.push v
    if tuple.size == l.width then
      (l.pushTuple tuple p, { run with pending := #[], tuples := run.tuples + 1 })
    else (p, { run with pending := tuple })

/-- Take values of a run. -/
def readValues (l : Layout) (values : List Nat) (state : Primitive × Run) : Primitive × Run :=
  values.foldl l.readValue state

end Layout

/-- A primitive under construction. -/
structure Assembly where
  element : Element
  stage : Stage
  inputs : InputList
  layout : Layout
  primitive : Primitive
  run : Option Run
  /-- The face vertices read for triangles or a list of polygons. -/
  supplied : Nat
  /-- The face vertices that a list of polygons asks for. -/
  expected : Nat
  /-- The faces of single polygons, strips or fans. -/
  faces : Nat
  deriving DecidableEq, Repr, Inhabited

/-- Counters stop at the largest 64-bit number. -/
def counterLimit : Nat := 0xffffffffffffffff

namespace Assembly

/-- A primitive element that has just begun. -/
def start (element : Element) (material : String) (materialId : Nat) : Assembly :=
  { element, stage := .declaring, inputs := .empty, layout := .unused 1,
    primitive := { Primitive.empty element.grouping with material, materialId },
    run := none, supplied := 0, expected := 0, faces := 0 }

/-- Take one vertex count of a list of polygons. -/
def addCount (a : Assembly) (n : Nat) : Assembly :=
  { a with
    primitive := a.primitive.pushCount (vertexCountEntry n)
    expected := min (a.expected + n) counterLimit }

/-! ## Runs -/

/-- Open a run. -/
def openRun (a : Assembly) (kind : RunKind) : Assembly :=
  { a with run := some ⟨kind, a.primitive.lengths, #[], 0⟩ }

/-- Take values of the open run. -/
def readValues (a : Assembly) (run : Run) (values : List Nat) : Assembly :=
  let state := a.layout.readValues values (a.primitive, run)
  { a with primitive := state.1, run := some state.2 }

/-- Take a run of polygon vertices that has ended. -/
def addPolygonRun (a : Assembly) (mesh : String) (run : Run) : Noted Assembly :=
  match a.element with
  | .triangles | .polylist => return { a with supplied := a.supplied + run.tuples }
  | .polygons => do
      if run.tuples == 0 then
        Noted.note (.reading mesh .emptyPolygon)
        return { a with stage := a.stage.afterPolygon none }
      else
        return { a with
          primitive := a.primitive.pushCount (vertexCountEntry run.tuples)
          stage := a.stage.afterPolygon (some (Index.face a.faces))
          faces := a.faces + 1 }
  | .tristrips | .trifans => do
      if run.tuples < 3 then
        Noted.note (.reading mesh (.shortRun a.element run.tuples))
        return { a with primitive := a.primitive.restore run.start }
      else
        return { a with
          primitive := a.primitive.pushCount (vertexCountEntry run.tuples)
          faces := a.faces + (run.tuples - 2) }

/-- Take a run of hole vertices that has ended. -/
def addHoleRun (a : Assembly) (mesh : String) (run : Run) : Noted Assembly :=
  match a.stage with
  | .holed (some face) =>
      if run.tuples == 0 then return a
      else return { a with primitive := a.primitive.pushHole face run.tuples }
  | _ => do
      Noted.note (.reading mesh .strayHole)
      return a

/-- Close the open run. -/
def closeRun (a : Assembly) (mesh : String) (run : Run) : Noted Assembly := do
  Noted.noteIf (!run.pending.isEmpty) (.reading mesh .incompleteTuple)
  let a := { a with run := none }
  match run.kind with
  | .polygon => a.addPolygonRun mesh run
  | .hole => a.addHoleRun mesh run

/-! ## The finished primitive -/

/-- Set the number of faces, or drop a primitive without faces. -/
def keep (a : Assembly) (mesh : String) (p : Primitive) (faces : Nat) :
    Noted (Option Primitive) := do
  if faces == 0 then
    Noted.note (.reading mesh (.emptyPrimitive a.element))
    return none
  else
    return some { p with faces }

/-- The primitive of the element, cut to whole faces. A list of polygons that lacks vertices has
    no faces. -/
def finish (a : Assembly) (mesh : String) : Noted (Option Primitive) := do
  match a.element with
  | .triangles =>
      let faces := a.supplied / 3
      a.keep mesh (a.primitive.take (faces * 3)) faces
  | .polylist =>
      if a.expected ≤ a.supplied ∧ 0 < a.supplied then
        a.keep mesh (a.primitive.take a.expected) a.primitive.counts.size
      else
        Noted.note (.reading mesh (.missingVertices a.supplied a.expected))
        a.keep mesh a.primitive 0
  | .polygons => a.keep mesh a.primitive a.faces
  | .tristrips | .trifans =>
      a.keep mesh { a.primitive with groups := a.primitive.counts.size } a.faces

end Assembly

end MeshWeave
