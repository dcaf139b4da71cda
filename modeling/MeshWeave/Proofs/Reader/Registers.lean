import MeshWeave.Proofs.Reader.Stream
import MeshWeave.Reader.Basic

set_option autoImplicit false

/-! # Decoders with registers

A reader keeps everything that belongs to the open primitive element in one place, its assembly, so
that there is none of it when no element is open. A decoder that is driven by callbacks has a
register for each part instead: the phase, the element, the primitive, the open run, the stream of
its indices and the counters all exist at all times, and each callback updates those that it has to
do with. `Registers.step` is that decoder. Nothing in its type keeps the registers together; where a
callback needs a part that might be missing it looks for it, and gives up if it is not there. -/

namespace MeshWeave

/-- What a decoder is doing. -/
inductive Phase where
  | idle
  | declaring
  | counting
  | indexing
  | holed
  deriving DecidableEq, Repr, Inhabited

/-- How a callback ends. -/
inductive Outcome where
  /-- The event had its place. -/
  | taken
  /-- The event had no place. -/
  | refused
  /-- The event had its place, but the open element or its primitive is missing. -/
  | broken
  deriving DecidableEq, Repr, Inhabited

/-- Whether a callback reports that the event had its place. -/
def Outcome.isTaken : Outcome → Bool
  | taken => true
  | _ => false

/-- The registers of a decoder. -/
structure Registers where
  mesh : Mesh
  sources : SourceTable
  source : Option Source
  vertices : Vertices
  inVertices : Bool
  materials : SymbolTable
  phase : Phase
  element : Option Element
  primitive : Option Primitive
  inputs : InputList
  stream : Stream
  openRun : Option RunKind
  /-- The lengths of the index arrays when the last run opened. -/
  runStart : Lengths
  /-- The face vertices and hole vertices of the runs that were kept. -/
  vertexCount : Nat
  /-- The face vertices that a list of polygons asks for. -/
  expected : Nat
  /-- The vertex counts of a list of polygons. -/
  entries : Nat
  /-- The faces of single polygons, strips or fans. -/
  faces : Nat
  /-- The strips or fans. -/
  groups : Nat
  /-- The face of the open polygon with holes. -/
  holeFace : Option UInt32
  deriving DecidableEq, Repr

namespace Registers

/-- The registers before the first event. -/
def start (id name : String) : Registers :=
  { mesh := .empty id (if name.isEmpty then id else name), sources := .empty, source := none,
    vertices := .empty, inVertices := false, materials := .empty, phase := .idle, element := none,
    primitive := none, inputs := .empty, stream := .unused, openRun := none,
    runStart := ⟨0, 0, [], []⟩, vertexCount := 0, expected := 0, entries := 0, faces := 0,
    groups := 0, holeFace := none }

instance : Inhabited Registers := ⟨start "" ""⟩

variable (m : Registers)

/-- Take an event where it has its place. -/
def takeIf (place : Prop) [Decidable place] (m' : Registers) : Outcome × Registers :=
  if place then (.taken, m') else (.refused, m)

/-! ## Sources -/

/-- Change the open source. -/
def onSource (f : Source → Option Source) : Outcome × Registers :=
  match m.source.bind f with
  | some s => (.taken, { m with source := some s })
  | none => (.refused, m)

/-- Append values to the array of the open source. -/
def appendValues (values : Scalars) : Outcome × Registers :=
  m.onSource fun s => (s.values.append? values).map fun v => { s with values := v }

/-- Close the open source. -/
def closeSource : Outcome × Registers :=
  match m.source with
  | some s => (.taken, { m with source := none, sources := (m.sources.add s).value })
  | none => (.refused, m)

/-! ## Inputs and vertex counts -/

/-- Begin a primitive element. -/
def openPrimitive (element : Element) (symbol : String) : Registers :=
  { m with
    materials := (m.materials.intern symbol).2
    phase := .declaring
    element := some element
    primitive := some { Primitive.empty element.grouping with
      material := symbol, materialId := (m.materials.intern symbol).1 }
    inputs := .empty
    stream := .unused
    openRun := none
    vertexCount := 0
    expected := 0
    entries := 0
    faces := 0
    groups := 0
    holeFace := none }

/-- End the declaration of inputs. -/
def settle : Registers :=
  if m.phase = .declaring then
    let before : Resolution := ⟨m.mesh, m.sources, .unused m.inputs.width⟩
    let s := (before.resolveAll m.inputs.inputs).value
    { m with
      mesh := s.mesh
      sources := s.sources
      phase := .indexing
      stream := .ofInputs s.sources m.inputs }
  else m

/-- Take one vertex count of a list of polygons. -/
def addCount (n : Nat) : Registers :=
  { m with
    primitive := m.primitive.map (·.pushCount (vertexCountEntry n))
    expected := min (m.expected + n) counterLimit
    entries := m.entries + 1 }

/-- Take vertex counts. -/
def addCounts (values : List Nat) : Outcome × Registers :=
  if m.phase = .counting then
    match m.primitive with
    | some _ => (.taken, values.foldl addCount m)
    | none => (.broken, m)
  else (.refused, m)

/-! ## Runs -/

/-- Open a run. -/
def beginRun (kind : RunKind) : Registers :=
  { m with
    openRun := some kind
    runStart := (m.primitive.map Primitive.lengths).getD m.runStart
    stream := m.stream.begin }

/-- Take values of the open run. -/
def readValues (p : Primitive) (values : List Nat) : Registers :=
  let state := Stream.readValues values (m.stream, p)
  { m with stream := state.1, primitive := some state.2 }

/-- Take values of a run. Values of a hole are not looked at before its polygon has a face. -/
def addValues (kind : RunKind) (values : List Nat) : Outcome × Registers :=
  if m.openRun = some kind then
    if kind = .hole ∧ m.holeFace = none then (.taken, m)
    else
      match m.primitive with
      | some p => (.taken, m.readValues p values)
      | none => (.broken, m)
  else (.refused, m)

/-- Close a run. What was written of an incomplete tuple is taken back. -/
def endRun : Registers :=
  { m with
    openRun := none
    primitive := m.primitive.map (m.stream.finish m.runStart)
    stream := { m.stream with offset := 0 } }

/-- Take a run of polygon vertices that has ended. -/
def addPolygonRun (element : Element) (p : Primitive) : Registers :=
  match element with
  | .triangles | .polylist => { m with vertexCount := m.vertexCount + m.stream.tuples }
  | .polygons =>
      let cleared := { m with holeFace := if m.phase = .holed then none else m.holeFace }
      if m.stream.tuples = 0 then cleared
      else
        { cleared with
          primitive := some (p.pushCount (vertexCountEntry m.stream.tuples))
          holeFace := if m.phase = .holed then some (Index.face m.faces) else cleared.holeFace
          faces := m.faces + 1
          vertexCount := m.vertexCount + m.stream.tuples }
  | .tristrips | .trifans =>
      if 3 ≤ m.stream.tuples then
        { m with
          primitive := some (p.pushCount (vertexCountEntry m.stream.tuples))
          faces := m.faces + (m.stream.tuples - 2)
          groups := m.groups + 1
          vertexCount := m.vertexCount + m.stream.tuples }
      else { m with primitive := some (p.restore m.runStart) }

/-- Close a run of polygon vertices. -/
def closePolygonRun : Outcome × Registers :=
  if m.openRun = some .polygon then
    let m := m.endRun
    match m.element, m.primitive with
    | some element, some p => (.taken, m.addPolygonRun element p)
    | _, _ => (.broken, m)
  else (.refused, m)

/-- Take a run of hole vertices that has ended. -/
def addHoleRun : Registers :=
  match m.holeFace, m.primitive with
  | some face, some p =>
      if 0 < m.stream.tuples then
        { m with
          primitive := some (p.pushHole face m.stream.tuples)
          vertexCount := m.vertexCount + m.stream.tuples }
      else m
  | _, _ => m

/-- The end tag of a run. -/
def closeRun : RunKind → Outcome × Registers
  | .polygon => m.closePolygonRun
  | .hole => m.takeIf (m.openRun = some .hole) m.endRun.addHoleRun

/-! ## The finished primitive -/

/-- The primitive cut to whole faces, and their number. -/
def trimmed (element : Element) (p : Primitive) : Primitive × Nat :=
  match element with
  | .triangles => (p.take (m.vertexCount / 3 * 3), m.vertexCount / 3)
  | .polylist =>
      if m.expected ≤ m.vertexCount ∧ 0 < m.vertexCount then (p.take m.expected, m.entries)
      else (p, 0)
  | .polygons => (p, m.faces)
  | .tristrips | .trifans => ({ p with groups := m.groups }, m.faces)

/-- Add a primitive to the mesh, unless it has no faces. -/
def keep (p : Primitive × Nat) : Mesh :=
  if p.2 = 0 then m.mesh else m.mesh.push { p.1 with faces := p.2 }

/-- The end tag of a primitive element. -/
def closePrimitive : Outcome × Registers :=
  if m.phase = .indexing ∧ m.openRun = none then
    let closed :=
      { m with phase := .idle, inputs := .empty, element := none, primitive := none }
    match m.element, m.primitive with
    | some element, some p => (.taken, { closed with mesh := m.keep (m.trimmed element p) })
    | _, _ => (.broken, closed)
  else (.refused, m)

/-! ## Events -/

/-- What one event does to the registers. -/
def step (m : Registers) : Event → Outcome × Registers
  | .addSource s => (.taken, { m with sources := (m.sources.add s).value })
  | .openSource id =>
      m.takeIf (m.source = none ∧ m.phase = .idle)
        { m with source := some (.fresh id (.float #[]) 1) }
  | .openArray type => m.onSource fun s => some { s with values := type.empty }
  | .floats values => m.appendValues (.float values)
  | .doubles values => m.appendValues (.double values)
  | .ints values => m.appendValues (.int values)
  | .accessor stride => m.onSource fun s => some { s with stride }
  | .param name type =>
      m.onSource fun s => some { s with params := s.params ++ [⟨name, .ofParam type⟩] }
  | .closeSource => m.closeSource
  | .openVertices id name =>
      m.takeIf (m.inVertices = false ∧ m.phase = .idle)
        { m with vertices := ⟨id, name, []⟩, inVertices := true }
  | .vertexInput semantic source =>
      m.takeIf (m.inVertices = true)
        { m with
          vertices := { m.vertices with inputs := m.vertices.inputs ++ [⟨semantic, source⟩] } }
  | .closeVertices => m.takeIf (m.inVertices = true) { m with inVertices := false }
  | .openPrimitive element material =>
      m.takeIf (m.phase = .idle ∧ m.source = none) (m.openPrimitive element (material.getD ""))
  | .input i =>
      m.takeIf (m.phase = .declaring) { m with inputs := (m.inputs.add i m.vertices).value }
  | .openCounts =>
      m.takeIf (m.phase = .declaring ∧ m.element = some .polylist)
        { m.settle with phase := .counting }
  | .counts values => m.addCounts values
  | .closeCounts => m.takeIf (m.phase = .counting) { m with phase := .indexing }
  | .openRun .polygon =>
      let m := m.settle
      m.takeIf ((m.phase = .indexing ∨ m.phase = .holed) ∧ m.openRun = none) (m.beginRun .polygon)
  | .openRun .hole => m.takeIf (m.phase = .holed ∧ m.openRun = none) (m.beginRun .hole)
  | .indices kind values => m.addValues kind values
  | .closeRun kind => m.closeRun kind
  | .openHoled =>
      let m := m.settle
      m.takeIf (m.phase = .indexing ∧ m.openRun = none ∧ m.element = some .polygons)
        { m with phase := .holed, holeFace := none }
  | .closeHoled =>
      m.takeIf (m.phase = .holed ∧ m.openRun = none) { m with phase := .indexing, holeFace := none }
  | .closePrimitive => m.settle.closePrimitive

/-- The registers after events, and how each callback ended. -/
def run : Registers → List Event → List Outcome × Registers
  | m, [] => ([], m)
  | m, e :: es =>
      let (outcome, m) := m.step e
      let (rest, m) := m.run es
      (outcome :: rest, m)

/-- The registers after events. -/
def after (es : List Event) : Registers := (m.run es).2

/-- The stage of the open primitive element. -/
def stage : Option Stage :=
  match m.phase with
  | .idle => none
  | .declaring => some .declaring
  | .counting => some .counting
  | .indexing => some .indexing
  | .holed => some (.holed m.holeFace)

end Registers

end MeshWeave
