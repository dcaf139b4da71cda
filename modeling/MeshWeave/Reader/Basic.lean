import MeshWeave.Material
import MeshWeave.Reader.Assembly
import MeshWeave.Reader.Event

set_option autoImplicit false

/-! # Reading a mesh

A reader takes the events of a mesh one by one. An event that has no place where it stands is
ignored, with a notice, and reading goes on.

The inputs of a primitive are resolved, and their sources merged, when its first index element
opens. This happens before the reader looks whether the element has its place there. -/

namespace MeshWeave

/-- A mesh that is being read. -/
structure Reader where
  mesh : Mesh
  sources : SourceTable
  /-- The source that is open. -/
  source : Option Source
  vertices : Vertices
  /-- Whether the vertices element is open. -/
  inVertices : Bool
  materials : SymbolTable
  /-- The primitive element that is open. -/
  current : Option Assembly
  deriving DecidableEq, Repr

namespace Reader

/-- A reader for the mesh with an id. A mesh without a name is called by its id. -/
def start (id name : String) : Reader :=
  { mesh := .empty id (if name.isEmpty then id else name), sources := .empty, source := none,
    vertices := .empty, inVertices := false, materials := .empty, current := none }

instance : Inhabited Reader := ⟨start "" ""⟩

/-- The stage of the open primitive element. -/
def stage (r : Reader) : Option Stage := r.current.map (·.stage)

/-- No primitive element is open. -/
def isIdle (r : Reader) : Bool := r.current.isNone

/-- Take notice of something about the mesh. -/
def tell (r : Reader) (n : ReadingNotice) : Noted Unit := Noted.note (.reading r.mesh.id n)

/-- Change the open primitive. -/
def setCurrent (r : Reader) (a : Assembly) : Reader := { r with current := some a }

/-- End the declaration of inputs. -/
def settle (r : Reader) : Noted Reader :=
  match r.current with
  | none => return r
  | some a => do
      if a.stage = .declaring then
        Noted.noteIf a.inputs.inputs.isEmpty (.reading r.mesh.id .noInputs)
        let before : Resolution := ⟨r.mesh, r.sources, .unused a.inputs.width⟩
        let s ← before.resolveAll a.inputs.inputs
        return { r with
          mesh := s.mesh
          sources := s.sources
          current := some { a with
            stage := .indexing
            layout := s.layout
            primitive := s.layout.prepare a.primitive } }
      else return r

/-! ## The places of events -/

/-- Change the open source. -/
def onSource (r : Reader) (f : Source → Option Source) : Option (Noted Reader) := do
  let s ← r.source
  let s ← f s
  return pure { r with source := some s }

/-- Append values to the array of the open source. -/
def appendValues (r : Reader) (values : Scalars) : Option (Noted Reader) :=
  r.onSource fun s => (s.values.append? values).map fun v => { s with values := v }

/-- What an event does where it has its place, and nothing where it has none. -/
def advance (r : Reader) : Event → Option (Noted Reader)
  | .addSource s => some do return { r with sources := ← r.sources.add s }
  | .openSource id =>
      if r.source.isNone && r.isIdle then
        some (pure { r with source := some (.fresh id (.float #[]) 1) })
      else none
  | .openArray type => r.onSource fun s => some { s with values := type.empty }
  | .floats values => r.appendValues (.float values)
  | .doubles values => r.appendValues (.double values)
  | .ints values => r.appendValues (.int values)
  | .accessor stride => r.onSource fun s => some { s with stride }
  | .param name type =>
      r.onSource fun s => some { s with params := s.params ++ [⟨name, .ofParam type⟩] }
  | .closeSource => do
      let s ← r.source
      return do return { r with source := none, sources := ← r.sources.add s }
  | .openVertices id name =>
      if !r.inVertices && r.isIdle then
        some (pure { r with vertices := ⟨id, name, []⟩, inVertices := true })
      else none
  | .vertexInput semantic source =>
      if r.inVertices then
        some (pure { r with
          vertices := { r.vertices with inputs := r.vertices.inputs ++ [⟨semantic, source⟩] } })
      else none
  | .closeVertices => if r.inVertices then some (pure { r with inVertices := false }) else none
  | .openPrimitive element material =>
      if r.isIdle && r.source.isNone then
        let symbol := material.getD ""
        let (id, materials) := r.materials.intern symbol
        some (pure { r with materials, current := some (.start element symbol id) })
      else none
  | .input i => do
      let a ← r.current
      guard (a.stage = .declaring)
      return do return r.setCurrent { a with inputs := ← a.inputs.add i r.vertices }
  | .openCounts => do
      let a ← r.current
      guard (a.stage = .declaring ∧ a.element = .polylist)
      return do
        let r ← r.settle
        return { r with current := r.current.map ({ · with stage := .counting }) }
  | .counts values => do
      let a ← r.current
      guard (a.stage = .counting)
      return pure (r.setCurrent (values.foldl Assembly.addCount a))
  | .closeCounts => do
      let a ← r.current
      guard (a.stage = .counting)
      return pure (r.setCurrent { a with stage := .indexing })
  | .openRun kind => do
      let a ← r.current
      guard (a.run.isNone ∧ a.stage.takesRuns kind)
      return pure (r.setCurrent (a.openRun kind))
  | .indices kind values => do
      let a ← r.current
      let run ← a.run
      guard (run.kind = kind)
      if kind = .hole ∧ a.stage = .holed none then return pure r
      else return pure (r.setCurrent (a.readValues run values))
  | .closeRun kind => do
      let a ← r.current
      let run ← a.run
      guard (run.kind = kind)
      return do return r.setCurrent (← a.closeRun r.mesh.id run)
  | .openHoled => do
      let a ← r.current
      guard (a.stage = .indexing ∧ a.run.isNone ∧ a.element = .polygons)
      return pure (r.setCurrent { a with stage := .holed none })
  | .closeHoled => do
      let a ← r.current
      guard (a.stage.isHoled ∧ a.run.isNone)
      return pure (r.setCurrent { a with stage := .indexing })
  | .closePrimitive => do
      let a ← r.current
      guard (a.stage = .indexing ∧ a.run.isNone)
      return do
        match ← a.finish r.mesh.id with
        | some p => return { r with mesh := r.mesh.push p, current := none }
        | none => return { r with current := none }

theorem advance_of_idle {r : Reader} {e : Event} (h : r.current = none)
    (he : e.isInner = true) : r.advance e = none := by
  cases e with
  | input | openCounts | counts | closeCounts | openRun | indices | closeRun | openHoled
  | closeHoled | closePrimitive =>
      rw [advance, h]
      rfl
  | _ => cases he

/-! ## Reading events -/

/-- Read one event, and tell whether it had its place. -/
def step (r : Reader) (e : Event) : Noted (Bool × Reader) := do
  let r ← if e.settles then r.settle else pure r
  match r.advance e with
  | some next => return (true, ← next)
  | none =>
      r.tell (.ignored e.label r.stage)
      return (false, r)

/-- Read events in order, and tell of each whether it had its place. -/
def run : Reader → List Event → Noted (List Bool × Reader)
  | r, [] => return ([], r)
  | r, e :: es => do
      let (accepted, r) ← r.step e
      let (rest, r) ← r.run es
      return (accepted :: rest, r)

/-- The mesh that was read. A primitive element that is still open is left out. -/
def finish (r : Reader) : Noted Mesh :=
  match r.current with
  | none => return r.mesh
  | some a => do
      r.tell (.unfinished a.element)
      return r.mesh

/-- Finish, and pass the mesh on to a receiver, which tells whether it takes it. -/
def handOver {σ : Type} (r : Reader) (receive : σ → Mesh → Bool × σ) (receiver : σ) :
    Noted (Bool × σ) := do
  return receive receiver (← r.finish)

/-- The receiver that takes every mesh and keeps them in order. -/
def collect (meshes : Array Mesh) (m : Mesh) : Bool × Array Mesh := (true, meshes.push m)

end Reader

end MeshWeave
