import MeshWeave.Proofs.Reader.Invariants
import MeshWeave.Proofs.Reader.Showing

set_option autoImplicit false

/-! # What a primitive element sees of its reader

A reader holds more than the next primitive element has to do with: the name of the mesh, the
primitives that were finished, and the material symbols in use, which only decide the number that
stands for the material. `Reader.view` is a reader without these, and every event does the same to
what two readers of one view have in common. Nothing that earlier elements left behind is in a view,
so nothing of it is found by later ones. -/

namespace MeshWeave

/-! ## Primitives without a material id -/

/-- The primitive without the number of its material. -/
def Primitive.unnumbered (p : Primitive) : Primitive := { p with materialId := 0 }

namespace Layout

theorem readValues_unnumbered (l : Layout) (values : List Nat) (p : Primitive) (run : Run) :
    l.readValues values (p.unnumbered, run)
      = ((l.readValues values (p, run)).1.unnumbered, (l.readValues values (p, run)).2) := by
  induction values generalizing p run with
  | nil => rfl
  | cons v vs ih =>
      -- One value either completes a tuple, or it waits.
      have hvalue : l.readValue (p.unnumbered, run) v
          = ((l.readValue (p, run) v).1.unnumbered, (l.readValue (p, run) v).2) := by
        unfold readValue
        dsimp only
        split <;> rfl
      unfold readValues at ih ⊢
      rw [List.foldl_cons, List.foldl_cons, hvalue, ih]

end Layout

namespace Assembly

/-- The primitive under construction without the number of its material. -/
def unnumbered (a : Assembly) : Assembly := { a with primitive := a.primitive.unnumbered }

theorem addCounts_unnumbered (a : Assembly) (values : List Nat) :
    values.foldl addCount a.unnumbered = (values.foldl addCount a).unnumbered := by
  induction values generalizing a with
  | nil => rfl
  | cons n ns ih => exact ih (a.addCount n)

theorem readValues_unnumbered (a : Assembly) (run : Run) (values : List Nat) :
    a.unnumbered.readValues run values = (a.readValues run values).unnumbered := by
  have hread := a.layout.readValues_unnumbered values a.primitive run
  unfold readValues unnumbered
  dsimp only
  rw [hread]

/-- A run closes in the same way, whatever the mesh is called. -/
theorem closeRun_unnumbered (a : Assembly) (mesh mesh' : String) (run : Run) :
    (a.unnumbered.closeRun mesh run).value = (a.closeRun mesh' run).value.unnumbered := by
  obtain ⟨element, stage, inputs, layout, primitive, open', supplied, expected, faces⟩ := a
  obtain ⟨kind, start, pending, tuples⟩ := run
  cases kind with
  | polygon =>
      cases element with
      | triangles | polylist => rfl
      | polygons =>
          simp only [closeRun, addPolygonRun, unnumbered, Noted.value_bind]
          split <;> rfl
      | tristrips | trifans =>
          simp only [closeRun, addPolygonRun, unnumbered, Noted.value_bind]
          split <;> rfl
  | hole =>
      simp only [closeRun, addHoleRun, unnumbered, Noted.value_bind]
      split
      · split <;> rfl
      · rfl

theorem finished_unnumbered (a : Assembly) :
    a.unnumbered.finished = a.finished.map Primitive.unnumbered := by
  have hkeep (p : Primitive) (faces : Nat) :
      (a.unnumbered.keep "" p.unnumbered faces).value
        = (a.keep "" p faces).value.map Primitive.unnumbered := by
    simp only [keep]
    split <;> rfl
  rw [finished, finish, finished, finish, show a.unnumbered.element = a.element from rfl]
  cases a.element with
  | triangles => exact hkeep (a.primitive.take (a.supplied / 3 * 3)) _
  | polylist =>
      by_cases hsupplied : a.expected ≤ a.supplied ∧ 0 < a.supplied
      · have hsupplied' : a.unnumbered.expected ≤ a.unnumbered.supplied
            ∧ 0 < a.unnumbered.supplied := hsupplied
        rw [if_pos hsupplied, if_pos hsupplied']
        exact hkeep (a.primitive.take a.expected) _
      · have hsupplied' : ¬ (a.unnumbered.expected ≤ a.unnumbered.supplied
            ∧ 0 < a.unnumbered.supplied) := hsupplied
        rw [if_neg hsupplied, if_neg hsupplied']
        exact hkeep a.primitive _
  | polygons => exact hkeep a.primitive _
  | tristrips | trifans => exact hkeep { a.primitive with groups := a.primitive.counts.size } _

end Assembly

/-! ## Meshes without names and primitives -/

namespace Mesh

/-- The buffers of a mesh. -/
def vertexData (m : Mesh) : Mesh := { m with id := "", name := "", primitives := #[] }

@[simp] theorem buffer_vertexData (m : Mesh) (k : DataKind) : m.vertexData.buffer k = m.buffer k := by
  cases k <;> rfl

theorem setBuffer_vertexData (m : Mesh) (k : DataKind) (b : Buffer) :
    m.vertexData.setBuffer k b = (m.setBuffer k b).vertexData := by
  cases k <;> rfl

/-- Meshes of equal buffers. -/
theorem vertexData_eq_iff {m m' : Mesh} :
    m.vertexData = m'.vertexData ↔ ∀ k, m.buffer k = m'.buffer k := by
  constructor
  · intro h k
    rw [← buffer_vertexData, h, buffer_vertexData]
  · intro h
    have hpositions : m.positions = m'.positions := h .position
    have hnormals : m.normals = m'.normals := h .normal
    have hcolors : m.colors = m'.colors := h .color
    have htexCoords : m.texCoords = m'.texCoords := h .texCoord
    rw [vertexData, vertexData, hpositions, hnormals, hcolors, htexCoords]

/-- A source is merged in view of the buffers only. -/
theorem merge_vertexData (m : Mesh) (s : Source) (semantic : Semantic) :
    (m.vertexData.merge s semantic).value
      = { (m.merge s semantic).value with mesh := (m.merge s semantic).value.mesh.vertexData } := by
  rcases hk : DataKind.ofSemantic? semantic with _ | k
  · rw [merge_of_none _ s hk, merge_of_none _ s hk]
  · rw [merge_of_kind _ s hk, merge_of_kind _ s hk]
    rcases hwhy : refusal? k s with _ | why
    · rw [mergeKind_of_none _ s hwhy, mergeKind_of_none _ s hwhy, buffer_vertexData,
        setBuffer_vertexData]
    · rw [mergeKind_of_refusal _ s hwhy, mergeKind_of_refusal _ s hwhy]

end Mesh

namespace Resolution

/-- The resolution over the buffers of its mesh. -/
def view (q : Resolution) : Resolution := { q with mesh := q.mesh.vertexData }

theorem resolve_view (q : Resolution) (i : SharedInput) :
    (q.view.resolve i).value = (q.resolve i).value.view := by
  rcases hs : q.sources.find? i.sourceId with _ | s
  · rw [resolve_of_none q i hs, resolve_of_none q.view i hs]
  · rw [resolve_of_some q i hs, resolve_of_some q.view i hs,
      show q.view.mesh = q.mesh.vertexData from rfl, Mesh.merge_vertexData]
    rfl

theorem resolveAll_view (q : Resolution) (is : List SharedInput) :
    (q.view.resolveAll is).value = (q.resolveAll is).value.view := by
  induction is generalizing q with
  | nil => rfl
  | cons i is ih =>
      show ((q.view.resolve i).value.resolveAll is).value = _
      rw [resolve_view]
      exact ih (q.resolve i).value

end Resolution

/-! ## Readers -/

/-- Whether the event is about the vertices element. -/
def Event.isOfVertices : Event → Bool
  | .openVertices .. | .vertexInput .. | .closeVertices => true
  | _ => false

namespace Reader

variable (keeps : Bool) (r : Reader)

/-- The reader without what a primitive element has nothing to do with. Whether the vertices element
    is open matters only to events that are about it. -/
def view : Reader :=
  { r with
    mesh := r.mesh.vertexData
    inVertices := keeps && r.inVertices
    materials := .empty
    current := r.current.map Assembly.unnumbered }

theorem view_current_of_some {r : Reader} {a : Assembly} (h : r.current = some a) :
    (r.view keeps).current = some a.unnumbered := congrArg (Option.map _) h

theorem view_current_of_none {r : Reader} (h : r.current = none) :
    (r.view keeps).current = none := congrArg (Option.map _) h

theorem settled_view : (r.view keeps).settled = r.settled.view keeps := by
  rcases hr : r.current with _ | a
  · rw [settled_of_none hr, settled_of_none (view_current_of_none keeps hr)]
  · have hr' := view_current_of_some keeps hr
    by_cases hstage : a.stage = .declaring
    · have hresolution : (r.view keeps).resolution a.unnumbered = (r.resolution a).view :=
        Resolution.resolveAll_view ⟨r.mesh, r.sources, .unused a.inputs.width⟩ a.inputs.inputs
      rw [settled_of_declaring hr hstage, settled_of_declaring hr' hstage, hresolution]
      rfl
    · rw [settled_of_ne hr hstage, settled_of_ne hr' hstage]

theorem ready_view (e : Event) : (r.view keeps).ready e = (r.ready e).view keeps := by
  rw [ready, ready]
  split
  · exact r.settled_view keeps
  · rfl

/-! ## Events -/

variable {keeps} {r}

/-- An event that has its place in a reader and in its view, or in neither. -/
theorem place_view {place : Prop} [Decidable place] {n n' : Noted Reader}
    (h : n'.value.view keeps = n.value.view keeps) :
    (if place then some n' else none).map (fun n => n.value.view keeps)
      = (if place then some n else none).map (fun n => n.value.view keeps) := by
  split
  · exact congrArg some h
  · rfl

theorem view_view (r : Reader) : (r.view keeps).view keeps = r.view keeps := by
  unfold view
  dsimp only
  rw [Bool.and_self_left, Option.map_map]
  rfl

theorem setCurrent_view (r : Reader) {a a' : Assembly} (h : a' = a.unnumbered) :
    ((r.view keeps).setCurrent a').view keeps = (r.setCurrent a).view keeps := by
  rw [h]
  exact view_view (r.setCurrent a)

theorem onSource_view (f : Source → Option Source) :
    ((r.view keeps).onSource f).map (fun n => n.value.view keeps)
      = (r.onSource f).map (fun n => n.value.view keeps) := by
  unfold onSource
  rw [show (r.view keeps).source = r.source from rfl]
  rcases r.source with _ | s
  · rfl
  · rcases hs : f s with _ | s'
    · simp [hs]
    · simp only [Option.bind_eq_bind, Option.bind_some, hs, Option.pure_def, Option.map_some,
        Noted.value_pure]
      exact congrArg some (view_view { r with source := some s' })

theorem setStage_settled_view (r : Reader) (stage : Stage) :
    ({ (r.view keeps).settled with
        current := (r.view keeps).settled.current.map ({ · with stage }) } : Reader).view keeps
      = ({ r.settled with current := r.settled.current.map ({ · with stage }) } : Reader).view keeps
    := by
  rw [settled_view]
  unfold view
  dsimp only
  rw [Bool.and_self_left, Option.map_map, Option.map_map, Option.map_map]
  rfl

/-- The mesh in a view has no primitives, so nothing is seen of the one that is kept. -/
theorem closed_view (r : Reader) (kept : Option Primitive) :
    ((r.view keeps).closed (kept.map Primitive.unnumbered)).view keeps
      = (r.closed kept).view keeps := by
  cases kept with
  | none => exact view_view { r with current := none }
  | some p => exact view_view { r with current := none }

theorem map_value_view (o : Option (Noted Reader)) :
    o.map (fun n => n.value.view keeps) = (o.map Noted.value).map (·.view keeps) := by
  cases o <;> rfl

/-- Events inside of primitive elements. -/
theorem advance_inner_view {e : Event} (hinner : e.isInner = true) :
    ((r.view keeps).advance e).map (fun n => n.value.view keeps)
      = (r.advance e).map (fun n => n.value.view keeps) := by
  rcases hr : r.current with _ | a
  · rw [advance_of_idle hr hinner, advance_of_idle (view_current_of_none keeps hr) hinner]
  · have hr' := view_current_of_some keeps hr
    cases e with
    | input i =>
        rw [advance_input hr, advance_input hr']
        exact place_view (setCurrent_view r rfl)
    | openCounts =>
        rw [advance_openCounts hr, advance_openCounts hr']
        exact place_view (setStage_settled_view r .counting)
    | counts values =>
        rw [advance_counts hr, advance_counts hr', Assembly.addCounts_unnumbered]
        exact place_view (setCurrent_view r rfl)
    | closeCounts =>
        rw [advance_closeCounts hr, advance_closeCounts hr']
        exact place_view (setCurrent_view r rfl)
    | openRun kind =>
        rw [advance_openRun hr, advance_openRun hr']
        exact place_view (setCurrent_view r rfl)
    | indices kind values =>
        rcases hrun : a.run with _ | run
        · rw [(advance_of_run_none hr hrun kind values).1,
            (advance_of_run_none hr' hrun kind values).1]
        · by_cases hkind : run.kind = kind
          · rw [advance_indices hr kind values hrun hkind,
              advance_indices hr' kind values hrun hkind, Assembly.readValues_unnumbered]
            by_cases hstray : kind = .hole ∧ a.stage = .holed none
            · rw [if_pos hstray, if_pos (show kind = .hole ∧ a.unnumbered.stage = _ from hstray)]
              exact congrArg some (view_view r)
            · rw [if_neg hstray, if_neg (show ¬ (kind = .hole ∧ a.unnumbered.stage = _) from hstray)]
              exact congrArg some (setCurrent_view r rfl)
          · rw [(advance_of_kind_ne hr hrun hkind values).1,
              (advance_of_kind_ne hr' hrun hkind values).1]
    | closeRun kind =>
        rcases hrun : a.run with _ | run
        · rw [(advance_of_run_none hr hrun kind []).2, (advance_of_run_none hr' hrun kind []).2]
        · by_cases hkind : run.kind = kind
          · rw [advance_closeRun hr kind hrun hkind, advance_closeRun hr' kind hrun hkind]
            exact congrArg some (setCurrent_view r (a.closeRun_unnumbered _ _ run))
          · rw [(advance_of_kind_ne hr hrun hkind []).2, (advance_of_kind_ne hr' hrun hkind []).2]
    | openHoled =>
        rw [advance_openHoled hr, advance_openHoled hr']
        exact place_view (setCurrent_view r rfl)
    | closeHoled =>
        rw [advance_closeHoled hr, advance_closeHoled hr']
        exact place_view (setCurrent_view r rfl)
    | closePrimitive =>
        have hclose := advance_closePrimitive hr
        rw [Assembly.finish_value] at hclose
        have hclose' : ((r.view keeps).advance .closePrimitive).map Noted.value
            = if a.stage = .indexing ∧ a.run.isNone = true then
                some ((r.view keeps).closed (a.finished.map Primitive.unnumbered))
              else none := by
          rw [advance_closePrimitive hr', Assembly.finish_value, Assembly.finished_unnumbered]
          rfl
        rw [map_value_view, map_value_view, hclose, hclose']
        split
        · exact congrArg some (closed_view r a.finished)
        · rfl
    | _ => exact absurd hinner (by simp [Event.isInner])

/-- **An event does the same to a reader and to its view**, as far as the view shows it. -/
theorem advance_view {e : Event} (he : keeps = true ∨ e.isOfVertices = false) :
    ((r.view keeps).advance e).map (fun n => n.value.view keeps)
      = (r.advance e).map (fun n => n.value.view keeps) := by
  have hidle : (r.view keeps).isIdle = r.isIdle := Option.isNone_map ..
  cases e with
  | addSource s => exact congrArg some (view_view { r with sources := (r.sources.add s).value })
  | openSource id =>
      show Option.map _ (if (r.source.isNone && (r.view keeps).isIdle) = true then _ else _) = _
      rw [hidle]
      exact place_view (view_view { r with source := some (.fresh id (.float #[]) 1) })
  | openArray | floats | doubles | ints | accessor | param => exact onSource_view _
  | closeSource =>
      rw [advance_closeSource, advance_closeSource, show (r.view keeps).source = r.source from rfl]
      rcases r.source with _ | s
      · rfl
      · exact congrArg some (view_view { r with source := none, sources := (r.sources.add s).value })
  | openVertices id name =>
      obtain rfl := he.resolve_right (by simp [Event.isOfVertices])
      show Option.map _ (if (!r.inVertices && (r.view true).isIdle) = true then _ else _) = _
      rw [hidle]
      exact place_view (view_view { r with vertices := ⟨id, name, []⟩, inVertices := true })
  | vertexInput semantic source =>
      obtain rfl := he.resolve_right (by simp [Event.isOfVertices])
      exact place_view (view_view { r with
        vertices := { r.vertices with inputs := r.vertices.inputs ++ [⟨semantic, source⟩] } })
  | closeVertices =>
      obtain rfl := he.resolve_right (by simp [Event.isOfVertices])
      exact place_view (view_view { r with inVertices := false })
  | openPrimitive element material =>
      show Option.map _ (if ((r.view keeps).isIdle && r.source.isNone) = true then _ else _) = _
      rw [hidle]
      exact place_view (view_view { r with
        current := some (.start element (material.getD "") 0) })
  | _ => exact advance_inner_view rfl

/-! ## Readers of one view -/

variable {r' : Reader}

theorem ready_of_view (h : r.view keeps = r'.view keeps) (e : Event) :
    (r.ready e).view keeps = (r'.ready e).view keeps := by
  rw [← ready_view, ← ready_view, h]

theorem answer_of_view (h : r.view keeps = r'.view keeps) {e : Event}
    (he : keeps = true ∨ e.isOfVertices = false) :
    (r.answer e).1 = (r'.answer e).1
    ∧ (r.answer e).2.view keeps = (r'.answer e).2.view keeps := by
  have hadv : (r.advance e).map (fun n => n.value.view keeps)
      = (r'.advance e).map (fun n => n.value.view keeps) := by
    rw [← advance_view he, h, advance_view he]
  rw [answer, answer]
  rcases hn : r.advance e with _ | n
  · rw [hn] at hadv
    rw [Option.map_eq_none_iff.mp hadv.symm]
    exact ⟨rfl, h⟩
  · rw [hn] at hadv
    obtain ⟨n', hn', hvalue⟩ := Option.map_eq_some_iff.mp hadv.symm
    rw [hn']
    exact ⟨rfl, hvalue.symm⟩

theorem step_of_view (h : r.view keeps = r'.view keeps) {e : Event}
    (he : keeps = true ∨ e.isOfVertices = false) :
    (r.step e).value.1 = (r'.step e).value.1
    ∧ (r.next e).view keeps = (r'.next e).view keeps := by
  rw [next, next, step_eq_answer, step_eq_answer]
  exact answer_of_view (ready_of_view h e) he

/-- **Readers of one view answer any events alike**, and have one view afterwards. -/
theorem run_of_view (h : r.view keeps = r'.view keeps) {es : List Event}
    (hes : keeps = true ∨ ∀ e ∈ es, e.isOfVertices = false) :
    (r.run es).value.1 = (r'.run es).value.1
    ∧ (r.after es).view keeps = (r'.after es).view keeps := by
  induction es generalizing r r' with
  | nil => exact ⟨rfl, h⟩
  | cons e es ih =>
      obtain ⟨hanswer, hnext⟩ := step_of_view h (hes.imp_right fun hes => hes e (by simp))
      obtain ⟨hrest, hafter⟩ := ih hnext (hes.imp_right fun hes f hf => hes f (by simp [hf]))
      exact ⟨congrArg₂ List.cons hanswer hrest, hafter⟩

/-- What two readers of one view have in common. -/
theorem eq_of_view (h : r.view keeps = r'.view keeps) :
    r.sources = r'.sources ∧ (∀ k, r.mesh.buffer k = r'.mesh.buffer k)
    ∧ r.current.map Assembly.unnumbered = r'.current.map Assembly.unnumbered := by
  have hsources : (r.view keeps).sources = (r'.view keeps).sources := by rw [h]
  have hmesh : (r.view keeps).mesh = (r'.view keeps).mesh := by rw [h]
  have hcurrent : (r.view keeps).current = (r'.view keeps).current := by rw [h]
  exact ⟨hsources, Mesh.vertexData_eq_iff.mp hmesh, hcurrent⟩

end Reader

end MeshWeave
