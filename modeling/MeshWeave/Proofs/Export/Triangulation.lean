import MeshWeave.Proofs.Export.Fans
import MeshWeave.Proofs.Export.Inputs
import MeshWeave.Proofs.Export.Reading
import MeshWeave.Proofs.Reader.Keeping
import MeshWeave.Proofs.Reader.Meeting

set_option autoImplicit false

/-! # Triangulated and plain exports

The export of a mesh with triangles and the one without are read as the same mesh, but for its
polygons: primitive by primitive the triangles are the fans of the polygons, and so there are as
many of them as a reader counts in the polygons.

Both exports have a listing for the same slots with the same inputs. So two readers that meet before
the listings of a slot read positions from the same place of the same tuples, and meet again behind
them. -/

namespace MeshWeave

/-- The vertices of each polygon. -/
def Primitive.outlines (p : Primitive) : List (List UInt32) :=
  (p.counts.toList.map Int.toNat).splitLengths p.positions.toList

/-- A primitive has triangles where another one, which is complete, has polygons: the fan of each
    polygon, in order. -/
structure Primitive.Triangulates (cut plain : Primitive) : Prop where
  material_eq : cut.material = plain.material
  triangleCount_eq : cut.triangleCount = plain.triangleCount
  onlyTriangles : cut.onlyTriangles = true
  size_positions : plain.positions.size = plain.indexCount
  positions_eq : cut.positions.toList = plain.outlines.flatMap fanCorners

namespace Exporter

variable {e : Exporter}

/-! ## The listings of a slot -/

theorem listsSlot_slotListing {triangulated : Bool} {slot : Nat}
    (hslot : e.slotVertices triangulated slot ≠ []) :
    e.ListsSlot e.tuple.value triangulated slot (e.facesAt triangulated slot)
      (e.slotListing triangulated slot) :=
  ⟨rfl, e.vertices_facesAt triangulated slot, e.isProper_facesAt triangulated slot, hslot⟩

/-- A source for the vertices element is an input of every listing. -/
theorem exists_vertex_input (hvertex : ∃ s ∈ e.sources.faces, s.semantic = .vertex)
    (triangulated : Bool) (slot : Nat) :
    ∃ i ∈ (e.slotListing triangulated slot).session.inputs, i.semantic = .vertex := by
  obtain ⟨s, hwritten, hsemantic⟩ := exists_written_vertex hvertex
  refine ⟨(e.tuple.value.input s (e.reference s)).shared, ?_, hsemantic⟩
  show _ ∈ e.tuple.value.inputs.map ListedInput.shared
  rw [e.lists_tuple.inputs_eq]
  exact List.mem_map_of_mem (List.mem_map_of_mem hwritten)

/-- No polygon is written with more vertices than it has. -/
theorem length_vertices_facesAt (hcount : e.host.IsCountable) {slot : Nat} {f : Faces}
    (hf : f ∈ e.facesAt false slot) : f.vertices.length < 2 ^ 31 := by
  obtain ⟨p, -, hf⟩ := List.mem_filterMap.mp hf
  have hspec := e.polygonFaces?_spec false p
  rw [hf] at hspec
  obtain ⟨-, hrun, -⟩ := hspec
  have hle := e.host.length_writtenRun_le e.options.removeDuplicates p
  rw [f.length_vertices, hrun]
  exact Nat.lt_of_le_of_lt hle (hcount.vertexCount_lt p)

/-! ## What is read of a slot -/

/-- The positions that a reader with a lane for them finds at some face vertices. -/
def positionsAt (e : Exporter) (lane : Lane) (vs : List (Nat × Nat)) : List UInt32 :=
  vs.map fun v => lane.read (e.tuple.value.values e.host v).toArray

/-- What is read of a slot, whether as triangles or not. -/
theorem ListsSlot.finished_positions {triangulated : Bool} {slot : Nat} {fs : List Faces}
    {l : Listing} (hl : e.ListsSlot e.tuple.value triangulated slot fs l)
    (hvertex : ∃ s ∈ e.sources.faces, s.semantic = .vertex)
    (hlimit : triangulated = false → (e.slotVertices triangulated slot).length ≤ counterLimit)
    {r : Reader} (hvertices : r.vertices.inputs ≠ []) {lane : Lane}
    (hlane : (l.session.resolution r).layout.position = some lane) :
    ∃ p, (l.session.assembly r).finished = some p
      ∧ p.grouping = (shape triangulated fs).element.grouping
      ∧ p.material = e.host.shaders[slot]?.getD ""
      ∧ p.faces = total (fs.map Faces.count)
      ∧ p.positions.toList = e.positionsAt lane (e.slotVertices triangulated slot) := by
  have ht := pos_length_attributes (exists_written_vertex hvertex)
  obtain ⟨p, hp, hfaces, hmaterial, hfill⟩ :=
    hl.finished ht hlimit r (hl.width_inputList ht hvertices)
  refine ⟨p, hp, ?_, ?_, ?_, ?_⟩
  · rw [l.session.grouping_of_finished r hp, hl.element_eq]
  · rw [hmaterial, hl.material_eq]
  · rw [hfaces, hl.count_eq]
  · rw [← hfill, Layout.fill]
    dsimp only
    rw [hlane, Layout.column, List.map_map]
    rfl

/-- The polygons of a primitive are told apart by its vertex counts. -/
theorem outlines_eq {p : Primitive} {fs : List Faces} {lane : Lane}
    (hcounts : p.counts.toList = fs.map fun f => Int.ofNat f.vertices.length)
    (hpositions : p.positions.toList = e.positionsAt lane (fs.flatMap Faces.vertices)) :
    p.outlines = fs.map fun f => e.positionsAt lane f.vertices := by
  have hflatten : p.positions.toList
      = (fs.map fun f => e.positionsAt lane f.vertices).flatten := by
    rw [hpositions, positionsAt, List.map_flatMap, List.flatMap_def]
    rfl
  have hlengths : p.counts.toList.map Int.toNat
      = (fs.map fun f => e.positionsAt lane f.vertices).map List.length := by
    rw [hcounts, List.map_map, List.map_map]
    exact List.map_congr_left fun f _ => (List.length_map _).symm
  rw [Primitive.outlines, hflatten, hlengths, splitLengths_flatten]

section Slots

variable (hfans : e.host.HasFans) (hcount : e.host.IsCountable) {slot : Nat}

include hfans

theorem shape_facesAt : shape false (e.facesAt false slot) = .polylist := by
  have hnone : (e.facesAt false slot).any Faces.isHoled = false :=
    List.any_eq_false.mpr fun f hf => by simp [isHoled_facesAt hfans hf]
  rw [shape, hnone]
  rfl

include hcount

/-- The vertex counts that are read of a slot are those of its polygons. -/
theorem counts_of_finished (hslot : e.slotVertices false slot ≠ []) {r : Reader} {p : Primitive}
    (hp : ((e.slotListing false slot).session.assembly r).finished = some p) :
    p.counts.toList = (e.facesAt false slot).map fun f => Int.ofNat f.vertices.length := by
  have hl := listsSlot_slotListing hslot
  have hshape : shape false (e.facesAt false slot) = .polylist := shape_facesAt hfans
  have helement : (e.slotListing false slot).session.element = .polylist := by
    rw [hl.element_eq, hshape]
    rfl
  have hsmall : ∀ n ∈ (e.facesAt false slot).map fun f => f.vertices.length, n < 2 ^ 31 := by
    intro n hn
    obtain ⟨f, hf, rfl⟩ := List.mem_map.mp hn
    exact length_vertices_facesAt hcount hf
  rw [(Assembly.keeps_of_finished hp).counts_eq, Session.counts_assembly _ r helement,
    (hl.vertexCounts_eq hshape).1, map_vertexCountEntry hsmall, List.map_map]
  rfl

/-- **The triangles of a slot are read as the fans of its polygons** by readers that meet. -/
theorem triangulates_of_meets (hkeep : e.options.removeDuplicates = false)
    (hvertex : ∃ s ∈ e.sources.faces, s.semantic = .vertex)
    (hslot : e.slotVertices false slot ≠ []) (hslot' : e.slotVertices true slot ≠ [])
    {r r' : Reader} (hmeets : r.Meets r') (hknows : r.KnowsPositions) :
    ∃ plain cut, ((e.slotListing false slot).session.assembly r).finished = some plain
      ∧ ((e.slotListing true slot).session.assembly r').finished = some cut
      ∧ cut.Triangulates plain := by
  -- Both listings declare the same inputs, so both readers have the same lane for positions.
  have hinputs : (e.slotListing false slot).session.inputs
      = (e.slotListing true slot).session.inputs := rfl
  obtain ⟨lane, hlane⟩ :=
    Session.position_of_knowsPositions hknows (exists_vertex_input hvertex false slot)
  have hlane' : ((e.slotListing true slot).session.resolution r').layout.position = some lane := by
    rw [← (Session.resolution_of_meets hmeets hinputs).2.1, hlane]
  have hvertices : r.vertices.inputs ≠ [] := by
    obtain ⟨i, hi, -⟩ := hknows
    exact List.ne_nil_of_mem hi
  have hlimit := Nat.le_trans (e.length_slotVertices_le_total slot) hcount.total_le
  obtain ⟨plain, hplain, hgrouping, hmaterial, -, hpositions⟩ :=
    (listsSlot_slotListing hslot).finished_positions hvertex (fun _ => hlimit) hvertices hlane
  obtain ⟨cut, hcut, hgrouping', hmaterial', hfaces', hpositions'⟩ :=
    (listsSlot_slotListing hslot').finished_positions hvertex (by simp)
      (hmeets.vertices_eq ▸ hvertices) hlane'
  have hcounts := counts_of_finished hfans hcount hslot hplain
  rw [shape_facesAt hfans] at hgrouping
  rw [← e.vertices_facesAt] at hpositions
  have hpolygons : plain.grouping = .polygons := hgrouping
  have htriangles : cut.grouping = .triangles := hgrouping'
  refine ⟨plain, cut, hplain, hcut, ?_, ?_, ?_, ?_, ?_⟩
  · rw [hmaterial, hmaterial']
  · rw [Primitive.triangleCount, Primitive.triangleCount, htriangles, hpolygons]
    dsimp only
    rw [hfaces', e.total_count_facesAt hfans hkeep, hcounts, List.map_map]
    rfl
  · rw [Primitive.onlyTriangles, htriangles]
  · rw [Primitive.indexCount, hpolygons]
    dsimp only
    rw [hcounts, List.map_map, ← Array.length_toList, hpositions, positionsAt, List.length_map,
      ← Faces.total_length_vertices]
    rfl
  · rw [hpositions', outlines_eq hcounts hpositions, e.slotVertices_eq_fans hfans hkeep,
      List.flatMap_map, positionsAt, List.map_flatMap]
    exact List.flatMap_congr fun f _ => (fanCorners_map _ f.vertices).symm

end Slots

/-! ## All slots -/

/-- Two readers that meet read the listings of some slots, one without triangles and one with them,
    in lockstep. -/
theorem replayAll_of_meets (hfans : e.host.HasFans) (hcount : e.host.IsCountable)
    (hkeep : e.options.removeDuplicates = false)
    (hvertex : ∃ s ∈ e.sources.faces, s.semantic = .vertex) {slots : List Nat}
    (hslots : ∀ slot ∈ slots, e.slotVertices false slot ≠ [] ∧ e.slotVertices true slot ≠ [])
    {r r' : Reader} (hmeets : r.Meets r') (hknows : r.KnowsPositions) :
    let read := (r.replayAll (slots.map (e.slotListing false))).value
    let read' := (r'.replayAll (slots.map (e.slotListing true))).value
    read.1 = true ∧ read'.1 = true
      ∧ ∃ plains cuts, read.2.mesh.primitives = r.mesh.primitives ++ plains.toArray
        ∧ read'.2.mesh.primitives = r'.mesh.primitives ++ cuts.toArray
        ∧ List.Forall₂ Primitive.Triangulates cuts plains := by
  induction slots generalizing r r' with
  | nil => exact ⟨rfl, rfl, [], [], by simp [Reader.replayAll], by simp [Reader.replayAll], .nil⟩
  | cons slot slots ih =>
      obtain ⟨⟨hslot, hslot'⟩, hslots⟩ := List.forall_mem_cons.mp hslots
      obtain ⟨plain, cut, hplain, hcut, htriangulates⟩ :=
        triangulates_of_meets hfans hcount hkeep hvertex hslot hslot' hmeets hknows
      have hreads := Listing.reads_listing (listsSlot_slotListing hslot).isPlaced hmeets.idle
        hmeets.source
      have hreads' := Listing.reads_listing (listsSlot_slotListing hslot').isPlaced hmeets.idle'
        hmeets.source'
      have hbehind : ((e.slotListing false slot).session.behind r).Meets
          ((e.slotListing true slot).session.behind r') := Session.behind_of_meets hmeets rfl
      obtain ⟨htaken, htaken', plains, cuts, hplains, hcuts, hall⟩ :=
        ih hslots hbehind (Session.knowsPositions_behind _ hknows)
      rw [List.map_cons, List.map_cons, Reader.replayAll_of_reads hreads,
        Reader.replayAll_of_reads hreads']
      refine ⟨htaken, htaken', plain :: plains, cut :: cuts, ?_, ?_, .cons htriangulates hall⟩
      · rw [hplains, Session.primitives_behind, hplain, Array.append_assoc]
        simp
      · rw [hcuts, Session.primitives_behind, hcut, Array.append_assoc]
        simp

/-- **Triangulated and plain exports agree on the mesh.** The polygons of a mesh in memory have no
    holes and less than `2 ^ 31` vertices each, and all their vertices can be counted in a machine
    word, as those of any mesh that fits into memory. Both exports succeed, and a new reader that
    knows the positions takes all listings of either. What it has read has the same number of
    primitives in either case, and one by one the same material and the same number of triangles.
    With triangles it has nothing else, and its positions are those of the fans of the polygons that
    it has read without. -/
theorem triangulates_of_write (m : PolygonSet) (mesh : String) (sources : ExportSources)
    (suffix : String) (r : Reader) (hplain : ∀ q ∈ m.polygons, q.holeSizes = [])
    (hsizes : ∀ q ∈ m.polygons, q.vertices.size < 2 ^ 31)
    (htotal : total (m.polygons.toList.map (·.vertices.size)) ≤ counterLimit)
    (hvertex : ∃ s ∈ sources.faces, s.semantic = .vertex)
    (hidle : r.current = none) (hsource : r.source = none) (hnew : r.mesh.primitives = #[])
    (hknows : r.KnowsPositions) :
    let written (triangulate : Bool) :=
      ((new m.host mesh sources ⟨triangulate, false, suffix⟩).write Recorder.empty).value.2
    let read (triangulate : Bool) :=
      (r.replayAll (written triangulate).1.listings.toList).value
    (∀ triangulate, (written triangulate).2 = .ok (written triangulate).1.listings.size
      ∧ (read triangulate).1 = true)
    ∧ (read true).2.mesh.primitives.size = (read false).2.mesh.primitives.size
    ∧ (read true).2.mesh.onlyTriangles = true
    ∧ List.Forall₂ Primitive.Triangulates (read true).2.mesh.primitives.toList
      (read false).2.mesh.primitives.toList := by
  intro written read
  let e := new m.host mesh sources ⟨false, false, suffix⟩
  have hfans : e.host.HasFans := m.hasFans_host hplain
  have hlistings (triangulate : Bool) : (written triangulate).1.listings.toList
      = (e.writtenSlots false).map (e.slotListing triangulate) :=
    e.listings_withTriangles hfans rfl triangulate
  have hslots : ∀ slot ∈ e.writtenSlots false,
      e.slotVertices false slot ≠ [] ∧ e.slotVertices true slot ≠ [] := by
    intro slot hslot
    have hslot' := hslot
    rw [← writtenSlots_eq hfans rfl] at hslot'
    exact ⟨by simpa using (List.mem_filter.mp hslot).2, by simpa using (List.mem_filter.mp hslot').2⟩
  have hmeets : r.Meets r := ⟨hidle, hidle, hsource, hsource, rfl, rfl, fun _ => rfl⟩
  obtain ⟨htaken, htaken', plains, cuts, hplains, hcuts, hall⟩ :=
    replayAll_of_meets hfans (m.isCountable_host hsizes htotal) rfl hvertex hslots hmeets hknows
  rw [← hlistings, hnew, Array.empty_append] at hplains hcuts
  rw [← hlistings] at htaken htaken'
  have hread : (read false).2.mesh.primitives = plains.toArray := hplains
  have hread' : (read true).2.mesh.primitives = cuts.toArray := hcuts
  refine ⟨?_, ?_, ?_, ?_⟩
  · intro triangulate
    refine ⟨?_, by cases triangulate <;> assumption⟩
    have hresult : (written triangulate).2 = .ok (e.withTriangles triangulate).written.length :=
      congrArg (·.2.2) (e.withTriangles triangulate).write_recorder
    have hsize : (e.withTriangles triangulate).written.length
        = (written triangulate).1.listings.size :=
      (congrArg List.length (e.withTriangles triangulate).listings_write).symm
    rw [hresult, hsize]
  · rw [hread, hread', List.size_toArray, List.size_toArray, hall.length_eq]
  · rw [Mesh.onlyTriangles, hread', List.all_toArray, List.all_eq_true]
    exact ((List.forall₂_and_left _ _).mp
      (hall.imp fun _ _ htriangulates => ⟨htriangulates.onlyTriangles, htriangulates⟩)).1
  · rw [hread, hread']
    exact hall

/-- A triangle and a polygon with five vertices in one slot, a polygon with two vertices that is not
    written, and one with four vertices without a shader. -/
theorem triangulates_of_write_mixed :
    let polygons : List Polygon :=
      [{ Polygon.ofOutline #[0, 1, 2] with shader := some 0 }, Polygon.ofOutline #[7, 8],
        { Polygon.ofOutline #[2, 3, 4, 5, 6] with shader := some 0 },
        Polygon.ofOutline #[6, 5, 1, 0]]
    let m := PolygonSet.ofPolygons ["red"] [] [] polygons
    let sources : ExportSources := ⟨[⟨.vertex, "v", 0⟩], ["p"]⟩
    let r : Reader :=
      { Reader.start "mesh" "" with
        sources := ⟨[.fresh "p" (.float (.replicate 27 ⟨0⟩)) 3]⟩
        vertices := ⟨"mesh-vertices", "", [⟨.position, "#p"⟩]⟩ }
    let written (triangulate : Bool) :=
      ((new m.host "mesh" sources ⟨triangulate, false, "-vertices"⟩).write Recorder.empty).value.2
    let read (triangulate : Bool) :=
      (r.replayAll (written triangulate).1.listings.toList).value
    (∀ q ∈ m.polygons, q.holeSizes = []) ∧ (∀ q ∈ m.polygons, q.vertices.size < 2 ^ 31)
    ∧ total (m.polygons.toList.map (·.vertices.size)) ≤ counterLimit
    ∧ (∃ s ∈ sources.faces, s.semantic = .vertex) ∧ r.KnowsPositions
    ∧ List.Forall₂ Primitive.Triangulates (read true).2.mesh.primitives.toList
      (read false).2.mesh.primitives.toList
    ∧ (read false).2.mesh.primitives.toList.map (·.outlines)
      = [[[0, 1, 2], [2, 3, 4, 5, 6]], [[6, 5, 1, 0]]]
    ∧ (read true).2.mesh.primitives.toList.map (·.positions.toList)
      = [[0, 1, 2, 2, 3, 4, 2, 4, 5, 2, 5, 6], [6, 5, 1, 6, 1, 0]] := by
  -- The exports are not introduced, so that they are compared as terms and not evaluated.
  intro polygons m sources r
  have hplain : ∀ q ∈ m.polygons, q.holeSizes = [] := by decide +kernel
  have hsizes : ∀ q ∈ m.polygons, q.vertices.size < 2 ^ 31 := by decide +kernel
  have htotal : total (m.polygons.toList.map (·.vertices.size)) ≤ counterLimit := by
    decide +kernel
  have hvertex : ∃ s ∈ sources.faces, s.semantic = .vertex := by decide
  have hknows : r.KnowsPositions :=
    ⟨⟨.position, "#p"⟩, by decide, rfl, .fresh "p" (.float (.replicate 27 ⟨0⟩)) 3,
      by decide +kernel, by decide +kernel⟩
  obtain ⟨-, -, -, hall⟩ := triangulates_of_write m "mesh" sources "-vertices" r hplain hsizes
    htotal hvertex rfl rfl rfl hknows
  exact ⟨hplain, hsizes, htotal, hvertex, hknows, hall, by decide +kernel, by decide +kernel⟩

end Exporter

end MeshWeave
