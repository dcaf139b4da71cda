import MeshWeave.Proofs.Export.Slots
import MeshWeave.Proofs.Listing.Replaying
import MeshWeave.Proofs.Reader.Decoding
import MeshWeave.Proofs.Reader.Faces

set_option autoImplicit false

/-! # Reading the listing of a slot

What a reader finds in the listing of a slot, provided that its tuples are as wide as those that
were written. However the faces are grouped into index elements, the tuples are one row for each
face vertex in order, and the primitive is kept with as many faces as the listing says. -/

namespace MeshWeave

/-- The values that are written for one face vertex. -/
def Tuple.values (t : Tuple) (h : Host) (v : Nat × Nat) : List Nat :=
  (t.row h v.1 v.2).map UInt32.toNat

theorem Tuple.length_values (t : Tuple) (h : Host) (v : Nat × Nat) :
    (t.values h v).length = t.attributes.length := by
  rw [values, List.length_map, length_row]

/-- The values of a run are the rows of its face vertices. -/
theorem Group.values_indices (t : Tuple) (h : Host) (p : Nat) (is : List Nat) :
    Group.values (t.indices h p is).toArray = (is.map (p, ·)).flatMap (t.values h) := by
  rw [values, Tuple.indices_eq, List.map_flatMap, List.flatMap_map]
  rfl

theorem Group.values_faces (t : Tuple) (h : Host) (fs : List Faces) :
    Group.values (fs.flatMap fun f => f.indices t h).toArray
      = (fs.flatMap Faces.vertices).flatMap (t.values h) := by
  show (fs.flatMap _).map _ = _
  rw [List.map_flatMap, List.flatMap_assoc]
  apply List.flatMap_congr
  intro f _
  rw [f.indices_eq, List.map_flatMap]
  rfl

/-! ## Index elements -/

/-- Behind a polygon all holes are read. -/
theorem ringRuns_holes (width : Nat) (holes : List (List Nat)) :
    IndexNode.ringRuns width true (holes.map fun hole => (.hole, [hole])) = holes := by
  induction holes with
  | nil => rfl
  | cons hole holes ih =>
      rw [List.map_cons, IndexNode.ringRuns, if_pos rfl, ih]
      simp

section Nodes

variable (t : Tuple) (h : Host) (ht : 0 < t.attributes.length)

include ht

/-- The tuples of a run that is written for face vertices. -/
theorem tuples_values (vs : List (Nat × Nat)) :
    tuples t.attributes.length (vs.flatMap (t.values h))
      = vs.map fun v => (t.values h v).toArray :=
  tuples_flatMap _ ht _ (t.length_values h) vs

theorem length_div_values (vs : List (Nat × Nat)) :
    (vs.flatMap (t.values h)).length / t.attributes.length = vs.length := by
  rw [← length_tuples, tuples_values t h ht, List.length_map]

/-- The index element of a polygon by itself has the rows of its face vertices. -/
theorem tuples_group {f : Faces} (hf : f.IsProper false) :
    ((f.group t h).node.runsIn .polygons t.attributes.length).flatMap (tuples t.attributes.length)
      = f.vertices.map fun v => (t.values h v).toArray := by
  have htakes (raw : List Nat) : Element.takes .polygons t.attributes.length raw = true := rfl
  cases f with
  | triangles p ts => exact absurd hf (by simp [Faces.IsProper])
  | plain p run =>
      have hnode : (Faces.group t h (.plain p run)).node
          = .run .polygon [Group.values (t.indices h p run).toArray] := rfl
      rw [hnode, IndexNode.runsIn, List.filter_cons_of_pos (htakes _), List.filter_nil,
        List.flatMap_singleton, Group.values_indices, List.flatten_singleton, tuples_values t h ht]
      rfl
  | holed p rings =>
      have hattributes : t.attributes.isEmpty = false := by
        rw [List.isEmpty_eq_false_iff]
        exact List.length_pos_iff.mp ht
      have houtline : 0 < rings.outline.length := List.length_pos_iff.mpr hf.2.1
      -- The outline is not empty, so the holes behind it are read and no run is left out.
      have hruns : (Faces.group t h (.holed p rings)).node.runsIn .polygons t.attributes.length
          = (rings.outline :: rings.holes).map fun ring =>
              (ring.map (p, ·)).flatMap (t.values h) := by
        simp only [Faces.group, hattributes, Bool.false_eq_true, if_false, Group.node,
          Group.values_indices, IndexNode.runsIn, if_true, IndexNode.ringRuns,
          List.flatten_singleton, length_div_values t h ht, List.length_map, houtline, decide_true,
          List.map_cons]
        rw [List.map_map, ← ringRuns_holes t.attributes.length
          (rings.holes.map fun ring => (ring.map (p, ·)).flatMap (t.values h)), List.map_map]
        congr 2
        apply List.map_congr_left
        intro ring _
        simp only [Function.comp_apply, Group.values_indices]
      have hrings (ring : List Nat) :
          tuples t.attributes.length ((ring.map (p, ·)).flatMap (t.values h))
            = ring.map fun i => (t.values h (p, i)).toArray := by
        rw [tuples_values t h ht, List.map_map]
        rfl
      rw [hruns, List.flatMap_map, List.flatMap_congr fun ring _ => hrings ring]
      simp only [Faces.vertices, Faces.run, Faces.polygon, List.map_append, List.map_map,
        List.map_flatten, List.flatMap_def, List.map_cons, List.flatten_cons]
      congr 2
      apply List.map_congr_left
      intro ring _
      rw [Function.comp_apply, List.map_map]
      rfl

/-- The index element of a polygon by itself is one face. -/
theorem faces_group {f : Faces} (hf : f.IsProper false) :
    (f.group t h).node.faces t.attributes.length = 1 := by
  cases f with
  | triangles p ts => exact absurd hf (by simp [Faces.IsProper])
  | plain p run =>
      have hnode : (Faces.group t h (.plain p run)).node
          = .run .polygon [Group.values (t.indices h p run).toArray] := rfl
      rw [hnode, IndexNode.faces, Group.values_indices, List.flatten_singleton,
        length_div_values t h ht, List.length_map]
      have hlong := hf.1
      omega
  | holed p rings =>
      have houtline : 0 < rings.outline.length := List.length_pos_iff.mpr hf.2.1
      -- Only runs of polygon vertices are faces.
      have hholes (holes : List (Array UInt32)) :
          (holes.map fun hole => (RunKind.hole, [Group.values hole])).filter (·.1 == .polygon)
            = [] := by
        rw [List.filter_eq_nil_iff]
        intro u hu
        obtain ⟨hole, _, rfl⟩ := List.mem_map.mp hu
        simp
      simp only [Faces.group, Group.node, IndexNode.faces]
      rw [List.filter_cons_of_pos (by rfl), hholes, List.map_cons, List.map_nil, total_cons,
        total_nil, List.flatten_singleton, Group.values_indices, length_div_values t h ht,
        List.length_map]
      omega

end Nodes

/-! ## Listings -/

/-- When each of the shapes is chosen. -/
theorem Exporter.shape_spec (triangulated : Bool) (fs : List Faces) :
    match shape triangulated fs with
    | .triangles => triangulated = true
    | .polylist => triangulated = false ∧ ∀ f ∈ fs, f.isHoled = false
    | .polygons => triangulated = false := by
  unfold shape
  cases triangulated with
  | true => rfl
  | false =>
      by_cases hholed : fs.any Faces.isHoled = true
      · simp [hholed]
      · have hnone : ∀ f ∈ fs, f.isHoled = false := by simpa using hholed
        simpa [hholed] using hnone

namespace Exporter.ListsSlot

variable {e : Exporter} {t : Tuple} {triangulated : Bool} {slot : Nat} {fs : List Faces}
  {l : Listing} (h : e.ListsSlot t triangulated slot fs l)

include h

theorem shape_eq : l.header.shape = shape triangulated fs := by
  rw [h.listing_eq]
  rfl

theorem count_eq : l.header.count = total (fs.map Faces.count) := by
  rw [h.listing_eq]
  rfl

theorem material_eq : l.header.material = e.host.shaders[slot]? := by
  rw [h.listing_eq]
  rfl

theorem inputs_eq : l.header.inputs = t.inputs := by
  rw [h.listing_eq]
  rfl

theorem element_eq : l.session.element = (shape triangulated fs).element := by
  rw [← h.shape_eq]
  rfl

/-- Single polygons have an index element each. -/
theorem nodes_of_polygons (hshape : shape triangulated fs = .polygons) :
    l.session.nodes = fs.map fun f => (f.group t e.host).node := by
  rw [h.listing_eq, Listing.session, listing]
  simp only [hshape, if_true, List.map_map]
  rfl

/-- Other shapes have one index element. -/
theorem nodes_of_ne (hshape : shape triangulated fs ≠ .polygons) :
    l.session.nodes = [.run .polygon [(e.slotVertices triangulated slot).flatMap
      (t.values e.host)]] := by
  rw [h.listing_eq, Listing.session, listing]
  simp only [hshape, if_false, List.map_cons, List.map_nil, Group.node]
  rw [← h.vertices_eq, Group.values_faces]

theorem isPlaced : l.IsPlaced := by
  intro outer holes hmem
  rw [h.listing_eq] at hmem ⊢
  by_contra hshape
  have hshape' : shape triangulated fs ≠ .polygons := hshape
  simp [listing, hshape'] at hmem

/-- **The tuples of a listing** are the rows of the face vertices that are written to its slot. -/
theorem tuples_session (ht : 0 < t.attributes.length) :
    (l.session.runs t.attributes.length).flatMap (tuples t.attributes.length)
      = (e.slotVertices triangulated slot).map fun v => (t.values e.host v).toArray := by
  rw [Session.runs, h.element_eq, ← h.vertices_eq]
  by_cases hshape : shape triangulated fs = .polygons
  · have hproper := h.proper
    have hspec := shape_spec triangulated fs
    rw [hshape] at hspec
    rw [hspec] at hproper
    rw [h.nodes_of_polygons hshape, hshape, List.flatMap_map, List.flatMap_assoc, List.map_flatMap]
    apply List.flatMap_congr
    intro f hf
    exact tuples_group t e.host ht (hproper f hf)
  · -- The one run of triangles or of a list of polygons is taken however short it is.
    have htakes (raw : List Nat) :
        (shape triangulated fs).element.takes t.attributes.length raw = true := by
      cases shape triangulated fs <;> rfl
    rw [h.nodes_of_ne hshape, List.flatMap_singleton, IndexNode.runsIn,
      List.filter_cons_of_pos (htakes _), List.filter_nil, List.flatMap_singleton,
      List.flatten_singleton, h.vertices_eq, tuples_values t e.host ht]

/-- The vertex counts of a list of polygons are those of its faces, which add up to the face
    vertices of the slot. -/
theorem vertexCounts_eq (hshape : shape triangulated fs = .polylist) :
    l.session.vertexCounts = fs.map (fun f => f.vertices.length)
      ∧ total l.session.vertexCounts = (e.slotVertices triangulated slot).length := by
  have hspec := shape_spec triangulated fs
  rw [hshape] at hspec
  obtain ⟨hplain, hnone⟩ := hspec
  have hproper := h.proper
  rw [hplain] at hproper
  have hcounts : l.session.vertexCounts = fs.map fun f => f.vertices.length := by
    rw [Session.vertexCounts, h.element_eq, hshape, h.listing_eq]
    simp only [Listing.session, listing, hshape, Shape.element, if_true, Option.getD_some,
      List.flatten_singleton]
    exact Faces.sizes_of_polygons hproper hnone
  rw [hcounts, ← h.vertices_eq]
  exact ⟨rfl, Faces.total_length_vertices fs⟩

/-- **The listing of a slot is kept** as a primitive with as many faces as the listing says, whose
    index arrays are columns of the rows that were written. -/
theorem finished (ht : 0 < t.attributes.length)
    (hlimit : triangulated = false → (e.slotVertices triangulated slot).length ≤ counterLimit)
    (r : Reader) (hwidth : (l.session.inputList r.vertices).width = t.attributes.length) :
    ∃ p, (l.session.assembly r).finished = some p ∧ p.faces = l.header.count
      ∧ p.material = l.header.material.getD ""
      ∧ (l.session.resolution r).layout.fill
          ((e.slotVertices triangulated slot).map fun v => (t.values e.host v).toArray) p = p := by
  have hgathers := l.session.gathers_assembly r
  rw [hwidth, h.tuples_session ht] at hgathers
  have helement := l.session.element_assembly r
  have hmaterial := l.session.material_assembly r
  have hlayout := l.session.layout_assembly r
  have hpositive : 0 < (e.slotVertices triangulated slot).length :=
    List.length_pos_iff.mpr h.nonempty
  have hcount : 0 < l.header.count := by
    rw [h.count_eq]
    refine Nat.pos_of_ne_zero fun hzero => h.nonempty ?_
    rw [← h.vertices_eq]
    exact (Faces.total_count_eq_zero h.proper).mp hzero
  rw [h.element_eq] at helement
  -- All rows are kept as soon as the primitive is.
  suffices hkept : (∃ p, (l.session.assembly r).finished = some p ∧ p.faces = l.header.count
      ∧ p.material = (l.session.assembly r).primitive.material)
      ∧ (l.session.assembly r).keeps (e.slotVertices triangulated slot).length
        = (e.slotVertices triangulated slot).length by
    obtain ⟨⟨p, hp, hfaces, hsame⟩, hkeeps⟩ := hkept
    have hfill := Assembly.fill_of_finished hgathers hp
    rw [List.length_map, hkeeps, hlayout, List.take_of_length_le (by simp)] at hfill
    exact ⟨p, hp, hfaces, hsame.trans hmaterial, hfill⟩
  have hspec := shape_spec triangulated fs
  have hproper := h.proper
  rw [Assembly.keeps, helement]
  cases hshape : shape triangulated fs with
  | triangles =>
      rw [hshape] at hspec helement
      rw [hspec] at hproper
      have htotal := Faces.total_of_triangulated hproper
      rw [h.vertices_eq, ← h.count_eq] at htotal
      have hsupplied := hgathers.supplied_eq (Or.inl helement)
      rw [List.length_map] at hsupplied
      -- The rows are a multiple of three, so that nothing is cut off.
      refine ⟨Assembly.finished_of_triangles helement hcount (hsupplied.trans htotal), ?_⟩
      show _ / 3 * 3 = _
      omega
  | polylist =>
      rw [hshape] at hspec helement
      rw [hspec.1] at hproper
      obtain ⟨hcounts, htotal⟩ := h.vertexCounts_eq hshape
      have hexpected := l.session.expected_assembly r
      rw [htotal, Nat.min_eq_left (hlimit hspec.1)] at hexpected
      have hsupplied := hgathers.supplied_eq (Or.inr helement)
      rw [List.length_map] at hsupplied
      have hsize : (l.session.assembly r).primitive.counts.size = l.header.count := by
        rw [l.session.counts_assembly r (by rw [h.element_eq, hshape]; rfl), hcounts, h.count_eq,
          Faces.total_of_polygons hproper]
        simp
      rw [← hsize]
      exact ⟨Assembly.finished_of_polylist helement (by omega) (by omega) (by omega), hexpected⟩
  | polygons =>
      rw [hshape] at hspec helement
      rw [hspec] at hproper
      have hfaces : (l.session.assembly r).faces = l.header.count := by
        have hones : fs.map (fun f => (f.group t e.host).node.faces t.attributes.length)
            = fs.map Faces.count := by
          apply List.map_congr_left
          intro f hf
          rw [faces_group t e.host ht (hproper f hf), (Faces.count_of_polygon (hproper f hf)).1]
        rw [l.session.faces_assembly r (by rw [h.element_eq, hshape]; rfl), hwidth,
          h.nodes_of_polygons hshape, List.map_map, h.count_eq, ← hones]
        rfl
      rw [← hfaces]
      exact ⟨Assembly.finished_of_polygons helement (by omega), rfl⟩

end Exporter.ListsSlot

end MeshWeave
