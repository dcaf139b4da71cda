import Mathlib.Data.List.Dedup
import MeshWeave.Proofs.Export.Polygons
import MeshWeave.Proofs.Export.Reading

set_option autoImplicit false

/-! # What headers say about the index elements

A header is made from the numbers of faces and vertices before any index is written, while the index
elements are made from the attributes of the face vertices. Still the two agree: the header tells
how many faces there are and how many indices each of them has. `Listing.IsDescribed` says so
without reference to an export, and `described_of_write` shows it for every listing that an export
records.

Which shape is written depends on the whole mesh for triangles, and on the slot for polygons with
holes. -/

namespace MeshWeave

/-- The number of indices of a face vertex, one for each offset in use. -/
def Header.width (h : Header) : Nat := (h.inputs.map (·.offset)).dedup.length

/-- The rings of an index element. -/
def Group.rings : Group → List (Array UInt32)
  | polygon indices => [indices]
  | holed outer holes => outer :: holes.toList

/-- The index elements hold what the header announces: triangles and lists of polygons one run of as
    many indices as the faces need, and single polygons an element for each face, which has whole
    face vertices in every ring. -/
def Listing.IsDescribed (l : Listing) : Prop :=
  1 ≤ l.header.count
  ∧ match l.header.shape with
    | .triangles =>
        l.header.counts = [] ∧ ∃ indices, l.groups = #[.polygon indices]
          ∧ indices.size = 3 * l.header.count * l.header.width
    | .polylist =>
        l.header.counts.length = l.header.count ∧ (∀ n ∈ l.header.counts, 3 ≤ n)
          ∧ ∃ indices, l.groups = #[.polygon indices]
            ∧ indices.size = l.header.width * total l.header.counts
    | .polygons =>
        l.header.counts = [] ∧ l.groups.size = l.header.count
          ∧ ∀ g ∈ l.groups, ∀ ring ∈ g.rings, l.header.width ∣ ring.size

/-! ## Counting indices -/

namespace Tuple

/-- Every attribute has its own offset, and inputs have no others. -/
theorem Lists.length_offsets {t : Tuple} {id : ExportSource → String} {ss : List ExportSource}
    (h : t.Lists id ss) : (t.inputs.map (·.offset)).dedup.length = t.attributes.length := by
  have hmem (o : Nat) : o ∈ (t.inputs.map (·.offset)).dedup
      ↔ o ∈ List.range t.attributes.length := by
    rw [List.mem_dedup, List.mem_range, h.inputs_eq, List.map_map, List.mem_map]
    constructor
    · rintro ⟨s, hs, rfl⟩
      exact h.offset_lt s hs
    · intro ho
      exact h.asked o ho
  have hperm := (List.perm_ext_iff_of_nodup (List.nodup_dedup _) List.nodup_range).mpr hmem
  rw [hperm.length_eq, List.length_range]

variable (t : Tuple) (h : Host)

theorem length_indices (p : Nat) (positions : List Nat) :
    (t.indices h p positions).length = positions.length * t.attributes.length := by
  rw [indices_eq, List.length_flatMap]
  simp

end Tuple

/-- The indices of faces are those of their face vertices. -/
theorem Faces.length_indices (t : Tuple) (h : Host) (fs : List Faces) :
    (fs.flatMap (·.indices t h)).length
      = (fs.flatMap vertices).length * t.attributes.length := by
  have hrows : fs.flatMap (·.indices t h)
      = (fs.flatMap vertices).flatMap fun v => t.row h v.1 v.2 := by
    rw [List.flatMap_assoc]
    exact List.flatMap_congr fun f _ => f.indices_eq t h
  rw [hrows, List.length_flatMap]
  simp

/-- A ring in the index element of a polygon has whole face vertices. -/
theorem Faces.dvd_size_of_mem_rings (t : Tuple) (h : Host) (f : Faces) :
    ∀ ring ∈ (f.group t h).rings, t.attributes.length ∣ ring.size := by
  have hindices (p : Nat) (positions : List Nat) :
      t.attributes.length ∣ (t.indices h p positions).toArray.size := by
    rw [List.size_toArray, t.length_indices]
    exact Nat.dvd_mul_left _ _
  intro ring hring
  cases f with
  | triangles p ts =>
      rw [List.mem_singleton.mp hring]
      exact hindices p _
  | plain p run =>
      rw [List.mem_singleton.mp hring]
      exact hindices p run
  | holed p rings =>
      rcases List.mem_cons.mp hring with rfl | hhole
      · exact hindices p rings.outline
      · obtain ⟨hole, -, rfl⟩ := List.mem_map.mp hhole
        exact hindices p hole

/-! ## Headers of exports -/

namespace Exporter

variable (e : Exporter)

/-- When an export writes triangles. -/
theorem decideTriangles_iff :
    e.decideTriangles.value = true ↔ e.options.triangulate = true
      ∧ ∀ p < e.host.polygonCount, 3 < e.host.vertexCount p →
          (e.host.triangles p).getD [] ≠ [] := by
  unfold decideTriangles
  by_cases htriangulate : e.options.triangulate = true
  · have huntriangulated : e.untriangulated? = none
        ↔ ∀ p < e.host.polygonCount, 3 < e.host.vertexCount p →
          (e.host.triangles p).getD [] ≠ [] := by
      simp [untriangulated?]
    rw [if_pos htriangulate, ← huntriangulated]
    cases e.untriangulated? <;> simp [htriangulate]
  · rw [if_neg htriangulate]
    simp [htriangulate]

theorem shape_eq_triangles_iff (triangulated : Bool) (fs : List Faces) :
    shape triangulated fs = .triangles ↔ triangulated = true := by
  unfold shape
  cases triangulated <;> cases fs.any Faces.isHoled <;> simp

theorem shape_eq_polygons_iff (triangulated : Bool) (fs : List Faces) :
    shape triangulated fs = .polygons ↔ triangulated = false ∧ fs.any Faces.isHoled = true := by
  unfold shape
  cases triangulated <;> cases fs.any Faces.isHoled <;> simp

/-- The header of a slot describes what is written of its polygons. -/
theorem isDescribed_listing (triangulated : Bool) (slot : Nat) {fs : List Faces}
    (hproper : ∀ f ∈ fs, f.IsProper triangulated) (hnonempty : fs.flatMap Faces.vertices ≠ []) :
    (e.listing e.tuple.value triangulated slot fs).IsDescribed := by
  have hcount : 1 ≤ total (fs.map Faces.count) :=
    Nat.one_le_iff_ne_zero.mpr fun h => hnonempty ((Faces.total_count_eq_zero hproper).mp h)
  have hwidth : (e.listing e.tuple.value triangulated slot fs).header.width
      = e.tuple.value.attributes.length := e.lists_tuple.length_offsets
  have hspec := shape_spec triangulated fs
  refine ⟨hcount, ?_⟩
  rw [hwidth]
  unfold listing
  cases hshape : shape triangulated fs with
  | triangles =>
      rw [hshape] at hspec
      rw [hspec] at hproper
      refine ⟨rfl, _, rfl, ?_⟩
      show (fs.flatMap _).length = 3 * total (fs.map Faces.count) * _
      rw [Faces.length_indices, Faces.total_of_triangulated hproper, Nat.mul_comm 3]
  | polylist =>
      rw [hshape] at hspec
      rw [hspec.1] at hproper
      have hsizes := Faces.sizes_of_polygons hproper hspec.2
      refine ⟨?_, ?_, _, rfl, ?_⟩
      · show (fs.flatMap Faces.sizes).length = total (fs.map Faces.count)
        rw [hsizes, List.length_map, Faces.total_of_polygons hproper]
      · show ∀ n ∈ fs.flatMap Faces.sizes, 3 ≤ n
        rw [hsizes, List.forall_mem_map]
        intro f hf
        have hplain := hspec.2 f hf
        rw [Faces.length_vertices]
        cases f with
        | triangles p ts => exact absurd (hproper _ hf) (by simp [Faces.IsProper])
        | plain p run => exact (hproper _ hf).1
        | holed p rings => exact absurd hplain (by simp [Faces.isHoled])
      · show (fs.flatMap _).length = _ * total (fs.flatMap Faces.sizes)
        rw [Faces.length_indices, hsizes, Faces.total_length_vertices, Nat.mul_comm]
  | polygons =>
      rw [hshape] at hspec
      rw [hspec] at hproper
      refine ⟨rfl, ?_, ?_⟩
      · show (fs.map _).toArray.size = total (fs.map Faces.count)
        rw [List.size_toArray, List.length_map, Faces.total_of_polygons hproper]
      · show ∀ g ∈ (fs.map _).toArray, _
        intro g hg
        obtain ⟨f, -, rfl⟩ := List.mem_map.mp (List.mem_toArray.mp hg)
        exact f.dvd_size_of_mem_rings e.tuple.value e.host

/-- Whether an export to a recorder writes triangles. -/
theorem triangulated_write :
    (e.write Recorder.empty).value.1.triangulated = e.decideTriangles.value :=
  congrArg (·.1.triangulated) e.write_recorder

/-- What a recorder has behind an export. -/
theorem listings_write : (e.write Recorder.empty).value.2.1.listings.toList = e.written :=
  congrArg (·.2.1.listings.toList) e.write_recorder

/-- **Headers describe what follows them.** An export to a recorder succeeds, and has a listing for
    each slot with faces whose header agrees with its index elements. It writes triangles if it was
    asked to and the host has triangles of every larger polygon, and otherwise single polygons for
    the slots with a polygon with holes that yields a face. -/
theorem described_of_write (e : Exporter) :
    let result := (e.write Recorder.empty).value
    let triangulated := result.1.triangulated
    let listings := result.2.1.listings.toList
    result.2.2 = .ok listings.length
    ∧ List.Forall₂
      (fun slot l => l.IsDescribed
        ∧ (l.header.shape = .polygons ↔ triangulated = false
          ∧ ∃ p ∈ e.facedPolygons triangulated slot, e.host.isHoled p = true)
        ∧ (l.header.shape = .triangles ↔ triangulated = true))
      (e.facedSlots triangulated) listings
    ∧ (triangulated = true ↔ e.options.triangulate = true
      ∧ ∀ p < e.host.polygonCount, 3 < e.host.vertexCount p →
          (e.host.triangles p).getD [] ≠ []) := by
  intro result triangulated listings
  have htriangulated : triangulated = e.decideTriangles.value := e.triangulated_write
  have hlistings : listings = e.written := e.listings_write
  have hresult : result.2.2 = .ok e.written.length := congrArg (·.2.2) e.write_recorder
  rw [hresult, hlistings, htriangulated, facedSlots_eq, written_eq, List.forall₂_map_right_iff]
  refine ⟨rfl, ?_, e.decideTriangles_iff⟩
  · rw [List.forall₂_same]
    intro slot hslot
    have hnonempty : e.slotVertices e.decideTriangles.value slot ≠ [] := by
      simpa using (List.mem_filter.mp hslot).2
    rw [← e.vertices_facesAt] at hnonempty
    refine ⟨e.isDescribed_listing _ slot (e.isProper_facesAt _ slot) hnonempty, ?_, ?_⟩
    · show shape _ _ = .polygons ↔ _
      rw [shape_eq_polygons_iff, any_isHoled_facesAt]
      exact and_self_left
    · exact shape_eq_triangles_iff _ _

end Exporter

end MeshWeave
