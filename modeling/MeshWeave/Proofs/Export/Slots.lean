import Mathlib.Data.List.Forall2
import MeshWeave.Proofs.Export.Rings
import MeshWeave.Proofs.Export.Tuple
import MeshWeave.Proofs.Listing.Recording

set_option autoImplicit false

/-! # The listings of shader slots

Which slots an export writes, and what the listing of a slot is. A slot has a listing if any face
vertex of its polygons is written, and the listing is made of faces with just those face vertices.

How faces are counted depends on the shape: triangles by three vertices each, and polygons one by
one. -/

namespace MeshWeave

/-! ## Faces and their vertices -/

namespace Faces

theorem length_vertices (f : Faces) : f.vertices.length = f.run.length := by
  rw [vertices, List.length_map]

theorem indices_eq (t : Tuple) (h : Host) (f : Faces) :
    f.indices t h = f.vertices.flatMap fun v => t.row h v.1 v.2 := by
  rw [vertices, List.flatMap_map]
  cases f <;> rfl

/-- A face of an export that writes triangles has three vertices. -/
theorem length_of_triangulated {f : Faces} (hf : f.IsProper true) :
    f.vertices.length = f.count * 3 := by
  rw [length_vertices]
  cases f with
  | triangles p ts =>
      show (ts.flatMap Triangle.corners).length = ts.length * 3
      induction ts with
      | nil => rfl
      | cons t ts ih =>
          rw [List.flatMap_cons, List.length_append, ih rfl, List.length_cons, Nat.add_mul,
            Nat.add_comm]
          rfl
  | plain p run => exact hf.2 rfl
  | holed p rings => exact absurd hf.1 (by simp)

/-- Otherwise each polygon is one face. -/
theorem count_of_polygon {f : Faces} (hf : f.IsProper false) : f.count = 1 ∧ f.vertices ≠ [] := by
  have hne (is : List Nat) (p : Nat) (h : is ≠ []) : is.map (p, ·) ≠ [] := by
    intro hnil
    exact h (List.map_eq_nil_iff.mp hnil)
  cases f with
  | triangles p ts => exact absurd hf (by simp [IsProper])
  | plain p run =>
      refine ⟨rfl, hne run p ?_⟩
      rintro rfl
      exact absurd hf.1 (by simp)
  | holed p rings =>
      refine ⟨rfl, hne _ p ?_⟩
      intro hnil
      exact hf.2.1 (List.append_eq_nil_iff.mp hnil).1

/-- A polygon without holes lists its number of vertices. -/
theorem sizes_of_plain {f : Faces} (hf : f.IsProper false) (hholed : f.isHoled = false) :
    f.sizes = [f.vertices.length] := by
  rw [length_vertices]
  cases f with
  | triangles p ts => exact absurd hf (by simp [IsProper])
  | plain p run => rfl
  | holed p rings => exact absurd hholed (by simp [isHoled])

variable {fs : List Faces}

theorem total_of_triangulated (hfs : ∀ f ∈ fs, f.IsProper true) :
    (fs.flatMap vertices).length = total (fs.map count) * 3 := by
  induction fs with
  | nil => rfl
  | cons f fs ih =>
      rw [List.flatMap_cons, List.length_append, ih fun f hf => hfs f (by simp [hf]),
        length_of_triangulated (hfs f (by simp)), List.map_cons, total_cons, Nat.add_mul]

theorem total_of_polygons (hfs : ∀ f ∈ fs, f.IsProper false) :
    total (fs.map count) = fs.length := by
  induction fs with
  | nil => rfl
  | cons f fs ih =>
      rw [List.map_cons, total_cons, ih fun f hf => hfs f (by simp [hf]),
        (count_of_polygon (hfs f (by simp))).1, List.length_cons, Nat.add_comm]

theorem total_length_vertices (fs : List Faces) :
    total (fs.map fun f => f.vertices.length) = (fs.flatMap vertices).length :=
  total_map_length vertices fs

theorem sizes_of_polygons (hfs : ∀ f ∈ fs, f.IsProper false)
    (hholed : ∀ f ∈ fs, f.isHoled = false) :
    fs.flatMap sizes = fs.map fun f => f.vertices.length := by
  induction fs with
  | nil => rfl
  | cons f fs ih =>
      rw [List.flatMap_cons, sizes_of_plain (hfs f (by simp)) (hholed f (by simp)),
        ih (fun f hf => hfs f (by simp [hf])) fun f hf => hholed f (by simp [hf])]
      rfl

/-- There are faces if and only if there are vertices. -/
theorem total_count_eq_zero {triangulated : Bool} (hfs : ∀ f ∈ fs, f.IsProper triangulated) :
    total (fs.map count) = 0 ↔ fs.flatMap vertices = [] := by
  cases triangulated with
  | true =>
      have hlength := total_of_triangulated hfs
      rw [← List.length_eq_zero_iff]
      omega
  | false =>
      rw [total_of_polygons hfs, List.length_eq_zero_iff, List.flatMap_eq_nil_iff]
      constructor
      · rintro rfl
        exact fun f hf => absurd hf (by simp)
      · intro hnil
        rw [List.eq_nil_iff_forall_not_mem]
        exact fun f hf => (count_of_polygon (hfs f hf)).2 (hnil f hf)

end Faces

/-! ## Slots -/

namespace Exporter

/-- The face vertices that are written to a slot. -/
def slotVertices (e : Exporter) (triangulated : Bool) (slot : Nat) : List (Nat × Nat) :=
  (e.slotPolygons slot).flatMap fun p =>
    (e.host.writtenRun e.options.removeDuplicates triangulated p).map (p, ·)

/-- The slots that have a listing. -/
def writtenSlots (e : Exporter) (triangulated : Bool) : List Nat :=
  e.slots.filter fun slot => !(e.slotVertices triangulated slot).isEmpty

/-- A listing is that of a slot, made of faces with the vertices that are written to the slot. -/
structure ListsSlot (e : Exporter) (tuple : Tuple) (triangulated : Bool) (slot : Nat)
    (fs : List Faces) (l : Listing) : Prop where
  listing_eq : l = e.listing tuple triangulated slot fs
  vertices_eq : fs.flatMap Faces.vertices = e.slotVertices triangulated slot
  proper : ∀ f ∈ fs, f.IsProper triangulated
  nonempty : e.slotVertices triangulated slot ≠ []

variable (e : Exporter) (tuple : Tuple) (triangulated : Bool)

/-- The faces that are written to a slot, by the hole records that are left for it. -/
def slotFaces (slot : Nat) (left : List HoleRecord) : List Faces :=
  (Faces.ofPolygons e.host e.mesh e.options.removeDuplicates triangulated (e.slotPolygons slot)
    left).value.1

theorem vertices_slotFaces (slot : Nat) (left : List HoleRecord) :
    (e.slotFaces triangulated slot left).flatMap Faces.vertices
      = e.slotVertices triangulated slot :=
  (Faces.ofPolygons_spec e.host e.mesh e.options.removeDuplicates triangulated
    (e.slotPolygons slot) left).1

theorem isProper_slotFaces (slot : Nat) (left : List HoleRecord) :
    ∀ f ∈ e.slotFaces triangulated slot left, f.IsProper triangulated :=
  (Faces.ofPolygons_spec e.host e.mesh e.options.removeDuplicates triangulated
    (e.slotPolygons slot) left).2

/-- A slot has a listing if faces are counted. -/
theorem listing?_value (slot : Nat) (fs : List Faces) :
    (e.listing? tuple triangulated slot fs).value
      = if total (fs.map Faces.count) == 0 then none
        else some (e.listing tuple triangulated slot fs) := by
  unfold listing?
  show Noted.value (if (total (fs.map Faces.count) == 0) = true then _ else _) = _
  split <;> rfl

/-- A slot without faces is left out, and that is a slot without face vertices. -/
theorem listing?_slotFaces (slot : Nat) (left : List HoleRecord) :
    (e.listing? tuple triangulated slot (e.slotFaces triangulated slot left)).value
      = if e.slotVertices triangulated slot = [] then none
        else some (e.listing tuple triangulated slot (e.slotFaces triangulated slot left)) := by
  have hcount := Faces.total_count_eq_zero (e.isProper_slotFaces triangulated slot left)
  rw [vertices_slotFaces] at hcount
  simp only [listing?_value, beq_iff_eq, hcount]

/-- A listing is that of the faces that are written to a slot, by hole records among which those of
    the polygons of the slot are all left. -/
def ListsFaces (records : List HoleRecord) (slot : Nat) (l : Listing) : Prop :=
  e.slotVertices triangulated slot ≠ [] ∧ ∃ left,
    (∀ p ∈ e.slotPolygons slot, HoleRecord.firsts p left = HoleRecord.firsts p records)
    ∧ l = e.listing tuple triangulated slot (e.slotFaces triangulated slot left)

/-- The listings of slots. No slot uses the hole records of another one. -/
theorem plan_faces {slots : List Nat} (hnodup : slots.Nodup) (records : List HoleRecord) :
    List.Forall₂ (e.ListsFaces tuple triangulated records)
      (slots.filter fun slot => !(e.slotVertices triangulated slot).isEmpty)
      ((e.plan tuple triangulated slots records).filterMap Noted.value) := by
  induction slots generalizing records with
  | nil => exact .nil
  | cons slot slots ih =>
      obtain ⟨hslot, hnodup⟩ := List.nodup_cons.mp hnodup
      have hrest : List.Forall₂ (e.ListsFaces tuple triangulated records)
          (slots.filter fun slot => !(e.slotVertices triangulated slot).isEmpty)
          ((e.plan tuple triangulated slots (Faces.ofPolygons e.host e.mesh
            e.options.removeDuplicates triangulated (e.slotPolygons slot)
              records).value.2).filterMap Noted.value) := by
        have hmem : ∀ s ∈ slots.filter fun slot => !(e.slotVertices triangulated slot).isEmpty,
            s ≠ slot := by
          rintro s hs rfl
          exact hslot (List.mem_filter.mp hs).1
        refine ((List.forall₂_and_left _ _).mpr ⟨hmem, ih hnodup _⟩).imp ?_
        rintro s l ⟨hne, hnonempty, left, hleft, hl⟩
        refine ⟨hnonempty, left, ?_, hl⟩
        intro p hp
        rw [hleft p hp, Faces.firsts_ofPolygons]
        -- A polygon belongs to one slot only.
        intro hp'
        have hs : e.slot p = s := by simpa using (List.mem_filter.mp hp).2
        have hs' : e.slot p = slot := by simpa using (List.mem_filter.mp hp').2
        exact hne (hs.symm.trans hs')
      have hvalue : (do
          let faces ← Faces.ofPolygons e.host e.mesh e.options.removeDuplicates triangulated
            (e.slotPolygons slot) records
          e.listing? tuple triangulated slot faces.1).value = _ :=
        e.listing?_slotFaces tuple triangulated slot records
      rw [plan]
      by_cases hempty : e.slotVertices triangulated slot = []
      · rw [if_pos hempty] at hvalue
        rw [List.filter_cons_of_neg (by simp [hempty]), List.filterMap_cons_none hvalue]
        exact hrest
      · rw [if_neg hempty] at hvalue
        rw [List.filter_cons_of_pos (by simp [hempty]), List.filterMap_cons_some hvalue]
        exact .cons ⟨hempty, records, fun _ _ => rfl, rfl⟩ hrest

theorem written_faces :
    List.Forall₂ (e.ListsFaces e.tuple.value e.decideTriangles.value e.host.holes)
      (e.writtenSlots e.decideTriangles.value) e.written :=
  e.plan_faces e.tuple.value e.decideTriangles.value List.nodup_range e.host.holes

/-- **An export writes a listing for each slot with face vertices**, in order. -/
theorem written_spec :
    List.Forall₂
      (fun slot l => ∃ fs, e.ListsSlot e.tuple.value e.decideTriangles.value slot fs l)
      (e.writtenSlots e.decideTriangles.value) e.written := by
  refine e.written_faces.imp ?_
  rintro slot l ⟨hnonempty, left, -, hl⟩
  exact ⟨_, hl, e.vertices_slotFaces _ slot left, e.isProper_slotFaces _ slot left, hnonempty⟩

/-- What an export that writes no triangles writes of a slot is part of what the host has. -/
theorem length_slotVertices_le_total (slot : Nat) :
    (e.slotVertices false slot).length
      ≤ total ((List.range e.host.polygonCount).map e.host.vertexCount) := by
  rw [slotVertices, slotPolygons]
  induction List.range e.host.polygonCount with
  | nil => exact Nat.le_refl _
  | cons p ps ih =>
      have hrun := e.host.length_writtenRun_le e.options.removeDuplicates p
      rw [List.map_cons, total_cons]
      by_cases hp : (e.slot p == slot) = true
      · rw [List.filter_cons_of_pos (by exact hp), List.flatMap_cons, List.length_append,
          List.length_map]
        omega
      · rw [List.filter_cons_of_neg (by exact hp)]
        omega

/-- It is bounded by the host's counts. -/
theorem length_slotVertices_le (slot bound : Nat)
    (hbound : ∀ p < e.host.polygonCount, e.host.vertexCount p ≤ bound) :
    (e.slotVertices false slot).length ≤ e.host.polygonCount * bound := by
  have hcounts : ∀ n ∈ (List.range e.host.polygonCount).map e.host.vertexCount, n ≤ bound := by
    simpa using hbound
  have htotal := total_le_mul hcounts
  rw [List.length_map, List.length_range] at htotal
  exact Nat.le_trans (e.length_slotVertices_le_total slot) htotal

end Exporter

end MeshWeave
