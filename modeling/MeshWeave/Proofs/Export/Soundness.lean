import MeshWeave.Proofs.Export.Partition

set_option autoImplicit false

/-! # Faces without repeated vertices

Removing repeated vertices keeps a mesh vertex once in the run of a polygon, and a run that is left
with less than three vertices is not written. A face that is all of a run is sound by that. Two
kinds of faces are not: the triangles of a larger polygon are taken as the host gives them, and the
rings of a polygon with holes are counted together, so that a hole can be left with one vertex.
`sound_of_write` says exactly which polygons are written soundly. -/

namespace MeshWeave

/-! ## The vertices of a face as it is written -/

/-- The outline of a face and its holes. -/
def Face.rings (f : Face) : List (List UInt32) := f.outline :: f.holes

/-- What the face vertices of a ring have at an offset. -/
def Header.column (h : Header) (offset : Nat) (ring : List UInt32) : List UInt32 :=
  ((List.replicate (ring.length / h.width) h.width).splitLengths ring).filterMap (·[offset]?)

/-- Every ring has three vertices or more, and none of them twice. -/
def Listing.IsSound (l : Listing) : Prop :=
  ∀ face ∈ l.faces, ∀ ring ∈ face.rings, ∀ i ∈ l.header.inputs, i.semantic = .vertex →
    3 ≤ (l.header.column i.offset ring).length ∧ (l.header.column i.offset ring).Nodup

instance (l : Listing) : Decidable l.IsSound :=
  inferInstanceAs (Decidable (∀ face ∈ l.faces, ∀ ring ∈ face.rings, ∀ i ∈ l.header.inputs,
    i.semantic = .vertex →
      3 ≤ (l.header.column i.offset ring).length ∧ (l.header.column i.offset ring).Nodup))

namespace Faces

/-- The rings of faces, by positions in the run of the polygon. -/
def rings : Faces → List (List Nat)
  | triangles _ ts => ts.map Triangle.corners
  | plain _ run => [run]
  | holed _ rings => rings.outline :: rings.holes

theorem rings_each (t : Tuple) (h : Host) (f : Faces) :
    (f.each t h).flatMap Face.rings = f.rings.map (t.indices h f.polygon) := by
  cases f with
  | triangles p ts =>
      rw [each, rings, List.flatMap_map, List.map_map, List.map_eq_flatMap]
      rfl
  | plain p run => rfl
  | holed p rings => exact List.append_nil _

end Faces

/-- The column of a ring is what the host says about its face vertices. -/
theorem Tuple.Lists.column_indices {t : Tuple} {id : ExportSource → String}
    {ss : List ExportSource} (h : t.Lists id ss) {s : ExportSource} (hs : s ∈ ss)
    {header : Header} (hwidth : header.width = t.attributes.length) (host : Host) (p : Nat)
    (positions : List Nat) :
    header.column (t.offset s) (t.indices host p positions)
      = positions.map (s.attribute.value host p) := by
  have hpos : 0 < t.attributes.length := List.length_pos_iff.mpr (h.attributes_ne hs)
  have hlengths : List.replicate ((t.indices host p positions).length / header.width) header.width
      = (positions.map (t.row host p)).map List.length := by
    rw [t.length_indices, hwidth, Nat.mul_div_cancel _ hpos, List.map_map]
    exact (List.map_eq_replicate_iff.mpr fun i _ => t.length_row host p i).symm
  have hcolumn : positions.filterMap ((·[t.offset s]?) ∘ t.row host p)
      = positions.filterMap (some ∘ s.attribute.value host p) :=
    List.filterMap_congr fun i _ => h.getElem?_row hs host p i
  rw [Header.column, hlengths, indices_eq, List.flatMap_def, splitLengths_flatten,
    List.filterMap_map, hcolumn, List.filterMap_eq_map]

/-! ## Runs without repeated vertices -/

/-- No mesh vertex stands twice in a run whose repeated vertices are removed. -/
theorem Host.nodup_run (h : Host) (p : Nat) : ((h.run true p).map (h.vertex p)).Nodup := by
  rw [List.Nodup, List.pairwise_map, run, List.pairwise_filter]
  refine List.pairwise_lt_range.imp ?_
  intro i j hlt _ hfirst heq
  rw [Bool.not_true, Bool.false_or, isFirst, List.all_eq_true] at hfirst
  have hne := hfirst i (List.mem_range.mpr hlt)
  rw [heq, bne_self_eq_false] at hne
  exact Bool.false_ne_true hne

/-- A ring of a run is part of it. -/
theorem Rings.sublist_of_mem (r : Rings) {ring : List Nat} (hring : ring ∈ r.outline :: r.holes) :
    ring.Sublist (r.outline ++ r.holes.flatten) :=
  List.sublist_flatten_of_mem hring

namespace Exporter

variable (e : Exporter) (triangulated : Bool)

/-- The rings that a polygon with holes is cut into if its repeated vertices are removed. -/
def ringsOf (p : Nat) : List (List Nat) :=
  let rings := (Rings.ofRun e.host e.mesh p (e.host.run true p) e.host.holes).value.1
  rings.outline :: rings.holes

/-- A polygon whose repeated vertices are removed is written soundly: the host's triangles for it
    have three mesh vertices each, or its holes leave each other three vertices each. There is
    nothing to ask of other polygons. -/
def CutsSoundly (p : Nat) : Prop :=
  if triangulated = true ∧ 3 < e.host.vertexCount p then
    ∀ t ∈ (e.host.triangles p).getD [], (t.corners.map (e.host.vertex p)).Nodup
  else
    triangulated = false → e.host.isHoled p = true → ∀ ring ∈ e.ringsOf p, 3 ≤ ring.length

instance (p : Nat) : Decidable (e.CutsSoundly triangulated p) :=
  inferInstanceAs (Decidable (if triangulated = true ∧ 3 < e.host.vertexCount p then
    ∀ t ∈ (e.host.triangles p).getD [], (t.corners.map (e.host.vertex p)).Nodup
  else triangulated = false → e.host.isHoled p = true → ∀ ring ∈ e.ringsOf p, 3 ≤ ring.length))

/-- The faces of a polygon are sound just if it is written soundly. -/
theorem cutsSoundly_iff (hdedup : e.options.removeDuplicates = true) {p : Nat} {f : Faces}
    (hf : e.polygonFaces? triangulated p = some f) :
    (∀ ring ∈ f.rings, 3 ≤ ring.length ∧ (ring.map (e.host.vertex p)).Nodup)
      ↔ e.CutsSoundly triangulated p := by
  rw [polygonFaces?, Faces.ofPolygon_value, hdedup] at hf
  rw [CutsSoundly]
  split at hf
  · next htriangles =>
      -- Triangles are not looked at by the removal of repeated vertices.
      obtain rfl := Option.some.inj hf
      rw [if_pos htriangles, Faces.rings, List.forall_mem_map]
      exact forall₂_congr fun t _ => and_iff_right (Nat.le_refl 3)
  · next htriangles =>
      rw [if_neg htriangles]
      split at hf
      · exact absurd hf (by simp)
      · simp only [Option.ite_none_left_eq_some] at hf
        obtain ⟨hshort, hf⟩ := hf
        obtain rfl := Option.some.inj hf
        have hnodup := e.host.nodup_run p
        unfold Faces.ofRun
        split
        · next hholed =>
            obtain ⟨hholed, rfl⟩ := hholed
            have hrun : e.host.run true p ≠ [] := by
              intro hnil
              rw [hnil] at hshort
              exact hshort (by simp)
            have hflat := (Rings.ofRun_spec e.host e.mesh p hrun e.host.holes).1
            simp only [Faces.rings, hholed, forall_const]
            refine forall₂_congr fun ring hring => and_iff_left ?_
            refine hnodup.sublist (List.Sublist.map _ ?_)
            rw [← hflat]
            exact Rings.sublist_of_mem _ hring
        · next hplain =>
            refine iff_of_true ?_ fun htriangulated hholed => absurd ⟨hholed, htriangulated⟩ hplain
            simpa [Faces.rings] using ⟨Nat.le_of_not_lt hshort, hnodup⟩

/-- A ring of an export is sound if the mesh vertices at its positions are. -/
theorem sound_indices_iff (hvertex : ∃ s ∈ e.writtenSources, s.semantic = .vertex) {header : Header}
    (hinputs : header.inputs = e.tuple.value.inputs) (p : Nat) (positions : List Nat) :
    (∀ i ∈ header.inputs, i.semantic = .vertex →
        3 ≤ (header.column i.offset (e.tuple.value.indices e.host p positions)).length
        ∧ (header.column i.offset (e.tuple.value.indices e.host p positions)).Nodup)
      ↔ 3 ≤ positions.length ∧ (positions.map (e.host.vertex p)).Nodup := by
  have hwidth : header.width = e.tuple.value.attributes.length := by
    rw [Header.width, hinputs]
    exact e.lists_tuple.length_offsets
  have hcolumn {s : ExportSource} (hs : s ∈ e.writtenSources) (hsemantic : s.semantic = .vertex) :
      header.column (e.tuple.value.offset s) (e.tuple.value.indices e.host p positions)
        = positions.map (e.host.vertex p) := by
    rw [e.lists_tuple.column_indices hs hwidth]
    apply List.map_congr_left
    intro i _
    simp [Attribute.value, ExportSource.attribute, hsemantic]
  rw [hinputs, e.lists_tuple.inputs_eq, List.forall_mem_map]
  constructor
  · intro hsound
    obtain ⟨s, hs, hsemantic⟩ := hvertex
    have hring := hsound s hs hsemantic
    rw [Tuple.input, hcolumn hs hsemantic, List.length_map] at hring
    exact hring
  · intro hring s hs hsemantic
    rw [Tuple.input, hcolumn hs hsemantic, List.length_map]
    exact hring

/-- **Where removing repeated vertices leaves sound faces.** With repeated vertices removed and a
    source for the vertices, the faces of a listing are sound just if each polygon of its slot is
    written soundly: if the host's triangles for it are made of three mesh vertices each, or if none
    of the rings that it is cut into has less than three vertices. -/
theorem sound_of_write (e : Exporter) (hdedup : e.options.removeDuplicates = true)
    (hvertex : ∃ s ∈ e.sources.faces, s.semantic = .vertex) :
    let result := (e.write Recorder.empty).value
    let triangulated := result.1.triangulated
    let listings := result.2.1.listings.toList
    List.Forall₂
      (fun slot l => l.IsSound
        ↔ ∀ p ∈ e.facedPolygons triangulated slot, e.CutsSoundly triangulated p)
      (e.facedSlots triangulated) listings := by
  intro result triangulated listings
  have htriangulated : triangulated = e.decideTriangles.value := e.triangulated_write
  have hlistings : listings = (e.facedSlots triangulated).map (e.slotListing triangulated) := by
    rw [htriangulated, facedSlots_eq]
    exact e.listings_write_eq
  rw [hlistings, List.forall₂_map_right_iff, List.forall₂_same]
  intro slot _
  clear_value triangulated
  have hwritten : ∃ s ∈ e.writtenSources, s.semantic = .vertex := by
    obtain ⟨s, hs, hsemantic⟩ := hvertex
    exact ⟨s, e.mem_writtenSources_of_vertex hs hsemantic, hsemantic⟩
  have ⟨s, hs, _⟩ := hwritten
  have hfaces := (e.slotListing_spec triangulated (e.lists_tuple.attributes_ne hs) slot).1
  rw [Listing.IsSound, hfaces, List.forall_mem_flatMap]
  refine forall₂_congr fun p hp => ?_
  have hne := (mem_facedPolygons_iff.mp hp).2
  rw [facesOf] at hne ⊢
  cases hf : e.polygonFaces? triangulated p with
  | none => simp [hf] at hne
  | some f =>
      have hspec := e.polygonFaces?_spec triangulated p
      rw [hf] at hspec
      obtain ⟨rfl, -⟩ := hspec
      rw [← e.cutsSoundly_iff triangulated hdedup hf, Option.toList_some, List.flatMap_singleton,
        ← List.forall_mem_flatMap, f.rings_each, List.forall_mem_map]
      exact forall₂_congr fun positions _ => e.sound_indices_iff hwritten rfl f.polygon positions

/-- A polygon that meets a vertex again is written without it, and so is a hole that meets the
    outline where three other vertices are left to it. A polygon of two vertices is not written. -/
theorem sound_of_write_meeting :
    let polygons : List Polygon :=
      [.ofOutline #[0, 1, 2, 1, 3], (Polygon.ofOutline #[0, 1, 2, 3]).addHole #[4, 1, 5, 6],
        .ofOutline #[0, 1, 0, 1]]
    let e := new (PolygonSet.ofPolygons [] [] [] polygons).host "mesh"
      ⟨[⟨.vertex, "v", 0⟩], []⟩ { ExportOptions.plain with removeDuplicates := true }
    let listings := (e.write Recorder.empty).value.2.1.listings.toList
    e.options.removeDuplicates = true ∧ (∃ s ∈ e.sources.faces, s.semantic = .vertex)
    ∧ listings.map Listing.faces = [[⟨[0, 1, 2, 3], []⟩, ⟨[0, 1, 2, 3], [[4, 5, 6]]⟩]]
    ∧ ∀ l ∈ listings, l.IsSound := by
  intro polygons e listings
  have hvertex : ∃ s ∈ e.sources.faces, s.semantic = .vertex :=
    ⟨⟨.vertex, "v", 0⟩, List.mem_singleton_self _, rfl⟩
  have hfaces : listings.map Listing.faces
      = [[⟨[0, 1, 2, 3], []⟩, ⟨[0, 1, 2, 3], [[4, 5, 6]]⟩]] := by decide +kernel
  have hslots : e.facedSlots false = [0] := by decide +kernel
  have hcuts : ∀ p ∈ e.facedPolygons false 0, e.CutsSoundly false p := by decide +kernel
  have hsound : List.Forall₂
      (fun slot l => l.IsSound ↔ ∀ p ∈ e.facedPolygons false slot, e.CutsSoundly false p)
      (e.facedSlots false) listings := by
    have htriangulated : (e.write Recorder.empty).value.1.triangulated = false :=
      e.triangulated_write.trans rfl
    have hwrite := sound_of_write e rfl hvertex
    dsimp only at hwrite
    rwa [htriangulated] at hwrite
  refine ⟨rfl, hvertex, hfaces, ?_⟩
  rw [hslots, List.forall₂_cons_left_iff] at hsound
  obtain ⟨l, ls, hl, hls, hlistings⟩ := hsound
  obtain rfl : ls = [] := List.forall₂_nil_left_iff.mp hls
  have hl' : listings = [l] := hlistings
  rw [hl', List.forall_mem_singleton]
  exact hl.mpr hcuts

/-- **Removing repeated vertices is not enough.** The triangles of a polygon with two mesh vertices
    meet one of them twice, and a hole that meets its outline twice is written with one vertex. -/
theorem not_isSound_of_repeated :
    let written (triangulate : Bool) (polygon : Polygon) : List Listing :=
      ((new (PolygonSet.ofPolygons [] [] [] [polygon]).host "mesh" ⟨[⟨.vertex, "v", 0⟩], []⟩
        { ExportOptions.plain with triangulate, removeDuplicates := true }).write
          Recorder.empty).value.2.1.listings.toList
    (∃ l ∈ written true (.ofOutline #[0, 1, 0, 1]),
      l.faces = [⟨[0, 1, 0], []⟩, ⟨[0, 0, 1], []⟩] ∧ ¬ l.IsSound)
    ∧ ∃ l ∈ written false ((Polygon.ofOutline #[0, 1, 2, 3]).addHole #[4, 1, 2]),
      l.faces = [⟨[0, 1, 2, 3], [[4]]⟩] ∧ ¬ l.IsSound := by
  decide +kernel

end Exporter

end MeshWeave
