import Mathlib.Data.List.Induction
import MeshWeave.Host.PolygonSet
import MeshWeave.Proofs.Export.Slots

set_option autoImplicit false

/-! # Exporting polygons with holes

A polygon set keeps the rings of a polygon as one run of vertices, and tells an export where its
holes begin by mesh vertex and not by position. An export to a recorder therefore gives the rings
back just if they are apart: a vertex of a ring at which a later hole begins is taken for the begin
of that hole. Whatever the rings share, all vertices are written, in order.

Slots, other polygons and their holes have no part in this, because every polygon uses its own hole
records only. -/

namespace MeshWeave

/-- What a list is related to at the place of one of its elements. -/
theorem exists_getElem?_idxOf {α β : Type} [DecidableEq α] {R : α → β → Prop} {as : List α}
    {bs : List β} (h : List.Forall₂ R as bs) {a : α} (ha : a ∈ as) :
    ∃ b, bs[as.idxOf a]? = some b ∧ R a b := by
  induction h with
  | nil => exact absurd ha (by simp)
  | @cons a' b as bs hab _ ih =>
      by_cases heq : a' = a
      · subst heq
        exact ⟨b, by simp, hab⟩
      · obtain ⟨c, hc, hac⟩ := ih (by simpa [Ne.symm heq] using ha)
        refine ⟨c, ?_, hac⟩
        rw [List.idxOf_cons_ne _ heq, List.getElem?_cons_succ]
        exact hc

theorem toArrays_eq_iff {α : Type} (lists : List (List α)) (arrays : List (Array α)) :
    (lists.map List.toArray).toArray = arrays.toArray ↔ lists = arrays.map Array.toList := by
  rw [List.toArray_eq_iff]
  constructor
  · intro h
    rw [← show lists.map List.toArray = arrays from h]
    simp [Function.comp_def]
  · rintro rfl
    simp [Function.comp_def]

/-! ## Polygons that are made of rings -/

/-- A polygon is made of an outline and holes. -/
structure Polygon.HasRings (q : Polygon) (outer : Array UInt32) (holes : List (Array UInt32)) :
    Prop where
  vertices_eq : q.vertices.toList = outer.toList ++ (holes.map Array.toList).flatten
  holeSizes_eq : q.holeSizes = holes.map Array.size

namespace HoleRecord

/-- The records of holes that stand one behind the other. Each tells the size of a hole and the
    vertex that stands where the hole begins, which is that of a later hole if it is empty. -/
def ofRings (index : Nat) : List (Array UInt32) → List HoleRecord
  | [] => []
  | hole :: holes =>
      match (((hole :: holes).map Array.toList).flatten).head? with
      | some first => ⟨index, hole.size, first⟩ :: ofRings index holes
      | none => ofRings index holes

/-- Where no hole is empty the records are about the first vertices of the holes. -/
theorem firsts_ofRings (index : Nat) {holes : List (Array UInt32)}
    (hholes : ∀ hole ∈ holes, hole ≠ #[]) :
    firsts index (ofRings index holes) = (holes.map Array.toList).filterMap List.head? := by
  induction holes with
  | nil => rfl
  | cons hole holes ih =>
      obtain ⟨hhole, hholes⟩ := List.forall_mem_cons.mp hholes
      obtain ⟨v, vs, hv⟩ : ∃ v vs, hole.toList = v :: vs :=
        List.exists_cons_of_ne_nil (by simpa using hhole)
      have hfirst : (((hole :: holes).map Array.toList).flatten).head? = some v := by
        rw [List.map_cons, List.flatten_cons, hv]
        rfl
      rw [ofRings, hfirst]
      simp only
      rw [firsts_cons, if_pos rfl, ih hholes, List.map_cons, hv]
      rfl

end HoleRecord

namespace Polygon

theorem hasRings_ofOutline (outer : Array UInt32) : (ofOutline outer).HasRings outer [] :=
  ⟨by simp [ofOutline], rfl⟩

theorem HasRings.addHole {q : Polygon} {outer : Array UInt32} {holes : List (Array UInt32)}
    (h : q.HasRings outer holes) (hole : Array UInt32) :
    (q.addHole hole).HasRings outer (holes ++ [hole]) := by
  constructor
  · simp [Polygon.addHole, h.vertices_eq]
  · simp [Polygon.addHole, h.holeSizes_eq]

/-- A polygon to whose outline holes are added one by one is made of them. -/
theorem hasRings_addHoles (outer : Array UInt32) (holes : List (Array UInt32)) :
    (holes.foldl Polygon.addHole (ofOutline outer)).HasRings outer holes := by
  have hall (q : Polygon) (before : List (Array UInt32)) (hq : q.HasRings outer before) :
      (holes.foldl Polygon.addHole q).HasRings outer (before ++ holes) := by
    induction holes generalizing q before with
    | nil => rwa [List.append_nil]
    | cons hole holes ih =>
        have hrest := ih (q.addHole hole) (before ++ [hole]) (hq.addHole hole)
        rwa [List.append_assoc, List.singleton_append] at hrest
  exact hall _ [] (hasRings_ofOutline outer)

theorem firsts_recordsFrom_of_ne (q : Polygon) {index p : Nat} (hne : index ≠ p) (start : Nat)
    (sizes : List Nat) : HoleRecord.firsts p (q.recordsFrom index start sizes) = [] := by
  induction sizes generalizing start with
  | nil => rfl
  | cons size sizes ih =>
      rw [recordsFrom]
      split
      · rw [HoleRecord.firsts_cons, if_neg hne]
        exact ih _
      · exact ih _

/-- The records of holes that stand behind some vertices of the run. -/
theorem recordsFrom_eq {q : Polygon} (index : Nat) {before : List UInt32}
    {holes : List (Array UInt32)}
    (hq : q.vertices.toList = before ++ (holes.map Array.toList).flatten) :
    q.recordsFrom index before.length (holes.map Array.size) = HoleRecord.ofRings index holes := by
  induction holes generalizing before with
  | nil => rfl
  | cons hole holes ih =>
      have hfirst : q.vertices[before.length]?
          = (((hole :: holes).map Array.toList).flatten).head? := by
        rw [← Array.getElem?_toList, hq, List.getElem?_append_right (Nat.le_refl _), Nat.sub_self,
          List.head?_eq_getElem?]
      have hq' : q.vertices.toList
          = (before ++ hole.toList) ++ (holes.map Array.toList).flatten := by
        rw [hq, List.append_assoc]
        rfl
      have hrest := ih hq'
      rw [List.length_append, hole.length_toList] at hrest
      rw [List.map_cons, recordsFrom, hfirst, HoleRecord.ofRings]
      cases (((hole :: holes).map Array.toList).flatten).head? with
      | none => exact hrest
      | some first => exact congrArg (⟨index, hole.size, first⟩ :: ·) hrest

/-- The records of a polygon that is made of rings. -/
theorem HasRings.holeRecords_eq {q : Polygon} {outer : Array UInt32} {holes : List (Array UInt32)}
    (h : q.HasRings outer holes) (index : Nat) :
    q.holeRecords index = HoleRecord.ofRings index holes := by
  have hsizes : ((holes.map Array.toList).flatten).length = total (holes.map Array.size) := by
    clear h
    induction holes with
    | nil => rfl
    | cons hole holes ih => simp [ih]
  have hstart : q.outlineSize = outer.toList.length := by
    rw [outlineSize, ← Array.length_toList, h.vertices_eq, h.holeSizes_eq, List.length_append,
      hsizes, Nat.add_sub_cancel]
  rw [holeRecords, hstart, h.holeSizes_eq]
  exact recordsFrom_eq index h.vertices_eq

theorem HasRings.firsts_holeRecords {q : Polygon} {outer : Array UInt32}
    {holes : List (Array UInt32)} (h : q.HasRings outer holes)
    (hholes : ∀ hole ∈ holes, hole ≠ #[]) (index : Nat) :
    HoleRecord.firsts index (q.holeRecords index)
      = (holes.map Array.toList).filterMap List.head? := by
  rw [h.holeRecords_eq]
  exact HoleRecord.firsts_ofRings index hholes

end Polygon

/-! ## Polygon sets -/

namespace PolygonSet

/-- The mesh of some polygons. -/
def ofPolygons (shaders texCoordSets : List String) (colorSets : List ColorSet)
    (polygons : List Polygon) : PolygonSet :=
  polygons.foldl add (empty shaders texCoordSets colorSets)

variable (shaders texCoordSets : List String) (colorSets : List ColorSet) (polygons : List Polygon)

theorem polygons_ofPolygons :
    (ofPolygons shaders texCoordSets colorSets polygons).polygons = polygons.toArray := by
  unfold ofPolygons
  induction polygons using List.reverseRec with
  | nil => rfl
  | append_singleton polygons q ih => simp [add, ih]

/-- Another polygon brings its own records. -/
theorem holes_ofPolygons_concat (q : Polygon) :
    (ofPolygons shaders texCoordSets colorSets (polygons ++ [q])).holes
      = (ofPolygons shaders texCoordSets colorSets polygons).holes
        ++ q.holeRecords polygons.length := by
  have hsize : (ofPolygons shaders texCoordSets colorSets polygons).size = polygons.length := by
    rw [size, polygons_ofPolygons, List.size_toArray]
  rw [← hsize]
  unfold ofPolygons
  rw [List.foldl_append]
  rfl

/-- The holes of a mesh are those of its polygons. -/
theorem firsts_ofPolygons (p : Nat) :
    HoleRecord.firsts p (ofPolygons shaders texCoordSets colorSets polygons).holes
      = (polygons[p]?.map fun q => HoleRecord.firsts p (q.holeRecords p)).getD [] := by
  induction polygons using List.reverseRec with
  | nil => rfl
  | append_singleton polygons q ih =>
      rw [holes_ofPolygons_concat, HoleRecord.firsts_append, ih]
      by_cases hp : p < polygons.length
      · rw [List.getElem?_append_left hp, Polygon.holeRecords,
          q.firsts_recordsFrom_of_ne (Nat.ne_of_gt hp), List.append_nil]
      · rw [List.getElem?_append_right (Nat.le_of_not_lt hp),
          List.getElem?_eq_none (Nat.le_of_not_lt hp)]
        by_cases heq : polygons.length = p
        · subst heq
          simp
        · rw [Polygon.holeRecords, q.firsts_recordsFrom_of_ne heq, List.getElem?_eq_none]
          · rfl
          · simp
            omega

variable {polygons}

section Hosts

variable {m : PolygonSet} {p : Nat} {q : Polygon} (hq : m.polygons[p]? = some q)

include hq

theorem vertexCount_host : m.host.vertexCount p = q.vertices.size := by
  show ((m.polygons[p]?).map _).getD 0 = _
  rw [hq]
  rfl

theorem isHoled_host (hholes : q.holeSizes ≠ []) : m.host.isHoled p = true := by
  show (m.polygons[p]?).any _ = true
  rw [hq]
  simpa using hholes

/-- The host tells the vertices of a polygon in order. -/
theorem map_vertex_host :
    (m.host.run false p).map (m.host.vertex p) = q.vertices.toList := by
  have hrun : m.host.run false p = List.range q.vertices.size := by
    rw [← vertexCount_host hq]
    exact List.filter_eq_self.mpr fun _ _ => rfl
  rw [hrun]
  apply List.ext_getElem
  · simp
  · intro i hi hi'
    rw [List.getElem_map, List.getElem_range]
    show (m.polygons[p]?.bind fun q => q.vertices[i]?).getD 0 = _
    rw [hq, Option.bind_some]
    simp only [Array.length_toList] at hi'
    simp [hi']

end Hosts

end PolygonSet

/-! ## What is recorded for a polygon -/

namespace Exporter

/-- The polygons of a slot that have faces. -/
def writtenPolygons (e : Exporter) (triangulated : Bool) (slot : Nat) : List Nat :=
  (e.slotPolygons slot).filter (e.host.hasFaces e.options.removeDuplicates triangulated)

/-- The index element of a polygon by itself: the listings are those of the written slots, and the
    index elements of a listing are those of the polygons of the slot that have faces. -/
def group? (e : Exporter) (triangulated : Bool) (listings : List Listing) (p : Nat) :
    Option Group := do
  let l ← listings[(e.writtenSlots triangulated).idxOf (e.slot p)]?
  l.groups[(e.writtenPolygons triangulated (e.slot p)).idxOf p]?

variable {e : Exporter} {p : Nat}

/-- The listing of a slot with a holed polygon has an index element for each polygon. -/
theorem groups_listing (tuple : Tuple) (slot : Nat) {fs : List Faces}
    (hholed : ∃ f ∈ fs, f.isHoled = true) :
    (e.listing tuple false slot fs).groups = (fs.map (·.group tuple e.host)).toArray := by
  have hshape : shape false fs = .polygons := by
    rw [shape, if_neg (by simp), if_pos (List.any_eq_true.mpr hholed)]
  unfold listing
  rw [hshape]
  rfl

theorem slot_mem_slots (e : Exporter) (p : Nat) : e.slot p ∈ e.slots := by
  rw [slots, List.mem_range, slot]
  split
  · split <;> omega
  · omega

theorem mem_slotPolygons (hp : p < e.host.polygonCount) : p ∈ e.slotPolygons (e.slot p) := by
  rw [slotPolygons, List.mem_filter]
  exact ⟨List.mem_range.mpr hp, beq_self_eq_true _⟩

/-- The slot of a polygon that is written has a listing. -/
theorem mem_writtenSlots (hp : p < e.host.polygonCount)
    (hrun : 3 ≤ (e.host.run e.options.removeDuplicates p).length) :
    e.slot p ∈ e.writtenSlots false := by
  rw [writtenSlots, List.mem_filter]
  refine ⟨e.slot_mem_slots p, ?_⟩
  have hnonempty : e.slotVertices false (e.slot p) ≠ [] := by
    intro hnil
    have hnone := List.flatMap_eq_nil_iff.mp hnil p (mem_slotPolygons hp)
    rw [List.map_eq_nil_iff, Host.writtenRun, if_neg (by simp),
      if_neg (Nat.not_lt.mpr hrun)] at hnone
    rw [hnone] at hrun
    exact absurd hrun (by simp)
  simpa using hnonempty

/-- A polygon with holes has one face, which is cut into rings by its own hole records. -/
theorem group?_of_holed (hp : p < e.host.polygonCount)
    (htriangulated : e.decideTriangles.value = false) (hholed : e.host.isHoled p = true)
    (hrun : 3 ≤ (e.host.run e.options.removeDuplicates p).length) :
    ∃ left, HoleRecord.firsts p left = HoleRecord.firsts p e.host.holes
      ∧ e.group? false e.written p = some (Faces.group e.tuple.value e.host (.holed p
        (Rings.ofRun e.host e.mesh p (e.host.run e.options.removeDuplicates p) left).value.1)) := by
  have hwritten := e.written_faces
  rw [htriangulated] at hwritten
  obtain ⟨l, hl, -, slotLeft, hslotLeft, rfl⟩ :=
    exists_getElem?_idxOf hwritten (mem_writtenSlots hp hrun)
  have hnodup : (e.slotPolygons (e.slot p)).Nodup := List.nodup_range.filter _
  have hmem : p ∈ (e.slotPolygons (e.slot p)).filter
      (e.host.hasFaces e.options.removeDuplicates false) := by
    refine List.mem_filter.mpr ⟨mem_slotPolygons hp, ?_⟩
    rw [Host.hasFaces, decide_eq_true hrun, Bool.or_true]
  obtain ⟨f, hf, left, hleft, hface⟩ := exists_getElem?_idxOf
    (Faces.ofPolygons_faces e.host e.mesh e.options.removeDuplicates false hnodup slotLeft) hmem
  -- With three vertices and holes the one face is cut into rings.
  have hle := e.host.length_run_le e.options.removeDuplicates p
  rw [Faces.ofPolygon_value, if_neg (by simp), if_neg (by omega), Faces.ofRun,
    if_pos ⟨hholed, rfl⟩] at hface
  simp only [if_neg (Nat.not_lt.mpr hrun), Option.some.injEq] at hface
  subst hface
  have hgroups := groups_listing (e := e) e.tuple.value (e.slot p)
    ⟨_, List.mem_of_getElem? hf, rfl⟩
  refine ⟨left, hleft.trans (hslotLeft p (mem_slotPolygons hp)), ?_⟩
  rw [group?, hl, Option.bind_eq_bind, Option.bind_some, slotFaces, hgroups, List.getElem?_toArray,
    List.getElem?_map, writtenPolygons, hf, Option.map_some]

/-- A polygon with holes as it is recorded by an export that refers to vertices only. -/
theorem group_of_vertex (h : Host) (mesh id : String) (set : Nat) (vertices : List String) (p : Nat)
    (rings : Rings) :
    Faces.group (new h mesh ⟨[⟨.vertex, id, set⟩], vertices⟩ .plain).tuple.value h (.holed p rings)
      = .holed (rings.outline.map (h.vertex p)).toArray
          ((rings.holes.map (List.map (h.vertex p))).map List.toArray).toArray := by
  have hattributes : (new h mesh ⟨[⟨.vertex, id, set⟩], vertices⟩ .plain).tuple.value.attributes
      = [⟨.vertex, set⟩] := rfl
  have hindices (positions : List Nat) :
      (new h mesh ⟨[⟨.vertex, id, set⟩], vertices⟩ .plain).tuple.value.indices h p positions
        = positions.map (h.vertex p) := by
    rw [Tuple.indices, hattributes]
    exact List.map_eq_flatMap.symm
  rw [Faces.group, hattributes]
  simp [hindices]

/-- **Holes survive an export** just if the rings are apart. The export of any mesh with a polygon
    made of rings succeeds, and records for the polygon an outline and holes with all its vertices
    in order. They are the rings of the polygon if and only if no ring meets, after its first
    vertex, the first vertex of a later one. -/
theorem holes_of_write (shaders texCoordSets : List String) (colorSets : List ColorSet)
    (polygons : List Polygon) (mesh id : String) (set : Nat) (vertices : List String) {p : Nat}
    {q : Polygon} {outer : Array UInt32} {holes : List (Array UInt32)}
    (hq : polygons[p]? = some q) (hrings : q.HasRings outer holes) (hsome : holes ≠ [])
    (houter : outer ≠ #[]) (hholes : ∀ hole ∈ holes, hole ≠ #[]) (hsize : 3 ≤ q.vertices.size) :
    let host := (PolygonSet.ofPolygons shaders texCoordSets colorSets polygons).host
    let e := new host mesh ⟨[⟨.vertex, id, set⟩], vertices⟩ .plain
    let written := (e.write Recorder.empty).value.2
    written.2 = .ok written.1.listings.size ∧ written.1.draft = .outside
    ∧ ∃ outline rings, e.group? false written.1.listings.toList p = some (.holed outline rings)
      ∧ outline ++ rings.flatten = q.vertices
      ∧ (outline = outer ∧ rings = holes.toArray
        ↔ RingsApart ((outer :: holes).map Array.toList)) := by
  intro host e written
  have hwritten : written = (⟨e.written.toArray, .outside⟩, .ok e.written.length) :=
    congrArg Prod.snd e.write_recorder
  have hpolygons := PolygonSet.polygons_ofPolygons shaders texCoordSets colorSets polygons
  have hq' :
      (PolygonSet.ofPolygons shaders texCoordSets colorSets polygons).polygons[p]? = some q := by
    rw [hpolygons, List.getElem?_toArray]
    exact hq
  have hmap : (host.run false p).map (host.vertex p) = q.vertices.toList :=
    PolygonSet.map_vertex_host hq'
  have hrun : (host.run false p).length = q.vertices.size := by
    rw [← Array.length_toList, ← hmap, List.length_map]
  have hp : p < host.polygonCount := by
    show p < (PolygonSet.ofPolygons shaders texCoordSets colorSets polygons).polygons.size
    rw [hpolygons, List.size_toArray]
    exact (List.getElem?_eq_some_iff.mp hq).1
  have hholed : host.isHoled p = true := by
    apply PolygonSet.isHoled_host hq'
    rw [hrings.holeSizes_eq]
    simpa using hsome
  -- What is recorded is the cut of the run, mapped to mesh vertices.
  obtain ⟨left, hleft, hgroup⟩ := group?_of_holed (e := e) hp rfl hholed
    (show 3 ≤ (host.run false p).length from hrun ▸ hsize)
  have hfirsts : HoleRecord.firsts p left = (holes.map Array.toList).filterMap List.head? := by
    rw [hleft]
    show HoleRecord.firsts p
      (PolygonSet.ofPolygons shaders texCoordSets colorSets polygons).holes = _
    rw [PolygonSet.firsts_ofPolygons, hq]
    exact hrings.firsts_holeRecords hholes p
  have hne : host.run false p ≠ [] := by
    intro hnil
    rw [hnil, List.length_nil] at hrun
    omega
  have hflat := (Rings.ofRun_spec host mesh p hne left).1
  have hcut := Rings.map_ofRun_eq_iff host mesh p (hmap.trans hrings.vertices_eq)
    (by simpa using houter) (by simpa using hholes) (.of_eq hfirsts)
  have hgroup' : e.group? false e.written p
      = some (Faces.group e.tuple.value host
        (.holed p (Rings.ofRun host mesh p (host.run false p) left).value.1)) := hgroup
  simp only at hcut
  generalize (Rings.ofRun host mesh p (host.run false p) left).value.1 = rings
    at hgroup' hflat hcut
  rw [group_of_vertex] at hgroup'
  rw [hwritten]
  refine ⟨by simp, rfl, _, _, hgroup', ?_, ?_⟩
  · rw [← Array.toList_inj, ← hmap, ← hflat]
    simp [List.map_flatten, Function.comp_def]
  · rw [List.map_cons, ← hcut]
    exact and_congr List.toArray_eq_iff (toArrays_eq_iff _ _)

/-- The second hole shares all its vertices with the rings before it. Its first one stands for the
    last time at the begin of the outline. -/
theorem holes_of_write_sharing :
    let q := (Polygon.ofOutline #[0, 1, 2, 3]).addHole #[4, 1, 2] |>.addHole #[0, 2, 4]
    let polygons := [.ofOutline #[0, 1, 2], q]
    let e := new (PolygonSet.ofPolygons ["red"] [] [] polygons).host "mesh"
      ⟨[⟨.vertex, "v", 0⟩], []⟩ .plain
    let written := (e.write Recorder.empty).value.2
    polygons[1]? = some q ∧ q.HasRings #[0, 1, 2, 3] [#[4, 1, 2], #[0, 2, 4]]
    ∧ 3 ≤ q.vertices.size
    ∧ RingsApart ([#[0, 1, 2, 3], #[4, 1, 2], #[0, 2, 4]].map Array.toList)
    ∧ e.group? false written.1.listings.toList 1
      = some (.holed #[0, 1, 2, 3] #[#[4, 1, 2], #[0, 2, 4]]) := by
  have hrings := Polygon.hasRings_addHoles #[0, 1, 2, 3] [#[4, 1, 2], #[0, 2, 4]]
  have hapart : RingsApart ([#[0, 1, 2, 3], #[4, 1, 2], #[0, 2, 4]].map Array.toList) := by decide
  obtain ⟨-, -, outline, rings, hgroup, -, hiff⟩ := holes_of_write ["red"] [] []
    [.ofOutline #[0, 1, 2], _] "mesh" "v" 0 [] (p := 1) rfl hrings (by simp) (by simp) (by simp)
    (by decide)
  obtain ⟨rfl, rfl⟩ := hiff.mpr hapart
  exact ⟨rfl, hrings, by decide, hapart, hgroup⟩

/-- The outline meets the first vertex of the hole at its second vertex. What is recorded is an
    outline of one vertex, and a hole of all the others. -/
theorem not_holes_of_write_touching :
    let q := (Polygon.ofOutline #[0, 1, 2, 3]).addHole #[1, 4, 5]
    let e := new (PolygonSet.ofPolygons [] [] [] [q]).host "mesh" ⟨[⟨.vertex, "v", 0⟩], []⟩ .plain
    let written := (e.write Recorder.empty).value.2
    q.HasRings #[0, 1, 2, 3] [#[1, 4, 5]] ∧ 3 ≤ q.vertices.size
    ∧ e.group? false written.1.listings.toList 0 = some (.holed #[0] #[#[1, 2, 3, 1, 4, 5]])
    ∧ e.group? false written.1.listings.toList 0 ≠ some (.holed #[0, 1, 2, 3] #[#[1, 4, 5]]) := by
  have hrings := Polygon.hasRings_addHoles #[0, 1, 2, 3] [#[1, 4, 5]]
  exact ⟨hrings, by decide, by decide +kernel, by decide +kernel⟩

end Exporter

end MeshWeave
