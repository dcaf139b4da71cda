import MeshWeave.Proofs.Export.Partition
import MeshWeave.Proofs.Mesh.Numbering

set_option autoImplicit false

/-! # The offset layout of an export

Sources are numbered in the order in which they first need an index of their own. All normal-like
sources share one, and otherwise those with the same semantic and set do. This file says so without
reference to how offsets are searched for, and that each face vertex is written by this layout.

What stands at an offset is told by the answers of the host, and not by how an index is found. The
host answers for the semantic of a source: with a mesh vertex, a normal, or a texture coordinate or
color of the set of the source. Sources that share an offset get the same answer. -/

namespace MeshWeave

/-! ## Shared indices -/

/-- One index of a face vertex serves both sources. -/
def ExportSource.SharesOffset (s s' : ExportSource) : Prop :=
  (s.semantic.isNormalLike = true ∧ s'.semantic.isNormalLike = true)
    ∨ (s.semantic = s'.semantic ∧ s.set = s'.set)

/-- What a layout of offsets has to be: no offset below the width is left out, offsets are given in
    the order in which they are first used, and sources that one index serves share theirs. -/
structure ExportSource.IsLayout (sources : List ExportSource) (offset : ExportSource → Nat)
    (width : Nat) : Prop where
  mem_iff : ∀ o, o ∈ sources.map offset ↔ o < width
  firstUses_eq : Mesh.firstUses (sources.map offset) = List.range width
  eq_iff : ∀ s ∈ sources, ∀ s' ∈ sources, offset s = offset s' ↔ s.SharesOffset s'

theorem ExportSource.sharesIndex_iff (s s' : ExportSource) :
    s.attribute.sharesIndex s'.attribute = true ↔ s.SharesOffset s' := by
  simp [Attribute.sharesIndex, SharesOffset, ExportSource.attribute]

namespace Attribute

/-- Attributes that share an index share it with the same ones. -/
theorem sharesIndex_congr {a b : Attribute} (h : a.sharesIndex b = true) (c : Attribute) :
    c.sharesIndex a = c.sharesIndex b := by
  rw [sharesIndex, Bool.or_eq_true, Bool.and_eq_true, beq_iff_eq] at h
  rcases h with ⟨ha, hb⟩ | rfl
  · have heq (d : Attribute) (hd : d.semantic.isNormalLike = true) :
        c.sharesIndex d = c.semantic.isNormalLike := by
      rw [sharesIndex, hd, Bool.and_true, Bool.or_eq_left_iff_imp, beq_iff_eq]
      rintro rfl
      exact hd
    rw [heq a ha, heq b hb]
  · rfl

theorem sharesIndex_comm (a b : Attribute) : a.sharesIndex b = b.sharesIndex a := by
  rw [sharesIndex, sharesIndex, Bool.and_comm, Bool.beq_comm]

end Attribute

/-! ## Answers of the host -/

/-- What the host says about a source at a face vertex. A normal or texture coordinate that it does
    not know is the first one, and so is a color, unless there is a set with a white of its own. -/
inductive Host.Says (h : Host) (s : ExportSource) (polygon position : Nat) : UInt32 → Prop where
  | vertex (hs : s.semantic ∈ [.vertex, .position]) :
      h.Says s polygon position (h.vertex polygon position)
  | normal (hs : s.semantic ∈ [.normal, .tangent, .binormal]) :
      h.Says s polygon position ((h.normal polygon position).getD 0)
  | texCoord (hs : s.semantic ∈ [.texCoord, .uv]) :
      h.Says s polygon position ((h.texCoord polygon position s.set).getD 0)
  | color (hs : s.semantic = .color) {i : UInt32} (hi : h.color polygon position s.set = some i) :
      h.Says s polygon position i
  | white (hs : s.semantic = .color) (hnone : h.color polygon position s.set = none) :
      h.Says s polygon position ((h.colorSets[s.set]?.map (·.white)).getD 0)

/-- The index for a source that faces can refer to is what the host says. -/
theorem ExportSource.says_value (s : ExportSource) (hs : s.semantic.isExportable = true) (h : Host)
    (polygon position : Nat) :
    h.Says s polygon position (s.attribute.value h polygon position) := by
  unfold ExportSource.attribute Attribute.value
  cases hsemantic : s.semantic with
  | vertex | position => exact .vertex (by simp [hsemantic])
  | normal | tangent | binormal => exact .normal (by simp [hsemantic])
  | texCoord | uv => exact .texCoord (by simp [hsemantic])
  | color =>
      cases hcolor : h.color polygon position s.set with
      | some i => exact .color hsemantic hcolor
      | none => exact .white hsemantic hcolor
  | _ => simp [hsemantic, Semantic.isExportable] at hs

/-! ## Offsets of a tuple -/

namespace Tuple

variable {t : Tuple} {id : ExportSource → String} {ss : List ExportSource}

/-- The offset of a source is that of the sources which its index serves, and of no others. -/
theorem Lists.offset_eq_iff (h : t.Lists id ss) {s s' : ExportSource} (hs : s ∈ ss)
    (hs' : s' ∈ ss) : t.offset s = t.offset s' ↔ s.SharesOffset s' := by
  rw [← s.sharesIndex_iff]
  constructor
  · intro heq
    have hlt := h.offset_lt s hs
    have hlt' := h.offset_lt s' hs'
    have hshares : (t.attributes[t.offset s]).sharesIndex s.attribute = true :=
      List.findIdx_getElem (w := hlt)
    have hshares' : (t.attributes[t.offset s']).sharesIndex s'.attribute = true :=
      List.findIdx_getElem (w := hlt')
    simp only [← heq] at hshares'
    rw [s.attribute.sharesIndex_comm, ← Attribute.sharesIndex_congr hshares,
      Attribute.sharesIndex_comm]
    exact hshares'
  · intro hshares
    have hsame : (fun a : Attribute => a.sharesIndex s.attribute)
        = fun a : Attribute => a.sharesIndex s'.attribute := by
      funext a
      exact Attribute.sharesIndex_congr hshares a
    rw [offset, offset, hsame]

/-- An input gets an offset that is in use, or the next one. -/
theorem Lists.firstUses_add (h : t.Lists id ss)
    (hfirst : Mesh.firstUses (ss.map t.offset) = List.range t.attributes.length)
    (s : ExportSource) :
    Mesh.firstUses ((ss ++ [s]).map (t.add s (id s)).offset)
      = List.range (t.add s (id s)).attributes.length := by
  have hattributes := t.attributes_add s (id s)
  have hbefore : ss.map (t.add s (id s)).offset = ss.map t.offset := by
    apply List.map_congr_left
    intro w hw
    exact offset_of_append hattributes (h.offset_lt w hw)
  rw [List.map_append, hbefore, List.map_singleton, Mesh.firstUses_concat, hfirst]
  have hself := (h.add s).offset_lt s (by simp)
  have hmem : (t.add s (id s)).offset s ∈ ss.map t.offset
      ↔ (t.add s (id s)).offset s < t.attributes.length := by
    rw [List.mem_map]
    constructor
    · rintro ⟨w, hw, heq⟩
      rw [← heq]
      exact h.offset_lt w hw
    · intro hlt
      exact h.asked _ hlt
  by_cases hs : t.offset s < t.attributes.length
  · rw [if_pos hs, List.append_nil] at hattributes
    rw [hattributes] at hself ⊢
    rw [if_pos (hmem.mpr hself), List.append_nil]
  · -- The offsets in use end where the attributes ended, so the new one is next.
    have hlength : (t.add s (id s)).attributes.length = t.attributes.length + 1 := by
      rw [hattributes, if_neg hs, List.length_append, List.length_singleton]
    obtain ⟨w, hw, heq⟩ := (h.add s).asked t.attributes.length (by omega)
    have hnew : (t.add s (id s)).offset s = t.attributes.length := by
      rcases List.mem_append.mp hw with hw | hw
      · have hlt := h.offset_lt w hw
        rw [offset_of_append hattributes hlt] at heq
        omega
      · rwa [List.mem_singleton.mp hw] at heq
    rw [if_neg (by rw [hmem, hnew]; exact Nat.lt_irrefl _), hnew, hlength, List.range_succ]

theorem Lists.firstUses_addEach (h : t.Lists id ss)
    (hfirst : Mesh.firstUses (ss.map t.offset) = List.range t.attributes.length)
    (ws : List ExportSource) :
    Mesh.firstUses ((ss ++ ws).map (ws.foldl (fun t s => t.add s (id s)) t).offset)
      = List.range (ws.foldl (fun t s => t.add s (id s)) t).attributes.length := by
  induction ws generalizing t ss with
  | nil => rwa [List.append_nil]
  | cons w ws ih =>
      have hrest := ih (h.add w) (h.firstUses_add hfirst w)
      rwa [List.append_assoc, List.singleton_append] at hrest

end Tuple

/-! ## What the layout means for the indices -/

/-- An index element has the indices of all face vertices of its polygon. -/
theorem Faces.indices_group (t : Tuple) (h : Host) (f : Faces) :
    (f.group t h).indices.toList = f.indices t h := by
  cases f with
  | triangles p ts => rfl
  | plain p run => rfl
  | holed p rings =>
      rw [group, indices, Tuple.indices_rings]
      by_cases hnone : t.attributes = []
      · simp [hnone, Tuple.indices, Group.indices]
      · simp [hnone, Group.indices, Function.comp_def]

namespace Exporter

variable (e : Exporter)

/-- Which sources are written. -/
theorem writtenSources_eq :
    e.writtenSources = e.sources.faces.filter fun s => s.semantic.isExportable
      && (s.semantic == .vertex || !e.sources.vertices.contains s.id)
      && (!s.semantic.isNormalLike || e.host.hasNormals) := by
  apply List.filter_congr
  intro s _
  unfold ExportSource.isWritten
  rw [bne]
  cases s.semantic.isExportable <;> cases s.semantic == .vertex <;>
    cases e.sources.vertices.contains s.id <;> cases s.semantic.isNormalLike <;>
      cases e.host.hasNormals <;> rfl

theorem isLayout_tuple :
    ExportSource.IsLayout e.writtenSources e.tuple.value.offset e.tuple.value.attributes.length
    where
  mem_iff := by
    intro o
    rw [List.mem_map]
    constructor
    · rintro ⟨s, hs, rfl⟩
      exact e.lists_tuple.offset_lt s hs
    · intro ho
      exact e.lists_tuple.asked o ho
  firstUses_eq := by
    rw [tuple, addAll_value]
    exact (Tuple.lists_empty e.reference).firstUses_addEach (by rfl) e.writtenSources
  eq_iff := by
    intro s hs s' hs'
    exact e.lists_tuple.offset_eq_iff hs hs'

/-- The indices of a listing are those of the face vertices that are written, one after another. -/
theorem indices_slotListing (triangulated : Bool) (slot : Nat) :
    (e.slotListing triangulated slot).indices.toList
      = ((e.slotVertices triangulated slot).map fun v =>
          e.tuple.value.row e.host v.1 v.2).flatten := by
  have hfaces : ((e.facesAt triangulated slot).flatMap
        fun f => f.indices e.tuple.value e.host)
      = (e.slotVertices triangulated slot).flatMap fun v =>
          e.tuple.value.row e.host v.1 v.2 := by
    rw [← e.vertices_facesAt, List.flatMap_assoc]
    exact List.flatMap_congr fun f _ => f.indices_eq e.tuple.value e.host
  rw [← List.flatMap_def, ← hfaces, slotListing, listing, Listing.indices]
  dsimp only
  split
  · simp [List.flatMap_map, Faces.indices_group]
  · simp [Group.indices]

/-- **The inputs are a layout of the indices.** An export writes inputs for the sources that faces
    can refer to, in order, but not for those in the vertices element, whose place is taken by an
    input of semantic `vertex`, nor for normals that the host does not have. Every listing has these
    inputs, and holds the written face vertices of its slot one after another, each with as many
    indices as there are offsets. At the offset of an input stands what the host says about its
    source; as this is so for all inputs, it is so for the first one at each offset. -/
theorem offsets_of_write (e : Exporter) :
    let result := (e.write Recorder.empty).value
    let triangulated := result.1.triangulated
    let listings := result.2.1.listings.toList
    let sources := e.sources.faces.filter fun s => s.semantic.isExportable
      && (s.semantic == .vertex || !e.sources.vertices.contains s.id)
      && (!s.semantic.isNormalLike || e.host.hasNormals)
    ∃ (offset : ExportSource → Nat) (width : Nat),
      ExportSource.IsLayout sources offset width
      ∧ e.tuple.value.inputs = sources.map (fun s =>
          { semantic := s.semantic, source := "#" ++ e.reference s, offset := offset s,
            set := s.set? })
      ∧ List.Forall₂
        (fun slot l => l.header.inputs = e.tuple.value.inputs
          ∧ ∃ rows : List (List UInt32), l.indices.toList = rows.flatten
            ∧ List.Forall₂
              (fun v row => row.length = width
                ∧ ∀ s ∈ sources, ∃ i, row[offset s]? = some i ∧ e.host.Says s v.1 v.2 i)
              (e.slotVertices triangulated slot) rows)
        (e.writtenSlots triangulated) listings := by
  intro result triangulated listings sources
  have htriangulated : triangulated = e.decideTriangles.value := e.triangulated_write
  have hlistings : listings = (e.writtenSlots triangulated).map (e.slotListing triangulated) := by
    rw [htriangulated]
    exact e.listings_write_eq
  have hexportable : ∀ s ∈ sources, s.semantic.isExportable = true := by
    intro s hs
    have hwritten := (List.mem_filter.mp hs).2
    rw [Bool.and_eq_true, Bool.and_eq_true] at hwritten
    exact hwritten.1.1
  have hsources : sources = e.writtenSources := e.writtenSources_eq.symm
  rw [hsources] at hexportable
  rw [hlistings, hsources]
  refine ⟨e.tuple.value.offset, e.tuple.value.attributes.length, e.isLayout_tuple,
    e.lists_tuple.inputs_eq, ?_⟩
  rw [List.forall₂_map_right_iff, List.forall₂_same]
  intro slot _
  refine ⟨rfl, _, e.indices_slotListing triangulated slot, ?_⟩
  rw [List.forall₂_map_right_iff, List.forall₂_same]
  intro v _
  refine ⟨e.tuple.value.length_row e.host v.1 v.2, ?_⟩
  intro s hs
  exact ⟨_, e.lists_tuple.getElem?_row hs e.host v.1 v.2,
    s.says_value (hexportable s hs) e.host v.1 v.2⟩

/-- All kinds of sources, one input a second time, one source that is in the vertices element and
    one that faces cannot refer to. A color is missing on the first polygon; on the second there is
    a normal too few, and no texture coordinates and colors. -/
theorem offsets_of_write_mixed :
    let first := { Polygon.ofOutline #[0, 1, 2] with
      normals := some #[5, 6, 7], texCoords := #[#[1, 1, 1], #[10, 11, 12]]
      colors := #[#[some 20, none, some 22]], shader := some 0 }
    let second := { Polygon.ofOutline #[3, 2, 1] with normals := some #[8, 9] }
    let written : List ExportSource :=
      [⟨.texCoord, "uv", 1⟩, ⟨.normal, "n", 0⟩, ⟨.vertex, "v", 0⟩, ⟨.tangent, "t", 0⟩,
        ⟨.color, "c", 0⟩, ⟨.binormal, "b", 0⟩, ⟨.uv, "st", 1⟩, ⟨.texCoord, "uv", 1⟩,
        ⟨.position, "p", 0⟩]
    let e := new (PolygonSet.ofPolygons ["red"] [] [⟨"paint", 29⟩] [first, second]).host "mesh"
      ⟨⟨.position, "w", 0⟩ :: ⟨.texTangent, "x", 0⟩ :: written, ["v", "w"]⟩ .plain
    let listings := (e.write Recorder.empty).value.2.1.listings.toList
    listings.map (·.header.inputs)
      = List.replicate 2 [⟨.texCoord, "#uv", 0, some 1⟩, ⟨.normal, "#n", 1, none⟩,
        ⟨.vertex, "#mesh-vertices", 2, none⟩, ⟨.tangent, "#t", 1, none⟩, ⟨.color, "#c", 3, some 0⟩,
        ⟨.binormal, "#b", 1, none⟩, ⟨.uv, "#st", 4, some 1⟩, ⟨.texCoord, "#uv", 0, some 1⟩,
        ⟨.position, "#p", 5, none⟩]
    ∧ listings.map (·.indices.toList)
      = [[10, 5, 0, 20, 10, 0, 11, 6, 1, 29, 11, 1, 12, 7, 2, 22, 12, 2],
        [0, 8, 3, 29, 0, 3, 0, 9, 2, 29, 0, 2, 0, 0, 1, 29, 0, 1]]
    ∧ ∃ offset, ExportSource.IsLayout written offset 6
      ∧ written.map offset = [0, 1, 2, 1, 3, 1, 4, 0, 5] := by
  intro first second written e listings
  have hwritten : e.sources.faces.filter (fun s => s.semantic.isExportable
      && (s.semantic == .vertex || !e.sources.vertices.contains s.id)
      && (!s.semantic.isNormalLike || e.host.hasNormals)) = written := by decide +kernel
  have hinputs : e.tuple.value.inputs.map (·.offset) = [0, 1, 2, 1, 3, 1, 4, 0, 5] := by
    decide +kernel
  refine ⟨by decide +kernel, by decide +kernel, ?_⟩
  obtain ⟨offset, width, hlayout, hoffsets, -⟩ := offsets_of_write e
  rw [hwritten] at hlayout hoffsets
  rw [hoffsets, List.map_map] at hinputs
  have hmap : written.map offset = [0, 1, 2, 1, 3, 1, 4, 0, 5] := hinputs
  have hwidth : width = 6 := by
    have huses := hlayout.firstUses_eq
    rw [hmap] at huses
    calc
      width = (List.range width).length := List.length_range.symm
      _ = (Mesh.firstUses [0, 1, 2, 1, 3, 1, 4, 0, 5]).length := by rw [huses]
      _ = 6 := by decide
  rw [hwidth] at hlayout
  exact ⟨offset, hlayout, hmap⟩

end Exporter

end MeshWeave
