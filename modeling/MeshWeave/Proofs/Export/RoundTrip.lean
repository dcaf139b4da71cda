import Mathlib.Algebra.Group.Nat.Defs
import MeshWeave.Host.PolygonSet
import MeshWeave.Proofs.Export.Inputs
import MeshWeave.Proofs.Export.Reading

set_option autoImplicit false

/-! # Reading back what was exported

An export to a recorder, replayed to a reader that knows the sources: every listing becomes a
primitive, and the index arrays of the primitive are the host's answers for the face vertices that
were written.

Positions and normals come from the first source of their kind, which begins its buffer, so that
the indices of the host are found unchanged. Channels are corrected for what was merged before.
All listings have the same inputs, so the sources are merged by the first listing and stay as they
are. -/

namespace MeshWeave

/-- The channel that is read for a source, from the indices that were written. -/
def ExportSource.channel (s : ExportSource) (found : Source) (indices : List UInt32) : Channel :=
  ⟨found.id, s.set, found.stride, found.initial,
    (indices.map fun i => Index.saturate (i.toNat + found.correction)).toArray⟩

namespace Exporter

/-! ## Sources that fit -/

/-- The ids of the sources that are written name them, and no source is used for two kinds of data.
    `uri` is what the vertices element of the reader refers to. -/
structure Names (e : Exporter) (uri : String) : Prop where
  named : ∀ s ∈ e.writtenSources, s.kind?.isSome → s.IsNamed
  single : ∀ k k', ∀ s ∈ e.sourcesOf k, ∀ s' ∈ e.sourcesOf k',
    Text.fragment (s.sourceId uri) = Text.fragment (s'.sourceId uri) → k = k'

/-- A new reader that knows what the faces of an export refer to: a vertices element with one input,
    for positions, and sources that are not part of the mesh yet and can be indexed. -/
structure IsKnownTo (e : Exporter) (uri : String) (r : Reader) : Prop extends e.Names uri where
  current_eq : r.current = none
  source_eq : r.source = none
  mesh_eq : r.mesh = .empty r.mesh.id r.mesh.name
  vertices_eq : r.vertices.inputs = [⟨.position, uri⟩]
  known : ∀ k, ∀ s ∈ e.sourcesOf k, ∃ found, r.sources.find? (s.sourceId uri) = some found
    ∧ found.loaded = false ∧ found.isIndexable k = true

/-- A reader that is between two listings of an export. The first source of each kind is not loaded
    only if its buffer is still empty. -/
structure Serves (e : Exporter) (uri : String) (r : Reader) : Prop where
  current_eq : r.current = none
  source_eq : r.source = none
  vertices_eq : r.vertices.inputs = [⟨.position, uri⟩]
  known : ∀ k, ∀ s ∈ e.sourcesOf k, ∃ found, r.sources.find? (s.sourceId uri) = some found
    ∧ found.isIndexable k = true
  first : ∀ k s, (e.sourcesOf k).head? = some s →
    ∀ found, r.sources.find? (s.sourceId uri) = some found → found.StandsFirst (r.mesh.buffer k)

/-- The sources of an export after a listing was read. -/
structure Loaded (e : Exporter) (uri : String) (t : SourceTable) : Prop where
  known : ∀ k, ∀ s ∈ e.sourcesOf k, ∃ found, t.find? (s.sourceId uri) = some found
    ∧ found.isIndexable k = true ∧ found.loaded = true
  first : ∀ k s, (e.sourcesOf k).head? = some s →
    ∀ found, t.find? (s.sourceId uri) = some found → found.initial = 0

variable {e : Exporter} {uri : String}

/-- A new reader has no scalars of any kind. -/
theorem IsKnownTo.serves {r : Reader} (h : e.IsKnownTo uri r) : e.Serves uri r := by
  refine ⟨h.current_eq, h.source_eq, h.vertices_eq, ?_, ?_⟩
  · intro k s hs
    obtain ⟨found, hfind, _, hindexable⟩ := h.known k s hs
    exact ⟨found, hfind, hindexable⟩
  · intro k s hhead found hfound
    obtain ⟨found', hfind, hloaded, _⟩ := h.known k s (List.mem_of_head? hhead)
    obtain rfl : found' = found := Option.some.inj (hfind.symm.trans hfound)
    refine Or.inl ⟨hloaded, ?_⟩
    rw [h.mesh_eq]
    cases k <;> rfl

/-- Resolving the inputs of an export loads its sources. -/
theorem Serves.loaded {r : Reader} (hnames : e.Names uri) (h : e.Serves uri r) (layout : Layout) :
    e.Loaded uri ((⟨r.mesh, r.sources, layout⟩ : Resolution).resolveAll
      (e.inputs uri)).value.sources := by
  have hid {k : DataKind} {s : ExportSource} (hs : s ∈ e.sourcesOf k) :
      (s.shared e.tuple.value uri).sourceId = s.sourceId uri := by
    obtain ⟨hwritten, hkind⟩ := mem_sourcesOf.mp hs
    exact s.sourceId_shared _ uri (hnames.named s hwritten (by simp [hkind]))
  constructor
  · intro k s hs
    obtain ⟨found, hfind, hindexable⟩ := h.known k s hs
    obtain ⟨hwritten, hkind⟩ := mem_sourcesOf.mp hs
    obtain ⟨later, hlater, hbecomes⟩ :=
      Resolution.keeps_resolveAll ⟨r.mesh, r.sources, layout⟩ (e.inputs uri) _ found hfind
    refine ⟨later, hlater, (hbecomes.isIndexable_eq k).trans hindexable, ?_⟩
    have hmem : s.shared e.tuple.value uri ∈ e.inputs uri := List.mem_map_of_mem hwritten
    rw [← hid hs] at hlater
    exact Resolution.loaded_resolveAll _ hmem ((s.kind_shared _ uri).trans hkind) hlater
  · intro k s hhead found hfound
    have hs : s ∈ e.sourcesOf k := List.mem_of_head? hhead
    obtain ⟨start, hstart, hindexable⟩ := h.known k s hs
    have hfirst := h.first k s hhead start hstart
    rw [sourcesOf, List.head?_filter, List.find?_eq_some_iff_append] at hhead
    obtain ⟨hkind, before, behind, hsplit, hbefore⟩ := hhead
    have hinputs : e.inputs uri = before.map (·.shared e.tuple.value uri)
        ++ s.shared e.tuple.value uri :: behind.map (·.shared e.tuple.value uri) := by
      rw [inputs, hsplit, List.map_append, List.map_cons]
    rw [← hid hs] at hstart hfound
    -- The inputs before the first one are for other kinds, and so of other sources.
    have hothers : ∀ j ∈ before.map (·.shared e.tuple.value uri),
        ∀ k', DataKind.ofSemantic? j.semantic = some k' → k' ≠ k
          ∧ Text.fragment (s.shared e.tuple.value uri).sourceId ≠ Text.fragment j.sourceId := by
      intro j hj k' hk'
      obtain ⟨s', hs', rfl⟩ := List.mem_map.mp hj
      rw [s'.kind_shared] at hk'
      have hmem : s' ∈ e.sourcesOf k' := mem_sourcesOf.mpr ⟨by rw [hsplit]; simp [hs'], hk'⟩
      have hne : k' ≠ k := by
        rintro rfl
        have hno := hbefore s' hs'
        simp [hk'] at hno
      refine ⟨hne, fun heq => hne ?_⟩
      rw [hid hs, hid hmem] at heq
      exact (hnames.single k k' s hs s' hmem heq).symm
    have hinitial : ∃ later, ((⟨r.mesh, r.sources, layout⟩ : Resolution).resolveAll
          (e.inputs uri)).value.sources.find? (s.shared e.tuple.value uri).sourceId = some later
        ∧ later.loaded = true ∧ later.initial = 0 := by
      rw [hinputs]
      exact Resolution.initial_resolveAll _ ((s.kind_shared _ uri).trans (of_decide_eq_true hkind))
        hothers hstart hindexable hfirst
    obtain ⟨later, hlater, _, hzero⟩ := hinitial
    rw [hfound] at hlater
    rw [Option.some.inj hlater]
    exact hzero

/-- Loaded sources stay as they are. -/
theorem Loaded.keeps {t later : SourceTable} (h : e.Loaded uri t) (hkeeps : t.Keeps later)
    {k : DataKind} {s : ExportSource} (hs : s ∈ e.sourcesOf k) :
    later.find? (s.sourceId uri) = t.find? (s.sourceId uri) := by
  obtain ⟨found, hfind, _, hloaded⟩ := h.known k s hs
  obtain ⟨found', hfind', hbecomes⟩ := hkeeps _ found hfind
  rw [hfind, hfind', hbecomes.eq_of_loaded hloaded]

/-! ## What a primitive says -/

/-- The index that is read for a source is the one that was written, moved to where the source
    lies in the merged buffer. -/
theorem read_values {s : ExportSource} (hs : s ∈ e.writtenSources) (found : Source)
    (v : Nat × Nat) :
    (Lane.ofInput (s.shared e.tuple.value uri) found).read (e.tuple.value.values e.host v).toArray
      = Index.saturate ((s.attribute.value e.host v.1 v.2).toNat + found.correction) := by
  have hrow := e.lists_tuple.getElem?_row hs e.host v.1 v.2
  have hvalue : (e.tuple.value.values e.host v)[e.tuple.value.offset s]?
      = some (s.attribute.value e.host v.1 v.2).toNat := by
    rw [Tuple.values, List.getElem?_map, hrow]
    rfl
  have hoffset : (Lane.ofInput (s.shared e.tuple.value uri) found).offset
      = e.tuple.value.offset s := s.offset_shared _ _
  rw [Lane.read, hoffset, Array.getD_eq_getD_getElem?, List.getElem?_toArray, hvalue]
  rfl

theorem saturate_toNat (i : UInt32) : Index.saturate (i.toNat + 0) = i := by
  apply UInt32.toNat_inj.mp
  have hlt := i.toNat_lt
  rw [Index.toNat_saturate, Index.limit]
  omega

/-- A primitive says the same as the listing of a slot. The sources are as in a table. -/
structure Conveys (e : Exporter) (t : SourceTable) (triangulated : Bool) (slot : Nat)
    (l : Listing) (p : Primitive) : Prop where
  slot_eq : l.header.material = e.host.shaders[slot]?
  material_eq : p.material = l.header.material.getD ""
  faces_eq : p.faces = l.header.count
  positions_eq : p.positions = ((e.slotVertices triangulated slot).map fun v =>
    e.host.vertex v.1 v.2).toArray
  normals_eq : p.normals = if ∃ s ∈ e.writtenSources, s.semantic = .normal then
    ((e.slotVertices triangulated slot).map fun v => (e.host.normal v.1 v.2).getD 0).toArray
    else #[]
  texCoords_eq : List.Forall₂ (fun s c => ∃ found, t.find? s.id = some found ∧
    c = s.channel found ((e.slotVertices triangulated slot).map fun v =>
      (e.host.texCoord v.1 v.2 s.set).getD 0)) (e.sourcesByOffset .texCoord) p.texCoords
  colors_eq : List.Forall₂ (fun s c => ∃ found, t.find? s.id = some found ∧
    c = s.channel found ((e.slotVertices triangulated slot).map fun v =>
      ((e.host.color v.1 v.2 s.set).or (e.host.colorSets[s.set]?.map (·.white))).getD 0))
    (e.sourcesByOffset .color) p.colors

section Columns

variable {t : SourceTable} (hnames : e.Names uri) (h : e.Loaded uri t) (vs : List (Nat × Nat))

include h

/-- The sources of a kind are found. -/
theorem Loaded.find?_getD {k : DataKind} {s : ExportSource} (hs : s ∈ e.sourcesOf k) :
    t.find? (s.sourceId uri) = some ((t.find? (s.sourceId uri)).getD default)
      ∧ ((t.find? (s.sourceId uri)).getD default).isIndexable k = true := by
  obtain ⟨found, hfind, hindexable, _⟩ := h.known k s hs
  rw [hfind]
  exact ⟨rfl, hindexable⟩

include hnames

/-- **The first source of a kind is read as it was written**, because it begins its buffer. -/
theorem column_sourcesOf (k : DataKind) (index : Nat × Nat → UInt32)
    (hindex : ∀ s ∈ e.sourcesOf k, ∀ v, s.attribute.value e.host v.1 v.2 = index v) :
    Layout.column ((t.used k (e.inputs uri)).head?.map fun u => .ofInput u.1 u.2)
        (vs.map fun v => (e.tuple.value.values e.host v).toArray)
      = if e.sourcesOf k = [] then #[] else (vs.map index).toArray := by
  rw [used_inputs hnames.named fun s hs => h.find?_getD hs, List.head?_map]
  cases hhead : (e.sourcesOf k).head? with
  | none => rw [if_pos (List.head?_eq_none_iff.mp hhead)]; rfl
  | some s =>
      have hs : s ∈ e.sourcesOf k := List.mem_of_head? hhead
      have hne : e.sourcesOf k ≠ [] := List.ne_nil_of_mem hs
      have hzero := h.first k s hhead _ (h.find?_getD hs).1
      have hcorrection : ((t.find? (s.sourceId uri)).getD default).correction = 0 := by
        rw [Source.correction, hzero, Nat.zero_div]
      rw [if_neg hne, Option.map_some, Option.map_some, Layout.column, List.map_map]
      congr 1
      apply List.map_congr_left
      intro v _
      rw [Function.comp_apply, read_values (mem_sourcesOf.mp hs).1, hcorrection, saturate_toNat,
        hindex s hs]

/-- **Each channel is read as it was written**, up to the correction of its source. -/
theorem channels_sourcesByOffset (k : DataKind) (index : ExportSource → Nat × Nat → UInt32)
    (hk : k = .texCoord ∨ k = .color)
    (hindex : ∀ s ∈ e.sourcesOf k, ∀ v, s.attribute.value e.host v.1 v.2 = index s v) :
    List.Forall₂ (fun s c => ∃ found, t.find? s.id = some found ∧
        c = s.channel found (vs.map (index s))) (e.sourcesByOffset k)
      ((ChannelLane.byOffset e.tuple.value.attributes.length
          ((t.used k (e.inputs uri)).map fun u => .ofInput u.1 u.2)).map
        (·.fill (vs.map fun v => (e.tuple.value.values e.host v).toArray))) := by
  rw [SourceTable.byOffset_used, usedByOffset_inputs hnames.named fun s hs => h.find?_getD hs,
    List.map_map, List.map_map, List.forall₂_map_right_iff, List.forall₂_same]
  intro s hmem
  have hs := mem_sourcesOf_of_mem_sourcesByOffset hmem
  obtain ⟨hvertex, hset⟩ := s.set?_of_kind? (kind?_of_mem hs) hk
  obtain ⟨hfind, _⟩ := h.find?_getD hs
  have hid : s.sourceId uri = s.id := if_neg hvertex
  refine ⟨(t.find? (s.sourceId uri)).getD default, hid ▸ hfind, ?_⟩
  have hshared : (s.shared e.tuple.value uri).set = s.set := by
    unfold ExportSource.shared
    rw [if_neg hvertex, hset]
    rfl
  have hindices : (vs.map fun v => (e.tuple.value.values e.host v).toArray).map
        (Lane.ofInput (s.shared e.tuple.value uri) ((t.find? (s.sourceId uri)).getD default)).read
      = (vs.map (index s)).map fun i => Index.saturate
          (i.toNat + ((t.find? (s.sourceId uri)).getD default).correction) := by
    rw [List.map_map, List.map_map]
    apply List.map_congr_left
    intro v _
    rw [Function.comp_apply, read_values (mem_sourcesOf.mp hs).1, hindex s hs]
    rfl
  simp only [Function.comp_apply, ChannelLane.fill, ChannelLane.ofInput, ExportSource.channel]
  rw [hindices, hshared]

end Columns

/-! ## One listing -/

section Listings

variable {triangulated : Bool} {slot : Nat} {fs : List Faces} {l : Listing} {r : Reader}
  (hl : e.ListsSlot e.tuple.value triangulated slot fs l) (h : e.Serves uri r)
  (hnames : e.Names uri)

include hl h

/-- What the inputs of a listing resolve to. -/
theorem Serves.resolution_eq : l.session.resolution r =
    ((⟨r.mesh, r.sources, .unused (InputList.mk (e.inputs uri)).width⟩ : Resolution).resolveAll
      (e.inputs uri)).value := by
  show ((⟨r.mesh, r.sources, .unused (l.session.inputList r.vertices).width⟩ :
    Resolution).resolveAll (l.session.inputList r.vertices).inputs).value = _
  rw [hl.inputList_eq h.vertices_eq]

theorem Serves.layout_eq (hvertex : ∃ s ∈ e.writtenSources, s.semantic = .vertex) :
    (l.session.resolution r).layout = .ofInputs (l.session.resolution r).sources
      e.tuple.value.attributes.length (e.inputs uri) := by
  have hlayout := l.session.layout_resolution r
  rw [hl.width_inputList (pos_length_attributes hvertex) (by simp [h.vertices_eq]),
    hl.inputList_eq h.vertices_eq] at hlayout
  exact hlayout

include hnames

theorem Serves.loaded_listing : e.Loaded uri (l.session.resolution r).sources := by
  rw [h.resolution_eq hl]
  exact h.loaded hnames _

/-- A reader that serves an export also does behind a listing. -/
theorem Serves.behind : e.Serves uri (l.session.behind r) := by
  have hloaded := h.loaded_listing hl hnames
  refine ⟨l.session.current_behind r, (l.session.source_behind r).trans h.source_eq, ?_, ?_, ?_⟩
  · rw [Session.vertices_behind, h.vertices_eq]
  · intro k s hs
    rw [Session.sources_behind]
    obtain ⟨found, hfind, hindexable, _⟩ := hloaded.known k s hs
    exact ⟨found, hfind, hindexable⟩
  · intro k s hhead found hfound
    rw [Session.sources_behind] at hfound
    obtain ⟨found', hfind, _, hfirst⟩ := hloaded.known k s (List.mem_of_head? hhead)
    obtain rfl : found' = found := Option.some.inj (hfind.symm.trans hfound)
    exact Or.inr ⟨hfirst, hloaded.first k s hhead _ hfind⟩

/-- **A listing is read as a primitive that says the same.** -/
theorem Serves.conveys (hvertex : ∃ s ∈ e.writtenSources, s.semantic = .vertex)
    (hlimit : triangulated = false → (e.slotVertices triangulated slot).length ≤ counterLimit) :
    ∃ p, (l.session.assembly r).finished = some p
      ∧ e.Conveys (l.session.resolution r).sources triangulated slot l p := by
  have ht := pos_length_attributes hvertex
  have hwidth := hl.width_inputList ht (v := r.vertices) (by simp [h.vertices_eq])
  obtain ⟨p, hp, hfaces, hmaterial, hfill⟩ := hl.finished ht hlimit r hwidth
  have hloaded := h.loaded_listing hl hnames
  rw [h.layout_eq hl hvertex] at hfill
  -- The source for the vertices element is one for positions to the reader.
  have hpositions : e.sourcesOf .position ≠ [] := by
    obtain ⟨s, hs, hsemantic⟩ := hvertex
    exact List.ne_nil_of_mem (mem_sourcesOf.mpr ⟨hs, if_pos hsemantic⟩)
  refine ⟨p, hp, hl.material_eq, hmaterial, hfaces, ?_, ?_, ?_, ?_⟩
  · rw [← hfill, Layout.fill, Layout.ofInputs]
    dsimp only
    rw [column_sourcesOf hnames hloaded _ .position fun v => e.host.vertex v.1 v.2,
      if_neg hpositions]
    intro s hs v
    exact s.value_of_position e.host v.1 v.2 (kind?_of_mem hs)
  · rw [← hfill, Layout.fill, Layout.ofInputs]
    dsimp only
    rw [column_sourcesOf hnames hloaded _ .normal fun v => (e.host.normal v.1 v.2).getD 0]
    · by_cases hnone : e.sourcesOf .normal = []
      · rw [if_pos hnone, if_neg (e.sourcesOf_normal_eq_nil.mp hnone)]
      · rw [if_neg hnone, if_pos (not_not.mp (mt e.sourcesOf_normal_eq_nil.mpr hnone))]
    · intro s hs v
      exact s.value_of_normal e.host v.1 v.2 (kind?_of_mem hs)
  · rw [← hfill, Layout.fill, Layout.ofInputs]
    apply channels_sourcesByOffset hnames hloaded _ .texCoord _ (Or.inl rfl)
    intro s hs v
    exact s.value_of_texCoord e.host v.1 v.2 (kind?_of_mem hs)
  · rw [← hfill, Layout.fill, Layout.ofInputs]
    apply channels_sourcesByOffset hnames hloaded _ .color _ (Or.inr rfl)
    intro s hs v
    exact s.value_of_color e.host v.1 v.2 (kind?_of_mem hs)

end Listings

/-! ## All listings -/

/-- What a primitive says does not change after its listing was read. -/
theorem Conveys.later {triangulated : Bool} {slot : Nat} {l : Listing} {p : Primitive}
    {t later : SourceTable} (h : e.Conveys t triangulated slot l p) (hloaded : e.Loaded uri t)
    (hkeeps : t.Keeps later) : e.Conveys later triangulated slot l p := by
  -- Channels are never positions, so their sources are known by their own ids.
  have hfind {k : DataKind} (hk : k ≠ .position) {s : ExportSource} (hs : s ∈ e.sourcesByOffset k) :
      later.find? s.id = t.find? s.id := by
    have hmem := mem_sourcesOf_of_mem_sourcesByOffset hs
    have hvertex : s.semantic ≠ .vertex := by
      intro hsemantic
      have hkind : s.kind? = some .position := if_pos hsemantic
      exact hk (Option.some.inj ((mem_sourcesOf.mp hmem).2.symm.trans hkind))
    have hid : s.sourceId uri = s.id := if_neg hvertex
    rw [← hid, hloaded.keeps hkeeps hmem]
  have hchannels {k : DataKind} (hk : k ≠ .position) {cs : List Channel}
      {channel : ExportSource → Source → Channel}
      (hcs : List.Forall₂ (fun s c => ∃ found, t.find? s.id = some found ∧ c = channel s found)
        (e.sourcesByOffset k) cs) :
      List.Forall₂ (fun s c => ∃ found, later.find? s.id = some found ∧ c = channel s found)
        (e.sourcesByOffset k) cs := by
    refine ((List.forall₂_and_left _ _).mpr ⟨fun s hs => hfind hk hs, hcs⟩).imp ?_
    rintro s c ⟨hsame, found, hfound, rfl⟩
    exact ⟨found, hsame.trans hfound, rfl⟩
  exact { h with
    texCoords_eq := hchannels (by simp) h.texCoords_eq
    colors_eq := hchannels (by simp) h.colors_eq }

/-- Listings are read one by one, each as a primitive behind those that are there. -/
theorem Serves.replayAll {triangulated : Bool} (hnames : e.Names uri)
    (hvertex : ∃ s ∈ e.writtenSources, s.semantic = .vertex)
    (hlimit : ∀ slot, triangulated = false →
      (e.slotVertices triangulated slot).length ≤ counterLimit)
    {slots : List Nat} {ls : List Listing}
    (hls : List.Forall₂ (fun slot l => ∃ fs, e.ListsSlot e.tuple.value triangulated slot fs l)
      slots ls) {r : Reader} (h : e.Serves uri r) :
    ∃ ps, (r.replayAll ls).value.1 = true
      ∧ (r.replayAll ls).value.2.mesh.primitives = r.mesh.primitives ++ ps.toArray
      ∧ r.sources.Keeps (r.replayAll ls).value.2.sources
      ∧ List.Forall₂ (fun x p => e.Conveys (r.replayAll ls).value.2.sources triangulated x.1 x.2 p)
        (slots.zip ls) ps := by
  induction hls generalizing r with
  | nil => exact ⟨[], rfl, by simp [Reader.replayAll], .refl r.sources, .nil⟩
  | @cons slot l slots ls hl hls ih =>
      obtain ⟨fs, hl⟩ := hl
      obtain ⟨p, hp, hconveys⟩ := h.conveys hl hnames hvertex (hlimit slot)
      have hreads := Listing.reads_listing hl.isPlaced h.current_eq h.source_eq
      rw [Reader.replayAll_of_reads hreads ls]
      obtain ⟨ps, htaken, hprimitives, hkeeps, hall⟩ := ih (h.behind hl hnames)
      -- Sources that are loaded stay as they are, so the primitive still says the same at the end.
      have hkept : r.sources.Keeps (l.session.behind r).sources := by
        rw [Session.sources_behind, h.resolution_eq hl]
        exact Resolution.keeps_resolveAll ⟨r.mesh, r.sources, _⟩ (e.inputs uri)
      refine ⟨p :: ps, htaken, ?_, hkept.trans hkeeps, ?_⟩
      · rw [hprimitives, Session.primitives_behind, hp, Array.append_assoc]
        simp
      · rw [Session.sources_behind] at hkeeps
        exact .cons (hconveys.later (h.loaded_listing hl hnames) hkeeps) hall

/-- **Exporting, recording, replaying and decoding are inverse.** An export to a new recorder
    succeeds, and a new reader that knows the sources takes all listings. Its mesh then has one
    primitive for each listing, in order, that says what the host said about the face vertices
    that were written. -/
theorem replay_write (e : Exporter) (uri : String) (r : Reader)
    (hvertex : ∃ s ∈ e.sources.faces, s.semantic = .vertex)
    (hpolygons : e.host.polygonCount < 2 ^ 31)
    (hvertices : ∀ p < e.host.polygonCount, e.host.vertexCount p < 2 ^ 31)
    (hr : e.IsKnownTo uri r) :
    let written := (e.write Recorder.empty).value
    let listings := written.2.1.listings.toList
    let slots := e.writtenSlots written.1.triangulated
    let read := (r.replayAll listings).value
    written.2.2 = .ok listings.length ∧ written.2.1.draft = .outside
    ∧ read.1 = true
    ∧ slots.length = listings.length
    ∧ List.Forall₂ (fun x p => e.Conveys read.2.sources written.1.triangulated x.1 x.2 p)
      (slots.zip listings) read.2.mesh.primitives.toList := by
  have hwritten := e.write_recorder
  have hlistings := e.written_spec
  obtain ⟨s, hs, hsemantic⟩ := hvertex
  -- The counter of a list of polygons cannot overflow within the limits of the host.
  have hlimit (slot : Nat) (hplain : e.decideTriangles.value = false) :
      (e.slotVertices e.decideTriangles.value slot).length ≤ counterLimit := by
    have hbound := e.length_slotVertices_le slot (2 ^ 31) fun p hp =>
      Nat.le_of_lt (hvertices p hp)
    have hsquare := Nat.mul_le_mul_right (2 ^ 31) (Nat.le_of_lt hpolygons)
    rw [hplain]
    unfold counterLimit
    omega
  obtain ⟨ps, htaken, hprimitives, _, hall⟩ := hr.serves.replayAll hr.toNames
    ⟨s, e.mem_writtenSources_of_vertex hs hsemantic, hsemantic⟩ hlimit hlistings
  have hempty : r.mesh.primitives = #[] := by
    rw [hr.mesh_eq]
    rfl
  rw [hempty, Array.empty_append] at hprimitives
  intro written listings slots read
  have htriangulated : written.1.triangulated = e.decideTriangles.value := by
    show (e.write Recorder.empty).value.1.triangulated = _
    rw [hwritten]
    rfl
  have hsame : listings = e.written := by
    show (e.write Recorder.empty).value.2.1.listings.toList = _
    rw [hwritten]
  have hread : read = (r.replayAll e.written).value := by
    show (r.replayAll listings).value = _
    rw [hsame]
  have hslots : slots = e.writtenSlots e.decideTriangles.value := by
    show e.writtenSlots written.1.triangulated = _
    rw [htriangulated]
  refine ⟨?_, ?_, by rw [hread]; exact htaken, ?_, ?_⟩
  · rw [hsame]
    show (e.write Recorder.empty).value.2.2 = _
    rw [hwritten]
  · show (e.write Recorder.empty).value.2.1.draft = _
    rw [hwritten]
  · rw [hslots, hsame]
    exact hlistings.length_eq
  · rw [hread, hslots, hsame, htriangulated, hprimitives]
    exact hall

/-- A polygon with a hole, two sets of texture coordinates and a color that the host does not
    know. The second set lies behind the first one in the merged buffer. -/
theorem replay_write_holed :
    let polygon : Polygon :=
      { (Polygon.ofOutline #[4, 5, 6]).addHole #[1, 2, 3] with
        normals := some #[0, 0, 0, 1, 1, 1]
        texCoords := #[#[0, 1, 2, 0, 1, 2], #[0, 0, 0, 1, 1, 1]]
        shader := some 0 }
    let e : Exporter :=
      .new ((PolygonSet.empty ["red"] ["t", "u"] [⟨"c", 7⟩]).add polygon).host "mesh"
        ⟨[⟨.vertex, "v", 0⟩, ⟨.normal, "n", 0⟩, ⟨.texCoord, "t", 0⟩, ⟨.uv, "u", 1⟩,
          ⟨.color, "c", 0⟩], ["p"]⟩ .plain
    let r : Reader :=
      { Reader.start "mesh" "" with
        sources :=
          ⟨[.fresh "p" (.float (.replicate 21 ⟨0⟩)) 3, .fresh "n" (.float (.replicate 6 ⟨0⟩)) 3,
            .fresh "t" (.float (.replicate 6 ⟨0⟩)) 2, .fresh "u" (.float (.replicate 4 ⟨0⟩)) 2,
            .fresh "c" (.float (.replicate 24 ⟨0⟩)) 3]⟩
        vertices := ⟨"mesh-vertices", "", [⟨.position, "#p"⟩]⟩ }
    let read := (r.replayAll (e.write Recorder.empty).value.2.1.listings.toList).value
    (∃ s ∈ e.sources.faces, s.semantic = .vertex)
    ∧ e.host.polygonCount < 2 ^ 31 ∧ (∀ p < e.host.polygonCount, e.host.vertexCount p < 2 ^ 31)
    ∧ e.IsKnownTo "#p" r ∧ read.1 = true
    ∧ ∃ p, read.2.mesh.primitives.toList = [p] ∧ p.material = "red"
      ∧ p.positions = #[4, 5, 6, 1, 2, 3] ∧ p.normals = #[0, 0, 0, 1, 1, 1]
      ∧ p.texCoords.length = 2 ∧ p.colors.length = 1 := by
  intro polygon e r read
  have hknown : e.IsKnownTo "#p" r :=
    { named := by
        intro s hs _
        have hall : ∀ s ∈ e.writtenSources,
            s.semantic = .vertex ∨ Text.fragment s.id = s.id := by decide +kernel
        exact hall s hs
      single := by intro k k'; cases k <;> cases k' <;> decide +kernel
      current_eq := rfl
      source_eq := rfl
      mesh_eq := by decide +kernel
      vertices_eq := rfl
      known := by
        intro k s hs
        have hall : ∀ s ∈ e.sourcesOf k, (r.sources.find? (s.sourceId "#p")).any
            (fun found => !found.loaded && found.isIndexable k) = true := by
          cases k <;> decide +kernel
        obtain ⟨found, hfind, hfits⟩ := (Option.any_eq_true _ _).mp (hall s hs)
        rw [Bool.and_eq_true, Bool.not_eq_true'] at hfits
        exact ⟨found, hfind, hfits⟩ }
  have hvertex : ∃ s ∈ e.sources.faces, s.semantic = .vertex := by decide +kernel
  have hpolygons : e.host.polygonCount < 2 ^ 31 := by decide +kernel
  have hvertices : ∀ p < e.host.polygonCount, e.host.vertexCount p < 2 ^ 31 := by decide +kernel
  obtain ⟨-, -, htaken, hlength, hall⟩ :=
    e.replay_write "#p" r hvertex hpolygons hvertices hknown
  refine ⟨hvertex, hpolygons, hvertices, hknown, htaken, ?_⟩
  have hslots : e.writtenSlots (e.write Recorder.empty).value.1.triangulated = [0] := by
    decide +kernel
  rw [hslots] at hlength hall
  obtain ⟨l, hl⟩ := List.length_eq_one_iff.mp hlength.symm
  have hread : read = (r.replayAll [l]).value := congrArg (fun ls => (r.replayAll ls).value) hl
  rw [hl] at hall
  obtain ⟨p, ps, hconveys, hrest, hps⟩ := List.forall₂_cons_left_iff.mp hall
  have hp : e.Conveys _ _ 0 l p := hconveys
  obtain rfl : ps = [] := List.forall₂_nil_left_iff.mp hrest
  rw [hread]
  refine ⟨p, hps, ?_, hp.positions_eq.trans (by decide +kernel),
    hp.normals_eq.trans (by decide +kernel), ?_, ?_⟩
  · rw [hp.material_eq, hp.slot_eq]
    rfl
  · rw [← hp.texCoords_eq.length_eq]
    decide +kernel
  · rw [← hp.colors_eq.length_eq]
    decide +kernel

end Exporter

end MeshWeave
