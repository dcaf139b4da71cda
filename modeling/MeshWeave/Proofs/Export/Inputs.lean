import MeshWeave.Proofs.Export.Slots
import MeshWeave.Proofs.Listing.Replaying
import MeshWeave.Proofs.Reader.Decoding
import MeshWeave.Proofs.Text.Reference

set_option autoImplicit false

/-! # The inputs of an export, as they are read

What a reader whose vertices element refers to one source of positions makes of the inputs of an
export. Each source that is written stands for one input, those for the vertices element included,
so that tuples are read as wide as they were written. The inputs of a kind of data are those for
the sources of that kind. -/

namespace MeshWeave

/-- The width is one more than the largest offset. -/
theorem InputList.width_eq {l : InputList} {n : Nat} (hlt : ∀ i ∈ l.inputs, i.offset < n)
    (hlast : ∃ i ∈ l.inputs, i.offset + 1 = n) : l.width = n := by
  have hmax (os : List Nat) (hos : ∀ o ∈ os, o < n) (hn : 0 < n) : os.foldr max 0 < n := by
    induction os with
    | nil => exact hn
    | cons o os ih =>
        have ho := hos o (by simp)
        have hrest := ih fun x hx => hos x (by simp [hx])
        rw [List.foldr_cons]
        omega
  obtain ⟨i, hi, hn⟩ := hlast
  have hle := l.offset_lt_width i hi
  have hmaxOffset : l.maxOffset < n := by
    apply hmax _ _ (by omega)
    intro o ho
    obtain ⟨j, hj, rfl⟩ := List.mem_map.mp ho
    exact hlt j hj
  unfold width at hle ⊢
  omega

namespace ExportSource

/-- The kind of data that a source is read as. The vertices element stands for positions. -/
def kind? (s : ExportSource) : Option DataKind :=
  if s.semantic = .vertex then some .position else DataKind.ofSemantic? s.semantic

/-- The id that a reader looks for if its vertices element refers to `uri`. -/
def sourceId (s : ExportSource) (uri : String) : String :=
  if s.semantic = .vertex then Text.fragment uri else s.id

/-- The input that a source is read as. -/
def shared (s : ExportSource) (t : Tuple) (uri : String) : SharedInput :=
  if s.semantic = .vertex then ⟨.position, uri, t.offset s, 0⟩
  else ⟨s.semantic, "#" ++ s.id, t.offset s, s.set?.getD 0⟩

/-- The id of a source names the source. That of the vertices element is not read as one. -/
def IsNamed (s : ExportSource) : Prop := s.semantic = .vertex ∨ Text.fragment s.id = s.id

variable (s : ExportSource) (t : Tuple) (uri : String)

theorem offset_shared : (s.shared t uri).offset = t.offset s := by
  unfold shared
  split <;> rfl

theorem kind_shared : DataKind.ofSemantic? (s.shared t uri).semantic = s.kind? := by
  unfold shared kind?
  split <;> rfl

theorem sourceId_shared (h : s.IsNamed) : (s.shared t uri).sourceId = s.sourceId uri := by
  unfold SharedInput.sourceId shared sourceId
  split
  · rfl
  · next hno =>
      rcases h with hvertex | hfragment
      · exact absurd hvertex hno
      · exact Text.fragment_hash hfragment

/-! ### Sources of a kind -/

/-- The semantics that stand for a kind. -/
theorem semantic_of_kind? {k : DataKind} (h : s.kind? = some k) :
    match k with
    | .position => s.semantic = .vertex ∨ s.semantic = .position
    | .normal => s.semantic = .normal
    | .texCoord => s.semantic = .texCoord ∨ s.semantic = .uv
    | .color => s.semantic = .color := by
  unfold kind? at h
  cases hs : s.semantic <;> rw [hs] at h <;> cases h <;> simp

/-- A source of channels refers to a set, and is not the vertices element. -/
theorem set?_of_kind? {k : DataKind} (h : s.kind? = some k) (hk : k = .texCoord ∨ k = .color) :
    s.semantic ≠ .vertex ∧ s.set? = some s.set := by
  unfold set?
  rcases hk with rfl | rfl
  · rcases s.semantic_of_kind? h with hs | hs <;> simp [hs, Semantic.isTexCoord]
  · have hs : s.semantic = .color := s.semantic_of_kind? h
    simp [hs]

section Values

variable (host : Host) (polygon position : Nat)

theorem value_of_position (h : s.kind? = some .position) :
    s.attribute.value host polygon position = host.vertex polygon position := by
  unfold Attribute.value ExportSource.attribute
  rcases s.semantic_of_kind? h with hs | hs <;> rw [hs]

theorem value_of_normal (h : s.kind? = some .normal) :
    s.attribute.value host polygon position = (host.normal polygon position).getD 0 := by
  have hs : s.semantic = .normal := s.semantic_of_kind? h
  unfold Attribute.value ExportSource.attribute
  rw [hs]

theorem value_of_texCoord (h : s.kind? = some .texCoord) :
    s.attribute.value host polygon position
      = (host.texCoord polygon position s.set).getD 0 := by
  unfold Attribute.value ExportSource.attribute
  rcases s.semantic_of_kind? h with hs | hs <;> rw [hs]

theorem value_of_color (h : s.kind? = some .color) :
    s.attribute.value host polygon position
      = ((host.color polygon position s.set).or
          (host.colorSets[s.set]?.map (·.white))).getD 0 := by
  have hs : s.semantic = .color := s.semantic_of_kind? h
  unfold Attribute.value ExportSource.attribute
  rw [hs]

end Values

end ExportSource

/-! ## Input lists -/

namespace Tuple

/-- A reader finds one input where one was written. -/
theorem expand_input (t : Tuple) (s : ExportSource) {id uri : String} {v : Vertices}
    (hv : v.inputs = [⟨.position, uri⟩]) (hid : s.semantic ≠ .vertex → id = s.id) :
    (t.input s id).shared.expand v = [s.shared t uri] := by
  unfold ExportSource.shared
  by_cases hvertex : s.semantic = .vertex
  · have hset : s.set? = none := by simp [ExportSource.set?, hvertex, Semantic.isTexCoord]
    rw [if_pos hvertex, SharedInput.expand_of_vertex hvertex, hv]
    show [(⟨.position, uri, t.offset s, s.set?.getD 0⟩ : SharedInput)] = _
    rw [hset]
    rfl
  · rw [if_neg hvertex, SharedInput.expand_of_ne hvertex]
    show [(⟨s.semantic, "#" ++ id, t.offset s, s.set?.getD 0⟩ : SharedInput)] = _
    rw [hid hvertex]

/-- The inputs of sources are read as wide as the tuple. -/
theorem Lists.width_expand {t : Tuple} {id : ExportSource → String} {ss : List ExportSource}
    (h : t.Lists id ss) (ht : 0 < t.attributes.length) {v : Vertices} (hv : v.inputs ≠ []) :
    (InputList.mk ((t.inputs.map ListedInput.shared).flatMap (·.expand v))).width
      = t.attributes.length := by
  have hmem {i : SharedInput} (hi : i ∈ t.inputs.map ListedInput.shared) :
      ∃ s ∈ ss, i.offset = t.offset s := by
    rw [h.inputs_eq, List.map_map] at hi
    obtain ⟨s, hs, rfl⟩ := List.mem_map.mp hi
    exact ⟨s, hs, rfl⟩
  apply InputList.width_eq
  · intro j hj
    obtain ⟨i, hi, hj⟩ := List.mem_flatMap.mp hj
    obtain ⟨s, hs, hoffset⟩ := hmem hi
    rw [SharedInput.offset_of_mem_expand hj, hoffset]
    exact h.offset_lt s hs
  · obtain ⟨s, hs, hlast⟩ := h.asked (t.attributes.length - 1) (by omega)
    have hi : (t.input s (id s)).shared ∈ t.inputs.map ListedInput.shared := by
      rw [h.inputs_eq]
      exact List.mem_map_of_mem (List.mem_map_of_mem hs)
    obtain ⟨j, hj⟩ := List.exists_mem_of_ne_nil _ ((t.input s (id s)).shared.expand_ne_nil hv)
    refine ⟨j, List.mem_flatMap.mpr ⟨_, hi, hj⟩, ?_⟩
    rw [SharedInput.offset_of_mem_expand hj]
    show t.offset s + 1 = _
    omega

end Tuple

namespace Exporter

/-- The sources of a kind of data that are written. -/
def sourcesOf (e : Exporter) (k : DataKind) : List ExportSource :=
  e.writtenSources.filter fun s => s.kind? = some k

/-- The sources of a kind of data that are written, ordered by offset and then by declaration. -/
def sourcesByOffset (e : Exporter) (k : DataKind) : List ExportSource :=
  (List.range e.tuple.value.attributes.length).flatMap fun o =>
    (e.sourcesOf k).filter (e.tuple.value.offset · == o)

/-- The inputs that a reader finds if its vertices element refers to `uri`. -/
def inputs (e : Exporter) (uri : String) : List SharedInput :=
  e.writtenSources.map (·.shared e.tuple.value uri)

theorem mem_sourcesOf {e : Exporter} {k : DataKind} {s : ExportSource} :
    s ∈ e.sourcesOf k ↔ s ∈ e.writtenSources ∧ s.kind? = some k := by
  rw [sourcesOf, List.mem_filter, decide_eq_true_iff]

theorem kind?_of_mem {e : Exporter} {k : DataKind} {s : ExportSource} (h : s ∈ e.sourcesOf k) :
    s.kind? = some k := (mem_sourcesOf.mp h).2

/-- There are normals exactly if a source of normals is written. -/
theorem sourcesOf_normal_eq_nil (e : Exporter) :
    e.sourcesOf .normal = [] ↔ ¬ ∃ s ∈ e.writtenSources, s.semantic = .normal := by
  rw [List.eq_nil_iff_forall_not_mem]
  constructor
  · rintro hnone ⟨s, hs, hsemantic⟩
    have hkind : s.kind? = some .normal := by
      unfold ExportSource.kind?
      rw [hsemantic]
      rfl
    exact hnone s (mem_sourcesOf.mpr ⟨hs, hkind⟩)
  · intro hnone s hs
    exact hnone ⟨s, (mem_sourcesOf.mp hs).1, s.semantic_of_kind? (kind?_of_mem hs)⟩

theorem mem_sourcesOf_of_mem_sourcesByOffset {e : Exporter} {k : DataKind} {s : ExportSource}
    (h : s ∈ e.sourcesByOffset k) : s ∈ e.sourcesOf k := by
  obtain ⟨o, _, hs⟩ := List.mem_flatMap.mp h
  exact List.mem_of_mem_filter hs

/-- **The inputs of a listing** as a reader finds them. -/
theorem ListsSlot.inputList_eq {e : Exporter} {triangulated : Bool} {slot : Nat}
    {fs : List Faces} {l : Listing} (h : e.ListsSlot e.tuple.value triangulated slot fs l)
    {v : Vertices} {uri : String} (hv : v.inputs = [⟨.position, uri⟩]) :
    l.session.inputList v = ⟨e.inputs uri⟩ := by
  have hinputs : l.header.inputs = e.tuple.value.inputs := by
    rw [h.listing_eq]
    rfl
  have hexpand (s : ExportSource) :
      (e.tuple.value.input s (e.reference s)).shared.expand v = [s.shared e.tuple.value uri] := by
    apply e.tuple.value.expand_input s hv
    intro hvertex
    unfold reference
    rw [if_neg (by simpa using hvertex)]
  show InputList.mk ((l.header.inputs.map ListedInput.shared).flatMap (·.expand v)) = _
  rw [hinputs, e.lists_tuple.inputs_eq, List.map_map, List.flatMap_map, inputs,
    List.map_eq_flatMap]
  congr 1
  exact List.flatMap_congr fun s _ => hexpand s

/-- A listing is read as wide as it was written. -/
theorem ListsSlot.width_inputList {e : Exporter} {triangulated : Bool} {slot : Nat}
    {fs : List Faces} {l : Listing} (h : e.ListsSlot e.tuple.value triangulated slot fs l)
    (ht : 0 < e.tuple.value.attributes.length) {v : Vertices} (hv : v.inputs ≠ []) :
    (l.session.inputList v).width = e.tuple.value.attributes.length := by
  rw [h.listing_eq]
  exact e.lists_tuple.width_expand ht hv

/-! ## The inputs of a kind -/

variable {e : Exporter} {uri : String} {t : SourceTable} {k : DataKind}
  {found : ExportSource → Source}

/-- The inputs of a kind are those for the sources of the kind, if all of these are found. -/
theorem used_inputs (hnamed : ∀ s ∈ e.writtenSources, s.kind?.isSome → s.IsNamed)
    (hfound : ∀ s ∈ e.sourcesOf k, t.find? (s.sourceId uri) = some (found s)
      ∧ (found s).isIndexable k = true) :
    t.used k (e.inputs uri)
      = (e.sourcesOf k).map fun s => (s.shared e.tuple.value uri, found s) := by
  unfold SourceTable.used inputs
  rw [List.filterMap_map, sourcesOf, ← List.filterMap_eq_map, List.filterMap_filter]
  apply List.filterMap_congr
  intro s hs
  by_cases hkind : s.kind? = some k
  · obtain ⟨hfind, hindexable⟩ := hfound s (mem_sourcesOf.mpr ⟨hs, hkind⟩)
    have hid := s.sourceId_shared e.tuple.value uri (hnamed s hs (by simp [hkind]))
    have husable : t.usable? k (s.shared e.tuple.value uri) = some (found s) := by
      rw [t.usable?_of_eq ((s.kind_shared _ _).trans hkind), hid, hfind, Option.filter_some,
        if_pos hindexable]
    simp [husable, hkind]
  · have husable : t.usable? k (s.shared e.tuple.value uri) = none :=
      t.usable?_of_ne (by rw [s.kind_shared]; exact hkind)
    simp [husable, hkind]

theorem usedByOffset_inputs (hnamed : ∀ s ∈ e.writtenSources, s.kind?.isSome → s.IsNamed)
    (hfound : ∀ s ∈ e.sourcesOf k, t.find? (s.sourceId uri) = some (found s)
      ∧ (found s).isIndexable k = true) :
    t.usedByOffset k e.tuple.value.attributes.length (e.inputs uri)
      = (e.sourcesByOffset k).map fun s => (s.shared e.tuple.value uri, found s) := by
  unfold SourceTable.usedByOffset sourcesByOffset
  rw [used_inputs hnamed hfound, List.map_flatMap]
  apply List.flatMap_congr
  intro o _
  rw [List.filter_map]
  congr 1
  apply List.filter_congr
  intro s _
  rw [Function.comp_apply, s.offset_shared]

end Exporter

end MeshWeave
