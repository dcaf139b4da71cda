import MeshWeave.Export.Basic

set_option autoImplicit false

/-! # Index tuples of an export

The inputs of an export and the attributes behind them in closed form. Each input has the offset
of the first attribute that it shares an index with, every attribute is the first one for some
input, and the attribute at the offset of an input has the values that the input stands for. -/

namespace MeshWeave

/-- The attribute that a source asks for. -/
def ExportSource.attribute (s : ExportSource) : Attribute := ⟨s.semantic, s.set⟩

/-- The set that an input for a source names. -/
def ExportSource.set? (s : ExportSource) : Option Nat :=
  if s.semantic.isTexCoord || s.semantic == .color then some s.set else none

/-- Attributes that share an index have the same values. -/
theorem Attribute.value_of_sharesIndex {a b : Attribute} (h : a.sharesIndex b = true) (host : Host)
    (polygon position : Nat) : a.value host polygon position = b.value host polygon position := by
  rw [sharesIndex, Bool.or_eq_true, Bool.and_eq_true, beq_iff_eq] at h
  rcases h with ⟨ha, hb⟩ | rfl
  · unfold value
    cases hsa : a.semantic <;> simp_all [Semantic.isNormalLike] <;>
      cases hsb : b.semantic <;> simp_all
  · rfl

theorem Attribute.sharesIndex_self (a : Attribute) : a.sharesIndex a = true := by
  simp [sharesIndex]

namespace Tuple

/-- The offset of a source in the tuple. -/
def offset (t : Tuple) (s : ExportSource) : Nat := t.attributes.findIdx (·.sharesIndex s.attribute)

/-- The input for a source, which refers to an element by id. -/
def input (t : Tuple) (s : ExportSource) (id : String) : ListedInput :=
  ⟨s.semantic, "#" ++ id, t.offset s, s.set?⟩

/-- The indices of one face vertex. -/
def row (t : Tuple) (h : Host) (polygon position : Nat) : List UInt32 :=
  t.attributes.map fun a => a.value h polygon position

/-- The inputs of a tuple are those for some sources, and its attributes are those that the sources
    ask for. -/
structure Lists (t : Tuple) (id : ExportSource → String) (ss : List ExportSource) : Prop where
  inputs_eq : t.inputs = ss.map fun s => t.input s (id s)
  offset_lt : ∀ s ∈ ss, t.offset s < t.attributes.length
  asked : ∀ o < t.attributes.length, ∃ s ∈ ss, t.offset s = o

/-- The attribute of an input is there. -/
theorem Lists.attributes_ne {t : Tuple} {id : ExportSource → String} {ss : List ExportSource}
    (h : t.Lists id ss) {s : ExportSource} (hs : s ∈ ss) : t.attributes ≠ [] :=
  List.ne_nil_of_length_pos (Nat.zero_lt_of_lt (h.offset_lt s hs))

theorem lists_empty (id : ExportSource → String) : empty.Lists id [] where
  inputs_eq := rfl
  offset_lt := fun s hs => absurd hs (by simp)
  asked := fun o ho => absurd ho (by simp [empty])

/-- Attributes that are added behind do not move an offset that was found. -/
theorem offset_of_append {t t' : Tuple} {as : List Attribute}
    (h : t'.attributes = t.attributes ++ as) {s : ExportSource}
    (hs : t.offset s < t.attributes.length) : t'.offset s = t.offset s := by
  unfold offset at hs ⊢
  rw [h, List.findIdx_append, if_pos hs]

/-- The attribute of a source is added behind the others, unless one of them serves it. -/
theorem attributes_add (t : Tuple) (s : ExportSource) (id : String) :
    (t.add s id).attributes
      = t.attributes ++ if t.offset s < t.attributes.length then [] else [s.attribute] := by
  show (if t.offset s < t.attributes.length then t.attributes
    else t.attributes ++ [s.attribute]) = _
  split <;> simp

theorem Lists.add {t : Tuple} {id : ExportSource → String} {ss : List ExportSource}
    (h : t.Lists id ss) (s : ExportSource) : (t.add s (id s)).Lists id (ss ++ [s]) := by
  have hinputs : (t.add s (id s)).inputs
      = t.inputs ++ [⟨s.semantic, "#" ++ id s, t.offset s, s.set?⟩] := rfl
  have hattributes := t.attributes_add s (id s)
  have hbefore : ∀ w ∈ ss, (t.add s (id s)).offset w = t.offset w :=
    fun w hw => offset_of_append hattributes (h.offset_lt w hw)
  have hself : (t.add s (id s)).offset s = t.offset s ∧
      (t.add s (id s)).offset s < (t.add s (id s)).attributes.length := by
    by_cases hs : t.offset s < t.attributes.length
    · rw [if_pos hs, List.append_nil] at hattributes
      unfold offset at hs ⊢
      rw [hattributes]
      exact ⟨rfl, hs⟩
    · -- The attribute is new, and stands where the search ended.
      have hle : t.offset s ≤ t.attributes.length := List.findIdx_le_length
      have hnew : (t.add s (id s)).offset s = t.attributes.length := by
        rw [if_neg hs] at hattributes
        unfold offset at hs ⊢
        rw [hattributes, List.findIdx_append, if_neg hs, List.findIdx_cons,
          s.attribute.sharesIndex_self, cond_true, Nat.zero_add]
      refine ⟨by omega, ?_⟩
      rw [hnew, hattributes, if_neg hs, List.length_append]
      exact Nat.lt_succ_self _
  -- Offsets that were given stay, so the inputs before keep theirs and the new one gets its own.
  refine ⟨?_, ?_, ?_⟩
  · rw [hinputs, h.inputs_eq, List.map_append, List.map_singleton]
    congr 1
    · apply List.map_congr_left
      intro w hw
      rw [input, input, hbefore w hw]
    · rw [input, hself.1]
  · intro w hw
    rcases List.mem_append.mp hw with hw | hw
    · rw [hbefore w hw, hattributes, List.length_append]
      exact Nat.lt_add_right _ (h.offset_lt w hw)
    · rw [List.mem_singleton.mp hw]
      exact hself.2
  · intro o ho
    by_cases hlt : o < t.attributes.length
    · obtain ⟨w, hw, rfl⟩ := h.asked o hlt
      exact ⟨w, by simp [hw], hbefore w hw⟩
    · -- Only the new attribute has an offset behind the others.
      refine ⟨s, by simp, ?_⟩
      have hlength : (t.add s (id s)).attributes.length ≤ t.attributes.length + 1 := by
        rw [hattributes, List.length_append]
        split <;> simp
      by_cases hs : t.offset s < t.attributes.length
      · rw [hattributes, if_pos hs, List.append_nil] at ho
        exact absurd ho hlt
      · have hle : t.offset s ≤ t.attributes.length := List.findIdx_le_length
        rw [hself.1]
        omega

theorem Lists.addEach {t : Tuple} {id : ExportSource → String} {ss : List ExportSource}
    (h : t.Lists id ss) (ws : List ExportSource) :
    (ws.foldl (fun t s => t.add s (id s)) t).Lists id (ss ++ ws) := by
  induction ws generalizing t ss with
  | nil => rwa [List.append_nil]
  | cons w ws ih =>
      have hrest := ih (h.add w)
      rwa [List.append_assoc, List.singleton_append] at hrest

/-! ## Rows -/

@[simp] theorem length_row (t : Tuple) (h : Host) (polygon position : Nat) :
    (t.row h polygon position).length = t.attributes.length := by
  rw [row, List.length_map]

theorem indices_eq (t : Tuple) (h : Host) (polygon : Nat) (positions : List Nat) :
    t.indices h polygon positions = positions.flatMap (t.row h polygon) := rfl

/-- The indices of an outline and its holes are those of each ring. -/
theorem indices_rings (t : Tuple) (h : Host) (polygon : Nat) (outline : List Nat)
    (holes : List (List Nat)) :
    t.indices h polygon (outline ++ holes.flatten)
      = t.indices h polygon outline ++ (holes.map (t.indices h polygon)).flatten := by
  have hflatten : holes.flatten = holes.flatMap id := List.flatMap_id.symm
  rw [indices_eq, List.flatMap_append, hflatten, List.flatMap_assoc, ← List.flatMap_def]
  rfl

/-- The index at the offset of a source is the one that the source asks for. -/
theorem Lists.getElem?_row {t : Tuple} {id : ExportSource → String} {ss : List ExportSource}
    (h : t.Lists id ss) {s : ExportSource} (hs : s ∈ ss) (host : Host) (polygon position : Nat) :
    (t.row host polygon position)[t.offset s]?
      = some (s.attribute.value host polygon position) := by
  have hlt := h.offset_lt s hs
  have hshares : (t.attributes[t.offset s]).sharesIndex s.attribute = true :=
    List.findIdx_getElem (w := hlt)
  rw [row, List.getElem?_map, List.getElem?_eq_getElem hlt, Option.map_some,
    Attribute.value_of_sharesIndex hshares]

end Tuple

/-! ## The sources that are written -/

namespace Exporter

/-- The sources that the faces refer to, in order. -/
def writtenSources (e : Exporter) : List ExportSource :=
  e.sources.faces.filter fun s => (s.isWritten e.host e.mesh e.sources.vertices).value

/-- The id that the input for a source names. -/
def reference (e : Exporter) (s : ExportSource) : String :=
  if s.semantic == .vertex then e.options.verticesId e.mesh else s.id

theorem addAll_value (e : Exporter) (t : Tuple) (ss : List ExportSource) :
    (Tuple.addAll e.host e.mesh e.options e.sources.vertices t ss).value
      = (ss.filter fun s => (s.isWritten e.host e.mesh e.sources.vertices).value).foldl
          (fun t s => t.add s (e.reference s)) t := by
  induction ss generalizing t with
  | nil => rfl
  | cons s ss ih =>
      rw [Tuple.addAll, Noted.value_bind]
      by_cases hs : (s.isWritten e.host e.mesh e.sources.vertices).value = true
      · rw [if_pos hs, List.filter_cons_of_pos (by exact hs), List.foldl_cons]
        exact ih _
      · rw [if_neg hs, List.filter_cons_of_neg (by exact hs)]
        exact ih _

/-- **The inputs of an export** are those for the sources that are written. -/
theorem lists_tuple (e : Exporter) : e.tuple.value.Lists e.reference e.writtenSources := by
  rw [tuple, addAll_value]
  exact (Tuple.lists_empty e.reference).addEach e.writtenSources

/-- A source for the vertices element is always written. -/
theorem mem_writtenSources_of_vertex (e : Exporter) {s : ExportSource} (hs : s ∈ e.sources.faces)
    (hvertex : s.semantic = .vertex) : s ∈ e.writtenSources := by
  rw [writtenSources, List.mem_filter]
  refine ⟨hs, ?_⟩
  simp [ExportSource.isWritten, hvertex, Semantic.isExportable, Semantic.isNormalLike]

theorem exists_written_vertex {e : Exporter} (h : ∃ s ∈ e.sources.faces, s.semantic = .vertex) :
    ∃ s ∈ e.writtenSources, s.semantic = .vertex := by
  obtain ⟨s, hs, hsemantic⟩ := h
  exact ⟨s, e.mem_writtenSources_of_vertex hs hsemantic, hsemantic⟩

/-- So every face vertex is written with some index. -/
theorem pos_length_attributes {e : Exporter} (h : ∃ s ∈ e.writtenSources, s.semantic = .vertex) :
    0 < e.tuple.value.attributes.length := by
  obtain ⟨s, hs, -⟩ := h
  exact List.length_pos_iff.mpr (e.lists_tuple.attributes_ne hs)

end Exporter

end MeshWeave
