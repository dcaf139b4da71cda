import Mathlib.Data.List.Basic
import MeshWeave.Mesh.Merge
import MeshWeave.Proofs.Source.Table

set_option autoImplicit false

/-! # What merging does to a source

Merging a source as data of a kind has three outcomes: the source was loaded before and nothing
happens, it is refused for its type or stride, or its array becomes part of the buffer. In the last
two cases it is loaded from then on. Its id, stride, type and number of scalars never change, so
whether a source can be indexed is known before it is merged: `Source.isIndexable` depends only on
what never changes. -/

namespace MeshWeave

/-! ## Sources that can be indexed -/

/-- The strides that indices of a kind of data may have. -/
def DataKind.indexes (k : DataKind) (stride : Nat) : Bool :=
  match k with
  | .position => true
  | .normal => stride == 3
  | .color => StrideRange.color.contains stride
  | .texCoord => StrideRange.texCoord.contains stride

/-- Whether a primitive can index the source as data of a kind. -/
def Source.isIndexable (s : Source) (k : DataKind) : Bool :=
  s.type.isFloating && k.indexes s.stride

theorem Source.Becomes.isIndexable_eq {s later : Source} (h : s.Becomes later) (k : DataKind) :
    later.isIndexable k = s.isIndexable k := by
  rw [isIndexable, isIndexable, h.type_eq, h.stride_eq]

/-! ## Causes of refusal -/

namespace Mesh

theorem refusal?_of_loaded (k : DataKind) (s : Source) (h : s.loaded = true) :
    refusal? k s = some (.alreadyLoaded s.id) := by
  rw [refusal?, if_pos h]

theorem loaded_of_refusal?_none {k : DataKind} {s : Source} (h : refusal? k s = none) :
    s.loaded = false := by
  by_contra hl
  rw [refusal?_of_loaded k s (by simpa using hl)] at h
  exact absurd h (by simp)

theorem isFloating_of_refusal?_none {k : DataKind} {s : Source} (h : refusal? k s = none) :
    s.type.isFloating = true := by
  unfold refusal? at h
  split at h
  · exact absurd h (by simp)
  · split at h
    · exact absurd h (by simp)
    · next htype => simpa using htype

/-- A source that can be indexed is refused only when it was loaded before. -/
theorem refusal?_of_isIndexable {k : DataKind} {s : Source} (h : s.isIndexable k = true)
    (hl : s.loaded = false) : refusal? k s = none := by
  rw [Source.isIndexable, Bool.and_eq_true] at h
  obtain ⟨htype, hstride⟩ := h
  cases k <;> simp_all [refusal?, DataKind.strideRange?, DataKind.indexes]

/-- What is left of a refused source that is not loaded cannot be indexed. -/
theorem isIndexable_of_refusal? {k : DataKind} {s : Source} {why : Refusal}
    (h : refusal? k s = some why) (hwhy : ∀ id, why ≠ .alreadyLoaded id) :
    s.isIndexable k = false := by
  by_contra hs
  by_cases hl : s.loaded = true
  · rw [refusal?_of_loaded k s hl] at h
    exact hwhy s.id (Option.some.inj h).symm
  · rw [refusal?_of_isIndexable (by simpa using hs) (by simpa using hl)] at h
    exact absurd h (by simp)

end Mesh

/-! ## Merging -/

/-- The source after its array became part of a buffer: placed, and handed over or not. -/
theorem Buffer.merge_source (b : Buffer) (s : Source) :
    (b.merge s).2 = s.placeAt b.size ∨ (b.merge s).2 = (s.placeAt b.size).handOver := by
  rw [Buffer.merge]
  split
  · split <;> simp
  · split <;> simp
  · exact Or.inl rfl

namespace Mesh

variable (m : Mesh) (s : Source)

theorem mergeKind_of_refusal {k : DataKind} {why : Refusal} (h : refusal? k s = some why) :
    (m.mergeKind s k).value = ⟨m, s.refused, .error why⟩ := by
  rw [mergeKind, h]

theorem mergeKind_of_none {k : DataKind} (h : refusal? k s = none) :
    (m.mergeKind s k).value
      = ⟨m.setBuffer k
          (if k.hasSegments then ((m.buffer k).merge s).1.addSegment ⟨s.id, s.stride, s.size⟩
            else ((m.buffer k).merge s).1),
        ((m.buffer k).merge s).2, .ok (m.buffer k).size⟩ := by
  rw [mergeKind, h]

theorem merge_of_kind {semantic : Semantic} {k : DataKind}
    (h : DataKind.ofSemantic? semantic = some k) : m.merge s semantic = m.mergeKind s k := by
  rw [merge, h]

theorem merge_of_none {semantic : Semantic} (h : DataKind.ofSemantic? semantic = none) :
    (m.merge s semantic).value = ⟨m, s, .error (.unsupportedSemantic semantic)⟩ := by
  rw [merge, h]

theorem buffer_setBuffer (k k' : DataKind) (b : Buffer) :
    (m.setBuffer k b).buffer k' = if k' = k then b else m.buffer k' := by
  cases k <;> cases k' <;> rfl

/-- A source is placed where the buffer ended. -/
theorem initial_mergeKind {k : DataKind} (h : refusal? k s = none) :
    (m.mergeKind s k).value.source.initial = (m.buffer k).size := by
  rw [mergeKind_of_none m s h]
  rcases (m.buffer k).merge_source s with hs | hs <;> rw [hs] <;> rfl

/-- Merging as data of a kind leaves the buffers of other kinds alone. -/
theorem buffer_mergeKind_of_ne {k k' : DataKind} (hne : k' ≠ k) :
    (m.mergeKind s k).value.mesh.buffer k' = m.buffer k' := by
  rcases hwhy : refusal? k s with _ | why
  · rw [mergeKind_of_none m s hwhy]
    dsimp only
    rw [buffer_setBuffer, if_neg hne]
  · rw [mergeKind_of_refusal m s hwhy]

/-- Only the buffer that a source becomes part of is changed. -/
theorem buffer_mergeKind_eq_or (k k' : DataKind) :
    (m.mergeKind s k).value.mesh.buffer k' = m.buffer k' ∨ k' = k ∧ refusal? k s = none := by
  by_cases heq : k' = k
  · rcases hwhy : refusal? k s with _ | why
    · exact Or.inr ⟨heq, rfl⟩
    · rw [mergeKind_of_refusal m s hwhy]
      exact Or.inl rfl
  · exact Or.inl (m.buffer_mergeKind_of_ne s heq)

theorem buffer_merge_of_ne {semantic : Semantic} {k : DataKind}
    (h : DataKind.ofSemantic? semantic ≠ some k) :
    (m.merge s semantic).value.mesh.buffer k = m.buffer k := by
  rcases hk : DataKind.ofSemantic? semantic with _ | k'
  · rw [merge_of_none m s hk]
  · rw [merge_of_kind m s hk, buffer_mergeKind_of_ne]
    rintro rfl
    exact h hk

/-- After an attempt to merge it as data of some kind a source is loaded. -/
theorem loaded_mergeKind (k : DataKind) : (m.mergeKind s k).value.source.loaded = true := by
  rcases h : refusal? k s with _ | why
  · rw [mergeKind_of_none m s h]
    rcases (m.buffer k).merge_source s with hs | hs
    · simp only [hs, Source.placeAt]
    · simp only [hs, Source.handOver, Source.placeAt]
  · rw [mergeKind_of_refusal m s h, Source.refused]

theorem becomes_mergeKind (k : DataKind) : s.Becomes (m.mergeKind s k).value.source := by
  rcases h : refusal? k s with _ | why
  · -- A source that is merged was not loaded, and has its size noted before its array is taken.
    have hl : ¬ s.loaded = true := by simp [loaded_of_refusal?_none h]
    rw [mergeKind_of_none m s h]
    rcases (m.buffer k).merge_source s with hs | hs
    · rw [hs]
      exact ⟨rfl, rfl, rfl, rfl, fun hloaded => absurd hloaded hl⟩
    · rw [hs]
      exact ⟨rfl, rfl, Source.type_handOver _, Source.size_handOver _,
        fun hloaded => absurd hloaded hl⟩
  · rw [mergeKind_of_refusal m s h]
    refine ⟨rfl, rfl, rfl, rfl, ?_⟩
    intro hloaded
    rw [Source.refused, ← hloaded]

theorem becomes_merge (semantic : Semantic) :
    s.Becomes (m.merge s semantic).value.source := by
  rcases h : DataKind.ofSemantic? semantic with _ | k
  · rw [merge_of_none m s h]
    exact .refl s
  · rw [merge_of_kind m s h]
    exact m.becomes_mergeKind s k

/-- Merging touches nothing but the buffers of the mesh. -/
theorem primitives_merge (semantic : Semantic) :
    (m.merge s semantic).value.mesh.primitives = m.primitives := by
  rcases h : DataKind.ofSemantic? semantic with _ | k
  · rw [merge_of_none m s h]
  · rw [merge_of_kind m s h]
    rcases hwhy : refusal? k s with _ | why
    · rw [mergeKind_of_none m s hwhy]
      cases k <;> rfl
    · rw [mergeKind_of_refusal m s hwhy]

end Mesh

end MeshWeave
