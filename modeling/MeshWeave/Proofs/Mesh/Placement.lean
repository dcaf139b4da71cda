import MeshWeave.Proofs.Mesh.Merging

set_option autoImplicit false

/-! # Where merged scalars are

A merged buffer holds the scalars of each of its sources behind one another, from the place that the
source notes, converted to the precision of the buffer. `Buffer.HoldsAt` says so of one source. It
stays true while more sources are merged, because a buffer that holds scalars only grows and never
changes its type, which is `Buffer.Keeps`. -/

namespace MeshWeave

/-! ## Single scalars -/

/-- A scalar of a buffer, in the precision of the buffer. -/
def Coordinates.get? : Coordinates → Nat → Option (Single ⊕ Double)
  | untyped, _ => none
  | float xs, i => xs[i]?.map .inl
  | double xs, i => xs[i]?.map .inr

/-- A scalar of an array, converted to the precision of a type of vertex data. -/
def Scalars.getAs? : Scalars → ScalarType → Nat → Option (Single ⊕ Double)
  | float xs, .float32, i => xs[i]?.map .inl
  | float xs, .float64, i => xs[i]?.map fun x => .inr x.toDouble
  | double xs, .float32, i => xs[i]?.map fun x => .inl x.toSingle
  | double xs, .float64, i => xs[i]?.map .inr
  | _, _, _ => none

/-- A later buffer has all scalars of an earlier one at their places, and their type. -/
def Buffer.Keeps (b later : Buffer) : Prop :=
  b.size ≤ later.size ∧ ∀ i < b.size, later.data.get? i = b.data.get? i ∧ later.type = b.type

/-- A buffer holds all scalars of an array from a place on. -/
def Buffer.HoldsAt (b : Buffer) (place : Nat) (xs : Scalars) : Prop :=
  place + xs.size ≤ b.size ∧
    ∀ j < xs.size, ∃ x, b.data.get? (place + j) = some x ∧ xs.getAs? b.type j = some x

namespace Coordinates

variable (c : Coordinates)

/-- Appending keeps what is there. -/
theorem get?_appendFloat_of_lt (ys : Array Single) {i : Nat} (h : i < c.size) :
    (c.appendFloat ys).get? i = c.get? i ∧ (c.appendFloat ys).type = c.type := by
  cases c with
  | untyped => exact absurd h (Nat.not_lt_zero i)
  | float xs =>
      have hi : i < xs.size := h
      exact ⟨by simp only [appendFloat, get?, Array.getElem?_append_left hi], rfl⟩
  | double xs =>
      have hi : i < xs.size := h
      exact ⟨by simp only [appendFloat, get?, Array.getElem?_append_left hi], rfl⟩

theorem get?_appendDouble_of_lt (ys : Array Double) {i : Nat} (h : i < c.size) :
    (c.appendDouble ys).get? i = c.get? i ∧ (c.appendDouble ys).type = c.type := by
  cases c with
  | untyped => exact absurd h (Nat.not_lt_zero i)
  | float xs =>
      have hi : i < xs.size := h
      exact ⟨by simp only [appendDouble, get?, Array.getElem?_append_left hi], rfl⟩
  | double xs =>
      have hi : i < xs.size := h
      exact ⟨by simp only [appendDouble, get?, Array.getElem?_append_left hi], rfl⟩

/-- What is appended is there, converted. -/
theorem get?_appendFloat_size_add (ys : Array Single) {j : Nat} (h : j < ys.size) :
    ∃ x, (c.appendFloat ys).get? (c.size + j) = some x
      ∧ (Scalars.float ys).getAs? (c.appendFloat ys).type j = some x := by
  cases c with
  | untyped =>
      exact ⟨.inl ys[j], by simp [appendFloat, get?, size, h],
        by simp [appendFloat, type, Scalars.getAs?, h]⟩
  | float xs =>
      exact ⟨.inl ys[j], by simp [appendFloat, get?, size, h],
        by simp [appendFloat, type, Scalars.getAs?, h]⟩
  | double xs =>
      exact ⟨.inr ys[j].toDouble, by simp [appendFloat, get?, size, h],
        by simp [appendFloat, type, Scalars.getAs?, h]⟩

theorem get?_appendDouble_size_add (ys : Array Double) {j : Nat} (h : j < ys.size) :
    ∃ x, (c.appendDouble ys).get? (c.size + j) = some x
      ∧ (Scalars.double ys).getAs? (c.appendDouble ys).type j = some x := by
  cases c with
  | untyped =>
      exact ⟨.inr ys[j], by simp [appendDouble, get?, size, h],
        by simp [appendDouble, type, Scalars.getAs?, h]⟩
  | float xs =>
      exact ⟨.inl ys[j].toSingle, by simp [appendDouble, get?, size, h],
        by simp [appendDouble, type, Scalars.getAs?, h]⟩
  | double xs =>
      exact ⟨.inr ys[j], by simp [appendDouble, get?, size, h],
        by simp [appendDouble, type, Scalars.getAs?, h]⟩

end Coordinates

/-! ## Buffers -/

namespace Buffer

variable (b : Buffer)

theorem size_eq_zero_of_isEmpty (h : b.isEmpty = true) : b.size = 0 := by
  simpa [isEmpty] using h

theorem Keeps.refl (b : Buffer) : b.Keeps b := ⟨Nat.le_refl _, fun _ _ => ⟨rfl, rfl⟩⟩

theorem Keeps.trans {b c d : Buffer} (h : b.Keeps c) (h' : c.Keeps d) : b.Keeps d := by
  refine ⟨Nat.le_trans h.1 h'.1, ?_⟩
  intro i hi
  obtain ⟨hget, htype⟩ := h.2 i hi
  obtain ⟨hget', htype'⟩ := h'.2 i (Nat.lt_of_lt_of_le hi h.1)
  exact ⟨hget'.trans hget, htype'.trans htype⟩

/-- Any buffer keeps what a buffer without scalars has. -/
theorem Keeps.of_isEmpty {b later : Buffer} (h : b.isEmpty = true) : b.Keeps later := by
  have hsize := size_eq_zero_of_isEmpty b h
  exact ⟨by omega, fun i hi => by omega⟩

theorem HoldsAt.of_keeps {b later : Buffer} {place : Nat} {xs : Scalars} (h : b.HoldsAt place xs)
    (hkeeps : b.Keeps later) : later.HoldsAt place xs := by
  refine ⟨Nat.le_trans h.1 hkeeps.1, ?_⟩
  intro j hj
  obtain ⟨x, hx, hxs⟩ := h.2 j hj
  obtain ⟨hget, htype⟩ := hkeeps.2 _ (Nat.lt_of_lt_of_le (Nat.add_lt_add_left hj place) h.1)
  exact ⟨x, hget.trans hx, htype ▸ hxs⟩

theorem merge_of_float {s : Source} {values : Array Single} (h : s.values = .float values) :
    (b.merge s).1
      = if b.isEmpty then { b with data := .float values } else b.appendFloat values := by
  simp only [Buffer.merge, h, adoptFloat?]
  by_cases hempty : b.isEmpty = true
  · simp only [hempty, if_true]
  · simp only [hempty, if_false, Bool.false_eq_true]

theorem merge_of_double {s : Source} {values : Array Double} (h : s.values = .double values) :
    (b.merge s).1
      = if b.isEmpty then { b with data := .double values } else b.appendDouble values := by
  simp only [Buffer.merge, h, adoptDouble?]
  by_cases hempty : b.isEmpty = true
  · simp only [hempty, if_true]
  · simp only [hempty, if_false, Bool.false_eq_true]

/-- Merging a source keeps what is there. -/
theorem keeps_merge (s : Source) : b.Keeps (b.merge s).1 := by
  cases hs : s.values with
  | float values =>
      rw [merge_of_float b hs]
      split
      · next hempty => exact .of_isEmpty hempty
      · exact ⟨by simp [size, appendFloat], fun i hi => b.data.get?_appendFloat_of_lt values hi⟩
  | double values =>
      rw [merge_of_double b hs]
      split
      · next hempty => exact .of_isEmpty hempty
      · exact ⟨by simp [size, appendDouble], fun i hi => b.data.get?_appendDouble_of_lt values hi⟩
  | _ =>
      simp only [Buffer.merge, hs]
      exact .refl b

/-- A merged source is held from the place on where the buffer ended. -/
theorem holdsAt_merge (s : Source) (htype : s.type.isFloating = true) :
    (b.merge s).1.HoldsAt b.size s.values := by
  cases hs : s.values with
  | float values =>
      rw [merge_of_float b hs]
      split
      · -- An empty buffer takes the array over, with its type.
        next hempty =>
          rw [size_eq_zero_of_isEmpty b hempty]
          refine ⟨by simp [size, Coordinates.size, Scalars.size], ?_⟩
          intro j hj
          have hlt : j < values.size := hj
          exact ⟨.inl values[j], by simp [Coordinates.get?, hlt],
            by simp [type, Coordinates.type, Scalars.getAs?, hlt]⟩
      · exact ⟨by simp [size, Buffer.appendFloat, Scalars.size],
          fun j hj => b.data.get?_appendFloat_size_add values hj⟩
  | double values =>
      rw [merge_of_double b hs]
      split
      · next hempty =>
          rw [size_eq_zero_of_isEmpty b hempty]
          refine ⟨by simp [size, Coordinates.size, Scalars.size], ?_⟩
          intro j hj
          have hlt : j < values.size := hj
          exact ⟨.inr values[j], by simp [Coordinates.get?, hlt],
            by simp [type, Coordinates.type, Scalars.getAs?, hlt]⟩
      · exact ⟨by simp [size, Buffer.appendDouble, Scalars.size],
          fun j hj => b.data.get?_appendDouble_size_add values hj⟩
  | _ => simp [Source.type, hs, Scalars.type, ScalarType.isFloating] at htype

end Buffer

/-! ## Meshes -/

namespace Mesh

variable (m : Mesh)

theorem keeps_mergeKind (s : Source) (k k' : DataKind) :
    (m.buffer k').Keeps ((m.mergeKind s k).value.mesh.buffer k') := by
  rcases hwhy : refusal? k s with _ | why
  · rw [mergeKind_of_none m s hwhy]
    dsimp only
    rw [buffer_setBuffer]
    split
    · next heq =>
        subst heq
        split
        · exact (m.buffer k').keeps_merge s
        · exact (m.buffer k').keeps_merge s
    · exact .refl _
  · rw [mergeKind_of_refusal m s hwhy]
    exact .refl _

/-- Merging writes only behind what is there. -/
theorem keeps_merge (s : Source) (semantic : Semantic) (k : DataKind) :
    (m.buffer k).Keeps ((m.merge s semantic).value.mesh.buffer k) := by
  rcases hk : DataKind.ofSemantic? semantic with _ | k'
  · rw [merge_of_none m s hk]
    exact .refl _
  · rw [merge_of_kind m s hk]
    exact m.keeps_mergeKind s k' k

/-- A source that is not refused is held by its buffer once it is merged. -/
theorem holdsAt_mergeKind_self {s : Source} {k : DataKind} (hnone : refusal? k s = none) :
    ((m.mergeKind s k).value.mesh.buffer k).HoldsAt (m.mergeKind s k).value.source.initial
      s.values := by
  have hheld := (m.buffer k).holdsAt_merge s (isFloating_of_refusal?_none hnone)
  rw [m.initial_mergeKind s hnone, mergeKind_of_none m s hnone]
  dsimp only
  rw [buffer_setBuffer, if_pos rfl]
  split
  · exact hheld
  · exact hheld

end Mesh

end MeshWeave
