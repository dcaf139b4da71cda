import Mathlib.Algebra.Group.Nat.Defs
import MeshWeave.Proofs.Reader.History

set_option autoImplicit false

/-! # Index arrays are aligned

All index arrays of a finished mesh agree in length with the number of indices that their primitive
counts, whatever events led to it. Positions and normals may be missing, but only as a whole, and
only if no input of theirs could be used.

Two things could break this: sums of vertex counts that stop at a largest entry, and primitives that
are cut in one place but not in another. The second never happens, because all arrays are columns of
the same tuples. The first does not happen while fewer values are read, and smaller counts listed,
than an entry can hold. -/

namespace MeshWeave

namespace Event

/-- The number of index values in an event. -/
def values : Event → Nat
  | indices _ values => values.length
  | _ => 0

/-- The vertex counts in an event. -/
def listed : Event → List Nat
  | counts listed => listed
  | _ => []

end Event

/-! ## What histories have read -/

/-- An origin with at most some number of values, and with vertex counts up to a bound. -/
def Origin.Within (o : Origin) (values bound : Nat) : Prop :=
  o.values ≤ values ∧ ∀ n ∈ o.listed, n ≤ bound

namespace Origin

theorem Within.mono {o : Origin} {values values' bound : Nat} (h : o.Within values bound)
    (hle : values ≤ values') : o.Within values' bound := ⟨Nat.le_trans h.1 hle, h.2⟩

theorem within_declaredBy (r : Reader) (values bound : Nat) :
    (declaredBy r).Within values bound := ⟨Nat.zero_le _, by simp [declaredBy]⟩

theorem Within.next {o : Origin} {values bound : Nat} (h : o.Within values bound) (a : Assembly)
    (e : Event) (he : ∀ n ∈ e.listed, n ≤ bound) :
    (o.next a e).Within (values + e.values) bound := by
  have hsame : o.Within (values + e.values) bound := h.mono (Nat.le_add_right _ _)
  cases e with
  | counts listed =>
      refine ⟨hsame.1, ?_⟩
      intro n hn
      rcases List.mem_append.mp hn with hn | hn
      · exact h.2 n hn
      · exact he n hn
  | indices kind vs =>
      rw [Origin.next]
      split
      · split
        · exact hsame
        · exact ⟨Nat.add_le_add_right h.1 vs.length, h.2⟩
      · exact hsame
  | closeRun kind =>
      cases kind with
      | polygon =>
          rw [Origin.next]
          split
          · split <;> exact hsame
          · exact hsame
      | hole => exact hsame
  | _ => exact hsame

end Origin

namespace History

/-- All origins of a history stay within a number of values and a bound. -/
def Within (h : History) (values bound : Nat) : Prop :=
  h.origin.Within values bound ∧ ∀ o ∈ h.origins, o.Within values bound

theorem Within.next {h : History} {values bound : Nat} (hw : h.Within values bound) (e : Event)
    (he : ∀ n ∈ e.listed, n ≤ bound) : (h.next e).Within (values + e.values) bound := by
  obtain ⟨hcurrent, horigins⟩ := hw
  have hle : values ≤ values + e.values := Nat.le_add_right _ _
  refine ⟨?_, ?_⟩
  · rw [History.next, originNext]
    dsimp only
    split
    · split
      · exact Origin.within_declaredBy _ _ _
      · split
        · exact hcurrent.next _ e he
        · exact hcurrent.mono hle
    · exact hcurrent.mono hle
  · intro o ho
    rw [History.next, originsNext] at ho
    dsimp only at ho
    split at ho
    · split at ho
      · rcases List.mem_append.mp ho with ho | ho
        · exact (horigins o ho).mono hle
        · rw [List.mem_singleton.mp ho]
          exact ⟨Nat.le_trans hcurrent.1 hle, hcurrent.2⟩
      · exact (horigins o ho).mono hle
    · exact (horigins o ho).mono hle

theorem Within.after {h : History} {values bound : Nat} (hw : h.Within values bound)
    (es : List Event) (hes : ∀ e ∈ es, ∀ n ∈ e.listed, n ≤ bound) :
    (h.after es).Within (values + total (es.map Event.values)) bound := by
  induction es generalizing h values with
  | nil => exact hw
  | cons e es ih =>
      have hrest := ih (hw.next e (hes e (by simp))) fun f hf => hes f (by simp [hf])
      rw [List.map_cons, total_cons, ← Nat.add_assoc]
      exact hrest

end History

/-! ## Alignment -/

/-- The index arrays of a primitive with an origin all have the same length. -/
structure Primitive.Aligned (o : Origin) (p : Primitive) : Prop where
  texCoords : ∀ c ∈ p.texCoords, c.indices.size = p.indexCount
  colors : ∀ c ∈ p.colors, c.indices.size = p.indexCount
  positions : p.positions.size = if o.used .position = [] then 0 else p.indexCount
  normals : p.normals.size = if o.used .normal = [] then 0 else p.indexCount

theorem Origin.Makes.aligned {o : Origin} {p : Primitive} (h : o.Makes p) {values : Nat}
    (hw : o.Within values vertexCountLimit) (hvalues : values ≤ vertexCountLimit) :
    p.Aligned o := by
  have hcount : p.indexCount = o.tuples.length :=
    h.indexCount_eq hw.2 (Nat.le_trans h.length_le (Nat.le_trans hw.1 hvalues))
  have hcolumn (k : DataKind) :
      (Layout.column ((o.used k).head?.map fun u => .ofInput u.1 u.2) o.tuples).size
        = if o.used k = [] then 0 else p.indexCount := by
    rw [Layout.size_column, hcount]
    cases o.used k <;> rfl
  have hchannels (cs : List ChannelLane) :
      ∀ c ∈ cs.map (·.fill o.tuples), c.indices.size = p.indexCount := by
    intro c hc
    obtain ⟨l, _, rfl⟩ := List.mem_map.mp hc
    simp [ChannelLane.fill, hcount]
  have hfill := h.fill_eq
  refine ⟨?_, ?_, ?_, ?_⟩
  · rw [← congrArg Primitive.texCoords hfill]
    exact hchannels _
  · rw [← congrArg Primitive.colors hfill]
    exact hchannels _
  · rw [← congrArg Primitive.positions hfill]
    exact hcolumn .position
  · rw [← congrArg Primitive.normals hfill]
    exact hcolumn .normal

/-- Finishing hands out the mesh as it is. -/
theorem Reader.finish_value (r : Reader) : r.finish.value = r.mesh := by
  rw [finish]
  split <;> rfl

/-- **Index arrays are aligned** in every mesh that is read, by any events in any order. -/
theorem Reader.aligned_of_finish (id name : String) (es : List Event)
    (hvalues : total (es.map Event.values) < 2 ^ 31)
    (hlisted : ∀ e ∈ es, ∀ n ∈ e.listed, n < 2 ^ 31) :
    List.Forall₂ (fun o p => Primitive.Aligned o p) ((History.start id name).after es).origins
      ((Reader.start id name).after es).finish.value.primitives.toList := by
  have hsound := History.sound_after (History.sound_start id name) es
  have hstart : (History.start id name).Within 0 vertexCountLimit :=
    ⟨⟨Nat.le_refl 0, fun n hn => absurd hn (List.not_mem_nil)⟩,
      fun o ho => absurd ho (List.not_mem_nil)⟩
  have hwithin := hstart.after es fun e he n hn => Nat.le_of_lt_succ (hlisted e he n hn)
  have hmakes := (List.forall₂_and_left _ _).mpr ⟨hwithin.2, hsound.makes⟩
  rw [History.reader_after] at hmakes
  rw [finish_value]
  exact hmakes.imp fun o p h => h.2.aligned h.1 (by
    rw [Nat.zero_add]
    exact Nat.le_of_lt_succ hvalues)

/-- Two strips, of which the second is too short, among events out of place, and a polygon whose
    only input names no source. -/
theorem Reader.aligned_of_finish_strips :
    let es : List Event :=
      [.closeRun .polygon, .addSource (.fresh "p" (.float (.replicate 12 ⟨0⟩)) 3),
        .openPrimitive .tristrips none, .input ⟨.position, "#p", 0, 0⟩,
        .input ⟨.texCoord, "#q", 1, 0⟩, .openRun .polygon, .indices .polygon [0, 5, 1], .openHoled,
        .indices .polygon [6, 2, 7, 3], .closePrimitive, .closeRun .polygon, .openRun .polygon,
        .indices .polygon [3, 8, 2, 9], .closeRun .polygon, .counts [4], .closePrimitive,
        .openPrimitive .polygons none, .input ⟨.position, "#q", 0, 0⟩, .openRun .polygon,
        .indices .polygon [0, 1, 2], .closeRun .polygon, .closePrimitive]
    total (es.map Event.values) < 2 ^ 31 ∧ (∀ e ∈ es, ∀ n ∈ e.listed, n < 2 ^ 31)
    ∧ ((Reader.start "mesh" "").after es).finish.value.primitives.toList.map
        (fun p => (p.indexCount, p.positions.size)) = [(3, 3), (3, 0)]
    ∧ List.Forall₂ (fun o p => Primitive.Aligned o p) ((History.start "mesh" "").after es).origins
        ((Reader.start "mesh" "").after es).finish.value.primitives.toList := by
  intro es
  have hvalues : total (es.map Event.values) < 2 ^ 31 := by decide
  have hlisted : ∀ e ∈ es, ∀ n ∈ e.listed, n < 2 ^ 31 := by decide
  exact ⟨hvalues, hlisted, by decide +kernel, Reader.aligned_of_finish "mesh" "" es hvalues hlisted⟩

end MeshWeave
