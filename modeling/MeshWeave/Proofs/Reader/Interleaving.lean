import Mathlib.Data.List.Basic
import MeshWeave.Reader.Assembly

set_option autoImplicit false

/-! # De-interleaving runs

A run is read value by value, while its meaning is given by whole tuples. This file states what a
run says as a function of all its values: the tuples are the consecutive blocks of one width, and
an incomplete block at the end says nothing.

`cutTuples` follows the reader, value by value and from any place inside a tuple, so that a run
that comes in pieces is cut like the whole run. `tuples` is the same in closed form, by position,
and `tuples_column` reads one place of all tuples directly off the values. -/

namespace MeshWeave

/-! ## Cutting values into tuples -/

/-- The tuples that values complete, the first of which may have begun before, and what is left
    for the next one. -/
def cutTuples (width : Nat) : Array Nat → List Nat → List (Array Nat) × Array Nat
  | begun, [] => ([], begun)
  | begun, v :: vs =>
      if (begun.push v).size == width then
        (begun.push v :: (cutTuples width #[] vs).1, (cutTuples width #[] vs).2)
      else cutTuples width (begun.push v) vs

/-- The complete tuples of a run, by position. -/
def tuples (width : Nat) (values : List Nat) : List (Array Nat) :=
  (List.range (values.length / width)).map fun t => ((values.drop (t * width)).take width).toArray

theorem cutTuples_append (width : Nat) (begun : Array Nat) (xs ys : List Nat) :
    cutTuples width begun (xs ++ ys)
      = ((cutTuples width begun xs).1 ++ (cutTuples width (cutTuples width begun xs).2 ys).1,
        (cutTuples width (cutTuples width begun xs).2 ys).2) := by
  induction xs generalizing begun with
  | nil => simp [cutTuples]
  | cons x xs ih =>
      simp only [List.cons_append, cutTuples]
      split
      · simp only [ih, List.cons_append]
      · exact ih (begun.push x)

theorem fst_cutTuples_append (width : Nat) (begun : Array Nat) (xs ys : List Nat) :
    (cutTuples width begun (xs ++ ys)).1
      = (cutTuples width begun xs).1 ++ (cutTuples width (cutTuples width begun xs).2 ys).1 := by
  rw [cutTuples_append]

theorem snd_cutTuples_append (width : Nat) (begun : Array Nat) (xs ys : List Nat) :
    (cutTuples width begun (xs ++ ys)).2
      = (cutTuples width (cutTuples width begun xs).2 ys).2 := by
  rw [cutTuples_append]

/-- Values that do not complete the tuple only wait. -/
theorem cutTuples_of_short (width : Nat) (begun : Array Nat) (vs : List Nat)
    (h : begun.size + vs.length < width) :
    cutTuples width begun vs = ([], begun ++ vs.toArray) := by
  induction vs generalizing begun with
  | nil => simp [cutTuples]
  | cons v vs ih =>
      simp only [List.length_cons] at h
      have hne : ((begun.push v).size == width) = false := by
        simp only [Array.size_push, beq_eq_false_iff_ne]
        omega
      have hshort : (begun.push v).size + vs.length < width := by
        rw [Array.size_push]
        omega
      rw [cutTuples, hne, if_neg (by simp), ih (begun.push v) hshort]
      simp

/-- Values that complete the tuple exactly. -/
theorem cutTuples_of_full (width : Nat) (begun : Array Nat) (vs : List Nat) (hvs : vs ≠ [])
    (h : begun.size + vs.length = width) :
    cutTuples width begun vs = ([begun ++ vs.toArray], #[]) := by
  induction vs generalizing begun with
  | nil => exact absurd rfl hvs
  | cons v vs ih =>
      simp only [List.length_cons] at h
      rcases vs with _ | ⟨w, ws⟩
      · have heq : begun.size + 1 = width := by simpa using h
        simp [cutTuples, heq]
      · have hne : ((begun.push v).size == width) = false := by
          simp only [Array.size_push, beq_eq_false_iff_ne]
          simp only [List.length_cons] at h
          omega
        rw [cutTuples, hne, if_neg (by simp),
          ih (begun.push v) (by simp) (by simp only [Array.size_push]; omega)]
        simp

/-- Every tuple takes at least one of the values. -/
theorem cutTuples_length_le (width : Nat) (begun : Array Nat) (vs : List Nat) :
    (cutTuples width begun vs).1.length + (cutTuples width begun vs).2.size
      ≤ begun.size + vs.length := by
  induction vs generalizing begun with
  | nil => simp [cutTuples]
  | cons v vs ih =>
      rw [cutTuples]
      split
      · have hrest := ih #[]
        simp only [List.size_toArray, List.length_nil, List.length_cons] at hrest ⊢
        omega
      · have hrest := ih (begun.push v)
        simp only [Array.size_push, List.length_cons] at hrest ⊢
        omega

/-! ## The closed form -/

theorem tuples_of_short (width : Nat) (vs : List Nat) (h : vs.length < width) :
    tuples width vs = [] := by
  simp [tuples, Nat.div_eq_of_lt h]

/-- The first block is the first tuple. -/
theorem tuples_append_of_full (width : Nat) (hw : 0 < width) (xs ys : List Nat)
    (h : xs.length = width) : tuples width (xs ++ ys) = xs.toArray :: tuples width ys := by
  have hdiv : (xs ++ ys).length / width = ys.length / width + 1 := by
    rw [List.length_append, h, Nat.add_comm, Nat.add_div_right _ hw]
  rw [tuples, hdiv, List.range_succ_eq_map, List.map_cons, List.map_map, tuples]
  congr 1
  · rw [Nat.zero_mul, List.drop_zero, ← h, List.take_left]
  · apply List.map_congr_left
    intro t _
    have hdrop : (xs ++ ys).drop ((t + 1) * width) = ys.drop (t * width) := by
      rw [Nat.add_mul, Nat.one_mul, Nat.add_comm, ← h, List.drop_length_add_append]
    simp only [Function.comp_apply, Nat.succ_eq_add_one, hdrop]

/-- Blocks that follow each other are the tuples. -/
theorem tuples_flatMap {α : Type} (width : Nat) (hw : 0 < width) (f : α → List Nat)
    (hf : ∀ x, (f x).length = width) (xs : List α) :
    tuples width (xs.flatMap f) = xs.map fun x => (f x).toArray := by
  induction xs with
  | nil => exact tuples_of_short width [] hw
  | cons x xs ih =>
      rw [List.flatMap_cons, tuples_append_of_full width hw _ _ (hf x), ih, List.map_cons]

/-- Reading value by value cuts a run into its tuples. -/
theorem cutTuples_fst (width : Nat) (hw : 0 < width) (vs : List Nat) :
    (cutTuples width #[] vs).1 = tuples width vs := by
  by_cases hshort : vs.length < width
  · rw [cutTuples_of_short width #[] vs (by simpa using hshort), tuples_of_short width vs hshort]
  · have hlen : (vs.take width).length = width := by
      rw [List.length_take]
      omega
    have hfull : cutTuples width #[] (vs.take width) = ([(vs.take width).toArray], #[]) := by
      have hne : vs.take width ≠ [] := by
        intro hnil
        rw [hnil, List.length_nil] at hlen
        omega
      rw [cutTuples_of_full width #[] (vs.take width) hne (by simpa using hlen)]
      simp
    -- One whole tuple is read from the front, and the rest begins at an empty one again.
    have ih := cutTuples_fst width hw (vs.drop width)
    rw [← List.take_append_drop width vs, cutTuples_append, hfull,
      tuples_append_of_full width hw _ _ hlen]
    simp only [List.singleton_append, ih]
termination_by vs.length
decreasing_by
  rw [List.length_drop]
  omega

/-- The tuples of a run number as many as its values fill. -/
@[simp] theorem length_tuples (width : Nat) (vs : List Nat) :
    (tuples width vs).length = vs.length / width := by
  simp [tuples]

/-- One place of all tuples, read directly off the values of the run. -/
theorem tuples_column (width : Nat) (vs : List Nat) (l : Lane) (h : l.offset < width) :
    (tuples width vs).map l.read
      = (List.range (vs.length / width)).map fun t =>
          Index.saturate (vs.getD (t * width + l.offset) 0 + l.correction) := by
  rw [tuples, List.map_map]
  apply List.map_congr_left
  intro t _
  simp only [Function.comp_apply, Lane.read]
  congr 2
  simp [Array.getD_eq_getD_getElem?, h]

end MeshWeave
