import Mathlib.Data.List.Count
import Mathlib.Data.List.Nodup
import Mathlib.Data.Prod.Basic
import MeshWeave.Proofs.Export.Fans

set_option autoImplicit false

/-! # The boundary of a fan

Triangles cover a polygon if the edges between them cancel: a diagonal is an edge of two triangles,
which go along it in opposite directions, and what is left goes around the polygon. `cancelEdges` is
this for any directed edges, and a fan is built up from its first triangle, with one more diagonal
for each further one. -/

namespace MeshWeave

/-! ## Cancelling opposite edges -/

section Edges

variable {α : Type} [DecidableEq α]

/-- Add an edge to others, or drop it together with one of the opposite direction. -/
def cancelEdge (e : α × α) (es : List (α × α)) : List (α × α) :=
  if e.swap ∈ es then es.erase e.swap else e :: es

/-- Drop edges in pairs of opposite directions, as long as there are any. -/
def cancelEdges (es : List (α × α)) : List (α × α) := es.foldr cancelEdge []

variable {x : α × α}

theorem count_cancelEdge_self (hx : x.swap ≠ x) (es : List (α × α)) :
    (cancelEdge x es).count x = if 0 < es.count x.swap then es.count x else es.count x + 1 := by
  rw [cancelEdge]
  split
  · next hmem => rw [if_pos (List.count_pos_iff.mpr hmem), List.count_erase_of_ne hx.symm]
  · next hmem => rw [if_neg (by rwa [List.count_pos_iff]), List.count_cons_self]

theorem count_cancelEdge_swap (hx : x.swap ≠ x) (es : List (α × α)) :
    (cancelEdge x.swap es).count x = es.count x - 1 := by
  rw [cancelEdge, Prod.swap_swap]
  split
  · exact List.count_erase_self
  · next hmem => rw [List.count_cons_of_ne hx, List.count_eq_zero_of_not_mem hmem]

theorem count_cancelEdge_of_ne {e : α × α} (hsame : e ≠ x) (hopposite : e ≠ x.swap)
    (es : List (α × α)) : (cancelEdge e es).count x = es.count x := by
  rw [cancelEdge]
  split
  · apply List.count_erase_of_ne
    intro h
    rw [h, Prod.swap_swap] at hopposite
    exact hopposite rfl
  · exact List.count_cons_of_ne hsame

/-- An edge is left as often as there are more of it than of the opposite one. -/
theorem count_cancelEdges (hx : x.swap ≠ x) (es : List (α × α)) :
    (cancelEdges es).count x = es.count x - es.count x.swap := by
  induction es generalizing x with
  | nil => rfl
  | cons e es ih =>
      have hsame := ih hx
      have hopposite := ih (x := x.swap) (by rw [Prod.swap_swap]; exact hx.symm)
      rw [Prod.swap_swap] at hopposite
      show (cancelEdge e (cancelEdges es)).count x = _
      rcases eq_or_ne e x with rfl | hne
      · -- The edge is left over just if no opposite one is.
        rw [count_cancelEdge_self hx, List.count_cons_self, List.count_cons_of_ne hx.symm]
        split <;> omega
      · rcases eq_or_ne e x.swap with rfl | hne'
        · rw [count_cancelEdge_swap hx, List.count_cons_of_ne hx, List.count_cons_self]
          omega
        · rw [count_cancelEdge_of_ne hne hne', List.count_cons_of_ne hne,
            List.count_cons_of_ne hne', hsame]

theorem mem_of_mem_cancelEdges {es : List (α × α)} (h : x ∈ cancelEdges es) : x ∈ es := by
  induction es with
  | nil => exact h
  | cons e es ih =>
      have hstep : x ∈ cancelEdge e (cancelEdges es) := h
      rw [cancelEdge] at hstep
      split at hstep
      · exact List.mem_cons_of_mem e (ih (List.mem_of_mem_erase hstep))
      · rcases List.mem_cons.mp hstep with rfl | hrest
        · exact List.mem_cons_self
        · exact List.mem_cons_of_mem e (ih hrest)

/-- **What is left of edges that are made of a boundary and of pairs** of opposite edges is the
    boundary, if that has no pairs of its own. -/
theorem perm_cancelEdges {es boundary inner : List (α × α)}
    (hes : es.Perm (boundary ++ (inner ++ inner.map Prod.swap))) (hloops : ∀ e ∈ es, e.swap ≠ e)
    (hpairs : ∀ e ∈ boundary, e.swap ∉ boundary) : (cancelEdges es).Perm boundary := by
  have hinner (x : α × α) : (inner.map Prod.swap).count x = inner.count x.swap := by
    rw [← Prod.swap_swap x]
    exact List.count_map_of_injective inner Prod.swap Prod.swap_injective x.swap
  rw [List.perm_iff_count]
  intro x
  by_cases hx : x.swap = x
  · have hes' : x ∉ es := fun h => hloops x h hx
    have hboundary : x ∉ boundary := fun h => hes' (hes.mem_iff.mpr (List.mem_append_left _ h))
    rw [List.count_eq_zero_of_not_mem fun h => hes' (mem_of_mem_cancelEdges h),
      List.count_eq_zero_of_not_mem hboundary]
  · rw [count_cancelEdges hx, hes.count_eq, hes.count_eq]
    simp only [List.count_append, hinner, Prod.swap_swap]
    by_cases hmem : x ∈ boundary
    · have hzero := List.count_eq_zero_of_not_mem (hpairs x hmem)
      omega
    · have hzero := List.count_eq_zero_of_not_mem hmem
      omega

end Edges

/-! ## Fans -/

/-- The directed edges around a triangle. -/
def Triangle.edges (t : Triangle) : List (Nat × Nat) := [(t.a, t.b), (t.b, t.c), (t.c, t.a)]

namespace Polygon

/-- The directed edges around a polygon with a number of vertices. -/
def boundary (size : Nat) : List (Nat × Nat) :=
  (List.range size).map fun i => (i, (i + 1) % size)

/-- The edges from the first vertex to the last one, and the edge back. -/
theorem boundary_succ (n : Nat) :
    boundary (n + 1) = (List.range n).map (fun i => (i, i + 1)) ++ [(n, 0)] := by
  rw [boundary, List.range_succ, List.map_append, List.map_singleton, Nat.mod_self]
  congr 1
  apply List.map_congr_left
  intro i hi
  have hlt : i < n := List.mem_range.mp hi
  rw [Nat.mod_eq_of_lt (Nat.succ_lt_succ hlt)]

theorem nodup_boundary (size : Nat) : (boundary size).Nodup := by
  apply List.Nodup.map_on _ List.nodup_range
  intro i _ j _ hij
  exact congrArg Prod.fst hij

theorem mem_boundary_succ {n i j : Nat} :
    (i, j) ∈ boundary (n + 1) ↔ (i < n ∧ j = i + 1) ∨ (i = n ∧ j = 0) := by
  rw [boundary_succ, List.mem_append, List.mem_singleton, Prod.mk.injEq, List.mem_map]
  refine or_congr_left ?_
  constructor
  · rintro ⟨k, hk, hedge⟩
    obtain ⟨rfl, rfl⟩ := Prod.mk.inj hedge
    exact ⟨List.mem_range.mp hk, rfl⟩
  · rintro ⟨hi, rfl⟩
    exact ⟨i, List.mem_range.mpr hi, rfl⟩

/-- Around three or more vertices no edge is met in both directions. -/
theorem swap_not_mem_boundary {size : Nat} (hsize : 3 ≤ size) {e : Nat × Nat}
    (he : e ∈ boundary size) : e.swap ∉ boundary size := by
  obtain ⟨n, rfl⟩ : ∃ n, size = n + 1 := ⟨size - 1, by omega⟩
  obtain ⟨i, j⟩ := e
  intro hback
  have hedge := mem_boundary_succ.mp he
  have hopposite := mem_boundary_succ.mp (show (j, i) ∈ boundary (n + 1) from hback)
  omega

/-- One more vertex is one more triangle. -/
theorem fan_succ (n : Nat) : fan (n + 3) = fan (n + 2) ++ [⟨0, n + 1, n + 2⟩] := by
  show (List.range (n + 1)).map _ = (List.range n).map _ ++ _
  rw [List.range_succ, List.map_append, List.map_singleton]

/-- The edges of a fan are those around it and the diagonals, in both directions. -/
theorem edges_fan (n : Nat) :
    ((fan (n + 3)).flatMap Triangle.edges).Perm
      (boundary (n + 3) ++ ((List.range n).map (fun i => (0, i + 2))
        ++ ((List.range n).map (fun i => (0, i + 2))).map Prod.swap)) := by
  induction n with
  | zero => exact .of_eq rfl
  | succ n ih =>
      have hfan : fan (n + 1 + 3) = fan (n + 3) ++ [⟨0, n + 2, n + 3⟩] := fan_succ (n + 1)
      have hboundary : boundary (n + 1 + 3)
          = (List.range (n + 2)).map (fun i => (i, i + 1)) ++ [(n + 2, n + 3), (n + 3, 0)] := by
        rw [boundary_succ, List.range_succ, List.map_append, List.append_assoc]
        rfl
      rw [List.perm_iff_count] at ih ⊢
      intro x
      have hx := ih x
      rw [boundary_succ (n + 2)] at hx
      rw [hfan, hboundary, List.range_succ (n := n)]
      simp only [List.flatMap_append, List.flatMap_singleton, Triangle.edges, List.map_append,
        List.map_singleton, Prod.swap_prod_mk, List.count_append, List.count_cons,
        List.count_nil] at hx ⊢
      omega

/-- The corners of the triangles in a fan are three positions of the polygon. -/
theorem corners_of_mem_fan {size : Nat} {t : Triangle} (ht : t ∈ fan size) :
    t.corners.Nodup ∧ ∀ i ∈ t.corners, i < size := by
  obtain ⟨i, hi, rfl⟩ := List.mem_map.mp ht
  have hlt : i < size - 2 := List.mem_range.mp hi
  constructor
  · simp [Triangle.corners]
  · intro j hj
    simp only [Triangle.corners, List.mem_cons, List.not_mem_nil, or_false] at hj
    omega

/-- The edges of the triangles in a fan, the diagonals between them cancelled, go around it. -/
theorem cancelEdges_fan {size : Nat} (hsize : 3 ≤ size) :
    (cancelEdges ((fan size).flatMap Triangle.edges)).Perm (boundary size) := by
  obtain ⟨n, rfl⟩ : ∃ n, size = n + 3 := ⟨size - 3, by omega⟩
  refine perm_cancelEdges (edges_fan n) ?_ fun e he => swap_not_mem_boundary hsize he
  intro e he
  obtain ⟨t, ht, he⟩ := List.mem_flatMap.mp he
  have hdistinct := (corners_of_mem_fan ht).1
  simp only [Triangle.corners, List.nodup_cons, List.mem_cons, List.not_mem_nil, or_false, not_or,
    not_false_iff, List.nodup_nil, and_true] at hdistinct
  simp only [Triangle.edges, List.mem_cons, List.not_mem_nil, or_false] at he
  rcases he with rfl | rfl | rfl <;> simp only [Prod.swap_prod_mk, ne_eq, Prod.mk.injEq] <;> omega

end Polygon

/-! ## Polygons of a mesh -/

namespace PolygonSet

/-- **Triangles cover the polygon.** For a polygon without holes and with at least three vertices,
    whatever they are, there are two triangles less than vertices, each between three different
    positions of the polygon. Their edges, without those that are met in both directions, are the
    edges around the polygon, each of them once and in its direction. -/
theorem triangles_cover (m : PolygonSet) {p : Nat} (hholed : m.host.isHoled p = false)
    (hsize : 3 ≤ m.host.vertexCount p) :
    let size := m.host.vertexCount p
    ∃ ts, m.host.triangles p = some ts ∧ ts.length = size - 2
      ∧ (∀ t ∈ ts, t.corners.Nodup ∧ ∀ i ∈ t.corners, i < size)
      ∧ (cancelEdges (ts.flatMap Triangle.edges)).Perm (Polygon.boundary size)
      ∧ (Polygon.boundary size).Nodup := by
  intro size
  have htriangles : m.host.triangles p = some (Polygon.fan size) := by
    cases hq : m.polygons[p]? with
    | none =>
        rw [m.vertexCount_host_of_none hq] at hsize
        omega
    | some q =>
        have hplain : q.holeSizes = [] := by
          by_contra hholes
          rw [isHoled_host hq hholes] at hholed
          exact absurd hholed (by simp)
        exact m.triangles_host hq hplain hsize
  refine ⟨Polygon.fan size, htriangles, ?_, fun t ht => Polygon.corners_of_mem_fan ht,
    Polygon.cancelEdges_fan hsize, Polygon.nodup_boundary size⟩
  rw [Polygon.fan, List.length_map, List.length_range]

/-- The vertices of the polygon need not be different. -/
theorem triangles_cover_pentagon :
    let m := ofPolygons [] [] [] [.ofOutline #[0, 1], .ofOutline #[7, 7, 8, 9, 7]]
    m.host.isHoled 1 = false ∧ 3 ≤ m.host.vertexCount 1
    ∧ ∃ ts, m.host.triangles 1 = some ts
      ∧ (cancelEdges (ts.flatMap Triangle.edges)).Perm [(0, 1), (1, 2), (2, 3), (3, 4), (4, 0)] := by
  intro m
  have hboundary : Polygon.boundary (m.host.vertexCount 1)
      = [(0, 1), (1, 2), (2, 3), (3, 4), (4, 0)] := by decide
  have hholed : m.host.isHoled 1 = false := by decide
  have hsize : 3 ≤ m.host.vertexCount 1 := by decide
  obtain ⟨ts, hts, -, -, hcover, -⟩ := m.triangles_cover hholed hsize
  exact ⟨hholed, hsize, ts, hts, hboundary ▸ hcover⟩

end PolygonSet

end MeshWeave
