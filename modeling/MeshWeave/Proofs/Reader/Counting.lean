import MeshWeave.Proofs.Reader.Runs

set_option autoImplicit false

/-! # Vertex counts agree with the index arrays

The number of indices that a complete primitive has follows from its vertex counts, or from its
faces. `Assembly.Counted` is the invariant behind it: the vertex counts of polygons, strips and fans
add up to the tuples gathered so far, holes included, and a list of polygons asks for as many as it
lists. Entries stop at the largest 32-bit count, so the sums are right only below it.

The main statement is that a finished primitive has exactly as many tuples as it has indices by its
own count. -/

namespace MeshWeave

/-! ## Totals of entries -/

@[simp] theorem natAbs_vertexCountEntry (n : Nat) :
    (vertexCountEntry n).natAbs = min n vertexCountLimit := by
  rw [vertexCountEntry, Int.natAbs_natCast]

/-- Entries add up to the counts that they stand for, as long as all of them are small. -/
theorem total_vertexCountEntry (ns : List Nat) (h : ∀ n ∈ ns, n ≤ vertexCountLimit) :
    total ((ns.map vertexCountEntry).map Int.natAbs) = total ns := by
  induction ns with
  | nil => rfl
  | cons n ns ih =>
      have hn : n ≤ vertexCountLimit := h n (by simp)
      simp only [List.map_cons, total_cons, natAbs_vertexCountEntry, Nat.min_eq_left hn,
        ih fun m hm => h m (by simp [hm])]

namespace Layout

variable (l : Layout) (us : List (Array Nat)) (p : Primitive)

@[simp] theorem counts_pushTuples : (l.pushTuples us p).counts = p.counts := by
  induction us generalizing p with
  | nil => rfl
  | cons u us ih => exact ih (l.pushTuple u p)

@[simp] theorem grouping_pushTuples : (l.pushTuples us p).grouping = p.grouping := by
  induction us generalizing p with
  | nil => rfl
  | cons u us ih => exact ih (l.pushTuple u p)

end Layout

namespace Primitive

@[simp] theorem counts_restore (p : Primitive) (start : Lengths) :
    (p.restore start).counts = p.counts := rfl

@[simp] theorem grouping_restore (p : Primitive) (start : Lengths) :
    (p.restore start).grouping = p.grouping := rfl

end Primitive

namespace Assembly

/-! ## Primitives whose vertices are counted -/

/-- The vertex counts of a primitive under construction agree with a number of face vertices, and
    those of a list of polygons with the counts that it lists. -/
structure Counted (a : Assembly) (vertices : Nat) (listed : List Nat) : Prop where
  grouping_eq : a.primitive.grouping = a.element.grouping
  expected_eq : a.element = .polylist → a.expected = min (total listed) counterLimit
  counts_eq : a.element = .polylist → a.primitive.counts = (listed.map vertexCountEntry).toArray
  total_counts : a.element ≠ .triangles → a.element ≠ .polylist → vertices ≤ vertexCountLimit →
    total (a.primitive.counts.toList.map Int.natAbs) = vertices

/-- The vertex count of a run that counts. -/
theorem Counted.total_pushCount {a : Assembly} {vertices : Nat} {listed : List Nat}
    (h : a.Counted vertices listed) (us : List (Array Nat)) (hno : a.element ≠ .triangles)
    (hno' : a.element ≠ .polylist) (hlen : vertices + us.length ≤ vertexCountLimit) :
    total (((a.layout.pushTuples us a.primitive).pushCount
      (vertexCountEntry us.length)).counts.toList.map Int.natAbs) = vertices + us.length := by
  have htotal := h.total_counts hno hno' (by omega)
  simp only [Primitive.pushCount, Layout.counts_pushTuples, Array.toList_push, List.map_append,
    List.map_cons, List.map_nil, total_append, total_cons, total_nil, natAbs_vertexCountEntry,
    htotal]
  omega

theorem counted_takeGroup {a : Assembly} {vertices : Nat} {listed : List Nat}
    (h : a.Counted vertices listed) (us : List (Array Nat))
    (hstrip : a.element.grouping.isStripOrFan = true) :
    (a.takeGroup us).Counted
      (vertices + if a.element.counts us.length then us.length else 0) listed := by
  have hpolylist : a.element ≠ .polylist := by
    intro he
    simp [he, Element.grouping, Grouping.isStripOrFan] at hstrip
  unfold takeGroup
  by_cases hlen : us.length < 3
  · dsimp only
    rw [if_pos hlen, Element.counts_of_short hstrip hlen, if_neg (by simp)]
    exact ⟨by simpa using h.grouping_eq, h.expected_eq, fun he => absurd he hpolylist,
      by simpa using h.total_counts⟩
  · dsimp only
    rw [if_neg hlen, if_pos (a.element.counts_of_long hlen)]
    refine ⟨by simpa [Primitive.pushCount] using h.grouping_eq, h.expected_eq,
      fun he => absurd he hpolylist, ?_⟩
    intro hno hno' hle
    exact h.total_pushCount us hno hno' hle

theorem counted_takeRun_polygon {a : Assembly} {vertices : Nat} {listed : List Nat}
    (h : a.Counted vertices listed) (us : List (Array Nat)) :
    (a.takeRun .polygon us).Counted
      (vertices + if a.element.counts us.length then us.length else 0) listed := by
  rw [takeRun_polygon]
  dsimp only
  split
  · next he =>
      exact ⟨by simpa using h.grouping_eq, by simp [he], by simp [he], by simp [he]⟩
  · next he =>
      exact ⟨by simpa using h.grouping_eq, h.expected_eq, by simpa using h.counts_eq, by simp [he]⟩
  · next he =>
      rw [if_pos (Element.counts_of_plain (by rw [he]; rfl) _)]
      split
      · next hnil =>
          subst hnil
          exact ⟨h.grouping_eq, h.expected_eq, h.counts_eq, h.total_counts⟩
      · refine ⟨by simpa [Primitive.pushCount] using h.grouping_eq, h.expected_eq, by simp [he], ?_⟩
        intro hno hno' hlen
        exact h.total_pushCount us hno hno' hlen
  · next he => exact counted_takeGroup h us (by rw [he]; rfl)
  · next he => exact counted_takeGroup h us (by rw [he]; rfl)

theorem counted_takeRun_hole {a : Assembly} {vertices : Nat} {listed : List Nat}
    (h : a.Counted vertices listed) (us : List (Array Nat)) {face : UInt32}
    (hstage : a.stage = .holed (some face)) (helement : a.element = .polygons) :
    (a.takeRun .hole us).Counted (vertices + us.length) listed := by
  rw [takeRun_hole a us hstage]
  split
  · next hnil =>
      subst hnil
      exact ⟨h.grouping_eq, h.expected_eq, h.counts_eq, h.total_counts⟩
  · refine ⟨by simpa [Primitive.pushHole] using h.grouping_eq, by simp [helement],
      by simp [helement], ?_⟩
    intro hno hno' hlen
    have htotal := h.total_counts hno hno' (by omega)
    simp only [Primitive.pushHole, Layout.counts_pushTuples, Array.toList_push, List.map_append,
      List.map_cons, List.map_nil, total_append, total_cons, total_nil, Int.natAbs_neg,
      natAbs_vertexCountEntry, htotal]
    omega

/-- Vertex counts leave alone what a single one leaves alone. -/
theorem apply_addCounts {β : Type} (f : Assembly → β) (hf : ∀ a n, f (addCount a n) = f a)
    (a : Assembly) (counts : List Nat) : f (counts.foldl addCount a) = f a := by
  induction counts generalizing a with
  | nil => rfl
  | cons n ns ih => exact (ih (a.addCount n)).trans (hf a n)

theorem stage_addCounts (a : Assembly) (counts : List Nat) :
    (counts.foldl addCount a).stage = a.stage :=
  apply_addCounts (·.stage) (fun _ _ => rfl) a counts

theorem run_addCounts (a : Assembly) (counts : List Nat) :
    (counts.foldl addCount a).run = a.run := apply_addCounts (·.run) (fun _ _ => rfl) a counts

theorem inputs_addCounts (a : Assembly) (counts : List Nat) :
    (counts.foldl addCount a).inputs = a.inputs :=
  apply_addCounts (·.inputs) (fun _ _ => rfl) a counts

/-- The primitive under construction after vertex counts. -/
theorem addCounts_eq (a : Assembly) (counts : List Nat) (h : a.expected ≤ counterLimit) :
    counts.foldl addCount a =
      { a with
        primitive :=
          { a.primitive with
            counts := a.primitive.counts ++ (counts.map vertexCountEntry).toArray }
        expected := min (a.expected + total counts) counterLimit } := by
  induction counts generalizing a with
  | nil => simp [Nat.min_eq_left h]
  | cons n ns ih =>
      rw [List.foldl_cons, ih _ (Nat.min_le_right _ _)]
      have hmin : min (min (a.expected + n) counterLimit + total ns) counterLimit
          = min (a.expected + (n + total ns)) counterLimit := by omega
      simp [addCount, Primitive.pushCount, hmin]

/-- Listing more vertex counts. -/
theorem counted_addCounts {a : Assembly} {vertices : Nat} {listed : List Nat}
    (h : a.Counted vertices listed) (helement : a.element = .polylist) (counts : List Nat) :
    (counts.foldl addCount a).Counted vertices (listed ++ counts) := by
  have hexpected := h.expected_eq helement
  have hlimit : a.expected ≤ counterLimit := by
    rw [hexpected]
    exact Nat.min_le_right _ _
  rw [a.addCounts_eq counts hlimit]
  refine ⟨h.grouping_eq, fun _ => ?_, fun _ => ?_, fun _ hno => absurd helement hno⟩
  · simp only [hexpected, total_append]
    omega
  · simp only [h.counts_eq helement, List.map_append, List.append_toArray]

/-! ## Finished primitives -/

/-- **A finished primitive has as many tuples as indices by its own count.** -/
theorem indexCount_of_finished {a : Assembly} {ts : List (Array Nat)} {listed : List Nat}
    (h : a.Gathers ts) (hc : a.Counted ts.length listed) {p : Primitive}
    (hp : a.finished = some p) (hlisted : ∀ n ∈ listed, n ≤ vertexCountLimit)
    (hlen : (ts.take (a.keeps ts.length)).length ≤ vertexCountLimit) :
    p.indexCount = (ts.take (a.keeps ts.length)).length := by
  have hgrouping := hc.grouping_eq
  have hgrouped (hno : a.element ≠ .triangles) (hno' : a.element ≠ .polylist)
      (hkeeps : a.keeps ts.length = ts.length) :
      total (a.primitive.counts.toList.map Int.natAbs) = (ts.take (a.keeps ts.length)).length := by
    rw [hkeeps, List.take_length] at hlen ⊢
    exact hc.total_counts hno hno' hlen
  rw [finished, finish] at hp
  cases he : a.element with
  | triangles =>
      rw [he] at hp hgrouping
      have hsupplied := h.supplied_eq (Or.inl he)
      rw [eq_of_keep hp, Primitive.indexCount]
      simp only [Primitive.take, hgrouping, Element.grouping, List.length_take, keeps, he,
        hsupplied]
      omega
  | polylist =>
      rw [he] at hp hgrouping
      have hsupplied := h.supplied_eq (Or.inr he)
      have hexpected := hc.expected_eq he
      dsimp only at hp
      split at hp
      · next hle =>
          have hcounts : p.counts = (listed.map vertexCountEntry).toArray := by
            rw [eq_of_keep hp]
            exact hc.counts_eq he
          have htotal := total_vertexCountEntry listed hlisted
          -- The cut is below the largest entry, so the counter has not stopped at its limit.
          have hkeeps : a.keeps ts.length = a.expected := by rw [keeps, he]
          rw [hkeeps, List.length_take] at hlen ⊢
          rw [Primitive.indexCount, hcounts, eq_of_keep hp]
          simp only [Primitive.take, hgrouping, Element.grouping, htotal]
          rw [hexpected] at hlen hle ⊢
          simp only [counterLimit, vertexCountLimit] at hlen hle ⊢
          omega
      · exact absurd hp (by simp [keep])
  | polygons =>
      rw [he] at hp hgrouping
      rw [← hgrouped (by simp [he]) (by simp [he]) (by rw [keeps, he]), eq_of_keep hp,
        Primitive.indexCount]
      simp only [hgrouping, Element.grouping]
  | tristrips =>
      rw [he] at hp hgrouping
      rw [← hgrouped (by simp [he]) (by simp [he]) (by rw [keeps, he]), eq_of_keep hp,
        Primitive.indexCount]
      simp only [hgrouping, Element.grouping]
  | trifans =>
      rw [he] at hp hgrouping
      rw [← hgrouped (by simp [he]) (by simp [he]) (by rw [keeps, he]), eq_of_keep hp,
        Primitive.indexCount]
      simp only [hgrouping, Element.grouping]

end Assembly

end MeshWeave
