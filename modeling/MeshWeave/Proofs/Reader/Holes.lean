import MeshWeave.Proofs.Reader.Alignment
import MeshWeave.Proofs.Reader.Faces
import MeshWeave.Proofs.Reader.Invariants

set_option autoImplicit false

/-! # Holes of single polygons

The vertex counts of single polygons and of their holes stand in one array, and a hole is told apart
by a negative entry. Next to the array a primitive lists its holes, each with the place of its entry
and the number of its face. `HolesListed` says that the two agree: the holes are listed at the
places of the negative entries, and each belongs to the last polygon before it.

While polygons with holes are read, the face that the next hole belongs to is part of the stage.
`Assembly.HoldsHoles` is the invariant of all this, for any mixture of polygons and holes, empty or
not, inside and outside of polygons with holes. Primitives of the other elements have no holes. -/

namespace MeshWeave

/-! ## Vertex counts with holes -/

/-- The number of polygons among the first vertex counts. -/
def polygonsBefore (counts : Array Int) (n : Nat) : Nat :=
  (counts.toList.take n).countP (0 < ·)

/-- The places of the negative vertex counts, in order. -/
def holeEntries (counts : Array Int) : List Nat :=
  (List.range counts.size).filter fun i => counts.getD i 0 < 0

theorem polygonsBefore_push_of_le (counts : Array Int) (c : Int) {n : Nat} (h : n ≤ counts.size) :
    polygonsBefore (counts.push c) n = polygonsBefore counts n := by
  unfold polygonsBefore
  rw [Array.toList_push, List.take_append_of_le_length (by simpa using h)]

theorem polygonsBefore_size (counts : Array Int) :
    polygonsBefore counts counts.size = counts.toList.countP (0 < ·) := by
  unfold polygonsBefore
  rw [List.take_of_length_le (by simp)]

theorem polygonsBefore_push_size (counts : Array Int) (c : Int) :
    polygonsBefore (counts.push c) (counts.push c).size
      = polygonsBefore counts counts.size + if 0 < c then 1 else 0 := by
  rw [polygonsBefore_size, polygonsBefore_size, Array.toList_push, List.countP_append,
    List.countP_singleton]
  simp

/-- An entry is found behind the other ones if it is negative. -/
theorem holeEntries_push (counts : Array Int) (c : Int) :
    holeEntries (counts.push c) = holeEntries counts ++ if c < 0 then [counts.size] else [] := by
  unfold holeEntries
  rw [Array.size_push, List.range_succ, List.filter_append]
  congr 1
  · apply List.filter_congr
    intro i hi
    have hlt : i < counts.size := List.mem_range.mp hi
    simp [Array.getD, hlt, Nat.lt_succ_of_lt hlt, Array.getElem_push_lt hlt]
  · by_cases hc : c < 0 <;> simp [Array.getD, hc]

theorem lt_size_of_mem_holeEntries {counts : Array Int} {i : Nat} (h : i ∈ holeEntries counts) :
    i < counts.size := List.mem_range.mp (List.mem_of_mem_filter h)

/-- The vertex counts of some polygons with their holes, and a list of the holes that agrees with
    them. -/
structure HolesListed (counts : Array Int) (holes : Array Hole) (faces : Nat) : Prop where
  nonzero : ∀ c ∈ counts, c ≠ 0
  first_pos : ∀ c, counts[0]? = some c → 0 < c
  faces_eq : polygonsBefore counts counts.size = faces
  holes_eq : holes.toList
    = (holeEntries counts).map fun i => ⟨i, Index.face (polygonsBefore counts i - 1)⟩
  polygon : ∀ i ∈ holeEntries counts, 0 < polygonsBefore counts i

namespace HolesListed

theorem empty : HolesListed #[] #[] 0 where
  nonzero := fun c hc => absurd hc (by simp)
  first_pos := fun c hc => absurd hc (by simp)
  faces_eq := rfl
  holes_eq := rfl
  polygon := fun i hi => absurd hi (by simp [holeEntries])

variable {counts : Array Int} {holes : Array Hole} {faces : Nat}

theorem map_holeEntries_push (counts : Array Int) (c : Int) :
    (holeEntries counts).map
        (fun i => (⟨i, Index.face (polygonsBefore (counts.push c) i - 1)⟩ : Hole))
      = (holeEntries counts).map fun i => ⟨i, Index.face (polygonsBefore counts i - 1)⟩ := by
  apply List.map_congr_left
  intro i hi
  rw [polygonsBefore_push_of_le counts c (Nat.le_of_lt (lt_size_of_mem_holeEntries hi))]

/-- One more polygon. -/
theorem pushPolygon (h : HolesListed counts holes faces) {c : Int} (hc : 0 < c) :
    HolesListed (counts.push c) holes (faces + 1) := by
  have hentries : holeEntries (counts.push c) = holeEntries counts := by
    rw [holeEntries_push, if_neg (by omega), List.append_nil]
  refine ⟨?_, ?_, ?_, ?_, ?_⟩
  · intro d hd
    rcases Array.mem_push.mp hd with hd | rfl
    · exact h.nonzero d hd
    · omega
  · intro d hd
    rw [Array.getElem?_push] at hd
    split at hd
    · rwa [← Option.some.inj hd]
    · exact h.first_pos d hd
  · rw [polygonsBefore_push_size, h.faces_eq, if_pos hc]
  · rw [hentries, map_holeEntries_push, h.holes_eq]
  · intro i hi
    rw [hentries] at hi
    rw [polygonsBefore_push_of_le counts c (Nat.le_of_lt (lt_size_of_mem_holeEntries hi))]
    exact h.polygon i hi

/-- One more hole of the last polygon. -/
theorem pushHole (h : HolesListed counts holes faces) {c : Int} (hc : c < 0) (hfaces : 0 < faces) :
    HolesListed (counts.push c) (holes.push ⟨counts.size, Index.face (faces - 1)⟩) faces := by
  have hentries : holeEntries (counts.push c) = holeEntries counts ++ [counts.size] := by
    rw [holeEntries_push, if_pos hc]
  have hlast : polygonsBefore (counts.push c) counts.size = faces := by
    rw [polygonsBefore_push_of_le counts c (Nat.le_refl _), h.faces_eq]
  refine ⟨?_, ?_, ?_, ?_, ?_⟩
  · intro d hd
    rcases Array.mem_push.mp hd with hd | rfl
    · exact h.nonzero d hd
    · omega
  · -- There is a polygon before the hole, so the hole is not the first entry.
    intro d hd
    rw [Array.getElem?_push] at hd
    split at hd
    · next hsize =>
        have hnone : polygonsBefore counts counts.size = 0 := by
          rw [← hsize]
          rfl
        rw [h.faces_eq] at hnone
        omega
    · exact h.first_pos d hd
  · rw [polygonsBefore_push_size, h.faces_eq, if_neg (by omega), Nat.add_zero]
  · rw [hentries, List.map_append, map_holeEntries_push, Array.toList_push, h.holes_eq,
      List.map_singleton, hlast]
  · intro i hi
    rw [hentries] at hi
    rcases List.mem_append.mp hi with hi | hi
    · rw [polygonsBefore_push_of_le counts c (Nat.le_of_lt (lt_size_of_mem_holeEntries hi))]
      exact h.polygon i hi
    · rw [List.mem_singleton.mp hi, hlast]
      exact hfaces

end HolesListed

/-! ## Primitives under construction -/

/-- No holes are listed, and no vertex count stands for one. -/
def LacksHoles (counts : Array Int) (holes : Array Hole) : Prop :=
  holes = #[] ∧ ∀ c ∈ counts, 0 ≤ c

theorem vertexCountEntry_nonneg (n : Nat) : 0 ≤ vertexCountEntry n := Int.natCast_nonneg _

theorem vertexCountEntry_pos {n : Nat} (h : n ≠ 0) : 0 < vertexCountEntry n := by
  rw [vertexCountEntry, vertexCountLimit]
  omega

theorem LacksHoles.pushCount {counts : Array Int} {holes : Array Hole} (h : LacksHoles counts holes)
    (n : Nat) : LacksHoles (counts.push (vertexCountEntry n)) holes := by
  refine ⟨h.1, fun c hc => ?_⟩
  rcases Array.mem_push.mp hc with hc | rfl
  · exact h.2 c hc
  · exact vertexCountEntry_nonneg n

@[simp] theorem Layout.holes_pushTuples (l : Layout) (us : List (Array Nat)) (p : Primitive) :
    (l.pushTuples us p).holes = p.holes := by
  induction us generalizing p with
  | nil => rfl
  | cons u us ih => exact ih (l.pushTuple u p)

namespace Assembly

/-- The vertex counts and the holes of a primitive under construction agree, and the face that the
    next hole belongs to is the last one. -/
structure HoldsHoles (a : Assembly) : Prop where
  polygons : a.element = .polygons → HolesListed a.primitive.counts a.primitive.holes a.faces
  others : a.element ≠ .polygons → LacksHoles a.primitive.counts a.primitive.holes
  polylist : a.stage = .counting → a.element = .polylist
  face : ∀ f, a.stage = .holed (some f) →
    a.element = .polygons ∧ 0 < a.faces ∧ f = Index.face (a.faces - 1)

namespace HoldsHoles

variable {a : Assembly}

/-- Only the vertex counts and the holes of the primitive matter. -/
theorem setPrimitive (h : a.HoldsHoles) {p : Primitive} (hcounts : p.counts = a.primitive.counts)
    (hholes : p.holes = a.primitive.holes) : HoldsHoles { a with primitive := p } := by
  refine ⟨?_, ?_, h.polylist, h.face⟩
  · rw [hcounts, hholes]
    exact h.polygons
  · rw [hcounts, hholes]
    exact h.others

/-- Going to a stage where no hole can follow. -/
theorem setStage (h : a.HoldsHoles) {stage : Stage} (hface : ∀ f, stage ≠ .holed (some f))
    (hpolylist : stage = .counting → a.element = .polylist) : HoldsHoles { a with stage } :=
  ⟨h.polygons, h.others, hpolylist, fun f hf => absurd hf (hface f)⟩

theorem addCounts (h : a.HoldsHoles) (hne : a.element ≠ .polygons) (counts : List Nat) :
    (counts.foldl addCount a).HoldsHoles := by
  induction counts generalizing a with
  | nil => exact h
  | cons n ns ih =>
      exact ih (a := a.addCount n)
        ⟨fun he => absurd he hne, fun _ => (h.others hne).pushCount n, h.polylist, h.face⟩ hne

/-- The stage behind a polygon has that polygon as its face, if it has one. -/
theorem of_afterPolygon {stage : Stage} {face : Option UInt32} {f : UInt32}
    (h : stage.afterPolygon face = .holed (some f)) : face = some f := by
  cases stage with
  | holed g => exact Stage.holed.inj h
  | _ => exact absurd h (by simp [Stage.afterPolygon])

theorem addPolygonRun (h : a.HoldsHoles) (mesh : String) (run : Run) :
    (a.addPolygonRun mesh run).value.HoldsHoles := by
  have hcounting (face : Option UInt32) (hs : a.stage.afterPolygon face = .counting) :
      a.element = .polylist := by
    cases hstage : a.stage <;> simp_all [Stage.afterPolygon, h.polylist]
  have hgroup (he : a.element ≠ .polygons) (faces : Nat) : HoldsHoles
      { a with primitive := a.primitive.pushCount (vertexCountEntry run.tuples), faces } :=
    ⟨fun hp => absurd hp he, fun _ => (h.others he).pushCount _, h.polylist,
      fun f hf => absurd (h.face f hf).1 he⟩
  rw [Assembly.addPolygonRun]
  split
  · exact ⟨h.polygons, h.others, h.polylist, h.face⟩
  · exact ⟨h.polygons, h.others, h.polylist, h.face⟩
  · next he =>
      split
      · exact ⟨h.polygons, h.others, hcounting none,
          fun f hf => absurd (of_afterPolygon hf) (by simp)⟩
      · next htuples =>
          have hpos : 0 < vertexCountEntry run.tuples :=
            vertexCountEntry_pos (by simpa using htuples)
          refine ⟨fun _ => (h.polygons he).pushPolygon hpos, fun hne => absurd he hne,
            hcounting _, fun f hf => ?_⟩
          obtain rfl := Option.some.inj (of_afterPolygon hf)
          exact ⟨he, Nat.succ_pos _, rfl⟩
  · next he =>
      split
      · exact h.setPrimitive rfl rfl
      · exact hgroup (by simp [he]) _
  · next he =>
      split
      · exact h.setPrimitive rfl rfl
      · exact hgroup (by simp [he]) _

theorem addHoleRun (h : a.HoldsHoles) (mesh : String) (run : Run) :
    (a.addHoleRun mesh run).value.HoldsHoles := by
  rw [Assembly.addHoleRun]
  split
  · next face hstage =>
      obtain ⟨he, hfaces, rfl⟩ := h.face face hstage
      split
      · exact h
      · next htuples =>
          have hneg : -vertexCountEntry run.tuples < 0 :=
            Int.neg_neg_of_pos (vertexCountEntry_pos (by simpa using htuples))
          exact ⟨fun _ => (h.polygons he).pushHole hneg hfaces, fun hne => absurd he hne,
            h.polylist, h.face⟩
  · exact h

theorem closeRun (h : a.HoldsHoles) (mesh : String) (run : Run) :
    (a.closeRun mesh run).value.HoldsHoles := by
  have hclosed : HoldsHoles { a with run := none } := ⟨h.polygons, h.others, h.polylist, h.face⟩
  rw [Assembly.closeRun, Noted.value_bind]
  dsimp only
  split
  · exact hclosed.addPolygonRun mesh run
  · exact hclosed.addHoleRun mesh run

/-- **Nothing that is read breaks the agreement of vertex counts and holes.** -/
theorem invariant : Invariant HoldsHoles where
  fresh := by
    rintro a ⟨element, material, id, inputs, rfl⟩
    exact ⟨fun _ => .empty,
      fun _ => ⟨rfl, fun c hc => absurd hc (by simp [start, Primitive.empty])⟩,
      fun hs => absurd hs (by simp [start]), fun f hf => absurd hf (by simp [start])⟩
  settled := fun l h => ⟨h.polygons, h.others, fun hs => absurd hs (by simp [Assembly.settled]),
    fun f hf => absurd hf (by simp [Assembly.settled])⟩
  moves := by
    intro v a b e h hmoves
    cases hmoves with
    | outer => exact h
    | input => exact ⟨h.polygons, h.others, h.polylist, h.face⟩
    | openCounts element_eq => exact h.setStage (by simp) fun _ => element_eq
    | counts values counting => exact h.addCounts (by simp [h.polylist counting]) values
    | closeCounts => exact h.setStage (by simp) (by simp)
    | openRun => exact ⟨h.polygons, h.others, h.polylist, h.face⟩
    | stray => exact h
    | @indices values run =>
        have hread : HoldsHoles
            { a with run := some (a.layout.readValues values (a.primitive, run)).2 } :=
          ⟨h.polygons, h.others, h.polylist, h.face⟩
        exact hread.setPrimitive (by rw [Layout.readValues_eq, Layout.counts_pushTuples])
          (by rw [Layout.readValues_eq, Layout.holes_pushTuples])
    | @closeRun mesh run => exact h.closeRun mesh run
    | openHoled => exact h.setStage (by simp) (by simp)
    | closeHoled => exact h.setStage (by simp) (by simp)

end HoldsHoles

end Assembly

/-! ## Finished primitives -/

/-- A primitive of single polygons. Its vertex counts begin with a polygon, and its holes are those
    of the negative entries, in order; each belongs to the polygon before it. -/
structure Primitive.ListsHoles (p : Primitive) : Prop where
  nonzero : ∀ c ∈ p.counts, c ≠ 0
  first_pos : ∃ c, p.counts[0]? = some c ∧ 0 < c
  faces_eq : p.faces = p.counts.toList.countP (0 < ·)
  entries_eq : p.holes.toList.map (·.entry) = holeEntries p.counts
  face_eq : p.faces < 2 ^ 32 → ∀ h ∈ p.holes, h.face.toNat + 1 = polygonsBefore p.counts h.entry

theorem polygonsBefore_le (counts : Array Int) (n : Nat) :
    polygonsBefore counts n ≤ polygonsBefore counts counts.size := by
  rw [polygonsBefore_size]
  exact (List.take_sublist n counts.toList).countP_le

theorem HolesListed.listsHoles {p : Primitive} (h : HolesListed p.counts p.holes p.faces)
    (hfaces : 0 < p.faces) : p.ListsHoles where
  nonzero := h.nonzero
  first_pos := by
    have hsize : 0 < p.counts.size := by
      by_contra hnone
      have hempty : p.counts = #[] := Array.eq_empty_of_size_eq_zero (by omega)
      have hzero : polygonsBefore p.counts p.counts.size = 0 := by
        rw [hempty]
        rfl
      rw [h.faces_eq] at hzero
      omega
    have hfirst : p.counts[0]? = some p.counts[0] := Array.getElem?_eq_getElem hsize
    exact ⟨_, hfirst, h.first_pos _ hfirst⟩
  faces_eq := by rw [← h.faces_eq, polygonsBefore_size]
  entries_eq := by
    rw [h.holes_eq, List.map_map]
    exact List.map_id' _
  face_eq := by
    intro hsmall hole hmem
    rw [← Array.mem_toList_iff, h.holes_eq] at hmem
    obtain ⟨i, hi, rfl⟩ := List.mem_map.mp hmem
    have hpos := h.polygon i hi
    have hle := polygonsBefore_le p.counts i
    rw [h.faces_eq] at hle
    have hface : (Index.face (polygonsBefore p.counts i - 1)).toNat
        = polygonsBefore p.counts i - 1 := UInt32.toNat_ofNat_of_lt' (show _ < 2 ^ 32 by omega)
    dsimp only
    omega

/-- What the vertex counts and the holes of a primitive of an element are like. -/
def Primitive.HasHolesOf (element : Element) (p : Primitive) : Prop :=
  if element = .polygons then p.ListsHoles else LacksHoles p.counts p.holes

theorem Assembly.HoldsHoles.hasHolesOf {a : Assembly} (h : a.HoldsHoles) {p : Primitive}
    (hp : a.finished = some p) : p.HasHolesOf a.element := by
  obtain ⟨q, hq, hfinished⟩ := a.finished_eq
  rw [hp] at hfinished
  obtain ⟨hfaces, hsome⟩ := Option.ite_none_left_eq_some.mp hfinished.symm
  obtain rfl := Option.some.inj hsome
  rw [Primitive.HasHolesOf]
  split
  · next he =>
      have hcount : q.faces = a.faces := by
        rw [hq.faces_eq, Assembly.faceCount, he]
      have hlisted := h.polygons he
      rw [← hq.counts_eq, ← hq.holes_eq, ← hcount] at hlisted
      exact hlisted.listsHoles (by rw [hq.faces_eq]; omega)
  · next hne =>
      rw [hq.counts_eq, hq.holes_eq]
      exact h.others hne

/-- **The holes of every mesh that is read** are those that the vertex counts of single polygons
    show, and no other primitive has any. -/
theorem Reader.holes_of_finish (id name : String) (es : List Event) :
    List.Forall₂ (fun element p => Primitive.HasHolesOf element p)
      ((start id name).keptElements es)
      ((start id name).after es).finish.value.primitives.toList := by
  rw [finish_value]
  exact Assembly.HoldsHoles.invariant.forall₂_kept (r := start id name)
    (fun h hp => h.hasHolesOf hp) (fun a ha => absurd ha (by simp [start])) .nil es

/-- A hole without a polygon, two polygons with one hole each in one element, an empty polygon that
    takes the place of the second one, and a polygon outside. -/
example :
    let es : List Event :=
      [.openPrimitive .polygons none, .openHoled, .openRun .hole, .indices .hole [9, 9, 9],
        .closeRun .hole, .openRun .polygon, .indices .polygon [0, 1, 2, 3], .closeRun .polygon,
        .openRun .hole, .indices .hole [4, 5, 6], .closeRun .hole, .openRun .polygon,
        .indices .polygon [0, 1, 2], .closeRun .polygon, .openRun .hole, .indices .hole [7],
        .closeRun .hole, .openRun .polygon, .closeRun .polygon, .openRun .hole,
        .indices .hole [8, 8], .closeRun .hole, .closeHoled, .openRun .polygon,
        .indices .polygon [2, 1, 0], .closeRun .polygon, .closePrimitive]
    ((Reader.start "mesh" "").after es).mesh.primitives.map (fun p => (p.counts, p.holes, p.faces))
      = #[(#[4, -3, 3, -1, 3], #[⟨1, 0⟩, ⟨3, 1⟩], 3)] := by
  decide +kernel

end MeshWeave
