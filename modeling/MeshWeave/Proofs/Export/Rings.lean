import Mathlib.Data.List.Forall2
import MeshWeave.Proofs.Export.Faces

set_option autoImplicit false

/-! # Which rings a run is cut into

A run is the concatenation of the rings of a polygon, and the records tell at which mesh vertices
the holes begin. Cutting finds the rings again as long as every such vertex stands where its hole
begins before it stands anywhere else: `RingsApart` says that no ring meets, after its own first
vertex, the first vertex of a later ring. Sharing other vertices does no harm, and neither does a
first vertex that an earlier hole has used up.

Of the records only those of the polygon matter, and of these only `HoleRecord.firsts`. -/

namespace MeshWeave

/-! ## The records of a polygon -/

namespace HoleRecord

/-- The mesh vertices at which the holes of a polygon begin. -/
def firsts (polygon : Nat) (records : List HoleRecord) : List UInt32 :=
  (records.filter (·.polygon == polygon)).map (·.first)

variable {polygon other : Nat} {v : UInt32}

@[simp] theorem firsts_nil (polygon : Nat) : firsts polygon [] = [] := rfl

theorem firsts_append (polygon : Nat) (records behind : List HoleRecord) :
    firsts polygon (records ++ behind) = firsts polygon records ++ firsts polygon behind := by
  rw [firsts, List.filter_append, List.map_append]
  rfl

theorem firsts_cons (polygon : Nat) (r : HoleRecord) (records : List HoleRecord) :
    firsts polygon (r :: records)
      = if r.polygon = polygon then r.first :: firsts polygon records
        else firsts polygon records := by
  unfold firsts
  rw [List.filter_cons]
  split <;> simp_all

theorem beginsAt_iff (r : HoleRecord) :
    r.beginsAt polygon v = true ↔ r.polygon = polygon ∧ r.first = v := by
  rw [beginsAt, Bool.and_eq_true, beq_iff_eq, beq_iff_eq]

/-- A hole begins at a vertex just if there is a record for it. -/
theorem find?_eq_none_iff (records : List HoleRecord) :
    records.find? (beginsAt polygon v) = none ↔ v ∉ firsts polygon records := by
  induction records with
  | nil => simp
  | cons r records ih =>
      rw [List.find?_cons, firsts_cons]
      by_cases hr : r.beginsAt polygon v = true
      · obtain ⟨hpolygon, hfirst⟩ := (beginsAt_iff r).mp hr
        simp [hr, hpolygon, hfirst]
      · have hskip : r.polygon = polygon → r.first ≠ v :=
          fun hpolygon hfirst => hr ((beginsAt_iff r).mpr ⟨hpolygon, hfirst⟩)
        simp only [hr, ih]
        split
        · next hpolygon => simp [(hskip hpolygon).symm]
        · rfl

/-- Using the record of a hole. -/
theorem firsts_eraseP (records : List HoleRecord) :
    firsts polygon (records.eraseP (beginsAt polygon v)) = (firsts polygon records).erase v := by
  induction records with
  | nil => rfl
  | cons r records ih =>
      rw [List.eraseP_cons, firsts_cons]
      by_cases hr : r.beginsAt polygon v = true
      · obtain ⟨hpolygon, hfirst⟩ := (beginsAt_iff r).mp hr
        rw [hr, cond_true, if_pos hpolygon, hfirst, List.erase_cons_head]
      · rw [Bool.not_eq_true] at hr
        rw [hr, cond_false, firsts_cons, ih]
        split
        · next hpolygon =>
            rw [List.erase_cons_tail]
            simpa [beginsAt, hpolygon] using hr
        · rfl

/-- Using the record of another polygon's hole. -/
theorem firsts_eraseP_of_ne (hne : other ≠ polygon) (records : List HoleRecord) :
    firsts polygon (records.eraseP (beginsAt other v)) = firsts polygon records := by
  induction records with
  | nil => rfl
  | cons r records ih =>
      rw [List.eraseP_cons, firsts_cons]
      by_cases hr : r.beginsAt other v = true
      · rw [hr, cond_true, if_neg]
        rw [((beginsAt_iff r).mp hr).1]
        exact hne
      · rw [Bool.not_eq_true] at hr
        rw [hr, cond_false, firsts_cons, ih]

end HoleRecord

/-! ## Cutting leaves the records of other polygons -/

theorem Cut.firsts_records {polygon other : Nat} (hne : other ≠ polygon) (h : Host) (mesh : String)
    (is : List Nat) (records : List HoleRecord) :
    HoleRecord.firsts polygon (Cut.ofRun h mesh other is records).records
      = HoleRecord.firsts polygon records := by
  induction is generalizing records with
  | nil => rfl
  | cons i is ih =>
      rw [ofRun]
      split
      · exact ih records
      · exact (ih _).trans (HoleRecord.firsts_eraseP_of_ne hne records)

theorem Rings.firsts_ofRun {polygon other : Nat} (hne : other ≠ polygon) (h : Host) (mesh : String)
    (run : List Nat) (records : List HoleRecord) :
    HoleRecord.firsts polygon (Rings.ofRun h mesh other run records).value.2
      = HoleRecord.firsts polygon records := by
  cases run with
  | nil => rfl
  | cons i is => exact Cut.firsts_records hne h mesh is records

namespace Faces

variable {polygon other : Nat} (h : Host) (mesh : String) (removeDuplicates triangulated : Bool)

theorem firsts_ofRun (hne : other ≠ polygon) (run : List Nat) (records : List HoleRecord) :
    HoleRecord.firsts polygon (ofRun h mesh triangulated other run records).2
      = HoleRecord.firsts polygon records := by
  rw [ofRun]
  split
  · exact Rings.firsts_ofRun hne h mesh run records
  · rfl

theorem firsts_ofPolygon (hne : other ≠ polygon) (records : List HoleRecord) :
    HoleRecord.firsts polygon
        (ofPolygon h mesh removeDuplicates triangulated other records).value.2
      = HoleRecord.firsts polygon records := by
  rw [ofPolygon_value]
  split
  · rfl
  · split
    · rfl
    · exact firsts_ofRun h mesh triangulated hne _ records

theorem firsts_ofPolygons {ps : List Nat} (hp : polygon ∉ ps) (records : List HoleRecord) :
    HoleRecord.firsts polygon (ofPolygons h mesh removeDuplicates triangulated ps records).value.2
      = HoleRecord.firsts polygon records := by
  induction ps generalizing records with
  | nil => rfl
  | cons p ps ih =>
      rw [List.mem_cons, not_or] at hp
      exact (ih hp.2 _).trans (firsts_ofPolygon h mesh _ _ (Ne.symm hp.1) records)

/-- The faces of polygons are those of each polygon, by its own hole records. -/
theorem ofPolygons_faces {ps : List Nat} (hnodup : ps.Nodup) (records : List HoleRecord) :
    List.Forall₂
      (fun p f => ∃ left, HoleRecord.firsts p left = HoleRecord.firsts p records
        ∧ (ofPolygon h mesh removeDuplicates triangulated p left).value.1 = some f)
      (ps.filter (h.hasFaces removeDuplicates triangulated))
      (ofPolygons h mesh removeDuplicates triangulated ps records).value.1 := by
  induction ps generalizing records with
  | nil => exact .nil
  | cons p ps ih =>
      obtain ⟨hp, hnodup⟩ := List.nodup_cons.mp hnodup
      have hsome := isSome_ofPolygon h mesh removeDuplicates triangulated p records
      -- The polygons behind are others, so the first one does not use their records.
      have hrest : List.Forall₂
          (fun q f => ∃ left, HoleRecord.firsts q left = HoleRecord.firsts q records
            ∧ (ofPolygon h mesh removeDuplicates triangulated q left).value.1 = some f)
          (ps.filter (h.hasFaces removeDuplicates triangulated))
          (ofPolygons h mesh removeDuplicates triangulated ps
            (ofPolygon h mesh removeDuplicates triangulated p records).value.2).value.1 := by
        have hmem : ∀ q ∈ ps.filter (h.hasFaces removeDuplicates triangulated), p ≠ q := by
          rintro q hq rfl
          exact hp (List.mem_filter.mp hq).1
        refine ((List.forall₂_and_left _ _).mpr ⟨hmem, ih hnodup _⟩).imp ?_
        rintro q f ⟨hne, left, hleft, hf⟩
        exact ⟨left, hleft.trans (firsts_ofPolygon h mesh _ _ hne records), hf⟩
      show List.Forall₂ _ _
        ((ofPolygon h mesh removeDuplicates triangulated p records).value.1.toList ++ _)
      rcases hf : (ofPolygon h mesh removeDuplicates triangulated p records).value.1 with _ | f
      · rw [hf] at hsome
        rw [List.filter_cons_of_neg (by simp [← hsome])]
        exact hrest
      · rw [hf] at hsome
        rw [List.filter_cons_of_pos (by simp [← hsome])]
        exact .cons ⟨records, rfl, hf⟩ hrest

end Faces

/-! ## Finding the rings again -/

/-- No ring meets, after its first vertex, the first vertex of a later ring. -/
def RingsApart (rings : List (List UInt32)) : Prop :=
  rings.Pairwise fun ring later => ∀ v ∈ later.head?, v ∉ ring.tail

-- Only the first vertex of the later ring is looked at, and not every vertex there could be.
instance (rings : List (List UInt32)) : Decidable (RingsApart rings) :=
  have (ring later : List UInt32) : Decidable (∀ v ∈ later.head?, v ∉ ring.tail) :=
    Option.decidableForallMem later.head?
  List.instDecidablePairwise rings

theorem ringsApart_cons (ring : List UInt32) (rings : List (List UInt32)) :
    RingsApart (ring :: rings)
      ↔ (∀ v ∈ ring.tail, v ∉ rings.filterMap List.head?) ∧ RingsApart rings := by
  unfold RingsApart
  rw [List.pairwise_cons]
  apply and_congr_left'
  simp only [List.mem_filterMap, not_exists, not_and]
  constructor
  · intro hlater v hv later hmem hhead
    exact hlater later hmem v hhead hv
  · intro hring later hmem v hhead hv
    exact hring v hv later hmem hhead

namespace Cut

variable (h : Host) (mesh : String) (polygon : Nat)

/-- A ring goes on up to the first vertex at which a hole begins. -/
theorem continued_append_eq_iff (current is : List Nat) (records : List HoleRecord) :
    (ofRun h mesh polygon (current ++ is) records).continued = current
      ↔ (∀ i ∈ current, h.vertex polygon i ∉ HoleRecord.firsts polygon records)
        ∧ (ofRun h mesh polygon is records).continued = [] := by
  induction current with
  | nil => simp
  | cons i current ih =>
      rw [List.cons_append, ofRun, List.forall_mem_cons]
      split
      · next hnone =>
          rw [HoleRecord.find?_eq_none_iff] at hnone
          simp only [List.cons.injEq, true_and, ih, hnone, not_false_eq_true]
      · next r hsome =>
          have hbegins : ¬ h.vertex polygon i ∉ HoleRecord.firsts polygon records := by
            rw [← HoleRecord.find?_eq_none_iff, hsome]
            simp
          simp [hbegins]

/-- Vertices at which no hole begins do not change the rings behind them. -/
theorem rings_append {current : List Nat} {records : List HoleRecord}
    (hcurrent : ∀ i ∈ current, h.vertex polygon i ∉ HoleRecord.firsts polygon records)
    (is : List Nat) :
    (ofRun h mesh polygon (current ++ is) records).rings
      = (ofRun h mesh polygon is records).rings := by
  induction current with
  | nil => rfl
  | cons i current ih =>
      rw [List.forall_mem_cons, ← HoleRecord.find?_eq_none_iff] at hcurrent
      rw [List.cons_append, ofRun, hcurrent.1]
      exact ih hcurrent.2

/-- A ring is found, and others behind it, if no hole begins inside of it. -/
theorem ofRun_append_eq_iff (current is : List Nat) (rings : List (List Nat))
    (records : List HoleRecord) :
    (ofRun h mesh polygon (current ++ is) records).continued = current
        ∧ (ofRun h mesh polygon (current ++ is) records).rings = rings
      ↔ (∀ i ∈ current, h.vertex polygon i ∉ HoleRecord.firsts polygon records)
        ∧ (ofRun h mesh polygon is records).continued = []
        ∧ (ofRun h mesh polygon is records).rings = rings := by
  rw [continued_append_eq_iff, and_assoc]
  apply and_congr_right
  intro hcurrent
  rw [rings_append h mesh polygon hcurrent]

/-- A ring begins at the first vertex of a hole. -/
theorem ofRun_cons_of_mem {i : Nat} {records : List HoleRecord}
    (hi : h.vertex polygon i ∈ HoleRecord.firsts polygon records) (is : List Nat) :
    ∃ left, HoleRecord.firsts polygon left
        = (HoleRecord.firsts polygon records).erase (h.vertex polygon i)
      ∧ (ofRun h mesh polygon (i :: is) records).continued = []
      ∧ (ofRun h mesh polygon (i :: is) records).rings
        = (i :: (ofRun h mesh polygon is left).continued) :: (ofRun h mesh polygon is left).rings
      := by
  rw [ofRun]
  split
  · next hnone => exact absurd hi ((HoleRecord.find?_eq_none_iff records).mp hnone)
  · exact ⟨_, HoleRecord.firsts_eraseP records, rfl, rfl⟩

/-- Holes are found again just if none meets the first vertex of a later one. -/
theorem ofRun_flatten_eq_iff {rings : List (List Nat)} (hrings : ∀ ring ∈ rings, ring ≠ [])
    {records : List HoleRecord} (hfirsts : (HoleRecord.firsts polygon records).Perm
      ((rings.map (List.map (h.vertex polygon))).filterMap List.head?)) :
    (ofRun h mesh polygon rings.flatten records).continued = []
        ∧ (ofRun h mesh polygon rings.flatten records).rings = rings
      ↔ RingsApart (rings.map (List.map (h.vertex polygon))) := by
  induction rings generalizing records with
  | nil => exact ⟨fun _ => .nil, fun _ => ⟨rfl, rfl⟩⟩
  | cons ring rings ih =>
      obtain ⟨hring, hbehind⟩ := List.forall_mem_cons.mp hrings
      cases ring with
      | nil => exact absurd rfl hring
      | cons i ring =>
          have hi : h.vertex polygon i ∈ HoleRecord.firsts polygon records :=
            hfirsts.mem_iff.mpr List.mem_cons_self
          obtain ⟨left, hleft, hcontinued, hrest⟩ :=
            ofRun_cons_of_mem h mesh polygon hi (ring ++ rings.flatten)
          -- What is left of the records belongs to the rings behind this one.
          have hfirsts' : (HoleRecord.firsts polygon left).Perm
              ((rings.map (List.map (h.vertex polygon))).filterMap List.head?) := by
            rw [hleft]
            exact (hfirsts.erase _).trans (by rw [List.map_cons]; simp)
          have hmeets : (∀ v ∈ ((i :: ring).map (h.vertex polygon)).tail,
                v ∉ (rings.map (List.map (h.vertex polygon))).filterMap List.head?)
              ↔ ∀ j ∈ ring, h.vertex polygon j ∉ HoleRecord.firsts polygon left := by
            rw [List.map_cons, List.tail_cons, List.forall_mem_map]
            simp only [hfirsts'.mem_iff]
          rw [List.flatten_cons, List.cons_append, hcontinued, hrest, List.map_cons,
            ringsApart_cons, hmeets, ← ih hbehind hfirsts', ← ofRun_append_eq_iff]
          simp only [true_and, List.cons.injEq]

end Cut

/-- **A run is cut into the rings that it is made of** just if none of them meets the first vertex
    of a later one. -/
theorem Rings.ofRun_eq_iff (h : Host) (mesh : String) (polygon : Nat) {outline : List Nat}
    {holes : List (List Nat)} (houtline : outline ≠ []) (hholes : ∀ hole ∈ holes, hole ≠ [])
    {records : List HoleRecord} (hfirsts : (HoleRecord.firsts polygon records).Perm
      ((holes.map (List.map (h.vertex polygon))).filterMap List.head?)) :
    (Rings.ofRun h mesh polygon (outline ++ holes.flatten) records).value.1 = ⟨outline, holes⟩
      ↔ RingsApart ((outline :: holes).map (List.map (h.vertex polygon))) := by
  cases outline with
  | nil => exact absurd rfl houtline
  | cons i outline =>
      rw [List.map_cons, ringsApart_cons, ← Cut.ofRun_flatten_eq_iff h mesh polygon hholes hfirsts,
        List.map_cons, List.tail_cons, List.forall_mem_map]
      simp only [← hfirsts.mem_iff]
      rw [← Cut.ofRun_append_eq_iff, List.cons_append]
      simp only [ofRun, Rings.mk.injEq, List.cons.injEq, true_and]

/-- A list that is mapped to a concatenation is a concatenation itself. -/
theorem exists_map_map_eq {α β : Type} {f : α → β} {l : List α} {parts : List (List β)}
    (h : l.map f = parts.flatten) :
    ∃ pieces : List (List α), pieces.flatten = l ∧ pieces.map (List.map f) = parts := by
  induction parts generalizing l with
  | nil => exact ⟨[], (List.map_eq_nil_iff.mp h).symm, rfl⟩
  | cons part parts ih =>
      rw [List.flatten_cons] at h
      obtain ⟨piece, rest, rfl, rfl, hrest⟩ := List.map_eq_append_iff.mp h
      obtain ⟨pieces, rfl, rfl⟩ := ih hrest
      exact ⟨piece :: pieces, rfl, rfl⟩

/-- The same by mesh vertices: the run is a list of positions, and the rings are lists of the mesh
    vertices at them. -/
theorem Rings.map_ofRun_eq_iff (h : Host) (mesh : String) (polygon : Nat) {run : List Nat}
    {outer : List UInt32} {holes : List (List UInt32)}
    (hrun : run.map (h.vertex polygon) = outer ++ holes.flatten) (houter : outer ≠ [])
    (hholes : ∀ hole ∈ holes, hole ≠ []) {records : List HoleRecord}
    (hfirsts : (HoleRecord.firsts polygon records).Perm (holes.filterMap List.head?)) :
    let rings := (Rings.ofRun h mesh polygon run records).value.1
    rings.outline.map (h.vertex polygon) = outer
        ∧ rings.holes.map (List.map (h.vertex polygon)) = holes
      ↔ RingsApart (outer :: holes) := by
  intro rings
  have hall : run.map (h.vertex polygon) = (outer :: holes).flatten := hrun
  obtain ⟨pieces, hpieces, hmap⟩ := exists_map_map_eq hall
  cases pieces with
  | nil => exact absurd hmap (by simp)
  | cons outline places =>
      rw [List.map_cons, List.cons.injEq] at hmap
      obtain ⟨rfl, rfl⟩ := hmap
      rw [List.flatten_cons] at hpieces
      have houtline : outline ≠ [] := by
        rintro rfl
        exact houter rfl
      have hplaces : ∀ place ∈ places, place ≠ [] := by
        rintro place hplace rfl
        exact hholes [] (List.mem_map.mpr ⟨[], hplace, rfl⟩) rfl
      have hcut := Rings.ofRun_eq_iff h mesh polygon houtline hplaces hfirsts
      rw [hpieces] at hcut
      rw [← List.map_cons, ← hcut]
      -- Rings of the same lengths in the same run are the same places.
      constructor
      · rintro ⟨hsame, hsames⟩
        have hne : run ≠ [] := by
          rw [← hpieces]
          simp [houtline]
        have hflat := (Rings.ofRun_spec h mesh polygon hne records).1
        have hlengths : (rings.outline :: rings.holes).map List.length
            = (outline :: places).map List.length := by
          have hall := congrArg (List.map List.length) (congrArg₂ List.cons hsame hsames)
          simpa [Function.comp_def] using hall
        have hflats : (rings.outline :: rings.holes).flatten = (outline :: places).flatten :=
          hflat.trans hpieces.symm
        have hboth := List.eq_iff_flatten_eq.mpr ⟨hflats, hlengths⟩
        rw [List.cons.injEq] at hboth
        exact congrArg₂ Rings.mk hboth.1 hboth.2
      · intro hsame
        rw [show rings = ⟨outline, places⟩ from hsame]
        exact ⟨rfl, rfl⟩

end MeshWeave
