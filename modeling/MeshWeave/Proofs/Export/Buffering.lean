import MeshWeave.Proofs.Export.Buffers
import MeshWeave.Proofs.Export.Faces

set_option autoImplicit false

/-! # What buffers hold

The buffer of inputs holds a tuple: the offset of the normals is where the first normal-like
attribute is. The buffer of a polygon holds its faces: `Faces.buffer` says in which columns and
sizes. A run that is pushed vertex by vertex is cut at the same places as by `Cut.ofRun`, since a
hole that begins takes from the face before exactly what is left of the run. So no check fails. -/

namespace MeshWeave

/-! ## Inputs -/

namespace InputBuffer

/-- The buffer that holds a tuple. -/
def of (t : Tuple) : InputBuffer := ⟨t, t.attributes.findIdx? (·.semantic.isNormalLike)⟩

variable (t : Tuple) (a : Attribute)

/-- An attribute is shared by all normal-like ones, or by none but itself. -/
theorem sharesIndex_eq (b : Attribute) :
    b.sharesIndex a = if a.semantic.isNormalLike then b.semantic.isNormalLike else b == a := by
  by_cases heq : b = a
  · subst heq
    cases h : b.semantic.isNormalLike <;> simp [Attribute.sharesIndex, h]
  · have hne : (b == a) = false := beq_eq_false_iff_ne.mpr heq
    cases h : a.semantic.isNormalLike <;> simp [Attribute.sharesIndex, h, hne]

theorem find?_eq : (of t).find? a = t.attributes.findIdx? (·.sharesIndex a) := by
  simp only [find?, of, sharesIndex_eq]
  by_cases ha : a.semantic.isNormalLike = true
  · simp only [ha, if_true]
    cases hnormals : t.attributes.findIdx? (·.semantic.isNormalLike) with
    | some k => rfl
    | none =>
        -- Where there are no normal-like attributes this one is not there either.
        rw [Option.none_or, List.findIdx?_eq_none_iff]
        rw [List.findIdx?_eq_none_iff] at hnormals
        intro b hb
        rw [beq_eq_false_iff_ne]
        rintro rfl
        exact absurd (hnormals b hb) (by simp [ha])
  · simp [ha]

theorem place_eq :
    (of t).place a = .ok (t.attributes.findIdx (·.sharesIndex a),
      if t.attributes.findIdx (·.sharesIndex a) < t.attributes.length then t.attributes
      else t.attributes ++ [a]) := by
  have hguard : t.attributes.findIdx? (·.sharesIndex a) = _ := List.findIdx?_eq_guard_findIdx_lt
  rw [place, find?_eq]
  by_cases hlt : t.attributes.findIdx (·.sharesIndex a) < t.attributes.length
  · have hfound : t.attributes.findIdx? (·.sharesIndex a)
        = some (t.attributes.findIdx (·.sharesIndex a)) := by
      simpa [Option.guard, hlt] using hguard
    rw [hfound, if_pos hlt]
    rfl
  · have hnone : t.attributes.findIdx? (·.sharesIndex a) = none := by
      simpa [Option.guard, hlt] using hguard
    have hle : t.attributes.findIdx (·.sharesIndex a) ≤ t.attributes.length :=
      List.findIdx_le_length
    have hlength : t.attributes.findIdx (·.sharesIndex a) = t.attributes.length := by omega
    have hlast : Checked.subtract (t.attributes ++ [a]).length 1 = .ok t.attributes.length := by
      simp [Checked.subtract]
    rw [hnone, if_neg hlt, hlength]
    show (do return (← Checked.subtract (t.attributes ++ [a]).length 1, t.attributes ++ [a])) = _
    rw [hlast]
    rfl

/-- The normals get an offset with the first normal-like attribute, and keep it. -/
theorem normalsOffset_add (s : ExportSource) (id : String) :
    (of (t.add s id)).normalsOffset
      = if s.semantic.isNormalLike && (of t).normalsOffset.isNone then
          some (t.attributes.findIdx (·.sharesIndex ⟨s.semantic, s.set⟩))
        else (of t).normalsOffset := by
  have hfound : t.attributes.findIdx? (·.sharesIndex ⟨s.semantic, s.set⟩) = _ :=
    List.findIdx?_eq_guard_findIdx_lt
  have hle : t.attributes.findIdx (·.sharesIndex ⟨s.semantic, s.set⟩) ≤ t.attributes.length :=
    List.findIdx_le_length
  simp only [of, Tuple.add]
  by_cases hs : s.semantic.isNormalLike = true
  · have hnormals : (fun b : Attribute => b.sharesIndex ⟨s.semantic, s.set⟩)
        = (·.semantic.isNormalLike) := by
      funext b
      rw [sharesIndex_eq, if_pos hs]
    rw [hnormals] at hfound hle ⊢
    by_cases hlt : t.attributes.findIdx (·.semantic.isNormalLike) < t.attributes.length
    · simp [Option.guard, hlt, hfound]
    · have hlength : t.attributes.findIdx (·.semantic.isNormalLike) = t.attributes.length := by
        omega
      simp [Option.guard, hlength, List.findIdx?_append, hfound, hs]
  · split
    · simp [hs]
    · simp [hs, List.findIdx?_append]

/-- The offset of an input is where its index is shared, or behind all others. -/
theorem add_eq (s : ExportSource) (id : String) : (of t).add s id = .ok (of (t.add s id)) := by
  have hnormals := normalsOffset_add t s id
  rw [add, place_eq]
  simp only [bind, Except.bind, pure, Except.pure, ← hnormals]
  rfl

theorem addAll_eq (e : Exporter) (ss : List ExportSource) :
    addAll e (of t) ss
      = .ok (of (Tuple.addAll e.host e.mesh e.options e.sources.vertices t ss).value) := by
  induction ss generalizing t with
  | nil => rfl
  | cons s ss ih =>
      rw [addAll, Tuple.addAll, Noted.value_bind]
      split
      · simp only [add_eq]
        exact ih _
      · exact ih _

end InputBuffer

/-! ## Columns -/

/-- The indices of face vertices for each attribute. -/
def columnsOf (h : Host) (attributes : List Attribute) (polygon : Nat) (run : List Nat) :
    List (List UInt32) :=
  attributes.map fun a => run.map (a.value h polygon)

theorem updateEach_map {α β : Type} (f : α → β → α) (g : β → α) (ys : List β) :
    updateEach f (ys.map g) ys = ys.map fun y => f (g y) y := by
  induction ys with
  | nil => rfl
  | cons y ys ih => rw [List.map_cons, updateEach, ih, List.map_cons]

namespace FaceBuffer

variable (h : Host) (attributes : List Attribute) (polygon : Nat) {b : FaceBuffer}

theorem new_eq : new attributes = ⟨columnsOf h attributes polygon [], [], [], [], false⟩ := by
  simp [new, columnsOf, List.map_const']

theorem pushVertex_eq {run : List Nat} (hb : b.columns = columnsOf h attributes polygon run)
    (position : Nat) :
    b.pushVertex h attributes polygon position
      = { b with columns := columnsOf h attributes polygon (run ++ [position]) } := by
  rw [pushVertex, hb, columnsOf, updateEach_map]
  simp [columnsOf]

theorem foldl_pushVertex {run : List Nat} (hb : b.columns = columnsOf h attributes polygon run)
    (positions : List Nat) :
    positions.foldl (fun b position => b.pushVertex h attributes polygon position) b
      = { b with columns := columnsOf h attributes polygon (run ++ positions) } := by
  induction positions generalizing b run with
  | nil => rw [List.append_nil, ← hb, List.foldl_nil]
  | cons position positions ih =>
      rw [List.foldl_cons, pushVertex_eq h attributes polygon hb, ih rfl, List.append_assoc,
        List.singleton_append]

theorem foldl_pushTriangle (run : List Nat) (hb : b.columns = columnsOf h attributes polygon run)
    (ts : List Triangle) :
    ts.foldl (pushTriangle h attributes polygon) b
      = { b with
          columns := columnsOf h attributes polygon (run ++ ts.flatMap Triangle.corners)
          sizes := b.sizes ++ ts.map fun _ => 3
          counts := b.counts ++ ts.map fun _ => 3 } := by
  induction ts generalizing b run with
  | nil => simp [hb.symm]
  | cons t ts ih =>
      have ht : pushTriangle h attributes polygon b t = { b with
          columns := columnsOf h attributes polygon (run ++ t.corners)
          sizes := b.sizes ++ [3]
          counts := b.counts ++ [3] } :=
        foldl_pushVertex h attributes polygon
          (b := { b with sizes := b.sizes ++ [3], counts := b.counts ++ [3] }) hb t.corners
      rw [List.foldl_cons, ht, ih _ rfl]
      simp

end FaceBuffer

/-! ## Used records -/

namespace HoleRecord

/-- The records that are not used yet. -/
def unused (flagged : List (HoleRecord × Bool)) : List HoleRecord :=
  (flagged.filter fun r => !r.2).map (·.1)

theorem unused_replicate (records : List HoleRecord) :
    unused (records.zip (List.replicate records.length false)) = records := by
  induction records with
  | nil => rfl
  | cons r records ih => exact congrArg (r :: ·) ih

/-- Whether a record is unused and begins at a vertex. -/
def unusedAt (polygon : Nat) (vertex : UInt32) (r : HoleRecord × Bool) : Bool :=
  !r.2 && r.1.beginsAt polygon vertex

/-- The first unused record is found by its number, and using it up flags it. -/
theorem findIdx?_unusedAt (polygon : Nat) (vertex : UInt32) (flagged : List (HoleRecord × Bool)) :
    match flagged.findIdx? (unusedAt polygon vertex) with
    | none => (unused flagged).find? (beginsAt polygon vertex) = none
    | some i => ∃ r, flagged[i]? = some (r, false)
        ∧ (unused flagged).find? (beginsAt polygon vertex) = some r
        ∧ unused (flagged.set i (r, true))
          = (unused flagged).eraseP (beginsAt polygon vertex) := by
  induction flagged with
  | nil => rfl
  | cons r flagged ih =>
      obtain ⟨r, flag⟩ := r
      rw [List.findIdx?_cons]
      by_cases hr : unusedAt polygon vertex (r, flag) = true
      · obtain ⟨rfl, hbegins⟩ : flag = false ∧ r.beginsAt polygon vertex = true := by
          simpa [unusedAt] using hr
        rw [if_pos hr]
        exact ⟨r, rfl, by simp [unused, hbegins], by simp [unused, hbegins]⟩
      · rw [if_neg hr]
        -- The record is not the one that is looked for: it is used, or it begins elsewhere.
        have hfront : ∀ x ∈ unused [(r, flag)], ¬ x.beginsAt polygon vertex = true := by
          cases flag <;> simp_all [unused, unusedAt]
        have hcons (behind : List (HoleRecord × Bool)) :
            unused ((r, flag) :: behind) = unused [(r, flag)] ++ unused behind := by
          cases flag <;> simp [unused]
        have hfind : (unused ((r, flag) :: flagged)).find? (beginsAt polygon vertex)
            = (unused flagged).find? (beginsAt polygon vertex) := by
          rw [hcons, List.find?_append, List.find?_eq_none.mpr hfront, Option.none_or]
        cases hi : flagged.findIdx? (unusedAt polygon vertex) with
        | none =>
            rw [hi] at ih
            exact hfind.trans ih
        | some i =>
            rw [hi] at ih
            obtain ⟨r', hget, hfirst, hused⟩ := ih
            refine ⟨r', hget, hfind.trans hfirst, ?_⟩
            rw [hcons flagged, List.eraseP_append_right _ hfront, ← hused, ← hcons]
            rfl

end HoleRecord

theorem zip_set {α β : Type} {as : List α} {i : Nat} {a : α} (ha : as[i]? = some a) (bs : List β)
    (b : β) : as.zip (bs.set i b) = (as.zip bs).set i (a, b) := by
  induction as generalizing i bs with
  | nil => rfl
  | cons a' as ih => cases bs <;> cases i <;> simp_all

/-- The number of a hole is that of the first unused record with a flag. -/
theorem Host.unusedHole?_eq (h : Host) {used : List Bool} (hused : used.length = h.holes.length)
    (polygon : Nat) (vertex : UInt32) :
    h.unusedHole? used polygon vertex
      = (h.holes.zip used).findIdx? (HoleRecord.unusedAt polygon vertex) := by
  have hzip : h.holes.zip used = h.holes.zipIdx.map fun r => (r.1, used[r.2]?.getD true) := by
    apply List.ext_getElem
    · simp [hused]
    · intro i hi hi'
      have hlt : i < used.length := by
        simpa [hused] using hi'
      simp [hlt]
  rw [hzip, List.findIdx?_map]
  rfl

/-! ## Pushing a run -/

/-- The hole records that flags leave unused. -/
def Host.unused (h : Host) (used : List Bool) : List HoleRecord :=
  HoleRecord.unused (h.holes.zip used)

namespace FaceBuffer

open Checked (lookup replace subtract)

variable (h : Host) (attributes : List Attribute) (polygon : Nat) {b : FaceBuffer}
  {used : List Bool}

/-- Where no unused record begins nothing happens. -/
theorem startHole_of_none (hused : used.length = h.holes.length) {vertex : UInt32}
    (hnone : (h.unused used).find? (HoleRecord.beginsAt polygon vertex) = none)
    (run position : Nat) :
    b.startHole h polygon run position vertex used = .ok (used, b) := by
  have hfind := HoleRecord.findIdx?_unusedAt polygon vertex (h.holes.zip used)
  rw [← h.unusedHole?_eq hused] at hfind
  unfold startHole
  split
  · rfl
  · cases hhole : h.unusedHole? used polygon vertex with
    | none => rfl
    | some hole =>
        rw [hhole] at hfind
        obtain ⟨r, -, hsome, -⟩ := hfind
        rw [Host.unused, hsome] at hnone
        cases hnone

/-- The record that is found is an unused one of a hole that begins at the vertex. -/
theorem unusedHole?_spec (hused : used.length = h.holes.length) {vertex : UInt32} {hole : Nat}
    (hhole : h.unusedHole? used polygon vertex = some hole) :
    ∃ r, h.holes[hole]? = some r ∧ used[hole]? = some false
      ∧ (h.unused used).find? (HoleRecord.beginsAt polygon vertex) = some r
      ∧ h.unused (used.set hole true)
        = (h.unused used).eraseP (HoleRecord.beginsAt polygon vertex) := by
  have hfind := HoleRecord.findIdx?_unusedAt polygon vertex (h.holes.zip used)
  rw [← h.unusedHole?_eq hused, hhole] at hfind
  obtain ⟨r, hget, hsome, herase⟩ := hfind
  obtain ⟨hrecord, hflag⟩ := List.getElem?_zip_eq_some.mp hget
  refine ⟨r, hrecord, hflag, hsome, ?_⟩
  have hset : h.holes.zip (used.set hole true)
      = (h.holes.zip used).set hole (r, true) := zip_set hrecord used true
  rw [Host.unused, hset, herase, Host.unused]

/-- A hole takes from the last face all that is left of the run. -/
theorem startHole_of_unusedHole? (hused : used.length = h.holes.length) {vertex : UInt32}
    {hole : Nat} (hhole : h.unusedHole? used polygon vertex = some hole) {position : Nat}
    (hposition : position ≠ 0) (left : Nat) {before : List Nat} {current : Nat}
    (hb : b.sizes = before ++ [current + left]) :
    b.startHole h polygon (position + left) position vertex used
      = .ok (used.set hole true, { b with
          sizes := before ++ [current, left]
          holes := b.holes ++ [before.length + 1] }) := by
  obtain ⟨r, hrecord, hflag, -, -⟩ := unusedHole?_spec h polygon hused hhole
  have hlt : hole < used.length := (List.getElem?_eq_some_iff.mp hflag).1
  have hreplace : replace used hole true = .ok (used.set hole true) := by
    rw [replace, if_pos hlt]
  have hsubtract : subtract (position + left) position = .ok left := by
    rw [subtract, if_pos (Nat.le_add_right _ _), Nat.add_sub_cancel_left]
  have hlookup : lookup h.holes hole = .ok r := by
    rw [lookup, hrecord]
  have hshrink : shrinkLast left b.sizes = before ++ [current] := by
    simp [shrinkLast, hb]
  unfold startHole
  rw [if_neg hposition, hhole]
  simp only [hreplace, hsubtract, hlookup, hshrink, bind, Except.bind, pure, Except.pure]
  simp [hb]

/-- Where a record begins a hole is begun by it, and the record is used up. -/
theorem startHole_of_some (hused : used.length = h.holes.length) {vertex : UInt32} {r : HoleRecord}
    (hsome : (h.unused used).find? (HoleRecord.beginsAt polygon vertex) = some r)
    {position : Nat} (hposition : position ≠ 0) (left : Nat) {before : List Nat} {current : Nat}
    (hb : b.sizes = before ++ [current + left]) :
    ∃ used', used'.length = h.holes.length
      ∧ h.unused used' = (h.unused used).eraseP (HoleRecord.beginsAt polygon vertex)
      ∧ b.startHole h polygon (position + left) position vertex used
        = .ok (used', { b with
            sizes := before ++ [current, left]
            holes := b.holes ++ [before.length + 1] }) := by
  cases hhole : h.unusedHole? used polygon vertex with
  | none =>
      have hfind := HoleRecord.findIdx?_unusedAt polygon vertex (h.holes.zip used)
      rw [← h.unusedHole?_eq hused, hhole] at hfind
      rw [Host.unused, hfind] at hsome
      cases hsome
  | some hole =>
      obtain ⟨-, -, -, -, herase⟩ := unusedHole?_spec h polygon hused hhole
      exact ⟨used.set hole true, by rw [List.length_set, hused], herase,
        startHole_of_unusedHole? h polygon hused hhole hposition left hb⟩

/-- Without holes a run is appended vertex by vertex. -/
theorem pushRun_of_plain (hb : b.isHoled = false) {done : List Nat}
    (hcolumns : b.columns = columnsOf h attributes polygon done) (run position : Nat)
    (is : List Nat) (used : List Bool) :
    pushRun h attributes polygon run position is used b
      = .ok (used, { b with columns := columnsOf h attributes polygon (done ++ is) }) := by
  induction is generalizing b done position with
  | nil =>
      rw [List.append_nil, ← hcolumns]
      rfl
  | cons i is ih =>
      have hpush : pushRun h attributes polygon run position (i :: is) used b
          = pushRun h attributes polygon run (position + 1) is used
              (b.pushVertex h attributes polygon i) := by
        rw [pushRun, hb]
        rfl
      rw [hpush, pushVertex_eq h attributes polygon hcolumns,
        ih (b := { b with columns := columnsOf h attributes polygon (done ++ [i]) }) hb rfl,
        List.append_assoc, List.singleton_append]

/-- With holes the rest of a run is cut as `Cut.ofRun` cuts it. The last face has all of the rest
    before it is cut. -/
theorem pushRun_of_holed (mesh : String) (hb : b.isHoled = true)
    (hused : used.length = h.holes.length) {done : List Nat}
    (hcolumns : b.columns = columnsOf h attributes polygon done) {position : Nat}
    (hposition : position ≠ 0) (is : List Nat) {before : List Nat} {current : Nat}
    (hsizes : b.sizes = before ++ [current + is.length]) :
    let cut := Cut.ofRun h mesh polygon is (h.unused used)
    ∃ used', used'.length = h.holes.length ∧ h.unused used' = cut.records
      ∧ pushRun h attributes polygon (position + is.length) position is used b
        = .ok (used', { b with
            columns := columnsOf h attributes polygon (done ++ is)
            sizes := before ++ (current + cut.continued.length) :: cut.rings.map List.length
            holes := b.holes ++ List.range' (before.length + 1) cut.rings.length }) := by
  induction is generalizing b used done position before current with
  | nil =>
      refine ⟨used, hused, rfl, ?_⟩
      obtain ⟨columns, sizes, holes, counts, isHoled⟩ := b
      simp_all [pushRun, Cut.ofRun, pure, Except.pure]
  | cons i is ih =>
      have hpush {used' : List Bool} {b' : FaceBuffer}
          (hstart : b.startHole h polygon (position + (is.length + 1)) position (h.vertex polygon i)
            used = .ok (used', b')) :
          pushRun h attributes polygon (position + (is.length + 1)) position (i :: is) used b
            = pushRun h attributes polygon (position + 1 + is.length) (position + 1) is used'
                (b'.pushVertex h attributes polygon i) := by
        rw [pushRun, hb, if_pos rfl, hstart, Nat.add_assoc, Nat.add_comm 1]
        rfl
      rw [Cut.ofRun]
      cases hfind : (h.unused used).find? (HoleRecord.beginsAt polygon (h.vertex polygon i)) with
      | none =>
          have hsizes' : b.sizes = before ++ [current + 1 + is.length] := by
            rw [hsizes, List.length_cons, Nat.add_assoc, Nat.add_comm 1]
          obtain ⟨used', hlength, hrecords, hrest⟩ := ih (b := { b with
            columns := columnsOf h attributes polygon (done ++ [i]) }) hb hused rfl
            (Nat.succ_ne_zero position) hsizes'
          refine ⟨used', hlength, hrecords, ?_⟩
          rw [List.length_cons, hpush (startHole_of_none h polygon hused hfind _ _),
            pushVertex_eq h attributes polygon hcolumns, hrest]
          simp [Nat.add_assoc, Nat.add_comm 1]
      | some r =>
          obtain ⟨used', hused', herase, hstart⟩ :=
            startHole_of_some h polygon hused hfind hposition (is.length + 1) hsizes
          have hsizes' : before ++ [current, is.length + 1]
              = (before ++ [current]) ++ [1 + is.length] := by
            rw [Nat.add_comm 1, List.append_assoc, List.singleton_append]
          obtain ⟨used'', hlength, hrecords, hrest⟩ := ih (b := { b with
            columns := columnsOf h attributes polygon (done ++ [i])
            sizes := before ++ [current, is.length + 1]
            holes := b.holes ++ [before.length + 1] }) hb hused' rfl
            (Nat.succ_ne_zero position) hsizes'
          rw [herase] at hrecords hrest
          refine ⟨used'', hlength, hrecords, ?_⟩
          have hvertex := pushVertex_eq h attributes polygon (b := { b with
            sizes := before ++ [current, is.length + 1]
            holes := b.holes ++ [before.length + 1] }) hcolumns i
          rw [List.length_cons, hpush hstart, hvertex, hrest]
          simp [List.range'_succ, Nat.add_comm 1]

end FaceBuffer

/-! ## Polygons -/

/-- The buffer that holds faces. -/
def Faces.buffer (h : Host) (attributes : List Attribute) : Faces → FaceBuffer
  | triangles p ts =>
      { columns := columnsOf h attributes p (ts.flatMap Triangle.corners)
        sizes := ts.map fun _ => 3
        holes := []
        counts := ts.map fun _ => 3
        isHoled := false }
  | plain p run => ⟨columnsOf h attributes p run, [run.length], [], [run.length], false⟩
  | holed p rings =>
      { columns := columnsOf h attributes p (rings.outline ++ rings.holes.flatten)
        sizes := rings.outline.length :: rings.holes.map List.length
        holes := List.range' 1 rings.holes.length
        counts := [rings.outline.length + rings.holes.flatten.length]
        isHoled := true }

theorem Faces.columns_buffer (h : Host) (attributes : List Attribute) (f : Faces) :
    (f.buffer h attributes).columns = columnsOf h attributes f.polygon f.run := by
  cases f <;> rfl

/-- The face of a run counts all of its vertices. -/
theorem Faces.counts_ofRun (h : Host) (mesh : String) (attributes : List Attribute) (polygon : Nat)
    (triangulated : Bool) {run : List Nat} (hrun : run ≠ []) (records : List HoleRecord) :
    ((Faces.ofRun h mesh triangulated polygon run records).1.buffer h attributes).counts
      = [run.length] := by
  rw [ofRun]
  split
  · have hlength := congrArg List.length (Rings.ofRun_spec h mesh polygon hrun records).1
    rw [List.length_append] at hlength
    exact congrArg (fun n => [n]) hlength
  · rfl

theorem updateEach_replicate (columns : List (List UInt32)) :
    updateEach (fun column n => column.take n) columns (List.replicate columns.length 0)
      = List.replicate columns.length [] := by
  induction columns with
  | nil => rfl
  | cons column columns ih =>
      rw [List.length_cons, List.replicate_succ, List.replicate_succ, updateEach, ih,
        List.take_zero]

namespace FaceBuffer

variable (h : Host) (mesh : String) (attributes : List Attribute) (polygon : Nat)
  {used : List Bool}

/-- The face of a run. -/
theorem pushRun_eq (triangulated : Bool) (hused : used.length = h.holes.length) (run : List Nat) :
    let face := Faces.ofRun h mesh triangulated polygon run (h.unused used)
    ∃ used', used'.length = h.holes.length ∧ h.unused used' = face.2
      ∧ pushRun h attributes polygon run.length 0 run used { new attributes with
          isHoled := h.isHoled polygon && !triangulated
          sizes := [run.length] }
        = .ok (used', { face.1.buffer h attributes with counts := [] }) := by
  rw [Faces.ofRun, new_eq h attributes polygon]
  by_cases hholed : h.isHoled polygon = true ∧ triangulated = false
  · have hflag : (h.isHoled polygon && !triangulated) = true := by
      simp [hholed]
    rw [if_pos hholed, hflag]
    cases run with
    | nil => exact ⟨used, hused, rfl, rfl⟩
    | cons i is =>
        -- The first vertex begins the outline, whatever the records say.
        obtain ⟨used', hlength, hrecords, hpush⟩ := pushRun_of_holed h attributes polygon mesh
          (b := ⟨columnsOf h attributes polygon [i], [1 + is.length], [], [], true⟩) rfl hused rfl
          Nat.one_ne_zero is (List.nil_append _).symm
        refine ⟨used', hlength, hrecords, ?_⟩
        have hfirst := pushVertex_eq h attributes polygon
          (b := ⟨columnsOf h attributes polygon [], [1 + is.length], [], [], true⟩) rfl i
        have hflat := (Cut.ofRun_spec h mesh polygon is (h.unused used)).1
        rw [List.length_cons, Nat.add_comm is.length, pushRun]
        show pushRun h attributes polygon (1 + is.length) 1 is used (pushVertex _ _ _ _ i) = _
        rw [hfirst, List.nil_append, hpush]
        simp [Rings.ofRun, Faces.buffer, hflat, Nat.add_comm 1]
  · have hflag : (h.isHoled polygon && !triangulated) = false := by
      simpa using hholed
    rw [if_neg hholed, hflag]
    exact ⟨used, hused, rfl, pushRun_of_plain h attributes polygon
      (b := ⟨columnsOf h attributes polygon [], [run.length], [], [], false⟩) rfl rfl run.length 0
      run used⟩

theorem truncate_new {b : FaceBuffer} (hb : b.columns.length = attributes.length) :
    (b.truncate ((new attributes).columns.map List.length)).columns = (new attributes).columns := by
  have hstart : (new attributes).columns.map List.length = List.replicate b.columns.length 0 := by
    simp [new, hb]
  rw [truncate, hstart, updateEach_replicate, hb]
  rfl

theorem ofRun_eq (triangulated : Bool) (hused : used.length = h.holes.length) (run : List Nat) :
    let face := Faces.ofRun h mesh triangulated polygon run (h.unused used)
    ∃ used', used'.length = h.holes.length ∧ h.unused used' = face.2
      ∧ ofRun h attributes polygon triangulated run used
        = .ok (used', if run.length < 3 then new attributes else face.1.buffer h attributes) := by
  obtain ⟨used', hlength, hrecords, hpush⟩ :=
    pushRun_eq h mesh attributes polygon triangulated hused run
  refine ⟨used', hlength, hrecords, ?_⟩
  have hcolumns : ((Faces.ofRun h mesh triangulated polygon run (h.unused used)).1.buffer h
      attributes).columns.length = attributes.length := by
    rw [Faces.columns_buffer, columnsOf, List.length_map]
  rw [ofRun, hpush]
  by_cases hshort : run.length < 3
  · generalize (Faces.ofRun h mesh triangulated polygon run (h.unused used)).1.buffer h attributes
      = b at hcolumns ⊢
    have htruncate := truncate_new attributes (b := { b with counts := [] }) hcolumns
    simp only [if_pos hshort]
    show Except.ok (used', FaceBuffer.mk (truncate _ _).columns [] [] [] false) = _
    rw [htruncate]
    rfl
  · have hne : run ≠ [] := by
      rintro rfl
      exact hshort (by simp)
    have hcounts := Faces.counts_ofRun h mesh attributes polygon triangulated hne (h.unused used)
    simp only [if_neg hshort, bind, Except.bind, pure, Except.pure, List.nil_append, ← hcounts]

/-- **A buffer holds the faces of its polygon**, and no check fails while it is filled. -/
theorem ofPolygon_eq (removeDuplicates triangulated : Bool) (hused : used.length = h.holes.length) :
    let faces :=
      (Faces.ofPolygon h mesh removeDuplicates triangulated polygon (h.unused used)).value
    ∃ used', used'.length = h.holes.length ∧ h.unused used' = faces.2
      ∧ ofPolygon h attributes polygon removeDuplicates triangulated used
        = .ok (used', (faces.1.map (Faces.buffer h attributes)).getD (new attributes)) := by
  rw [Faces.ofPolygon_value, ofPolygon]
  by_cases htriangles : triangulated = true ∧ 3 < h.vertexCount polygon
  · have hflag : (triangulated && decide (3 < h.vertexCount polygon)) = true := by
      simp [htriangles]
    have hfold := foldl_pushTriangle h attributes polygon [] (b := new attributes)
      (congrArg columns (new_eq h attributes polygon)) ((h.triangles polygon).getD [])
    rw [if_pos htriangles, if_pos hflag, hfold]
    exact ⟨used, hused, rfl, rfl⟩
  · have hflag : ¬ (triangulated && decide (3 < h.vertexCount polygon)) = true := by
      simpa using htriangles
    rw [if_neg htriangles, if_neg hflag]
    by_cases hsmall : h.vertexCount polygon < 3
    · rw [if_pos hsmall, if_pos hsmall]
      exact ⟨used, hused, rfl, rfl⟩
    · rw [if_neg hsmall, if_neg hsmall, run_eq]
      obtain ⟨used', hlength, hrecords, hrun⟩ :=
        ofRun_eq h mesh attributes polygon triangulated hused (h.run removeDuplicates polygon)
      refine ⟨used', hlength, hrecords, ?_⟩
      rw [hrun]
      by_cases hshort : (h.run removeDuplicates polygon).length < 3 <;> simp [hshort]

end FaceBuffer

end MeshWeave
