import Mathlib.Data.List.Perm.Subperm
import MeshWeave.Proofs.Export.Partition
import MeshWeave.Proofs.Export.Safety

set_option autoImplicit false

/-! # Where holes begin

An export by buffers that keeps a log of the holes it begins: by which record each of them begins,
and what it takes from the face before. The log is written beside the steps of the export and
changes none of them.

One step begins at most one hole, by a record that was unused and is used behind it
(`FaceBuffer.startHole_spec`). All the rest of a run is in the last face, so what a hole takes is
there to be taken. Logs of consecutive steps are put together by `Host.Logs.append`, over the
vertices of a run, the polygons of a slot and the slots of an export. -/

namespace MeshWeave

/-! ## The log -/

/-- A hole that begins. -/
structure HoleStart where
  polygon : Nat
  /-- The number of the host's record that says so. -/
  record : Nat
  /-- The size of the last face when the hole begins. -/
  size : Nat
  /-- The size of the hole, by which the last face shrinks. -/
  left : Nat
  deriving DecidableEq, Repr

namespace FaceBuffer

variable (h : Host) (attributes : List Attribute) (polygon : Nat)

/-- The hole that begins at a position of a run, if one does. -/
def start? (run position : Nat) (vertex : UInt32) (used : List Bool) (b : FaceBuffer) :
    Option HoleStart :=
  if position = 0 then none
  else (h.unusedHole? used polygon vertex).map fun record =>
    ⟨polygon, record, b.sizes.getLast?.getD 0, run - position⟩

/-- The holes that begin while face vertices are appended. -/
def runStarts (run : Nat) : (position : Nat) → List Nat → List Bool → FaceBuffer →
    Checked (List HoleStart)
  | _, [], _, _ => return []
  | position, i :: is, used, b => do
      let starts :=
        if b.isHoled then (b.start? h polygon run position (h.vertex polygon i) used).toList
        else []
      let (used, b) ←
        if b.isHoled then b.startHole h polygon run position (h.vertex polygon i) used
        else pure (used, b)
      return starts ++
        (← runStarts run (position + 1) is used (b.pushVertex h attributes polygon i))

/-- The holes that begin in a polygon. -/
def polygonStarts (removeDuplicates triangulated : Bool) (used : List Bool) :
    Checked (List HoleStart) :=
  if triangulated && 3 < h.vertexCount polygon then return []
  else if h.vertexCount polygon < 3 then return []
  else
    let run :=
      if removeDuplicates then
        dropRepeated (h.vertex polygon) (List.range (h.vertexCount polygon)) []
      else List.range (h.vertexCount polygon)
    runStarts h attributes polygon run.length 0 run used { new attributes with
      isHoled := h.isHoled polygon && !triangulated
      sizes := [run.length] }

end FaceBuffer

namespace Exporter

variable (e : Exporter) (attributes : List Attribute) (triangulated : Bool)

/-- The holes that begin in polygons in order. -/
def starts : List Nat → List Bool → Checked (List HoleStart)
  | [], _ => return []
  | p :: ps, used => do
      let first ← FaceBuffer.polygonStarts e.host attributes p e.options.removeDuplicates
        triangulated used
      let (used, _) ← FaceBuffer.ofPolygon e.host attributes p e.options.removeDuplicates
        triangulated used
      return first ++ (← starts ps used)

/-- The holes that begin in slots in order, and the faces of all their polygons. -/
def slotStarts : List Nat → List Bool → Checked (List HoleStart × List FaceBuffer)
  | [], _ => return ([], [])
  | slot :: slots, used => do
      let first ← e.starts attributes triangulated (e.slotPolygons slot) used
      let (used, bs) ← e.buffers attributes triangulated (e.slotPolygons slot) used
      let (rest, bss) ← slotStarts slots used
      return (first ++ rest, bs ++ bss)

end Exporter

/-! ## What a log says -/

/-- Holes that begin one after another, each by a record of its polygon that was unused until then
    and is used from then on. The last face has the vertices that they take. -/
structure Host.Logs (h : Host) (used : List Bool) (starts : List HoleStart) (used' : List Bool) :
    Prop where
  length_eq : used'.length = used.length
  flags_eq : ∀ i, used'[i]? = if i ∈ starts.map (·.record) then some true else used[i]?
  unused : ∀ s ∈ starts, used[s.record]? = some false
  nodup : (starts.map (·.record)).Nodup
  names : ∀ s ∈ starts, ∃ r, h.holes[s.record]? = some r ∧ r.polygon = s.polygon
  fits : ∀ s ∈ starts, s.left ≤ s.size

namespace Host.Logs

variable {h : Host} {used used' used'' : List Bool} {first rest : List HoleStart}

theorem nil (h : Host) (used : List Bool) : h.Logs used [] used where
  length_eq := rfl
  flags_eq _ := rfl
  unused := by simp
  nodup := .nil
  names := by simp
  fits := by simp

/-- Holes that begin later find the records of the earlier ones used. -/
theorem append (hfirst : h.Logs used first used') (hrest : h.Logs used' rest used'') :
    h.Logs used (first ++ rest) used'' := by
  have hlater : ∀ s ∈ rest, s.record ∉ first.map (·.record) ∧ used[s.record]? = some false := by
    intro s hs
    have hunused := hrest.unused s hs
    rw [hfirst.flags_eq] at hunused
    by_cases hmem : s.record ∈ first.map (·.record)
    · rw [if_pos hmem] at hunused
      exact absurd hunused (by simp)
    · rw [if_neg hmem] at hunused
      exact ⟨hmem, hunused⟩
  refine ⟨hrest.length_eq.trans hfirst.length_eq, ?_, ?_, ?_, ?_, ?_⟩
  · intro i
    rw [hrest.flags_eq, hfirst.flags_eq, List.map_append]
    by_cases hi : i ∈ rest.map (·.record) <;> simp [hi]
  · intro s hs
    rcases List.mem_append.mp hs with hs | hs
    · exact hfirst.unused s hs
    · exact (hlater s hs).2
  · rw [List.map_append, List.nodup_append']
    refine ⟨hfirst.nodup, hrest.nodup, ?_⟩
    intro i hi hi'
    obtain ⟨s, hs, rfl⟩ := List.mem_map.mp hi'
    exact (hlater s hs).1 hi
  · intro s hs
    rcases List.mem_append.mp hs with hs | hs
    · exact hfirst.names s hs
    · exact hrest.names s hs
  · intro s hs
    rcases List.mem_append.mp hs with hs | hs
    · exact hfirst.fits s hs
    · exact hrest.fits s hs

/-- No more holes begin in a polygon than there are records for it. -/
theorem length_filter_le (hlog : h.Logs used first used') (polygon : Nat) :
    (first.filter (·.polygon == polygon)).length
      ≤ (h.holes.filter (·.polygon == polygon)).length := by
  -- The numbers of all records for the polygon.
  let numbers := (h.holes.zipIdx.filter (·.1.polygon == polygon)).map (·.2)
  have hnumbers : numbers.length = (h.holes.filter (·.polygon == polygon)).length := by
    have hfilter : (h.holes.zipIdx.map (·.1)).filter (·.polygon == polygon)
        = (h.holes.zipIdx.filter (·.1.polygon == polygon)).map (·.1) := List.filter_map
    rw [List.zipIdx_map_fst] at hfilter
    rw [hfilter, List.length_map, List.length_map]
  have hnodup : ((first.filter (·.polygon == polygon)).map (·.record)).Nodup :=
    hlog.nodup.sublist (List.filter_sublist.map _)
  have hsubset : (first.filter (·.polygon == polygon)).map (·.record) ⊆ numbers := by
    intro i hi
    obtain ⟨s, hs, rfl⟩ := List.mem_map.mp hi
    obtain ⟨hs, hpolygon⟩ := List.mem_filter.mp hs
    obtain ⟨r, hr, hnames⟩ := hlog.names s hs
    refine List.mem_map.mpr ⟨(r, s.record), List.mem_filter.mpr ⟨?_, ?_⟩, rfl⟩
    · exact List.mem_zipIdx_iff_getElem?.mpr hr
    · rwa [hnames]
  rw [← hnumbers, ← List.length_map (·.record)]
  exact (hnodup.subperm hsubset).length_le

end Host.Logs

namespace FaceBuffer

variable (h : Host) (attributes : List Attribute) (polygon : Nat) {b : FaceBuffer}
  {used : List Bool}

/-- The last face has a number of vertices, or more. -/
def LastHas (b : FaceBuffer) (n : Nat) : Prop := ∃ before last, b.sizes = before ++ [last + n]

theorem startHole_spec (hused : used.length = h.holes.length) {left : Nat} (hb : b.LastHas left)
    (position : Nat) (vertex : UInt32) :
    let starts := (b.start? h polygon (position + left) position vertex used).toList
    ∃ used' b', b.startHole h polygon (position + left) position vertex used = .ok (used', b')
      ∧ h.Logs used starts used' ∧ (∀ s ∈ starts, s.polygon = polygon)
      ∧ b'.holes.length = b.holes.length + starts.length ∧ b'.LastHas left := by
  intro starts
  by_cases hposition : position = 0
  · have hstarts : starts = [] := by
      simp [starts, start?, hposition]
    refine ⟨used, b, ?_, ?_, ?_, ?_, hb⟩
    · rw [startHole, if_pos hposition]
      rfl
    · rw [hstarts]
      exact .nil h used
    · simp [hstarts]
    · simp [hstarts]
  · obtain ⟨before, last, hsizes⟩ := hb
    cases hhole : h.unusedHole? used polygon vertex with
    | none =>
        have hstarts : starts = [] := by
          simp [starts, start?, hhole]
        refine ⟨used, b, ?_, ?_, ?_, ?_, before, last, hsizes⟩
        · rw [startHole, if_neg hposition, hhole]
          rfl
        · rw [hstarts]
          exact .nil h used
        · simp [hstarts]
        · simp [hstarts]
    | some hole =>
        have hstarts : starts = [⟨polygon, hole, last + left, left⟩] := by
          simp [starts, start?, hposition, hhole, hsizes]
        obtain ⟨r, hrecord, hflag, hfind, -⟩ := unusedHole?_spec h polygon hused hhole
        have hbegins := List.find?_some hfind
        rw [HoleRecord.beginsAt_iff] at hbegins
        have hlt : hole < used.length := (List.getElem?_eq_some_iff.mp hflag).1
        refine ⟨_, _, startHole_of_unusedHole? h polygon hused hhole hposition left hsizes,
          ?_, ?_, ?_, before ++ [last], 0, ?_⟩
        · rw [hstarts]
          refine ⟨List.length_set, ?_, ?_, List.nodup_singleton _, ?_, ?_⟩
          · intro i
            by_cases hi : hole = i
            · subst hi
              simp [hlt]
            · simp [hi, Ne.symm hi]
          · simpa using hflag
          · simpa using ⟨r, hrecord, hbegins.1⟩
          · simp
        · simp [hstarts]
        · simp [hstarts]
        · simp

/-- One vertex is looked at, and then the rest of the run. -/
theorem runStarts_cons {run position i : Nat} {b' : FaceBuffer} {used' : List Bool}
    (hstart : (if b.isHoled then b.startHole h polygon run position (h.vertex polygon i) used
      else pure (used, b)) = .ok (used', b')) (is : List Nat) :
    runStarts h attributes polygon run position (i :: is) used b
        = (runStarts h attributes polygon run (position + 1) is used'
            (b'.pushVertex h attributes polygon i)).map
          ((if b.isHoled then (b.start? h polygon run position (h.vertex polygon i) used).toList
            else []) ++ ·)
      ∧ pushRun h attributes polygon run position (i :: is) used b
        = pushRun h attributes polygon run (position + 1) is used'
            (b'.pushVertex h attributes polygon i) := by
  rw [runStarts, pushRun]
  cases hholed : b.isHoled with
  | true =>
      rw [hholed, if_pos rfl] at hstart
      simp only [if_true, hstart]
      exact ⟨rfl, rfl⟩
  | false =>
      rw [hholed, if_neg Bool.false_ne_true] at hstart
      obtain ⟨rfl, rfl⟩ := Prod.mk.inj (Except.ok.inj hstart)
      exact ⟨rfl, rfl⟩

/-- What is left of a run is in the last face, and each vertex begins at most one hole. -/
theorem runStarts_spec (hused : used.length = h.holes.length) {is : List Nat}
    (hlast : b.LastHas is.length) (position : Nat) :
    ∃ starts used' b',
      runStarts h attributes polygon (position + is.length) position is used b = .ok starts
      ∧ pushRun h attributes polygon (position + is.length) position is used b = .ok (used', b')
      ∧ h.Logs used starts used' ∧ (∀ s ∈ starts, s.polygon = polygon)
      ∧ b'.holes.length = b.holes.length + starts.length := by
  induction is generalizing b used position with
  | nil => exact ⟨[], used, b, rfl, rfl, .nil h used, by simp, rfl⟩
  | cons i is ih =>
      let starts := if b.isHoled then (b.start? h polygon (position + (i :: is).length) position
        (h.vertex polygon i) used).toList else []
      obtain ⟨used', b', hstart, hlog, hpolygon, hholes, before, last, hsizes⟩ : ∃ used' b',
          (if b.isHoled then b.startHole h polygon (position + (i :: is).length) position
            (h.vertex polygon i) used else pure (used, b)) = .ok (used', b')
          ∧ h.Logs used starts used' ∧ (∀ s ∈ starts, s.polygon = polygon)
          ∧ b'.holes.length = b.holes.length + starts.length
          ∧ b'.LastHas (i :: is).length := by
        cases hholed : b.isHoled with
        | true =>
            have hspec := startHole_spec h polygon hused hlast position (h.vertex polygon i)
            simpa [starts, hholed] using hspec
        | false =>
            have hnone : starts = [] := by
              simp [starts, hholed]
            rw [hnone]
            exact ⟨used, b, rfl, .nil h used, by simp, rfl, hlast⟩
      have hlast' : (b'.pushVertex h attributes polygon i).LastHas is.length := by
        refine ⟨before, last + 1, ?_⟩
        show b'.sizes = _
        rw [hsizes, List.length_cons, Nat.add_right_comm]
        rfl
      obtain ⟨rest, used'', b'', hrest, hpush, hlog', hpolygon', hholes'⟩ :=
        ih (b := b'.pushVertex h attributes polygon i) (hlog.length_eq.trans hused) hlast'
          (position + 1)
      have hrun : position + 1 + is.length = position + (i :: is).length := by
        rw [List.length_cons]
        omega
      rw [hrun] at hrest hpush
      obtain ⟨hstarts, hpushes⟩ := runStarts_cons h attributes polygon hstart is
      refine ⟨starts ++ rest, used'', b'', ?_, hpushes.trans hpush, hlog.append hlog', ?_, ?_⟩
      · rw [hstarts, hrest]
        rfl
      · intro s hs
        rcases List.mem_append.mp hs with hs | hs
        · exact hpolygon s hs
        · exact hpolygon' s hs
      · have hpushed : (b'.pushVertex h attributes polygon i).holes = b'.holes := rfl
        rw [hholes', hpushed, hholes, List.length_append, Nat.add_assoc]

end FaceBuffer

/-- The number of holes of a polygon. -/
def Faces.holeCount : Faces → Nat
  | holed _ rings => rings.holes.length
  | _ => 0

theorem Faces.length_holes_buffer (h : Host) (attributes : List Attribute) (f : Faces) :
    (f.buffer h attributes).holes.length = f.holeCount := by
  cases f with
  | triangles p ts => rfl
  | plain p run => rfl
  | holed p rings => exact List.length_range'

/-- The holes that begin in a polygon are those that it is written with. -/
theorem FaceBuffer.polygonStarts_spec (h : Host) (mesh : String) (attributes : List Attribute)
    (polygon : Nat) (removeDuplicates : Bool) {used : List Bool}
    (hused : used.length = h.holes.length) :
    ∃ starts used' b,
      polygonStarts h attributes polygon removeDuplicates false used = .ok starts
      ∧ ofPolygon h attributes polygon removeDuplicates false used = .ok (used', b)
      ∧ h.Logs used starts used' ∧ (∀ s ∈ starts, s.polygon = polygon)
      ∧ ∀ f, (Faces.ofPolygon h mesh removeDuplicates false polygon (h.unused used)).value.1
          = some f → f.holeCount = starts.length := by
  rw [Faces.ofPolygon_value, polygonStarts, ofPolygon]
  simp only [Bool.false_and, Bool.false_eq_true, false_and, if_false, run_eq]
  by_cases hsmall : h.vertexCount polygon < 3
  · simp only [if_pos hsmall]
    exact ⟨[], used, new attributes, rfl, rfl, .nil h used, by simp, by simp⟩
  · simp only [if_neg hsmall]
    generalize h.run removeDuplicates polygon = run
    have hlast : LastHas { new attributes with
        isHoled := h.isHoled polygon && !false
        sizes := [run.length] } run.length := ⟨[], 0, by simp⟩
    obtain ⟨starts, used', b, hstarts, hpush, hlog, hpolygon, hholes⟩ :=
      runStarts_spec h attributes polygon hused hlast 0
    rw [Nat.zero_add] at hstarts hpush
    obtain ⟨_, -, -, hface⟩ := pushRun_eq h mesh attributes polygon false hused run
    obtain ⟨rfl, hb⟩ := Prod.mk.inj (Except.ok.inj (hpush.symm.trans hface))
    have hcount : (Faces.ofRun h mesh false polygon run (h.unused used)).1.holeCount
        = starts.length := by
      rw [← Faces.length_holes_buffer h attributes]
      have hsame := congrArg (·.holes.length) hb
      rw [hholes] at hsame
      exact hsame.symm.trans (Nat.zero_add _)
    obtain ⟨c, hc⟩ : ∃ c, ofRun h attributes polygon false run used = .ok (used', c) := by
      rw [ofRun, hpush]
      by_cases hshort : run.length < 3 <;>
        simp [hshort, bind, Except.bind, pure, Except.pure]
    refine ⟨starts, used', c, hstarts, hc, hlog, hpolygon, ?_⟩
    intro f hf
    split at hf
    · exact absurd hf (by simp)
    · rw [← Option.some.inj hf]
      exact hcount

/-- The sizes in a buffer add up to the run of its polygon. -/
theorem Faces.total_sizes_buffer (h : Host) (attributes : List Attribute) (f : Faces) :
    total (f.buffer h attributes).sizes = f.run.length := by
  cases f with
  | triangles p ts => exact total_map_length Triangle.corners ts
  | plain p run => exact Nat.add_zero run.length
  | holed p rings =>
      have hholes := total_map_length id rings.holes
      rw [List.flatMap_id] at hholes
      show rings.outline.length + total (rings.holes.map List.length) = _
      rw [run, List.length_append]
      exact congrArg (rings.outline.length + ·) hholes

/-! ## Polygons and slots -/

namespace Exporter

variable {e : Exporter} {ps qs : List Nat} {used used' used'' : List Bool}
  {first rest starts : List HoleStart}

/-- A log of polygons tells for each of them how many holes it has, and records of other polygons
    are left alone. -/
structure Accounts (e : Exporter) (ps : List Nat) (used : List Bool) (starts : List HoleStart)
    (used' : List Bool) : Prop where
  logs : e.host.Logs used starts used'
  polygons : ∀ s ∈ starts, s.polygon ∈ ps
  others : ∀ q ∉ ps,
    HoleRecord.firsts q (e.host.unused used') = HoleRecord.firsts q (e.host.unused used)
  holes : ∀ p ∈ ps, ∀ left f,
    HoleRecord.firsts p left = HoleRecord.firsts p (e.host.unused used) →
    (Faces.ofPolygon e.host e.mesh e.options.removeDuplicates false p left).value.1 = some f →
    f.holeCount = (starts.filter (·.polygon == p)).length

namespace Accounts

theorem nil (e : Exporter) (used : List Bool) : e.Accounts [] used [] used where
  logs := .nil e.host used
  polygons := by simp
  others _ _ := rfl
  holes := by simp

theorem filter_eq_nil (h : e.Accounts ps used starts used') {p : Nat} (hp : p ∉ ps) :
    starts.filter (·.polygon == p) = [] := by
  rw [List.filter_eq_nil_iff]
  intro s hs hpolygon
  rw [← beq_iff_eq.mp hpolygon] at hp
  exact hp (h.polygons s hs)

theorem append (hfirst : e.Accounts ps used first used') (hrest : e.Accounts qs used' rest used'')
    (hdisjoint : ps.Disjoint qs) : e.Accounts (ps ++ qs) used (first ++ rest) used'' where
  logs := hfirst.logs.append hrest.logs
  polygons := by
    intro s hs
    rw [List.mem_append]
    exact (List.mem_append.mp hs).imp (hfirst.polygons s) (hrest.polygons s)
  others := by
    intro q hq
    rw [List.mem_append, not_or] at hq
    rw [hrest.others q hq.2, hfirst.others q hq.1]
  holes := by
    intro p hp left f hleft hf
    rw [List.filter_append]
    rcases List.mem_append.mp hp with hp | hp
    · rw [hrest.filter_eq_nil (hdisjoint hp), List.append_nil]
      exact hfirst.holes p hp left f hleft hf
    · have hp' : p ∉ ps := fun hmem => hdisjoint hmem hp
      rw [hfirst.filter_eq_nil hp', List.nil_append]
      exact hrest.holes p hp left f (hleft.trans (hfirst.others p hp').symm) hf

end Accounts

variable (e) (attributes : List Attribute)

theorem accounts_polygon (hused : used.length = e.host.holes.length) (p : Nat) :
    ∃ starts used' b,
      FaceBuffer.polygonStarts e.host attributes p e.options.removeDuplicates false used
        = .ok starts
      ∧ FaceBuffer.ofPolygon e.host attributes p e.options.removeDuplicates false used
        = .ok (used', b)
      ∧ e.Accounts [p] used starts used' := by
  obtain ⟨starts, used', b, hstarts, hbuffer, hlog, hpolygon, hholes⟩ :=
    FaceBuffer.polygonStarts_spec e.host e.mesh attributes p e.options.removeDuplicates hused
  obtain ⟨_, -, hunused, hfaces⟩ :=
    FaceBuffer.ofPolygon_eq e.host e.mesh attributes p e.options.removeDuplicates false hused
  obtain ⟨rfl, -⟩ := Prod.mk.inj (Except.ok.inj (hbuffer.symm.trans hfaces))
  refine ⟨starts, used', b, hstarts, hbuffer, hlog, ?_, ?_, ?_⟩
  · intro s hs
    rw [List.mem_singleton]
    exact hpolygon s hs
  · intro q hq
    rw [hunused]
    exact Faces.firsts_ofPolygon e.host e.mesh _ _ (Ne.symm (List.mem_singleton.not.mp hq)) _
  · intro q hq left f hleft hf
    rw [List.mem_singleton] at hq
    subst hq
    have hall : starts.filter (·.polygon == q) = starts := by
      rw [List.filter_eq_self]
      intro s hs
      rw [beq_iff_eq]
      exact hpolygon s hs
    rw [Faces.ofPolygon_congr e.host e.mesh _ _ q hleft] at hf
    rw [hall]
    exact hholes f hf

/-- The log of polygons whose buffers are filled. -/
theorem accounts_polygons (hnodup : ps.Nodup) (hused : used.length = e.host.holes.length)
    {bs : List FaceBuffer} (hbuffers : e.buffers attributes false ps used = .ok (used', bs)) :
    ∃ starts, e.starts attributes false ps used = .ok starts ∧ e.Accounts ps used starts used' := by
  induction ps generalizing used bs with
  | nil =>
      obtain ⟨rfl, -⟩ := Prod.mk.inj (Except.ok.inj hbuffers)
      exact ⟨[], rfl, .nil e used⟩
  | cons p ps ih =>
      obtain ⟨hp, hnodup⟩ := List.nodup_cons.mp hnodup
      obtain ⟨first, between, b, hfirst, hbuffer, haccount⟩ :=
        e.accounts_polygon attributes hused p
      rw [buffers, hbuffer] at hbuffers
      cases hcount : b.faceCount with
      | error fault => simp [bind, Except.bind, hcount] at hbuffers
      | ok count =>
          cases hrest : e.buffers attributes false ps between with
          | error fault => simp [bind, Except.bind, hcount, hrest] at hbuffers
          | ok behind =>
              simp only [bind, Except.bind, hcount, hrest] at hbuffers
              obtain ⟨rfl, -⟩ := Prod.mk.inj (Except.ok.inj hbuffers)
              obtain ⟨rest, hstarts, haccounts⟩ :=
                ih hnodup (haccount.logs.length_eq.trans hused) hrest
              refine ⟨first ++ rest, ?_, haccount.append haccounts (by simpa using hp)⟩
              simp only [starts, hfirst, hbuffer, hstarts, bind, Except.bind, pure, Except.pure]

/-- What is written of a polygon that is not cut into triangles is its run. -/
theorem run_of_polygonFaces {p : Nat} {records : List HoleRecord} {f : Faces}
    (hf : (Faces.ofPolygon e.host e.mesh e.options.removeDuplicates false p records).value.1
      = some f) :
    f.run = e.host.run e.options.removeDuplicates p ∧ f.run ≠ [] := by
  have hspec := Faces.ofPolygon_spec e.host e.mesh e.options.removeDuplicates false p records
  rw [hf] at hspec
  obtain ⟨-, hrun, hproper⟩ := hspec
  have hne : f.run ≠ [] := by
    intro hnil
    refine (Faces.count_of_polygon hproper).2 ?_
    rw [Faces.vertices, hnil, List.map_nil]
  refine ⟨?_, hne⟩
  rw [hrun, Host.writtenRun, if_neg (by simp)] at hne ⊢
  by_cases hshort : (e.host.run e.options.removeDuplicates p).length < 3
  · rw [if_pos hshort] at hne
    exact absurd rfl hne
  · exact if_neg hshort

variable (t : Tuple)

/-- The buffers of polygons have the sizes of their runs. -/
theorem sizes_buffers (hnodup : ps.Nodup) (hused : used.length = e.host.holes.length) :
    ∃ used' bs, used'.length = e.host.holes.length
      ∧ e.buffers t.attributes false ps used = .ok (used', bs)
      ∧ List.Forall₂
        (fun p b => total b.sizes = (e.host.run e.options.removeDuplicates p).length)
        (ps.filter (e.host.hasFaces e.options.removeDuplicates false)) bs := by
  have htriangles : e.HasTriangles false ps := fun p _ h => absurd h (by simp)
  obtain ⟨used', hlength, -, hbuffers⟩ := e.buffers_eq t false htriangles hused
  refine ⟨used', _, hlength, hbuffers, ?_⟩
  rw [List.forall₂_map_right_iff]
  refine (Faces.ofPolygons_faces e.host e.mesh _ false hnodup (e.host.unused used)).imp ?_
  rintro p f ⟨left, -, hf⟩
  rw [Faces.total_sizes_buffer, (e.run_of_polygonFaces hf).1]

/-- The log of all slots. -/
theorem accounts_slots {slots : List Nat} (hnodup : slots.Nodup)
    (hused : used.length = e.host.holes.length) :
    ∃ starts used' bs, e.slotStarts t.attributes false slots used = .ok (starts, bs)
      ∧ e.Accounts (slots.flatMap e.slotPolygons) used starts used'
      ∧ List.Forall₂
        (fun p b => total b.sizes = (e.host.run e.options.removeDuplicates p).length)
        ((slots.flatMap e.slotPolygons).filter (e.host.hasFaces e.options.removeDuplicates false))
        bs := by
  induction slots generalizing used with
  | nil => exact ⟨[], used, [], rfl, .nil e used, .nil⟩
  | cons slot slots ih =>
      obtain ⟨hslot, hnodup⟩ := List.nodup_cons.mp hnodup
      have hpolygons : (e.slotPolygons slot).Nodup := List.nodup_range.filter _
      obtain ⟨between, first, hlength, hbuffers, hsizes⟩ := e.sizes_buffers t hpolygons hused
      obtain ⟨starts, hstarts, haccount⟩ :=
        e.accounts_polygons t.attributes hpolygons hused hbuffers
      obtain ⟨later, used', rest, hrest, haccounts, hsizes'⟩ := ih hnodup hlength
      have hdisjoint : (e.slotPolygons slot).Disjoint (slots.flatMap e.slotPolygons) := by
        intro p hp hp'
        obtain ⟨other, hother, hp'⟩ := List.mem_flatMap.mp hp'
        rw [mem_slotPolygons_iff] at hp hp'
        rw [← hp.2, hp'.2] at hslot
        exact hslot hother
      refine ⟨starts ++ later, used', first ++ rest, ?_, haccount.append haccounts hdisjoint, ?_⟩
      · simp only [slotStarts, hstarts, hbuffers, hrest, bind, Except.bind, pure, Except.pure]
      · rw [List.flatMap_cons, List.filter_append]
        exact List.rel_append hsizes hsizes'

/-! ## Rings as they are written -/

/-- A face is a polygon's run of face vertices, in order and cut at the holes that begin in it. -/
structure IsCut (e : Exporter) (starts : List HoleStart) (p : Nat) (face : Face) : Prop where
  indices_eq : face.outline ++ face.holes.flatten
    = e.tuple.value.indices e.host p (e.host.run e.options.removeDuplicates p)
  outline_ne : face.outline ≠ []
  holes_ne : ∀ hole ∈ face.holes, hole ≠ []
  begun : face.holes.length = (starts.filter (·.polygon == p)).length
  recorded : face.holes.length ≤ (e.host.holes.filter (·.polygon == p)).length

/-- A polygon that is written is one face, with its run and its holes. -/
theorem isCut_of_polygonFaces (hattributes : e.tuple.value.attributes ≠ []) {p : Nat}
    (haccount : e.Accounts ps (List.replicate e.host.holes.length false) starts used')
    (hp : p ∈ ps) (hfaces : e.facesOf false p ≠ []) :
    ∃ face, e.facesOf false p = [face] ∧ e.IsCut starts p face := by
  have hspec := e.polygonFaces?_spec false p
  rw [facesOf] at hfaces ⊢
  cases hf : e.polygonFaces? false p with
  | none => simp [hf] at hfaces
  | some f =>
      rw [hf] at hspec
      obtain ⟨hpolygon, -, hproper⟩ := hspec
      have hunused : e.host.unused (List.replicate e.host.holes.length false) = e.host.holes :=
        HoleRecord.unused_replicate e.host.holes
      have hcount := haccount.holes p hp e.host.holes f (by rw [hunused]) hf
      have hbound := haccount.logs.length_filter_le p
      obtain ⟨hrun, hne⟩ := e.run_of_polygonFaces hf
      have hindices {positions : List Nat} (hpositions : positions ≠ []) :
          e.tuple.value.indices e.host p positions ≠ [] := by
        intro hnil
        have hlength := e.tuple.value.length_indices e.host p positions
        rw [hnil, List.length_nil, eq_comm, Nat.mul_eq_zero, List.length_eq_zero_iff,
          List.length_eq_zero_iff] at hlength
        exact hlength.elim hpositions hattributes
      cases f with
      | triangles q ts => exact absurd hproper (by simp [Faces.IsProper])
      | plain q run =>
          obtain rfl : q = p := hpolygon
          refine ⟨⟨e.tuple.value.indices e.host q run, []⟩, rfl, ?_, hindices hne, by simp, hcount,
            Nat.zero_le _⟩
          rw [← hrun]
          exact List.append_nil _
      | holed q rings =>
          obtain rfl : q = p := hpolygon
          obtain ⟨-, houtline, hholes⟩ := hproper
          refine ⟨⟨e.tuple.value.indices e.host q rings.outline,
            rings.holes.map (e.tuple.value.indices e.host q)⟩, rfl, ?_, hindices houtline, ?_, ?_,
            ?_⟩
          · rw [← hrun]
            exact (e.tuple.value.indices_rings e.host q rings.outline rings.holes).symm
          · rw [List.forall_mem_map]
            exact fun hole hhole => hindices (hholes hole hhole)
          · rw [List.length_map]
            exact hcount
          · rw [List.length_map]
            exact hcount.trans_le hbound

/-- The polygons that are written are those with a run. -/
theorem facedPolygons_of_plain (slots : List Nat) :
    (slots.flatMap e.slotPolygons).filter (e.host.hasFaces e.options.removeDuplicates false)
      = slots.flatMap (e.facedPolygons false) := by
  rw [List.filter_flatMap]
  apply List.flatMap_congr
  intro slot _
  apply List.filter_congr
  intro p _
  have hnil := e.facesOf_eq_nil_iff false p
  rw [Host.writtenRun, if_neg (by simp)] at hnil
  rw [Host.hasFaces, Bool.false_and, Bool.false_or, Bool.eq_iff_iff, Bool.not_eq_true',
    ← Bool.not_eq_true, List.isEmpty_iff, hnil, decide_eq_true_eq]
  by_cases hshort : (e.host.run e.options.removeDuplicates p).length < 3
  · simp [hshort]
  · have hne : e.host.run e.options.removeDuplicates p ≠ [] := by
      intro hempty
      rw [hempty] at hshort
      exact hshort (by simp)
    simp [hshort, hne, Nat.le_of_not_lt hshort]

/-- **Cutting keeps the run.** An export that writes polygons writes each of them as one face, whose
    outline and holes are the run of its face vertices in order, none of them empty. The sizes that
    an export by buffers keeps for the rings of a polygon add up to its run, and never is more taken
    from a face than it has. Over the whole export every hole begins by a record of its own that
    names its polygon, so that a polygon has no more holes than there are records for it. -/
theorem rings_of_write (e : Exporter)
    (hpolygons : (e.write Recorder.empty).value.1.triangulated = false)
    (hattributes : e.tuple.value.attributes ≠ []) :
    let listings := (e.write Recorder.empty).value.2.1.listings.toList
    ∃ starts bs,
      e.slotStarts e.tuple.value.attributes false e.slots
        (List.replicate e.host.holes.length false) = .ok (starts, bs)
      ∧ (starts.map (·.record)).Nodup
      ∧ (∀ s ∈ starts, s.left ≤ s.size
        ∧ ∃ r, e.host.holes[s.record]? = some r ∧ r.polygon = s.polygon)
      ∧ List.Forall₂
        (fun p b => total b.sizes = (e.host.run e.options.removeDuplicates p).length)
        (e.slots.flatMap (e.facedPolygons false)) bs
      ∧ List.Forall₂
        (fun slot l => List.Forall₂ (e.IsCut starts) (e.facedPolygons false slot) l.faces)
        (e.facedSlots false) listings := by
  intro listings
  have hslots : e.slots.Nodup := List.nodup_range
  have hunused : (List.replicate e.host.holes.length false).length = e.host.holes.length :=
    List.length_replicate
  obtain ⟨starts, used', bs, hstarts, haccount, hsizes⟩ :=
    e.accounts_slots e.tuple.value hslots hunused
  refine ⟨starts, bs, hstarts, haccount.logs.nodup, ?_, ?_, ?_⟩
  · intro s hs
    exact ⟨haccount.logs.fits s hs, haccount.logs.names s hs⟩
  · rwa [facedPolygons_of_plain] at hsizes
  · have hplain : e.decideTriangles.value = false := e.triangulated_write.symm.trans hpolygons
    have hlistings : listings = (e.facedSlots false).map (e.slotListing false) := by
      rw [facedSlots_eq, ← hplain]
      exact e.listings_write_eq
    rw [hlistings, List.forall₂_map_right_iff, List.forall₂_same]
    intro slot hslot
    rw [(e.slotListing_spec false hattributes slot).1]
    -- Every polygon of the slot that is written is one face.
    have hcut : ∀ p ∈ e.facedPolygons false slot,
        ∃ face, e.facesOf false p = [face] ∧ e.IsCut starts p face := by
      intro p hp
      obtain ⟨hmem, hfaces⟩ := mem_facedPolygons_iff.mp hp
      refine e.isCut_of_polygonFaces hattributes haccount ?_ hfaces
      exact List.mem_flatMap.mpr
        ⟨slot, (List.mem_filter.mp hslot).1, mem_slotPolygons_iff.mpr hmem⟩
    generalize e.facedPolygons false slot = ps at hcut
    induction ps with
    | nil => exact .nil
    | cons p ps ih =>
        obtain ⟨⟨face, hface, hp⟩, hrest⟩ := List.forall_mem_cons.mp hcut
        rw [List.flatMap_cons, hface]
        exact .cons hp (ih hrest)

/-- A run with two holes, whose records give a wrong size, begin twice at one vertex, name a polygon
    that does not exist and begin at a vertex that is not there. -/
theorem rings_of_write_misrecorded :
    let polygons : List Polygon :=
      [(Polygon.ofOutline #[0, 1, 2]).addHole #[3, 4, 5, 6, 7, 8], .ofOutline #[0, 1, 2]]
    let records : List HoleRecord := [⟨0, 9, 3⟩, ⟨0, 2, 3⟩, ⟨7, 3, 1⟩, ⟨0, 3, 6⟩, ⟨0, 3, 99⟩]
    let e := new { (PolygonSet.ofPolygons [] [] [] polygons).host with holes := records } "mesh"
      ⟨[⟨.vertex, "v", 0⟩], []⟩ .plain
    let listings := (e.write Recorder.empty).value.2.1.listings.toList
    (e.write Recorder.empty).value.1.triangulated = false ∧ e.tuple.value.attributes ≠ []
    ∧ listings.map Listing.faces = [[⟨[0, 1, 2], [[3, 4, 5], [6, 7, 8]]⟩, ⟨[0, 1, 2], []⟩]]
    ∧ (∃ bs, e.slotStarts e.tuple.value.attributes false e.slots (List.replicate 5 false)
      = .ok ([⟨0, 0, 9, 6⟩, ⟨0, 3, 6, 3⟩], bs))
    ∧ e.IsCut [⟨0, 0, 9, 6⟩, ⟨0, 3, 6, 3⟩] 0 ⟨[0, 1, 2], [[3, 4, 5], [6, 7, 8]]⟩ := by
  intro polygons records e listings
  have hpolygons : (e.write Recorder.empty).value.1.triangulated = false :=
    e.triangulated_write.trans rfl
  have hattributes : e.tuple.value.attributes ≠ [] := by decide
  have hfaces : listings.map Listing.faces
      = [[⟨[0, 1, 2], [[3, 4, 5], [6, 7, 8]]⟩, ⟨[0, 1, 2], []⟩]] := by decide +kernel
  have hslots : e.facedSlots false = [0] := by decide +kernel
  have hfaced : e.facedPolygons false 0 = [0, 1] := by decide +kernel
  have hlog : (e.slotStarts e.tuple.value.attributes false e.slots
      (List.replicate 5 false)).toOption.map (·.1) = some [⟨0, 0, 9, 6⟩, ⟨0, 3, 6, 3⟩] := by
    decide +kernel
  obtain ⟨starts, bs, hstarts, -, -, -, hlistings⟩ := rings_of_write e hpolygons hattributes
  have hstarts' : e.slotStarts e.tuple.value.attributes false e.slots (List.replicate 5 false)
      = .ok (starts, bs) := hstarts
  rw [hstarts'] at hlog
  obtain rfl : starts = [⟨0, 0, 9, 6⟩, ⟨0, 3, 6, 3⟩] := Option.some.inj hlog
  refine ⟨hpolygons, hattributes, hfaces, ⟨bs, hstarts'⟩, ?_⟩
  rw [hslots, List.forall₂_cons_left_iff] at hlistings
  obtain ⟨l, ls, hslot, -, hl⟩ := hlistings
  have hl' : listings = l :: ls := hl
  rw [hl', List.map_cons] at hfaces
  rw [hfaced, (List.cons.inj hfaces).1, List.forall₂_cons] at hslot
  exact hslot.1

end Exporter

end MeshWeave
