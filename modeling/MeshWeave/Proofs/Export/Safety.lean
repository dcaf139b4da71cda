import MeshWeave.Proofs.Export.Emitting
import MeshWeave.Proofs.Export.Headers
import MeshWeave.Proofs.Listing.Printing

set_option autoImplicit false

/-! # Exports never fail

The buffers of an export hold the faces of its slots, and what is written from them are the commands
of the listings of the slots. So an export by buffers does to any writer what an export does, and no
check of it fails.

That nothing is out of bounds rests on three facts about what is written: every column of a buffer
is as long as the run, no ring is empty, and the first ring is never a hole. -/

namespace MeshWeave

/-! ## Slots -/

namespace Faces

variable (h : Host) (attributes : List Attribute) (f : Faces)

theorem faceCount_buffer : (f.buffer h attributes).faceCount = .ok f.count := by
  cases f <;> simp [buffer, FaceBuffer.faceCount, Checked.subtract, count]

theorem isHoled_buffer : (f.buffer h attributes).isHoled = f.isHoled := by
  cases f <;> rfl

theorem counts_buffer : (f.buffer h attributes).counts = f.sizes := by
  cases f <;> rfl

theorem mapM_faceCount (fs : List Faces) :
    (fs.map (buffer h attributes)).mapM FaceBuffer.faceCount = .ok (fs.map count) := by
  induction fs with
  | nil => rfl
  | cons f fs ih =>
      rw [List.map_cons, List.mapM_cons, faceCount_buffer, ih]
      rfl

end Faces

namespace Exporter

open Writing (each issue issue_append issue_singleton each_map_eq_issue check_ok)

variable (e : Exporter) (t : Tuple) (triangulated : Bool)

/-- The host has triangles where they are written. -/
def HasTriangles (ps : List Nat) : Prop :=
  ∀ p ∈ ps, triangulated = true → 3 < e.host.vertexCount p → (e.host.triangles p).getD [] ≠ []

theorem hasTriangles_slotPolygons (slot : Nat) :
    e.HasTriangles e.decideTriangles.value (e.slotPolygons slot) := by
  intro p hp htriangulated
  have hlt : p < e.host.polygonCount := List.mem_range.mp (List.mem_filter.mp hp).1
  exact (e.decideTriangles_iff.mp htriangulated).2 p hlt

/-- So what has faces has some. -/
theorem count_ofPolygon {p : Nat} (hp : e.HasTriangles triangulated [p]) (records : List HoleRecord)
    {f : Faces} (hf : (Faces.ofPolygon e.host e.mesh e.options.removeDuplicates triangulated p
      records).value.1 = some f) : 0 < f.count := by
  rw [Faces.ofPolygon_value] at hf
  split at hf
  · next h =>
      obtain rfl := Option.some.inj hf
      exact List.length_pos_iff.mpr (hp p (List.mem_singleton_self p) h.1 h.2)
  · split at hf
    · cases hf
    · have hface : (if (e.host.run e.options.removeDuplicates p).length < 3 then none else
          some (Faces.ofRun e.host e.mesh triangulated p
            (e.host.run e.options.removeDuplicates p) records).1) = some f := hf
      split at hface
      · cases hface
      · obtain rfl := Option.some.inj hface
        rw [Faces.ofRun]
        split <;> exact Nat.one_pos

/-- The buffers of polygons hold their faces. -/
theorem buffers_eq {ps : List Nat} (hps : e.HasTriangles triangulated ps) {used : List Bool}
    (hused : used.length = e.host.holes.length) :
    let faces := (Faces.ofPolygons e.host e.mesh e.options.removeDuplicates triangulated ps
      (e.host.unused used)).value
    ∃ used', used'.length = e.host.holes.length ∧ e.host.unused used' = faces.2
      ∧ e.buffers t.attributes triangulated ps used
        = .ok (used', faces.1.map (Faces.buffer e.host t.attributes)) := by
  induction ps generalizing used with
  | nil => exact ⟨used, hused, rfl, rfl⟩
  | cons p ps ih =>
      obtain ⟨hp, hps⟩ : e.HasTriangles triangulated [p] ∧ e.HasTriangles triangulated ps := by
        simpa [HasTriangles] using hps
      obtain ⟨used', hlength, hrecords, hpolygon⟩ := FaceBuffer.ofPolygon_eq e.host e.mesh
        t.attributes p e.options.removeDuplicates triangulated hused
      obtain ⟨used'', hlength', hrecords', hrest⟩ := ih hps hlength
      rw [hrecords] at hrecords' hrest
      refine ⟨used'', hlength', hrecords', ?_⟩
      have hcount (f : Faces) := e.count_ofPolygon triangulated hp (e.host.unused used) (f := f)
      have hfaces : (Faces.ofPolygons e.host e.mesh e.options.removeDuplicates triangulated
          (p :: ps) (e.host.unused used)).value.1
        = (Faces.ofPolygon e.host e.mesh e.options.removeDuplicates triangulated p
            (e.host.unused used)).value.1.toList ++ (Faces.ofPolygons e.host e.mesh
              e.options.removeDuplicates triangulated ps (Faces.ofPolygon e.host e.mesh
                e.options.removeDuplicates triangulated p (e.host.unused used)).value.2).value.1 :=
        rfl
      rw [hfaces, buffers, hpolygon]
      cases hface : (Faces.ofPolygon e.host e.mesh e.options.removeDuplicates triangulated p
          (e.host.unused used)).value.1 with
      | none =>
          have hzero : (FaceBuffer.new t.attributes).faceCount = .ok 0 := rfl
          simp only [bind, Except.bind, pure, Except.pure, Option.map_none, Option.getD_none, hzero,
            hrest]
          rfl
      | some f =>
          simp only [bind, Except.bind, pure, Except.pure, Option.map_some, Option.getD_some,
            Faces.faceCount_buffer, hrest, if_pos (hcount f hface)]
          rfl

/-- The header is made from the same numbers. -/
theorem bufferHeader_eq (slot : Nat) (fs : List Faces) :
    e.bufferHeader triangulated t slot (total (fs.map Faces.count))
        (fs.map (Faces.buffer e.host t.attributes))
      = (e.listing t triangulated slot fs).header := by
  have hany : (fs.map (Faces.buffer e.host t.attributes)).any (·.isHoled)
      = fs.any Faces.isHoled := by
    rw [List.any_map]
    exact congrArg fs.any (funext (Faces.isHoled_buffer e.host t.attributes))
  have hcounts : (fs.map (Faces.buffer e.host t.attributes)).flatMap (·.counts)
      = fs.flatMap Faces.sizes := by
    rw [List.flatMap_map]
    exact List.flatMap_congr fun f _ => f.counts_buffer e.host t.attributes
  have hshape : (if fs.any Faces.isHoled && !triangulated then Shape.polygons
      else if triangulated then .triangles else .polylist) = shape triangulated fs := by
    unfold shape
    cases triangulated <;> simp
  rw [bufferHeader, hany, hcounts, hshape]
  rfl

variable {σ : Type} [Writer σ]

theorem writeAll_eq (slot : Nat) {fs : List Faces} (hfs : ∀ f ∈ fs, f.IsProper triangulated) :
    (FaceBuffer.writeAll (shape triangulated fs) (fs.map (Faces.buffer e.host t.attributes))
        : Writing σ Unit)
      = issue ((e.listing t triangulated slot fs).groups.toList.flatMap Group.commands) := by
  have hgroups : (e.listing t triangulated slot fs).groups
      = if shape triangulated fs = .polygons then (fs.map (·.group t e.host)).toArray
        else #[.polygon (fs.flatMap (·.indices t e.host)).toArray] := rfl
  rw [FaceBuffer.writeAll, hgroups]
  by_cases hshape : shape triangulated fs = .polygons
  · rw [if_pos hshape, if_pos hshape]
    obtain ⟨rfl, -⟩ := (shape_eq_polygons_iff triangulated fs).mp hshape
    rw [each_map_eq_issue fun f hf => Faces.writeGroup_eq t e.host (hfs f hf), List.flatMap_map]
  · have hgroup : [Group.polygon (fs.flatMap (·.indices t e.host)).toArray].flatMap Group.commands
        = .openElement .p :: (fs.flatMap (fun f => (f.indices t e.host).map .index)
          ++ [.closeElement]) := by
      simp [Group.commands, Command.run, List.map_flatMap]
    rw [if_neg hshape, if_neg hshape, each_map_eq_issue fun f _ => f.writeVertices_eq t e.host,
      hgroup, issue, issue_append, issue_singleton]

/-- A slot with faces is written as its listing. -/
theorem issue_listing (l : Listing) :
    (issue l.commands : Writing σ Unit) = (do
      Writing.perform (.openPrimitive l.header)
      issue (l.groups.toList.flatMap Group.commands)
      Writing.perform .closePrimitive) := by
  rw [Listing.commands, issue, issue_append, issue_singleton]

/-- Slots are written as planned. -/
theorem writeSlots_eq (slots : List Nat)
    (hslots : ∀ slot ∈ slots, e.HasTriangles triangulated (e.slotPolygons slot)) {used : List Bool}
    (hused : used.length = e.host.holes.length) (written : Nat) (w : σ) :
    e.writeSlots triangulated t slots used written w
      = .ok (writePlan w written
          (e.plan t triangulated slots (e.host.unused used))).value.swap := by
  induction slots generalizing used written w with
  | nil => rfl
  | cons slot slots ih =>
      obtain ⟨hslot, hslots⟩ := List.forall_mem_cons.mp hslots
      obtain ⟨used', hlength, hrecords, hbuffers⟩ :=
        e.buffers_eq t triangulated hslot hused
      have hproper := (Faces.ofPolygons_spec e.host e.mesh e.options.removeDuplicates triangulated
        (e.slotPolygons slot) (e.host.unused used)).2
      rw [writeSlots, hbuffers, check_ok, pure_bind, plan, writePlan, Noted.value_bind,
        Noted.value_bind, ← hrecords]
      revert hproper
      generalize (Faces.ofPolygons e.host e.mesh e.options.removeDuplicates triangulated
        (e.slotPolygons slot) (e.host.unused used)).value.1 = fs
      intro hproper
      simp only [Faces.mapM_faceCount, check_ok, pure_bind, listing?_value]
      by_cases hzero : (total (fs.map Faces.count) == 0) = true
      · rw [if_pos hzero, if_pos hzero]
        exact ih hslots hlength written w
      · rw [if_neg hzero, if_neg hzero, bufferHeader_eq]
        have hshape : (e.listing t triangulated slot fs).header.shape = shape triangulated fs := rfl
        have hlisting (rest : Writing σ Nat) : (do
            Writing.perform (.openPrimitive (e.listing t triangulated slot fs).header)
            FaceBuffer.writeAll (shape triangulated fs)
              (fs.map (Faces.buffer e.host t.attributes))
            Writing.perform .closePrimitive
            rest) = (do issue (e.listing t triangulated slot fs).commands; rest) := by
          rw [issue_listing, e.writeAll_eq t triangulated slot hproper]
          simp only [bind_assoc]
        simp only [hshape, hlisting]
        rw [Writing.bind_apply, Writing.issue_apply]
        rcases Writer.performAll w (e.listing t triangulated slot fs).commands with
          ⟨w', _ | failure⟩
        · exact ih hslots hlength (written + 1) w'
        · rfl

/-- **An export by buffers is an export**, to any writer: no check of it fails. -/
theorem writeBuffered_eq (w : σ) : e.writeBuffered w = .ok (e.write w).value.2.swap := by
  have hinputs : InputBuffer.addAll e .empty e.sources.faces = .ok (.of e.tuple.value) :=
    InputBuffer.addAll_eq .empty e e.sources.faces
  have hslots := e.writeSlots_eq e.tuple.value e.decideTriangles.value e.slots
    (fun slot _ => e.hasTriangles_slotPolygons slot)
    (List.length_replicate : (List.replicate e.host.holes.length false).length = _) 0 w
  have hunused : e.host.unused (List.replicate e.host.holes.length false) = e.host.holes :=
    HoleRecord.unused_replicate e.host.holes
  rw [hunused] at hslots
  rw [writeBuffered, hinputs, check_ok, pure_bind]
  exact hslots

/-! ## Outcomes -/

/-- A text writer over an output that takes everything writes what is planned. -/
theorem writePlan_prints {ind : Indentation} {before : ByteArray} {w : TextWriter}
    {ls : List WrittenListing} (h : TextWriter.Prints ind before w ⟨ls, .outside⟩) (n : Nat)
    (plan : List (Noted (Option Listing))) :
    ∃ w', (writePlan w n plan).value
        = (w', .ok (n + (plan.filterMap Noted.value).length))
      ∧ TextWriter.Prints ind before w'
          ⟨ls ++ (plan.filterMap Noted.value).map Listing.written, .outside⟩ := by
  induction plan generalizing w ls n with
  | nil => exact ⟨w, rfl, by simpa using h⟩
  | cons planned plan ih =>
      rw [writePlan, Noted.value_bind]
      cases hplanned : planned.value with
      | none =>
          rw [List.filterMap_cons_none hplanned]
          exact ih h n
      | some l =>
          rw [List.filterMap_cons_some hplanned]
          obtain ⟨hprints, hfailure⟩ := h.performAll l.commands
          rcases hlisting : Writer.performAll w l.commands with ⟨v, failure⟩
          rw [hlisting, ← l.commands_written, Transcript.performAll_listing] at hprints hfailure
          obtain rfl : failure = none := hfailure
          obtain ⟨w', hwrite, hall⟩ := ih hprints (n + 1)
          rw [List.append_assoc] at hall
          refine ⟨w', ?_, hall⟩
          simp only [hlisting, hwrite]
          rw [List.length_cons, Nat.add_assoc, Nat.add_comm 1]

/-- **Exports never fail.** To any writer an export by buffers is an export, so it looks nothing up
out of bounds and subtracts nothing from less. To a recorder or a text writer with nothing open, the
latter over an output that takes everything, it succeeds: no command is refused. The result is the
number of listings that were written, and nothing is left open. -/
theorem write_succeeds (e : Exporter) :
    (∀ (σ : Type) [Writer σ] (w : σ),
      e.writeBuffered w = .ok ((e.write w).value.2.2, (e.write w).value.2.1))
    ∧ (∀ ls : Array Listing,
      e.writeBuffered (⟨ls, .outside⟩ : Recorder)
        = .ok (.ok e.written.length, ⟨ls ++ e.written.toArray, .outside⟩))
    ∧ ∀ (ind : Indentation) (shape : Shape) (fresh : Bool) (bytes : ByteArray), ∃ shape' fresh',
      e.writeBuffered (⟨ind, .outside, shape, fresh, ⟨bytes, none⟩⟩ : TextWriter)
        = .ok (.ok e.written.length, ⟨ind, .outside, shape', fresh',
            ⟨bytes ++ (String.join (e.written.map (·.written.text ind))).toUTF8, none⟩⟩) := by
  refine ⟨fun σ _ w => e.writeBuffered_eq w, fun ls => ?_, fun ind shape fresh bytes => ?_⟩
  · have hplan := writePlan_recorder ls 0 e.listings.value.2
    rw [Nat.zero_add] at hplan
    rw [writeBuffered_eq]
    exact congrArg (Except.ok ∘ Prod.swap) hplan
  · have hstart :=
      TextWriter.Prints.empty ⟨ind, .outside, shape, fresh, ⟨bytes, none⟩⟩ rfl rfl
    obtain ⟨w', hplan, hprints⟩ := writePlan_prints hstart 0 e.listings.value.2
    rw [Nat.zero_add] at hplan
    obtain ⟨ind', place, shape', fresh', output⟩ := w'
    obtain rfl : ind' = ind := hprints.indentation_eq
    obtain rfl : place = .outside := hprints.place_eq
    obtain rfl : output = _ := hprints.output_eq
    refine ⟨shape', fresh', ?_⟩
    rw [writeBuffered_eq]
    refine (congrArg (Except.ok ∘ Prod.swap) hplan).trans ?_
    simp [Transcript.text, WrittenDraft.text, written, Function.comp_def]

end Exporter

end MeshWeave
