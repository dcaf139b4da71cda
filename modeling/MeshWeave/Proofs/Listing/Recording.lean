import Mathlib.Data.List.Basic
import MeshWeave.Export.Basic
import MeshWeave.Proofs.Listing.Transcript

set_option autoImplicit false

/-! # Recording whole listings

The commands of a listing, performed on a transcript that has nothing open, write just the listing:
what was written for the outline comes first, and a run for each hole follows. Each lemma follows
the elements of a listing from outside to inside: a run of indices, an index element, the index
elements of a listing, the listing itself. A recorder has what its transcript says, so the commands
record just the listing.

An export to a recorder never fails, because the commands of a listing are always in place. -/

namespace MeshWeave

/-! ## Listings as they are written -/

/-- The index element with the outline first. -/
def Group.written : Group → WrittenGroup
  | polygon indices => .polygon indices
  | holed outer holes => .holed ((.polygon, outer) :: holes.toList.map (.hole, ·))

/-- The primitive element of a listing. -/
def Listing.written (l : Listing) : WrittenListing := ⟨l.header, l.groups.toList.map Group.written⟩

theorem Group.commands_written (g : Group) : g.written.commands = g.commands := by
  cases g with
  | polygon indices => rfl
  | holed outer holes =>
      simp [written, commands, WrittenGroup.commands, runCommands, RunKind.tag, List.flatMap_map]

theorem Listing.commands_written (l : Listing) : l.written.commands = l.commands := by
  simp [written, commands, WrittenListing.commands, WrittenListing.opening, List.flatMap_map,
    Group.commands_written]

theorem Group.group_written (g : Group) : g.written.group = g := by
  cases g with
  | polygon indices => rfl
  | holed outer holes =>
      have hpolygon : (RunKind.hole == RunKind.polygon) = false := rfl
      simp [written, WrittenGroup.group, runsOf, List.filter_map, Function.comp_def, hpolygon]

theorem Listing.listing_written (l : Listing) : l.written.listing = l := by
  simp [written, WrittenListing.listing, Function.comp_def, Group.group_written]

/-! ## Writing them -/

namespace Transcript

open Writer (performAll)

theorem performAll_of_step {t t' : Transcript} {c : Command} (h : t.step c = .ok t')
    (cs : List Command) : performAll t (c :: cs) = performAll t' cs := by
  have hc : Writer.perform t c = (t', none) := by
    simp only [Writer.perform, h]
  rw [Writer.performAll_cons, hc]

variable {ls : List WrittenListing} {l : WrittenListing}

/-- A run, from the draft that it is written in to the one behind it. -/
theorem performAll_run (start closed : Array UInt32 → Transcript) {t : Transcript} {tag : IndexTag}
    (hopen : t.step (.openElement tag) = .ok (start #[]))
    (hindex : ∀ before i, (start before).step (.index i) = .ok (start (before.push i)))
    (hclose : ∀ is, (start is).step .closeElement = .ok (closed is)) (indices : Array UInt32)
    (cs : List Command) :
    performAll t (Command.run tag indices ++ cs) = performAll (closed indices) cs := by
  have hindices (is : List UInt32) (before : Array UInt32) :
      performAll (start before) (is.map .index ++ .closeElement :: cs)
        = performAll (closed (before ++ is.toArray)) cs := by
    induction is generalizing before with
    | nil =>
        rw [List.map_nil, List.nil_append, performAll_of_step (hclose before)]
        simp
    | cons i is ih =>
        rw [List.map_cons, List.cons_append, performAll_of_step (hindex before i), ih]
        congr 2
        apply Array.ext'
        simp
  rw [Command.run, List.cons_append, performAll_of_step hopen, List.append_assoc,
    List.singleton_append, hindices, Array.empty_append, Array.toArray_toList]

theorem performAll_runs (before runs : List (RunKind × Array UInt32)) (cs : List Command) :
    performAll (⟨ls, .holed l before⟩ : Transcript) (runs.flatMap runCommands ++ cs)
      = performAll ⟨ls, .holed l (before ++ runs)⟩ cs := by
  induction runs generalizing before with
  | nil => simp
  | cons run runs ih =>
      obtain ⟨kind, indices⟩ := run
      have hopen : step ⟨ls, .holed l before⟩ (.openElement kind.tag)
          = .ok ⟨ls, .run l before kind #[]⟩ := by
        cases kind <;> rfl
      rw [List.flatMap_cons, List.append_assoc, runCommands,
        performAll_run (fun is => ⟨ls, .run l before kind is⟩)
          (fun is => ⟨ls, .holed l (before ++ [(kind, is)])⟩) hopen (fun _ _ => rfl) (fun _ => rfl),
        ih, List.append_assoc, List.singleton_append]

theorem performAll_group (g : WrittenGroup) (cs : List Command) :
    performAll (⟨ls, .primitive l⟩ : Transcript) (g.commands ++ cs)
      = performAll ⟨ls, .primitive (l.push g)⟩ cs := by
  cases g with
  | polygon indices =>
      exact performAll_run (fun is => ⟨ls, .polygon l is⟩)
        (fun is => ⟨ls, .primitive (l.push (.polygon is))⟩) rfl (fun _ _ => rfl) (fun _ => rfl)
        indices cs
  | holed runs =>
      have hopen : step ⟨ls, .primitive l⟩ (.openElement .ph) = .ok ⟨ls, .holed l []⟩ := rfl
      have hclose : step ⟨ls, .holed l runs⟩ .closeElement
          = .ok ⟨ls, .primitive (l.push (.holed runs))⟩ := rfl
      rw [WrittenGroup.commands, List.cons_append, performAll_of_step hopen, List.append_assoc,
        performAll_runs, List.nil_append, List.singleton_append, performAll_of_step hclose]

theorem performAll_groups (gs : List WrittenGroup) (cs : List Command) :
    performAll (⟨ls, .primitive l⟩ : Transcript) (gs.flatMap WrittenGroup.commands ++ cs)
      = performAll ⟨ls, .primitive ⟨l.header, l.groups ++ gs⟩⟩ cs := by
  induction gs generalizing l with
  | nil => simp
  | cons g gs ih =>
      rw [List.flatMap_cons, List.append_assoc, performAll_group, ih, WrittenListing.push,
        List.append_assoc, List.singleton_append]

/-- **The commands of a primitive element write the element.** -/
theorem performAll_listing (l : WrittenListing) :
    performAll (⟨ls, .outside⟩ : Transcript) l.commands = (⟨ls ++ [l], .outside⟩, none) := by
  have hopen : step ⟨ls, .outside⟩ (.openPrimitive l.header)
      = .ok ⟨ls, .primitive ⟨l.header, []⟩⟩ := rfl
  have hclose : step ⟨ls, .primitive l⟩ .closePrimitive = .ok ⟨ls ++ [l], .outside⟩ := rfl
  rw [WrittenListing.commands, WrittenListing.opening, List.cons_append, performAll_of_step hopen,
    performAll_groups, List.nil_append, performAll_of_step hclose, performAll]

end Transcript

/-- **The commands of a listing record the listing.** -/
theorem Recorder.performAll_listing {ls : Array Listing} (l : Listing) :
    Writer.performAll (⟨ls, .outside⟩ : Recorder) l.commands
      = (⟨ls.push l, .outside⟩, none) := by
  have hwritten :=
    Transcript.performAll_recorder ⟨ls.toList.map Listing.written, .outside⟩ l.commands
  rw [← l.commands_written, Transcript.performAll_listing] at hwritten
  have hpush : ls.push l = (ls.toList ++ [l]).toArray := by
    apply Array.ext'
    simp
  rw [hpush]
  simpa [Transcript.recorder, WrittenDraft.draft, Function.comp_def, Listing.listing_written,
    Listing.commands_written] using hwritten

/-! ## Exports to a recorder -/

namespace Exporter

/-- The listings that an export writes. -/
def written (e : Exporter) : List Listing := e.listings.value.2.filterMap Noted.value

theorem writePlan_recorder (ls : Array Listing) (n : Nat) (plan : List (Noted (Option Listing))) :
    (writePlan (⟨ls, .outside⟩ : Recorder) n plan).value
      = (⟨ls ++ (plan.filterMap Noted.value).toArray, .outside⟩,
          .ok (n + (plan.filterMap Noted.value).length)) := by
  induction plan generalizing ls n with
  | nil => simp [writePlan]
  | cons planned plan ih =>
      rw [writePlan, Noted.value_bind]
      cases hplanned : planned.value with
      | none =>
          rw [List.filterMap_cons_none hplanned]
          exact ih ls n
      | some l =>
          rw [List.filterMap_cons_some hplanned]
          simp only [Recorder.performAll_listing, ih]
          rw [List.length_cons, Nat.add_assoc, Nat.add_comm 1]
          congr 2
          apply Array.ext'
          simp

/-- **An export to a recorder** never fails, and records what it writes. -/
theorem write_recorder (e : Exporter) :
    (e.write Recorder.empty).value
      = ({ e with triangulated := e.listings.value.1 }, ⟨e.written.toArray, .outside⟩,
          .ok e.written.length) := by
  have hplan := writePlan_recorder #[] 0 e.listings.value.2
  rw [Array.empty_append, Nat.zero_add] at hplan
  show ({ e with triangulated := e.listings.value.1 },
    (writePlan Recorder.empty 0 e.listings.value.2).value.1,
    (writePlan Recorder.empty 0 e.listings.value.2).value.2) = _
  rw [Recorder.empty, hplan, written]

end Exporter

end MeshWeave
