import Mathlib.Data.List.Basic
import MeshWeave.Proofs.Listing.Transcript

set_option autoImplicit false

/-! # The order of recorded indices

What a recorder keeps of the order in which indices are written. In an element for a polygon with
holes the indices of all polygon runs come first, whenever they were written. So the indices of a
listing are in the order of writing just if that moves none of them, which is so if no polygon run
follows a hole. Every run has a ring of its own just if each such element holds one polygon run and
then its holes. -/

namespace MeshWeave

/-- The index that a command writes. -/
def Command.index? : Command → Option UInt32
  | index i => some i
  | _ => none

/-- The runs of an index element, in the order of the document. -/
def Group.runs : Group → List (RunKind × Array UInt32)
  | polygon indices => [(.polygon, indices)]
  | holed outer holes => (.polygon, outer) :: holes.toList.map (.hole, ·)

/-- The indices of runs in order. -/
def runIndices (runs : List (RunKind × Array UInt32)) : List UInt32 :=
  runs.flatMap fun run => run.2.toList

/-- The polygon runs, then the holes. -/
def byKind (runs : List (RunKind × Array UInt32)) : List (RunKind × Array UInt32) :=
  runs.filter (·.1 == .polygon) ++ runs.filter (·.1 == .hole)

/-- No index of a polygon run follows one of a hole. -/
def OutlineFirst (runs : List (RunKind × Array UInt32)) : Prop :=
  runs.Pairwise fun a b => a.1 = .hole → b.1 = .polygon → a.2 = #[] ∨ b.2 = #[]

/-- There is one polygon run, and all holes follow it. -/
def OneOutline (runs : List (RunKind × Array UInt32)) : Prop :=
  ∃ (outer : Array UInt32) (holes : List (Array UInt32)),
    runs = (.polygon, outer) :: holes.map (.hole, ·)

/-! ## Reading indices off commands -/

theorem Command.filterMap_run (tag : IndexTag) (indices : Array UInt32) :
    (run tag indices).filterMap index? = indices.toList := by
  rw [run, List.filterMap_cons_none rfl, List.filterMap_append, List.filterMap_map]
  simp [Function.comp_def, index?]

theorem filterMap_runCommands (runs : List (RunKind × Array UInt32)) :
    (runs.flatMap runCommands).filterMap Command.index? = runIndices runs := by
  rw [List.filterMap_flatMap]
  exact List.flatMap_congr fun run _ => Command.filterMap_run run.1.tag run.2

theorem WrittenGroup.filterMap_commands (g : WrittenGroup) :
    g.commands.filterMap Command.index? = runIndices g.runs := by
  cases g with
  | polygon indices =>
      rw [commands, Command.filterMap_run]
      simp [runs, runIndices]
  | holed runs =>
      rw [commands, List.filterMap_cons_none rfl, List.filterMap_append, filterMap_runCommands]
      simp [WrittenGroup.runs, Command.index?]

theorem WrittenListing.filterMap_commands (l : WrittenListing) :
    l.commands.filterMap Command.index? = l.groups.flatMap fun g => runIndices g.runs := by
  rw [commands, opening, List.cons_append, List.filterMap_cons_none rfl, List.filterMap_append,
    List.filterMap_flatMap]
  simp only [WrittenGroup.filterMap_commands]
  simp [Command.index?]

/-! ## Only the end tag finishes a primitive element -/

theorem closePrimitive_not_mem_runCommands (run : RunKind × Array UInt32) :
    .closePrimitive ∉ runCommands run := by
  simp [runCommands, Command.run]

theorem WrittenGroup.closePrimitive_not_mem_commands (g : WrittenGroup) :
    .closePrimitive ∉ g.commands := by
  cases g with
  | polygon indices => exact closePrimitive_not_mem_runCommands (.polygon, indices)
  | holed runs => simp [commands, closePrimitive_not_mem_runCommands]

theorem WrittenListing.closePrimitive_not_mem_opening (l : WrittenListing) :
    .closePrimitive ∉ l.opening := by
  simp [opening, WrittenGroup.closePrimitive_not_mem_commands]

theorem WrittenDraft.closePrimitive_not_mem_commands (d : WrittenDraft) :
    .closePrimitive ∉ d.commands := by
  cases d with
  | outside => simp [commands]
  | primitive l => exact l.closePrimitive_not_mem_opening
  | polygon l indices => simp [commands, l.closePrimitive_not_mem_opening]
  | holed l runs | run l runs kind indices =>
      simp [commands, l.closePrimitive_not_mem_opening, closePrimitive_not_mem_runCommands]

/-! ## What is recorded of an index element -/

theorem runIndices_eq (runs : List (RunKind × Array UInt32)) :
    runIndices runs = (runs.map (·.2.toList)).flatten := List.flatMap_def

/-- Runs are recorded by kind. -/
theorem WrittenGroup.indices_holed (runs : List (RunKind × Array UInt32)) :
    (holed runs).group.indices.toList
      = runIndices (byKind runs) := by
  simp [group, Group.indices, runIndices_eq, byKind, runsOf, Function.comp_def]

theorem WrittenGroup.indices_polygon (indices : Array UInt32) :
    (polygon indices).group.indices.toList = runIndices (polygon indices).runs := by
  simp [group, Group.indices, runIndices, runs]

/-- Each run is of one kind. -/
theorem perm_byKind (runs : List (RunKind × Array UInt32)) : (byKind runs).Perm runs := by
  have hhole : runs.filter (·.1 == .hole) = runs.filter fun run => !(run.1 == .polygon) := by
    apply List.filter_congr
    intro run _
    cases run.1 <;> rfl
  rw [byKind, hhole]
  exact List.filter_append_perm _ runs

theorem WrittenGroup.length_indices (g : WrittenGroup) :
    g.group.indices.toList.length = (runIndices g.runs).length := by
  cases g with
  | polygon indices => rw [indices_polygon]
  | holed runs =>
      rw [indices_holed]
      exact ((perm_byKind runs).flatMap_right _).length_eq

/-- The order of all indices is kept just if that of each index element is. -/
theorem WrittenListing.indices_eq_iff (l : WrittenListing) :
    l.listing.indices.toList = l.commands.filterMap Command.index?
      ↔ ∀ g ∈ l.groups, g.group.indices.toList = runIndices g.runs := by
  have hlengths : (l.groups.map fun g => g.group.indices.toList).map List.length
      = (l.groups.map fun g => runIndices g.runs).map List.length := by
    rw [List.map_map, List.map_map]
    exact List.map_congr_left fun g _ => g.length_indices
  have hlisting : l.listing.indices.toList
      = (l.groups.map fun g => g.group.indices.toList).flatten := by
    simp [listing, Listing.indices, List.flatMap_def, Function.comp_def]
  rw [hlisting, filterMap_commands, List.flatMap_def]
  constructor
  · intro hflat
    exact List.map_inj_left.mp (List.eq_iff_flatten_eq.mpr ⟨hflat, hlengths⟩)
  · intro hgroups
    exact congrArg List.flatten (List.map_congr_left hgroups)

/-- Polygon runs that stand first stay there. -/
theorem runIndices_of_outlineFirst {runs : List (RunKind × Array UInt32)} (h : OutlineFirst runs) :
    runIndices (byKind runs) = runIndices runs := by
  induction runs with
  | nil => rfl
  | cons run runs ih =>
      obtain ⟨hrun, hruns⟩ := List.pairwise_cons.mp h
      have hrest := ih hruns
      obtain ⟨kind, indices⟩ := run
      cases kind with
      | polygon =>
          simp only [runIndices, byKind, List.flatMap_append] at hrest ⊢
          simp [hrest]
      | hole =>
          -- Either the hole is empty, or all polygon runs behind it are.
          simp only [runIndices, byKind, List.flatMap_append] at hrest ⊢
          by_cases hempty : indices = #[]
          · simp [hempty, hrest]
          · have houter :
                (runs.filter (·.1 == .polygon)).flatMap (fun run => run.2.toList) = [] := by
              rw [List.flatMap_eq_nil_iff]
              intro run hmem
              obtain ⟨hmem, hkind⟩ := List.mem_filter.mp hmem
              have hor := hrun run hmem rfl (by simpa using hkind)
              simpa [hempty] using hor
            rw [houter, List.nil_append] at hrest
            simp [houter, hrest]

/-- Every run has its own ring just if the first is a polygon run and all others are holes. -/
theorem WrittenGroup.runs_group_iff (runs : List (RunKind × Array UInt32)) :
    (holed runs).group.runs = runs ↔ OneOutline runs := by
  have hgroup : (holed runs).group.runs
      = (.polygon, (runsOf .polygon runs).toArray.flatten)
        :: (runsOf .hole runs).map (.hole, ·) := by
    simp [group, Group.runs]
  rw [hgroup]
  constructor
  · intro h
    exact ⟨_, _, h.symm⟩
  · rintro ⟨outer, holes, rfl⟩
    have hpolygon : (RunKind.hole == RunKind.polygon) = false := rfl
    simp [runsOf, List.filter_map, Function.comp_def, hpolygon]

/-! ## The order of recorded indices -/

/-- **What is recorded of any commands.** The commands that a recorder takes write primitive
    elements one after the other, the last of which may be unfinished, and what it has recorded are
    these, with the runs in each element for a polygon with holes sorted by kind. The indices of a
    listing are in the order in which they were written just if sorting does not move any, and that
    is so if outlines stand first. Its index elements have the runs that were written just if each
    element for a polygon with holes has one polygon run and then its holes. -/
theorem recorded_after (cs : List Command) :
    ∃ (written : List WrittenListing) (unfinished : List Command),
      Writer.accepted Recorder.empty cs
          = written.flatMap WrittenListing.commands ++ unfinished
        ∧ .closePrimitive ∉ unfinished
        ∧ (Writer.after Recorder.empty cs).listings.toList = written.map WrittenListing.listing
        ∧ ∀ l ∈ written,
          (l.listing.indices.toList = l.commands.filterMap Command.index?
            ↔ ∀ runs, .holed runs ∈ l.groups → runIndices (byKind runs) = runIndices runs)
          ∧ ((∀ runs, .holed runs ∈ l.groups → OutlineFirst runs) →
            l.listing.indices.toList = l.commands.filterMap Command.index?)
          ∧ (l.listing.groups.toList.map Group.runs = l.groups.map WrittenGroup.runs
            ↔ ∀ runs, .holed runs ∈ l.groups → OneOutline runs) := by
  obtain ⟨hafter, haccepted⟩ := Transcript.empty.after_recorder cs
  have hcommands := Transcript.empty.commands_after cs
  generalize Writer.after Transcript.empty cs = t at hafter hcommands
  refine ⟨t.listings, t.draft.commands, ?_, t.draft.closePrimitive_not_mem_commands, ?_, ?_⟩
  · exact haccepted.trans hcommands.symm
  · exact congrArg (·.listings.toList) hafter
  intro l _
  have horder : (∀ g ∈ l.groups, g.group.indices.toList = runIndices g.runs)
      ↔ ∀ runs, .holed runs ∈ l.groups → runIndices (byKind runs) = runIndices runs := by
    constructor
    · intro h runs hruns
      exact (WrittenGroup.indices_holed runs).symm.trans (h _ hruns)
    · intro h g hg
      cases g with
      | polygon indices => exact WrittenGroup.indices_polygon indices
      | holed runs => exact (WrittenGroup.indices_holed runs).trans (h runs hg)
  rw [l.indices_eq_iff, horder]
  refine ⟨Iff.rfl, fun h runs hruns => runIndices_of_outlineFirst (h runs hruns), ?_⟩
  have hgroups : l.listing.groups.toList.map Group.runs = l.groups.map fun g => g.group.runs := by
    simp [WrittenListing.listing]
  rw [hgroups, List.map_inj_left]
  constructor
  · intro h runs hruns
    exact (WrittenGroup.runs_group_iff runs).mp (h _ hruns)
  · intro h g hg
    cases g with
    | polygon indices => rfl
    | holed runs => exact (WrittenGroup.runs_group_iff runs).mpr (h runs hg)

/-- A hole is written before the polygon run. All commands are accepted, and the two indices are
    recorded the other way round. -/
theorem not_recorded_in_order_of_hole_first :
    let cs := [.openPrimitive ⟨.polygons, 1, none, [], []⟩, .openElement .ph, .openElement .h,
      .index 1, .closeElement, .openElement .p, .index 2, .closeElement, .closeElement,
      .closePrimitive]
    Writer.accepted Recorder.empty cs = cs ∧ cs.filterMap Command.index? = [1, 2]
      ∧ (Writer.after Recorder.empty cs).listings.toList.map (·.indices.toList) = [[2, 1]]
      ∧ (Writer.after Recorder.empty cs).listings.toList.map (·.indices.toList)
        ≠ [cs.filterMap Command.index?] := by
  decide +kernel

end MeshWeave
