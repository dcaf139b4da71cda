import MeshWeave.Proofs.Reader.History

set_option autoImplicit false

/-! # Events that are ignored

An event without a place is answered with `false` and a notice. It should leave the reader as it
was, and it does, with one exception. Three events end the declaration of inputs before the reader
looks whether they have their place. Behind the declaration two of them always have one, the begin
tag of a run of polygon vertices and the end tag of the primitive element. The begin tag of a
polygon with holes has its place in a list of single polygons only; in any other element it is
ignored, but the sources of the declared inputs are merged by then. -/

namespace MeshWeave

namespace Reader

variable {r : Reader} {a : Assembly} {e : Event}

/-- Behind the declaration of inputs there is no way back to it. -/
theorem stage_settled_ne (r : Reader) : r.settled.stage ≠ some .declaring := by
  intro hstage
  obtain ⟨a, hcurrent, hdeclaring⟩ := Option.map_eq_some_iff.mp hstage
  have hsame := r.settled_settled
  rw [settled_of_declaring hcurrent hdeclaring] at hsame
  -- Ending the declaration once more would change the stage.
  have hindexing := congrArg Reader.stage hsame
  rw [hstage] at hindexing
  exact absurd (Option.some.inj hindexing) (by simp)

/-- The end of the declaration of inputs changes a reader just if a declaration is going on. -/
theorem settled_eq_self_iff (r : Reader) : r.settled = r ↔ r.stage ≠ some .declaring := by
  constructor
  · intro hsame
    rw [← hsame]
    exact r.stage_settled_ne
  · intro hstage
    rcases r.settled_eq_or with hsame | ⟨a, hcurrent, hdeclaring⟩
    · exact hsame
    · exact absurd (by rw [stage, hcurrent, ← hdeclaring]; rfl) hstage

theorem ready_of_settles (he : e.settles = true) : r.ready e = r.settled := by
  rw [ready, if_pos he]

/-- An event without a place does no more than ending the declaration of inputs. -/
theorem next_of_not_takes (h : r.takes [e] = false) : r.next e = r.ready e := by
  rw [takes_singleton] at h
  exact next_of_none (by simpa using h)

/-- Behind the inputs of a primitive element its vertices may begin. -/
theorem takes_openRun_of_fresh (h : r.current = some a) (hfresh : a.IsFresh) :
    r.takes [.openRun .polygon] = true := by
  rw [takes_singleton, ready_of_settles rfl, settled_of_declaring h hfresh.stage_eq,
    advance_openRun rfl, if_pos ⟨by rw [hfresh.run_eq]; rfl, rfl⟩]
  rfl

/-- Behind its inputs a primitive element may end. -/
theorem takes_closePrimitive_of_fresh (h : r.current = some a) (hfresh : a.IsFresh) :
    r.takes [.closePrimitive] = true := by
  have hcurrent := congrArg Reader.current (settled_of_declaring h hfresh.stage_eq)
  have hclose := advance_closePrimitive hcurrent
  rw [if_pos ⟨rfl, by rw [hfresh.run_eq]; rfl⟩] at hclose
  rw [takes_singleton, ready_of_settles rfl, ← Option.isSome_map, hclose]
  rfl

/-- Behind the inputs of a primitive element a polygon with holes may begin only in a list of single
    polygons. -/
theorem takes_openHoled_of_fresh (h : r.current = some a) (hfresh : a.IsFresh) :
    r.takes [.openHoled] = decide (a.element = .polygons) := by
  rw [takes_singleton, ready_of_settles rfl, settled_of_declaring h hfresh.stage_eq,
    advance_openHoled rfl]
  simp only [hfresh.run_eq, Option.isNone_none, true_and]
  by_cases helement : a.element = .polygons
  · rw [if_pos helement, decide_eq_true helement]
    rfl
  · rw [if_neg helement, decide_eq_false helement]
    rfl

/-- Among the events that end the declaration of inputs only the begin tag of a polygon with holes
    can be ignored for having no place behind it, in elements that do not list single polygons. -/
theorem eq_openHoled_of_not_takes (h : r.current = some a) (hfresh : a.IsFresh)
    (he : e.settles = true) (htakes : r.takes [e] = false) :
    e = .openHoled ∧ a.element ≠ .polygons := by
  cases e with
  | openHoled =>
      rw [takes_openHoled_of_fresh h hfresh] at htakes
      exact ⟨rfl, of_decide_eq_false htakes⟩
  | openRun kind =>
      cases kind with
      | polygon =>
          rw [takes_openRun_of_fresh h hfresh] at htakes
          exact absurd htakes (by simp)
      | hole => exact absurd he (by simp [Event.settles])
  | closePrimitive =>
      rw [takes_closePrimitive_of_fresh h hfresh] at htakes
      exact absurd htakes (by simp)
  | _ => exact absurd he (by simp [Event.settles])

/-- What an ignored event leaves behind, if the element under construction is fresh as long as its
    inputs are declared. -/
theorem ready_of_not_takes (hfresh : ∀ a, r.current = some a → a.stage = .declaring → a.IsFresh)
    (htakes : r.takes [e] = false) :
    r.ready e = if e = .openHoled ∧ r.stage = some .declaring then r.settled else r := by
  by_cases hexception : e = .openHoled ∧ r.stage = some .declaring
  · obtain ⟨rfl, hstage⟩ := hexception
    rw [ready_of_settles rfl, if_pos ⟨rfl, hstage⟩]
  · rw [if_neg hexception, ready]
    split
    · next he =>
        rw [settled_eq_self_iff]
        intro hstage
        obtain ⟨a, hcurrent, hdeclaring⟩ := Option.map_eq_some_iff.mp hstage
        have hopen := eq_openHoled_of_not_takes hcurrent (hfresh a hcurrent hdeclaring) he htakes
        exact hexception ⟨hopen.1, hstage⟩
    · rfl

/-- Whatever was read before, an element whose inputs are declared is fresh. -/
theorem isFresh_of_declaring (id name : String) (es : List Event)
    (h : ((start id name).after es).current = some a) (hstage : a.stage = .declaring) :
    a.IsFresh := by
  have hsound := History.sound_after (History.sound_start id name) es
  have hcurrent : ((History.start id name).after es).reader.current = some a := by
    rw [History.reader_after]
    exact h
  rcases hsound.current a hcurrent with hfresh | htracks
  · exact hfresh
  · exact absurd hstage htracks.declared

/-- **Events that are ignored change nothing**, except that the begin tag of a polygon with holes
    ends a declaration of inputs. -/
theorem next_of_ignored (id name : String) (es : List Event) (e : Event)
    (h : ((start id name).after es).takes [e] = false) :
    let r := (start id name).after es
    r.next e = (if e = .openHoled ∧ r.stage = some .declaring then r.settled else r)
    ∧ (r.next e = r ↔ ¬ (e = .openHoled ∧ r.stage = some .declaring)) := by
  intro r
  have hnext : r.next e
      = if e = .openHoled ∧ r.stage = some .declaring then r.settled else r := by
    rw [next_of_not_takes h]
    exact ready_of_not_takes (fun a => isFresh_of_declaring id name es) h
  refine ⟨hnext, ?_⟩
  rw [hnext]
  split
  · next hexception =>
      rw [settled_eq_self_iff]
      exact ⟨fun hne => absurd hexception.2 hne, fun hnot => absurd hexception hnot⟩
  · next hordinary => exact ⟨fun _ => hordinary, fun _ => rfl⟩

end Reader

/-- A triangle mesh whose element has declared its positions. -/
def Event.declaredPositions : List Event :=
  [.addSource (.fresh "p" (.float (.replicate 9 ⟨0⟩)) 3), .openPrimitive .triangles none,
    .input ⟨.position, "#p", 0, 0⟩]

/-- The positions of a triangle are not asked for as polygons with holes. -/
theorem Reader.next_of_ignored_openHoled :
    let r := (Reader.start "mesh" "").after Event.declaredPositions
    r.takes [.openHoled] = false
    ∧ r.next .openHoled = r.settled
    ∧ (r.next .openHoled = r ↔ ¬ (Event.openHoled = .openHoled ∧ r.stage = some .declaring)) := by
  intro r
  have htakes : r.takes [.openHoled] = false := by decide +kernel
  have hstage : r.stage = some .declaring := by decide +kernel
  obtain ⟨hnext, hsame⟩ :=
    Reader.next_of_ignored "mesh" "" Event.declaredPositions .openHoled htakes
  rw [if_pos ⟨rfl, hstage⟩] at hnext
  exact ⟨htakes, hnext, hsame⟩

/-- The begin tag of a polygon with holes is ignored among triangles. Before it inputs are declared,
    nothing is merged and the source has its values; behind it no input can be declared any more,
    and the values of the source have become the positions of the mesh. -/
theorem Reader.next_ne_of_ignored_openHoled :
    let r := (Reader.start "mesh" "").after Event.declaredPositions
    r.takes [.openHoled] = false
    ∧ (r.stage, (r.next .openHoled).stage) = (some .declaring, some .indexing)
    ∧ (r.mesh.positions.size, (r.next .openHoled).mesh.positions.size) = (0, 9)
    ∧ r.sources.find? "p" = some (.fresh "p" (.float (.replicate 9 ⟨0⟩)) 3)
    ∧ ((r.next .openHoled).sources.find? "p").map (·.loaded) = some true
    ∧ r.next .openHoled ≠ r := by
  decide +kernel

end MeshWeave
