import MeshWeave.Proofs.Reader.Protocol

set_option autoImplicit false

/-! # Counters of the registers

The registers of a decoder count the vertex counts of a list of polygons, and the strips or fans. A
reader has no such counters; it finds the same numbers as entries of the primitive.
`Registers.Tallied` says that the two agree, and `Tallied.step` that every event keeps it so. -/

namespace MeshWeave

namespace Registers

/-- The counters of vertex counts agree with those that the primitive holds. -/
structure Tallied (m : Registers) : Prop where
  entries_eq : m.element = some .polylist → ∀ p, m.primitive = some p → m.entries = p.counts.size
  groups_eq : m.element = some .tristrips ∨ m.element = some .trifans →
    ∀ p, m.primitive = some p → m.groups = p.counts.size

namespace Tallied

variable {m : Registers}

/-- Only lists of polygons, strips and fans are counted. -/
theorem of_other (hpolylist : m.element ≠ some .polylist) (hstrips : m.element ≠ some .tristrips)
    (hfans : m.element ≠ some .trifans) : m.Tallied where
  entries_eq hcounted := absurd hcounted hpolylist
  groups_eq hcounted := (hcounted.elim hstrips hfans).elim

theorem of_polygons (helement : m.element = some .polygons) : m.Tallied := by
  apply of_other <;> simp [helement]

theorem of_none (helement : m.element = none) : m.Tallied := by
  apply of_other <;> simp [helement]

variable (h : m.Tallied)

include h

/-- The counters stay right while neither they nor the vertex counts change. -/
theorem setPrimitive {p q : Primitive} (hp : m.primitive = some p) (hcounts : q.counts = p.counts) :
    ({ m with primitive := some q } : Registers).Tallied where
  entries_eq hcounted q' hq' := by
    obtain rfl := Option.some.inj hq'
    rw [hcounts]
    exact h.entries_eq hcounted p hp
  groups_eq hcounted q' hq' := by
    obtain rfl := Option.some.inj hq'
    rw [hcounts]
    exact h.groups_eq hcounted p hp

theorem takeIf {place : Prop} [Decidable place] {m' : Registers} (h' : place → m'.Tallied) :
    (m.takeIf place m').2.Tallied := by
  unfold Registers.takeIf
  split
  · next hplace => exact h' hplace
  · exact h

theorem onSource (f : Source → Option Source) : (m.onSource f).2.Tallied := by
  unfold Registers.onSource
  split
  · exact { h with }
  · exact h

theorem closeSource : m.closeSource.2.Tallied := by
  unfold Registers.closeSource
  split
  · exact { h with }
  · exact h

theorem settle : m.settle.Tallied := by
  unfold Registers.settle
  split
  · exact { h with }
  · exact h

theorem endRun : m.endRun.Tallied := by
  unfold Registers.endRun
  cases hp : m.primitive with
  | none => exact { h with entries_eq := nofun, groups_eq := nofun }
  | some p => exact { h.setPrimitive hp (m.stream.counts_finish m.runStart p) with }

/-- Every vertex count of a list of polygons is counted. -/
theorem addCount (n : Nat) (helement : m.element = some .polylist) : (m.addCount n).Tallied where
  entries_eq _ q hq := by
    obtain ⟨p, hp, rfl⟩ := Option.map_eq_some_iff.mp hq
    have hcounted := h.entries_eq helement p hp
    simp [Registers.addCount, Primitive.pushCount, hcounted]
  groups_eq hcounted := absurd helement (by
    rcases hcounted with hstrips | hfans
    · simp [show m.element = _ from hstrips]
    · simp [show m.element = _ from hfans])

theorem addCounts (hm : m.Protocol) (values : List Nat) : (m.addCounts values).2.Tallied := by
  have hfold : m.element = some .polylist → (values.foldl Registers.addCount m).Tallied := by
    clear hm
    intro helement
    induction values generalizing m with
    | nil => exact h
    | cons n ns ih => exact ih (h.addCount n helement) helement
  unfold Registers.addCounts
  split
  · next hphase =>
      split
      · exact hfold (hm.counting hphase)
      · exact h
  · exact h

theorem addValues (kind : RunKind) (values : List Nat) : (m.addValues kind values).2.Tallied := by
  unfold Registers.addValues
  split
  · split
    · exact h
    · split
      · next p hp =>
          exact { h.setPrimitive hp (Stream.counts_readValues values (m.stream, p)) with }
      · exact h
  · exact h

/-- Every strip or fan is counted. -/
theorem addPolygonRun {element : Element} {p : Primitive} (helement : m.element = some element)
    (hp : m.primitive = some p) : (m.addPolygonRun element p).Tallied := by
  have hpushed (n : Nat) (hgroup : element = .tristrips ∨ element = .trifans) :
      ({ m with
        primitive := some (p.pushCount (vertexCountEntry m.stream.tuples))
        faces := m.faces + n
        groups := m.groups + 1
        vertexCount := m.vertexCount + m.stream.tuples } : Registers).Tallied := by
    refine ⟨fun hpolylist => ?_, fun _ q hq => ?_⟩
    · have := helement.symm.trans hpolylist
      rcases hgroup with rfl | rfl <;> exact absurd this (by simp)
    · obtain rfl := Option.some.inj hq
      have hcounted := h.groups_eq (by rw [helement]; simpa using hgroup) p hp
      simp [Primitive.pushCount, hcounted]
  cases element with
  | triangles => exact { h with }
  | polylist => exact { h with }
  | polygons =>
      unfold Registers.addPolygonRun
      dsimp only
      split
      · exact of_polygons helement
      · exact of_polygons helement
  | tristrips | trifans =>
      unfold Registers.addPolygonRun
      dsimp only
      split
      · exact hpushed _ (by simp)
      · exact h.setPrimitive hp rfl

theorem closeRun (hm : m.Protocol) (kind : RunKind) : (m.closeRun kind).2.Tallied := by
  cases kind with
  | polygon =>
      show m.closePolygonRun.2.Tallied
      unfold Registers.closePolygonRun
      split
      · dsimp only
        split
        · next helement hp => exact h.endRun.addPolygonRun helement hp
        · exact h.endRun
      · exact h
  | hole =>
      refine h.takeIf fun hrun => of_polygons ?_
      have helement : m.endRun.element = some .polygons := hm.holed (hm.hole hrun)
      rw [← helement]
      unfold addHoleRun
      split
      · split <;> rfl
      · rfl

theorem closePrimitive : m.closePrimitive.2.Tallied := by
  unfold Registers.closePrimitive
  split
  · dsimp only
    split <;> exact of_none rfl
  · exact h

/-- Every event keeps the counters right. -/
theorem step (hm : m.Protocol) (e : Event) : (m.step e).2.Tallied := by
  cases e with
  | addSource s => exact { h with }
  | openArray type => exact h.onSource _
  | floats values => exact h.onSource _
  | doubles values => exact h.onSource _
  | ints values => exact h.onSource _
  | accessor stride => exact h.onSource _
  | param name type => exact h.onSource _
  | closeSource => exact h.closeSource
  | openPrimitive element material =>
      refine h.takeIf fun _ => ⟨fun _ p hp => ?_, fun _ p hp => ?_⟩ <;>
        rw [← Option.some.inj hp] <;> rfl
  | openCounts => exact h.takeIf fun _ => { h.settle with }
  | counts values => exact h.addCounts hm values
  | openRun kind =>
      cases kind with
      | polygon => exact h.settle.takeIf fun _ => { h.settle with }
      | hole => exact h.takeIf fun _ => { h with }
  | indices kind values => exact h.addValues kind values
  | closeRun kind => exact h.closeRun hm kind
  | openHoled => exact h.settle.takeIf fun _ => { h.settle with }
  | closePrimitive => exact h.settle.closePrimitive
  | _ => exact h.takeIf fun _ => { h with }

/-- The counters are right after any events. -/
theorem after (hm : m.Protocol) (es : List Event) : (m.after es).Tallied := by
  induction es generalizing m with
  | nil => exact h
  | cons e es ih => exact ih (h.step hm e) (hm.step e)

end Tallied

theorem tallied_start (id name : String) : (start id name).Tallied := .of_none rfl

end Registers

end MeshWeave
