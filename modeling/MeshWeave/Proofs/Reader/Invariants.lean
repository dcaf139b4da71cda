import MeshWeave.Proofs.Reader.Placing

set_option autoImplicit false

/-! # Invariants of primitives under construction

An event inside a primitive element ends the declaration of inputs, which is `Assembly.settled`, and
then it is ignored, it changes the primitive under construction, or it closes the element. What none
of this breaks holds of every primitive under construction, and so of every primitive that is
finished.

`Assembly.Invariant` is that argument. It speaks of the primitives of a mesh together with the
elements that they came from, which the mesh forgets. -/

namespace MeshWeave

/-- The primitive under construction behind the declaration of inputs. -/
def Assembly.settled (a : Assembly) (l : Layout) : Assembly :=
  { a with stage := .indexing, layout := l, primitive := l.prepare a.primitive }

namespace Reader

variable {r : Reader} {a : Assembly} {e : Event}

theorem primitives_settled (r : Reader) : r.settled.mesh.primitives = r.mesh.primitives := by
  rcases r.settled_eq_or with hsame | ⟨a, h, hstage⟩
  · rw [hsame]
  · rw [settled_of_declaring h hstage]
    exact Resolution.primitives_resolveAll _ _

theorem primitives_before (r : Reader) (e : Event) :
    (r.before e).mesh.primitives = r.mesh.primitives := by
  rcases r.before_eq_or e with hsame | hsettled
  · rw [hsame]
  · rw [hsettled, primitives_settled]

theorem vertices_before (r : Reader) (e : Event) : (r.before e).vertices = r.vertices := by
  rcases r.before_eq_or e with hsame | hsettled
  · rw [hsame]
  · rw [hsettled]
    rcases r.settled_eq_or with hsame | ⟨a, h, hstage⟩
    · rw [hsame]
    · rw [settled_of_declaring h hstage]

/-- An event finds the primitive under construction as it is, or behind the declaration of
    inputs. -/
theorem current_before (h : r.current = some a) (e : Event) :
    ∃ b, (r.before e).current = some b ∧ (b = a ∨ ∃ l, b = a.settled l) := by
  by_cases hends : a.IsEndedBy e
  · rw [before_of_ends h hends, settled_of_declaring h hends.1]
    exact ⟨_, rfl, Or.inr ⟨_, rfl⟩⟩
  · rw [before_of_not_ends h hends]
    exact ⟨a, h, Or.inl rfl⟩

/-- The element under construction is not changed by the end of the declaration of inputs. -/
theorem exists_current_before (h : r.current = some a) (e : Event) :
    ∃ b, (r.before e).current = some b ∧ b.element = a.element := by
  obtain ⟨b, hb, hbefore⟩ := current_before h e
  refine ⟨b, hb, ?_⟩
  rcases hbefore with rfl | ⟨l, rfl⟩
  · rfl
  · rfl

/-- **What an event does inside a primitive element.** It is ignored, it changes the primitive under
    construction, or it closes the element. -/
theorem next_of_current (h : (r.before e).current = some a) :
    (r.takes [e] = false ∧ r.next e = r.before e) ∨
    (r.takes [e] = true ∧ ∃ b, (r.next e).current = some b
      ∧ (r.next e).mesh.primitives = r.mesh.primitives ∧ a.Moves r.vertices e b) ∨
    (e = .closePrimitive ∧ a.run = none ∧ r.next e = (r.before e).closed a.finished) := by
  by_cases hcounts : e = .openCounts
  · subst hcounts
    have hready : r.ready .openCounts = r := by rw [ready, if_neg (by simp [Event.settles])]
    rcases hcurrent : r.current with _ | c
    · rw [before_of_none _ hcurrent, hcurrent] at h
      exact absurd h (by simp)
    · have hadv := advance_openCounts hcurrent
      by_cases hplace : c.stage = .declaring ∧ c.element = .polylist
      · -- The begin tag of the vertex counts ends the declaration itself.
        rw [if_pos hplace] at hadv
        rw [before_of_ends hcurrent ⟨hplace.1, Or.inr ⟨rfl, hplace.2⟩⟩] at h
        have hnext := next_of_some (r := r) (e := .openCounts) (by rw [hready, hadv])
        have helement : a.element = .polylist := by
          rw [settled_of_declaring hcurrent hplace.1] at h
          rw [← Option.some.inj h]
          exact hplace.2
        refine Or.inr (Or.inl ⟨by rw [takes_singleton, hready, hadv]; rfl, _, ?_, ?_,
          .openCounts helement⟩)
        · rw [hnext]
          exact congrArg (Option.map _) h
        · rw [hnext]
          exact r.primitives_settled
      · rw [if_neg hplace] at hadv
        have hbefore : r.before .openCounts = r := by
          apply before_of_not_ends hcurrent
          rintro ⟨hstage, hsettles | ⟨-, helement⟩⟩
          · exact absurd hsettles (by simp [Event.settles])
          · exact hplace ⟨hstage, helement⟩
        refine Or.inl ⟨by rw [takes_singleton, hready, hadv]; rfl, ?_⟩
        rw [next_of_none (by rw [hready, hadv]), hready, hbefore]
  · have hready : r.before e = r.ready e := before_eq_ready r hcounts
    have hprimitives := r.primitives_before e
    have hvertices := r.vertices_before e
    rw [hready] at h hprimitives hvertices ⊢
    rw [takes_singleton]
    rcases hadv : (r.ready e).advance e with _ | n
    · exact Or.inl ⟨rfl, next_of_none hadv⟩
    · rw [next_of_some hadv]
      rcases moves_of_advance h hcounts hadv with ⟨b, hb, hmesh, hmoves⟩ | ⟨he, hrun, hclosed⟩
      · exact Or.inr (Or.inl ⟨rfl, b, hb, by rw [hmesh, hprimitives], hvertices ▸ hmoves⟩)
      · exact Or.inr (Or.inr ⟨he, hrun, hclosed⟩)

/-- Only the end tag closes an element. -/
theorem exists_current_next (h : r.current = some a) (he : e ≠ .closePrimitive) :
    ∃ b, (r.next e).current = some b ∧ b.element = a.element := by
  obtain ⟨b, hb, helement⟩ := exists_current_before h e
  rcases next_of_current hb with ⟨-, hnext⟩ | ⟨-, c, hc, -, hmoves⟩ | ⟨hclose, -⟩
  · exact ⟨b, by rw [hnext, hb], helement⟩
  · exact ⟨c, hc, hmoves.element_eq.trans helement⟩
  · exact absurd hclose he

/-! ## The primitives that are kept -/

/-- The element of the primitive that an event adds to the mesh, if it adds one. -/
def keptBy (r : Reader) (e : Event) : List Element :=
  match r.current with
  | some a => if r.mesh.primitives.size < (r.next e).mesh.primitives.size then [a.element] else []
  | none => []

/-- The elements of the primitives that are added to the mesh while events are read, in order. -/
def keptElements : Reader → List Event → List Element
  | _, [] => []
  | r, e :: es => r.keptBy e ++ keptElements (r.next e) es

theorem keptBy_of_same (h : (r.next e).mesh.primitives = r.mesh.primitives) : r.keptBy e = [] := by
  unfold keptBy
  rw [h]
  split
  · rw [if_neg (Nat.lt_irrefl _)]
  · rfl

/-- Primitives are added one at a time, by end tags, and are never changed or removed. -/
theorem primitives_next (r : Reader) (e : Event) :
    ((r.next e).mesh.primitives = r.mesh.primitives ∧ r.keptBy e = []) ∨
    (e = .closePrimitive ∧ ∃ a p, (r.before e).current = some a ∧ a.finished = some p
      ∧ (r.next e).mesh.primitives = r.mesh.primitives.push p ∧ r.keptBy e = [a.element]) := by
  have hsame (h : (r.next e).mesh.primitives = r.mesh.primitives) :
      (r.next e).mesh.primitives = r.mesh.primitives ∧ r.keptBy e = [] := ⟨h, keptBy_of_same h⟩
  rcases hcurrent : r.current with _ | c
  · refine Or.inl (hsame ?_)
    have hready : r.ready e = r := ready_of_none e hcurrent
    rcases hadv : r.advance e with _ | n
    · rw [next_of_idle hcurrent hadv]
    · rw [next_of_some (by rw [hready, hadv]), (advance_idle hcurrent hadv).1]
  · obtain ⟨a, ha, helement⟩ := exists_current_before hcurrent e
    have hprimitives := r.primitives_before e
    rcases next_of_current ha with ⟨-, hnext⟩ | ⟨-, b, -, hmesh, -⟩ | ⟨he, -, hclosed⟩
    · exact Or.inl (hsame (by rw [hnext, hprimitives]))
    · exact Or.inl (hsame hmesh)
    · rcases hp : a.finished with _ | p
      · rw [hp] at hclosed
        exact Or.inl (hsame (by rw [hclosed]; exact hprimitives))
      · rw [hp] at hclosed
        have hpush : (r.next e).mesh.primitives = r.mesh.primitives.push p := by
          rw [hclosed]
          exact congrArg (·.push p) hprimitives
        refine Or.inr ⟨he, a, p, ha, hp, hpush, ?_⟩
        unfold keptBy
        rw [hcurrent, hpush, helement]
        exact if_pos (by rw [Array.size_push]; exact Nat.lt_succ_self _)

/-- Only an end tag of a primitive element adds a primitive. -/
theorem primitives_after_of_not_mem {es : List Event} (h : .closePrimitive ∉ es) :
    (r.after es).mesh.primitives = r.mesh.primitives := by
  induction es generalizing r with
  | nil => rfl
  | cons e es ih =>
      rw [List.mem_cons, not_or] at h
      rw [after_cons, ih h.2]
      rcases r.primitives_next e with ⟨hsame, -⟩ | ⟨he, -⟩
      · exact hsame
      · exact absurd he.symm h.1

end Reader

/-! ## Invariants -/

/-- What holds of an element whose inputs are declared, and of everything that it is changed to. -/
structure Assembly.Invariant (P : Assembly → Prop) : Prop where
  fresh : ∀ {a : Assembly}, a.IsFresh → P a
  settled : ∀ {a : Assembly} (l : Layout), P a → P (a.settled l)
  moves : ∀ {v : Vertices} {a b : Assembly} {e : Event}, P a → a.Moves v e b → P b

namespace Assembly.Invariant

variable {P : Assembly → Prop} (hP : Invariant P) {r : Reader}

include hP

theorem before (h : ∀ a, r.current = some a → P a) (e : Event) :
    ∀ a, (r.before e).current = some a → P a := by
  intro a ha
  rcases hcurrent : r.current with _ | c
  · rw [Reader.before_of_none e hcurrent, hcurrent] at ha
    exact absurd ha (by simp)
  · obtain ⟨b, hb, hbefore⟩ := Reader.current_before hcurrent e
    obtain rfl := Option.some.inj (hb.symm.trans ha)
    rcases hbefore with rfl | ⟨l, rfl⟩
    · exact h b hcurrent
    · exact hP.settled l (h c hcurrent)

/-- Every event keeps an invariant. -/
theorem next (h : ∀ a, r.current = some a → P a) (e : Event) :
    ∀ b, (r.next e).current = some b → P b := by
  intro b hb
  rcases hcurrent : r.current with _ | c
  · have hready : r.ready e = r := Reader.ready_of_none e hcurrent
    rcases hadv : r.advance e with _ | n
    · rw [Reader.next_of_idle hcurrent hadv, hcurrent] at hb
      exact absurd hb (by simp)
    · rw [Reader.next_of_some (by rw [hready, hadv])] at hb
      exact hP.fresh ((Reader.advance_idle hcurrent hadv).2 b hb)
  · obtain ⟨a, ha, -⟩ := Reader.current_before hcurrent e
    have hbefore := hP.before h e
    rcases Reader.next_of_current ha with ⟨-, hnext⟩ | ⟨-, b', hb', -, hmoves⟩ | ⟨-, -, hclosed⟩
    · rw [hnext] at hb
      exact hbefore b hb
    · obtain rfl := Option.some.inj (hb'.symm.trans hb)
      exact hP.moves (hbefore a ha) hmoves
    · rw [hclosed] at hb
      cases hfinished : a.finished <;> simp [hfinished, Reader.closed] at hb

/-- **Invariants hold of the primitives that are kept**, as far as finishing shows them. -/
theorem forall₂_kept {Q : Element → Primitive → Prop}
    (hfinished : ∀ {a : Assembly} {p : Primitive}, P a → a.finished = some p → Q a.element p)
    (h : ∀ a, r.current = some a → P a) {elements : List Element}
    (hkept : List.Forall₂ Q elements r.mesh.primitives.toList) (es : List Event) :
    List.Forall₂ Q (elements ++ r.keptElements es) (r.after es).mesh.primitives.toList := by
  induction es generalizing r elements with
  | nil =>
      rw [Reader.keptElements, List.append_nil]
      exact hkept
  | cons e es ih =>
      rw [Reader.keptElements, ← List.append_assoc]
      refine ih (hP.next h e) ?_
      rcases r.primitives_next e with ⟨hsame, hnone⟩ | ⟨-, a, p, ha, hp, hpush, hadded⟩
      · rw [hsame, hnone, List.append_nil]
        exact hkept
      · rw [hpush, hadded, Array.toList_push]
        exact List.rel_append hkept (.cons (hfinished (hP.before h e a ha) hp) .nil)

end Assembly.Invariant

end MeshWeave
