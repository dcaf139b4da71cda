import Mathlib.Data.List.Induction
import Mathlib.Data.List.Nodup
import MeshWeave.Proofs.Source.Table
import MeshWeave.Proofs.Text.Reference

set_option autoImplicit false

/-! # Sources that are found under their own ids

A source is found under its own id if the id names itself, whatever other sources there are: of the
sources with that id the table has the first one, in its place, and no other.

The id of a source is kept as it is, though, while everything that is looked up is read as a
reference. An id that names something else, because it has a blank or begins with a number sign,
never leads to its source. Such a source is left out for the sake of one with another id, or it is
added a second time. -/

namespace MeshWeave

/-! ## First sources -/

namespace Source

/-- The id of a source, read as a reference, is that id. -/
def namesItself (s : Source) : Bool := Text.fragment s.id == s.id

/-- Of the sources with the same id only the first one. -/
def firstOfEach : List Source → List Source
  | [] => []
  | s :: ss => s :: (firstOfEach ss).filter (·.id != s.id)

theorem namesItself_iff (s : Source) :
    s.namesItself = true
      ↔ (∀ c ∈ s.id.toList, Text.isBlank c = false) ∧ s.id.toList.head? ≠ some '#' := by
  rw [namesItself, beq_iff_eq]
  exact Text.fragment_eq_self_iff

/-- Nothing that is looked for is lost by a filter that lets it pass. -/
theorem find?_filter_of_imp {p q : Source → Bool} (h : ∀ s, q s = true → p s = true)
    (l : List Source) : (l.filter p).find? q = l.find? q := by
  have hboth : (fun s => decide (p s = true ∧ q s = true)) = q := by
    funext s
    rcases hq : q s with _ | _
    · simp
    · simp [h s hq]
  rw [List.find?_filter, hboth]

/-- An id is found among the first sources where it is found among all. -/
theorem find?_firstOfEach (ss : List Source) (id : String) :
    (firstOfEach ss).find? (·.id == id) = ss.find? (·.id == id) := by
  induction ss with
  | nil => rfl
  | cons s ss ih =>
      rw [firstOfEach, List.find?_cons, List.find?_cons]
      by_cases hs : s.id = id
      · simp [hs]
      · -- Other sources with the id of this one are dropped.
        have hpass (x : Source) (hx : (x.id == id) = true) : (x.id != s.id) = true := by
          rw [beq_iff_eq] at hx
          simp [hx, Ne.symm hs]
        rw [find?_filter_of_imp hpass, ih]

theorem firstOfEach_concat (ss : List Source) (s : Source) :
    firstOfEach (ss ++ [s])
      = firstOfEach ss ++ if (ss.find? (·.id == s.id)).isSome then [] else [s] := by
  induction ss with
  | nil => rfl
  | cons x ss ih =>
      rw [List.cons_append, firstOfEach, ih, List.filter_append, firstOfEach, List.cons_append,
        List.find?_cons]
      by_cases hx : x.id = s.id
      · -- The last source is not the first of its id, and is dropped with the others.
        have hdropped (b : Bool) :
            (if b = true then [] else [s]).filter (·.id != x.id) = [] := by
          cases b <;> simp [hx]
        rw [hdropped]
        simp [hx]
      · have hkept (b : Bool) :
            (if b = true then [] else [s]).filter (·.id != x.id) = if b = true then [] else [s] := by
          cases b <;> simp [Ne.symm hx]
        rw [hkept, show (x.id == s.id) = false by simpa using hx]

theorem nodup_firstOfEach (ss : List Source) : ((firstOfEach ss).map (·.id)).Nodup := by
  induction ss with
  | nil => exact List.nodup_nil
  | cons s ss ih =>
      rw [firstOfEach, List.map_cons, List.nodup_cons]
      refine ⟨?_, ih.sublist (List.filter_sublist.map _)⟩
      intro hmem
      obtain ⟨x, hx, heq⟩ := List.mem_map.mp hmem
      have hne := (List.mem_filter.mp hx).2
      simp [heq] at hne

/-- The sources with an id that names itself are all among those with such ids. -/
theorem find?_filter_namesItself (l : List Source) {s : Source} (h : s.namesItself = true) :
    (l.filter namesItself).find? (·.id == s.id) = l.find? (·.id == s.id) := by
  apply find?_filter_of_imp
  intro x hx
  rw [beq_iff_eq] at hx
  rwa [namesItself, hx]

end Source

/-! ## Adding sources one after the other -/

namespace SourceTable

/-- Add sources in order. -/
def addAll (t : SourceTable) (ss : List Source) : SourceTable :=
  ss.foldl (fun t s => (t.add s).value) t

/-- Among the sources that were added, those of a table are the first ones of their ids, and each
    one's id leads to the first source with it. -/
structure Resolves (t : SourceTable) (added : List Source) : Prop where
  nodup : (t.sources.map (·.id)).Nodup
  sources_eq : t.sources = Source.firstOfEach added
  find?_eq : ∀ s ∈ added, t.find? s.id = added.find? (·.id == s.id)

theorem addAll_concat (t : SourceTable) (ss : List Source) (s : Source) :
    t.addAll (ss ++ [s]) = ((t.addAll ss).add s).value :=
  List.foldl_concat ..

theorem sources_add (t : SourceTable) (s : Source) :
    (t.add s).value.sources = t.sources ++ if (t.find? s.id).isSome then [] else [s] := by
  rw [add_value]
  split
  · rw [List.append_nil]
  · rfl

/-- No source is stored twice or out of order. -/
theorem sublist_addAll (ss : List Source) : (empty.addAll ss).sources.Sublist ss := by
  induction ss using List.reverseRecOn with
  | nil => exact .slnil
  | append_singleton ss s ih =>
      rw [addAll_concat, sources_add]
      refine ih.append ?_
      split
      · exact List.nil_sublist _
      · exact List.Sublist.refl _

/-- A table that has the first sources of the ids that name themselves finds them. -/
theorem find?_of_filter {t : SourceTable} {ss : List Source}
    (h : t.sources.filter Source.namesItself = Source.firstOfEach (ss.filter Source.namesItself))
    {s : Source} (hs : s.namesItself = true) : t.find? s.id = ss.find? (·.id == s.id) := by
  have hid : Text.fragment s.id = s.id := beq_iff_eq.mp hs
  rw [find?, hid, ← Source.find?_filter_namesItself _ hs, h, Source.find?_firstOfEach,
    Source.find?_filter_namesItself _ hs]

/-- **Each source that is added** is stored if it is the first one of an id that names itself. -/
theorem filter_addAll (ss : List Source) :
    (empty.addAll ss).sources.filter Source.namesItself
      = Source.firstOfEach (ss.filter Source.namesItself) := by
  induction ss using List.reverseRecOn with
  | nil => rfl
  | append_singleton ss s ih =>
      rw [addAll_concat, sources_add, List.filter_append, List.filter_append, ih]
      by_cases hs : s.namesItself = true
      · have hfilter : [s].filter Source.namesItself = [s] := List.filter_cons_of_pos hs
        rw [hfilter, Source.firstOfEach_concat, Source.find?_filter_namesItself _ hs,
          find?_of_filter ih hs]
        split
        · rfl
        · rw [hfilter]
      · have hfilter : [s].filter Source.namesItself = [] := List.filter_cons_of_neg hs
        rw [hfilter, List.append_nil]
        split
        · exact List.append_nil _
        · rw [hfilter, List.append_nil]

/-- **Only an id that names itself leads to its source.** What is found under another id has that
    other id. -/
theorem find?_addAll_iff {ss : List Source} {s : Source} (h : s ∈ ss) :
    (empty.addAll ss).find? s.id = ss.find? (·.id == s.id) ↔ s.namesItself = true := by
  constructor
  · intro hfind
    have hsome : (ss.find? (·.id == s.id)).isSome = true := List.find?_isSome.mpr ⟨s, h, by simp⟩
    obtain ⟨first, hfirst⟩ := Option.isSome_iff_exists.mp hsome
    have hid : first.id = s.id := by simpa using List.find?_some hfirst
    rw [hfirst] at hfind
    have hnamed := find?_id hfind
    rw [Source.namesItself, ← hnamed, hid]
    exact beq_self_eq_true _
  · exact find?_of_filter (filter_addAll ss)

/-- **Sources are unique and found under their own ids, if the ids name themselves.** In every table
    the stored sources are some of those that were added, in order, and those with ids that name
    themselves are the first ones of their ids. An id leads to the first source with it just if it
    names itself, so all is well with all sources just if all ids do. -/
theorem resolves_addAll (ss : List Source) :
    let t := empty.addAll ss
    t.sources.Sublist ss
    ∧ t.sources.filter Source.namesItself = Source.firstOfEach (ss.filter Source.namesItself)
    ∧ (∀ s ∈ ss, t.find? s.id = ss.find? (·.id == s.id) ↔ s.namesItself = true)
    ∧ (t.Resolves ss ↔ ∀ s ∈ ss, s.namesItself = true) := by
  intro t
  refine ⟨sublist_addAll ss, filter_addAll ss, fun s hs => find?_addAll_iff hs, ?_, ?_⟩
  · intro h s hs
    exact (find?_addAll_iff hs).mp (h.find?_eq s hs)
  · intro hall
    have hsources : t.sources = Source.firstOfEach ss := by
      have hstored : ∀ s ∈ t.sources, s.namesItself = true :=
        fun s hs => hall s ((sublist_addAll ss).subset hs)
      have hfirst := filter_addAll ss
      rw [List.filter_eq_self.mpr hall] at hfirst
      rw [← hfirst]
      exact (List.filter_eq_self.mpr hstored).symm
    refine ⟨?_, hsources, fun s hs => (find?_addAll_iff hs).mpr (hall s hs)⟩
    rw [hsources]
    exact Source.nodup_firstOfEach ss

/-- An id with a blank is not found by itself. Both sources are stored under it. -/
theorem not_resolves_of_blank :
    let ss : List Source :=
      [.fresh "left wall" (.float #[⟨0⟩, ⟨1⟩, ⟨2⟩]) 3,
        .fresh "left wall" (.float #[⟨3⟩, ⟨4⟩, ⟨5⟩]) 3]
    let t := empty.addAll ss
    t.sources = ss ∧ ¬ (t.sources.map (·.id)).Nodup ∧ t.find? "left wall" = none ∧ ¬ t.Resolves ss
    := by
  intro ss t
  have hstored : t.sources = ss := by decide +kernel
  have htwice : ¬ (t.sources.map (·.id)).Nodup := by decide +kernel
  exact ⟨hstored, htwice, by decide +kernel, fun h => htwice h.nodup⟩

end SourceTable

end MeshWeave
