import Mathlib.Data.List.Forall2
import MeshWeave.Proofs.Mesh.Merging

set_option autoImplicit false

/-! # Sources that behave alike

What a mesh and its primitives take from a source is its id, its array, its stride, whether and
where it was merged, and its number of scalars. The parameters of the accessor are carried along
only, and the number that was noted counts only together with the length of the array. `Source.core`
leaves out the rest, and two sources of one core are merged and indexed alike.

Two tables are alike in more than one way: they have the same cores in the same order, or in any
order as long as every reference finds the same. `SourceTable.Likeness` is what a relation between
tables must keep for readers not to notice the difference. -/

namespace MeshWeave

namespace Source

/-- A source without what nobody reads of it. -/
def core (s : Source) : Source := { s with params := [], noted := s.size }

@[simp] theorem id_core (s : Source) : s.core.id = s.id := rfl

@[simp] theorem values_core (s : Source) : s.core.values = s.values := rfl

@[simp] theorem stride_core (s : Source) : s.core.stride = s.stride := rfl

@[simp] theorem loaded_core (s : Source) : s.core.loaded = s.loaded := rfl

@[simp] theorem initial_core (s : Source) : s.core.initial = s.initial := rfl

@[simp] theorem correction_core (s : Source) : s.core.correction = s.correction := rfl

@[simp] theorem size_core (s : Source) : s.core.size = s.size := by simp [core, size]

@[simp] theorem elementCount_core (s : Source) : s.core.elementCount = s.elementCount := by
  rw [elementCount, elementCount, size_core, stride_core]

theorem core_placeAt (s : Source) (initial : Nat) :
    (s.placeAt initial).core = s.core.placeAt initial := rfl

theorem core_handOver (s : Source) : s.handOver.core = s.core.handOver := by
  rw [core, size_handOver, handOver, handOver, size_core]
  rfl

@[simp] theorem isIndexable_core (s : Source) (k : DataKind) :
    s.core.isIndexable k = s.isIndexable k := rfl

/-- Two sources that nobody can tell apart, by what is read of a source and what follows from it. -/
structure Resembles (s t : Source) : Prop where
  id_eq : s.id = t.id
  values_eq : s.values = t.values
  stride_eq : s.stride = t.stride
  loaded_eq : s.loaded = t.loaded
  initial_eq : s.initial = t.initial
  size_eq : s.size = t.size
  elementCount_eq : s.elementCount = t.elementCount
  correction_eq : s.correction = t.correction

theorem core_eq_core_iff {s t : Source} : s.core = t.core ↔ s.Resembles t := by
  constructor
  · intro h
    constructor
    case values_eq => rw [← values_core s, h, values_core]
    case size_eq => rw [← size_core s, h, size_core]
    case elementCount_eq => rw [← elementCount_core s, h, elementCount_core]
    case correction_eq => rw [← correction_core s, h, correction_core]
    case id_eq => rw [← id_core s, h, id_core]
    case stride_eq => rw [← stride_core s, h, stride_core]
    case loaded_eq => rw [← loaded_core s, h, loaded_core]
    case initial_eq => rw [← initial_core s, h, initial_core]
  · intro h
    rw [core, core, h.id_eq, h.values_eq, h.stride_eq, h.loaded_eq, h.initial_eq, h.size_eq]

theorem id_eq_of_core {s t : Source} (h : s.core = t.core) : s.id = t.id :=
  (core_eq_core_iff.mp h).id_eq

end Source

/-! ## Merging -/

/-- Whether an array is taken over or copied does not depend on what a core leaves out. -/
theorem Buffer.merge_core (b : Buffer) (s : Source) :
    b.merge s.core = ((b.merge s).1, (b.merge s).2.core) := by
  simp only [Buffer.merge, Source.values_core]
  cases s.values with
  | float values =>
      dsimp only
      cases b.adoptFloat? values with
      | none => rfl
      | some adopted => simp only [Source.core_handOver, Source.core_placeAt]
  | double values =>
      dsimp only
      cases b.adoptDouble? values with
      | none => rfl
      | some adopted => simp only [Source.core_handOver, Source.core_placeAt]
  | int | bool | name => rfl

namespace Merge

/-- A merge whose source is reduced to its core. -/
def core (m : Merge) : Merge := { m with source := m.source.core }

end Merge

namespace Mesh

theorem mergeKind_core (m : Mesh) (s : Source) (k : DataKind) :
    (m.mergeKind s.core k).value = (m.mergeKind s k).value.core := by
  rcases h : refusal? k s with _ | why
  · rw [mergeKind_of_none m s h, mergeKind_of_none m s.core h, Buffer.merge_core, Source.size_core]
    rfl
  · rw [mergeKind_of_refusal m s h, mergeKind_of_refusal m s.core h]
    rfl

/-- **A source is merged as its core is.** -/
theorem merge_core (m : Mesh) (s : Source) (semantic : Semantic) :
    (m.merge s.core semantic).value = (m.merge s semantic).value.core := by
  rcases h : DataKind.ofSemantic? semantic with _ | k
  · rw [merge_of_none m s h, merge_of_none m s.core h]
    rfl
  · rw [merge_of_kind m s h, merge_of_kind m s.core h]
    exact m.mergeKind_core s k

/-- Sources of one core are merged into the same mesh, and have one core afterwards. -/
theorem merge_alike (m : Mesh) {s t : Source} (h : s.core = t.core) (semantic : Semantic) :
    (m.merge s semantic).value.mesh = (m.merge t semantic).value.mesh
    ∧ (m.merge s semantic).value.source.core = (m.merge t semantic).value.source.core := by
  have hmerge : (m.merge s semantic).value.core = (m.merge t semantic).value.core := by
    rw [← merge_core, ← merge_core, h]
  injection hmerge with hmesh hsource
  exact ⟨hmesh, hsource⟩

end Mesh

/-! ## Tables -/

namespace SourceTable

/-- What is found under a reference in two tables that nobody tells apart, and what changes keep it
    so. -/
structure Likeness (T : SourceTable → SourceTable → Prop) : Prop where
  /-- A reference finds sources of one core, or nothing in either. -/
  find : ∀ {t t'}, T t t' → ∀ uri, (t.find? uri).map Source.core = (t'.find? uri).map Source.core
  /-- Two sources of one core take the places of those that were found. -/
  put : ∀ {t t'}, T t t' → ∀ {uri s s'}, s.core = s'.core → s.id = Text.fragment uri →
    T (t.put uri s) (t'.put uri s')
  /-- Two sources of one core are added. -/
  add : ∀ {t t'}, T t t' → ∀ {s s'}, s.core = s'.core → T (t.add s).value (t'.add s').value

namespace Likeness

variable {T : SourceTable → SourceTable → Prop} {t t' : SourceTable} (hT : Likeness T) (h : T t t')

include hT h

theorem find_eq_none (uri : String) (hnone : t.find? uri = none) : t'.find? uri = none := by
  have hfind := hT.find h uri
  rw [hnone, Option.map_none] at hfind
  exact Option.map_eq_none_iff.mp hfind.symm

theorem find_eq_some {uri : String} {s : Source} (hsome : t.find? uri = some s) :
    ∃ s', t'.find? uri = some s' ∧ s'.core = s.core := by
  have hfind := hT.find h uri
  rw [hsome, Option.map_some] at hfind
  exact Option.map_eq_some_iff.mp hfind.symm

end Likeness

/-! ## Tables of the same cores -/

/-- The same cores in the same order. -/
def SameCores (t t' : SourceTable) : Prop :=
  t.sources.map Source.core = t'.sources.map Source.core

theorem SameCores.refl (t : SourceTable) : t.SameCores t := rfl

/-- A source is found by its id, which its core has, too. -/
theorem map_core_find? (t : SourceTable) (uri : String) :
    (t.find? uri).map Source.core
      = (t.sources.map Source.core).find? (·.id == Text.fragment uri) := by
  rw [find?, List.find?_map]
  rfl

theorem map_core_replaceFirst (id : String) (s : Source) (l : List Source) :
    (replaceFirst id s l).map Source.core = replaceFirst id s.core (l.map Source.core) := by
  induction l with
  | nil => rfl
  | cons x xs ih =>
      rw [replaceFirst, List.map_cons, replaceFirst, Source.id_core]
      split
      · rfl
      · rw [List.map_cons, ih]

theorem likeness_sameCores : Likeness SameCores where
  find := by
    intro t t' h uri
    rw [map_core_find?, map_core_find?, h]
  put := by
    intro t t' h uri s s' hs _
    show (replaceFirst _ s t.sources).map _ = (replaceFirst _ s' t'.sources).map _
    rw [map_core_replaceFirst, map_core_replaceFirst, hs, h]
  add := by
    intro t t' h s s' hs
    have hfind : (t.find? s.id).isSome = (t'.find? s'.id).isSome := by
      rw [← Option.isSome_map (f := Source.core), map_core_find?, h, ← map_core_find?,
        Option.isSome_map, Source.id_eq_of_core hs]
    rw [add_value, add_value, hfind]
    split
    · exact h
    · show (t.sources ++ [s]).map _ = (t'.sources ++ [s']).map _
      rw [List.map_append, List.map_append, h, List.map_singleton, hs, ← List.map_singleton]

/-- Tables of the same cores have sources that resemble each other in order. -/
theorem SameCores.forall₂ {t t' : SourceTable} (h : t.SameCores t') :
    List.Forall₂ Source.Resembles t.sources t'.sources := by
  have hcores : List.Forall₂ (fun s s' : Source => s.core = s'.core) t.sources t'.sources := by
    rw [← List.forall₂_map_left_iff (f := Source.core)
      (R := fun (c : Source) (s : Source) => c = s.core), ← List.forall₂_map_right_iff, ← h]
    exact List.forall₂_refl _
  exact hcores.imp fun _ _ => Source.core_eq_core_iff.mp

/-! ## Tables of the same sources -/

/-- The same cores in any order, and the same under every reference. -/
structure SameSources (t t' : SourceTable) : Prop where
  perm : (t.sources.map Source.core).Perm (t'.sources.map Source.core)
  finds : ∀ uri, (t.find? uri).map Source.core = (t'.find? uri).map Source.core

/-- The source that is found leaves the table, and the other one comes for it. -/
theorem perm_replaceFirst {id : String} {x : Source} (s : Source) {l : List Source}
    (h : l.find? (·.id == id) = some x) : (x :: replaceFirst id s l).Perm (s :: l) := by
  induction l with
  | nil => exact absurd h (by simp)
  | cons y ys ih =>
      rw [List.find?_cons] at h
      rw [replaceFirst]
      split at h
      · next hy =>
          rw [if_pos hy, Option.some.inj h]
          exact .swap ..
      · next hy =>
          rw [if_neg (by simp [hy])]
          exact ((List.Perm.swap ..).trans ((ih h).cons y)).trans (.swap ..)

theorem replaceFirst_of_none {id : String} (s : Source) {l : List Source}
    (h : l.find? (·.id == id) = none) : replaceFirst id s l = l := by
  induction l with
  | nil => rfl
  | cons y ys ih =>
      rw [List.find?_cons] at h
      rw [replaceFirst]
      split at h
      · exact absurd h (by simp)
      · next hy => rw [if_neg (by simp [hy]), ih h]

namespace SameSources

variable {t t' : SourceTable} (h : t.SameSources t')

include h

/-- What a reference finds resembles what it finds in the other table. -/
theorem rel_find? (uri : String) : Option.Rel Source.Resembles (t.find? uri) (t'.find? uri) := by
  have hfind := h.finds uri
  rcases hs : t.find? uri with _ | s
  · rw [hs, Option.map_none] at hfind
    rw [Option.map_eq_none_iff.mp hfind.symm]
    exact .none
  · rw [hs, Option.map_some] at hfind
    obtain ⟨s', hs', hcore⟩ := Option.map_eq_some_iff.mp hfind.symm
    rw [hs']
    exact .some (Source.core_eq_core_iff.mp hcore.symm)

theorem perm_put {uri : String} {s s' : Source} (hs : s.core = s'.core) :
    ((t.put uri s).sources.map Source.core).Perm ((t'.put uri s').sources.map Source.core) := by
  have hfind := h.finds uri
  rcases hx : t.find? uri with _ | x
  · rw [hx, Option.map_none] at hfind
    have hx' : t'.find? uri = none := Option.map_eq_none_iff.mp hfind.symm
    rw [put, put, replaceFirst_of_none s hx, replaceFirst_of_none s' hx']
    exact h.perm
  · rw [hx, Option.map_some] at hfind
    obtain ⟨x', hx', hcore⟩ := Option.map_eq_some_iff.mp hfind.symm
    have hput := (perm_replaceFirst s hx).map Source.core
    have hput' := (perm_replaceFirst s' hx').map Source.core
    rw [List.map_cons, List.map_cons] at hput hput'
    rw [hcore, ← hs] at hput'
    exact ((hput.trans (h.perm.cons s.core)).trans hput'.symm).cons_inv

theorem finds_put {uri : String} {s s' : Source} (hs : s.core = s'.core)
    (hid : s.id = Text.fragment uri) (uri' : String) :
    ((t.put uri s).find? uri').map Source.core = ((t'.put uri s').find? uri').map Source.core := by
  have hid' : s'.id = Text.fragment uri := (Source.id_eq_of_core hs).symm.trans hid
  rw [find?_put t uri uri' s hid, find?_put t' uri uri' s' hid']
  split
  · -- The sources that are put are found where one was found before.
    have hfound := congrArg Option.isSome (h.finds uri)
    rw [Option.isSome_map, Option.isSome_map] at hfound
    cases hf : t.find? uri <;> cases hf' : t'.find? uri <;> simp_all
  · exact h.finds uri'

theorem perm_add {s s' : Source} (hs : s.core = s'.core) :
    ((t.add s).value.sources.map Source.core).Perm ((t'.add s').value.sources.map Source.core) := by
  have hfind : (t.find? s.id).isSome = (t'.find? s'.id).isSome := by
    rw [← Option.isSome_map (f := Source.core), h.finds, Option.isSome_map,
      Source.id_eq_of_core hs]
  rw [add_value, add_value, hfind]
  split
  · exact h.perm
  · show ((t.sources ++ [s]).map _).Perm ((t'.sources ++ [s']).map _)
    rw [List.map_append, List.map_append, List.map_singleton, List.map_singleton, hs]
    exact h.perm.append_right _

theorem finds_add {s s' : Source} (hs : s.core = s'.core) (uri : String) :
    ((t.add s).value.find? uri).map Source.core
      = ((t'.add s').value.find? uri).map Source.core := by
  have hid := Source.id_eq_of_core hs
  have hnone : t.find? s'.id = none ↔ t'.find? s'.id = none := by
    rw [← Option.map_eq_none_iff (f := Source.core), h.finds, Option.map_eq_none_iff]
  rw [find?_add, find?_add, Option.map_or, Option.map_or, h.finds uri]
  simp only [hid, hnone]
  by_cases hnew : s'.id = Text.fragment uri ∧ t'.find? s'.id = none
  · rw [if_pos hnew, if_pos hnew, Option.map_some, Option.map_some, hs]
  · rw [if_neg hnew, if_neg hnew]

end SameSources

theorem likeness_sameSources : Likeness SameSources where
  find := SameSources.finds
  put := fun h _ _ _ hs hid => ⟨h.perm_put hs, h.finds_put hs hid⟩
  add := fun h _ _ hs => ⟨h.perm_add hs, h.finds_add hs⟩

end SourceTable

end MeshWeave
