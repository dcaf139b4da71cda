import Mathlib.Data.List.Basic
import MeshWeave.Source.Table

set_option autoImplicit false

/-! # Look-up in source tables

What adding and replacing a source does to look-ups. A source that can be found stays where it is:
adding never hides it, and the source that replaces it has its id.

Between two moments of a reading a source changes only by being merged or refused, and only once.
`Source.Becomes` is that change, and `SourceTable.Keeps` says that every source of a table is still
found later, at most changed in this way. -/

namespace MeshWeave

/-! ## One source at two moments -/

/-- A source that is not part of any mesh yet and has all its scalars. -/
structure Source.IsFresh (s : Source) : Prop where
  loaded_eq : s.loaded = false
  noted_le : s.noted ≤ s.values.size

theorem Source.IsFresh.size_eq {s : Source} (h : s.IsFresh) : s.size = s.values.size :=
  Nat.max_eq_right h.noted_le

theorem Source.isFresh_fresh (id : String) (values : Scalars) (stride : Nat) :
    (fresh id values stride).IsFresh := ⟨rfl, Nat.le_refl _⟩

/-- A source and what it is later: the same data, and no change at all once it is loaded. -/
structure Source.Becomes (s later : Source) : Prop where
  id_eq : later.id = s.id
  stride_eq : later.stride = s.stride
  type_eq : later.type = s.type
  size_eq : later.size = s.size
  eq_of_loaded : s.loaded = true → later = s

namespace Source.Becomes

theorem refl (s : Source) : s.Becomes s := ⟨rfl, rfl, rfl, rfl, fun _ => rfl⟩

theorem trans {s t u : Source} (h : s.Becomes t) (h' : t.Becomes u) : s.Becomes u where
  id_eq := h'.id_eq.trans h.id_eq
  stride_eq := h'.stride_eq.trans h.stride_eq
  type_eq := h'.type_eq.trans h.type_eq
  size_eq := h'.size_eq.trans h.size_eq
  eq_of_loaded := by
    intro hs
    have ht : t = s := h.eq_of_loaded hs
    rw [h'.eq_of_loaded (ht ▸ hs), ht]

end Source.Becomes

namespace SourceTable

/-! ## Finding after a change -/

theorem find?_id {t : SourceTable} {uri : String} {s : Source} (h : t.find? uri = some s) :
    s.id = Text.fragment uri := by
  have hid := List.find?_some (show t.sources.find? (·.id == Text.fragment uri) = some s from h)
  simpa using hid

/-- Look-up depends on the id that a reference names. -/
theorem find?_congr (t : SourceTable) {uri uri' : String}
    (h : Text.fragment uri = Text.fragment uri') : t.find? uri = t.find? uri' := by
  rw [find?, find?, h]

theorem find?_replaceFirst (id id' : String) (s : Source) (hs : s.id = id) (l : List Source) :
    (replaceFirst id s l).find? (·.id == id')
      = if id' = id then (l.find? (·.id == id)).map (fun _ => s) else l.find? (·.id == id') := by
  induction l with
  | nil => simp [replaceFirst]
  | cons x xs ih =>
      rw [replaceFirst]
      -- The first source of the id is replaced, and looking for another id passes it either way.
      by_cases hx : x.id = id
      · by_cases hid : id' = id
        · simp [hx, hs, hid]
        · have hsid : (s.id == id') = false := by simp [hs, Ne.symm hid]
          simp [hx, hid, hsid, Ne.symm hid]
      · have hxb : (x.id == id) = false := by simpa using hx
        simp only [hxb, Bool.false_eq_true, if_false, List.find?_cons, ih]
        by_cases hid : id' = id
        · subst hid
          simp [hxb]
        · simp [hid]

/-- A replaced source is found by every reference that names it, and no other look-up changes. -/
theorem find?_put (t : SourceTable) (uri uri' : String) (s : Source)
    (hs : s.id = Text.fragment uri) :
    (t.put uri s).find? uri'
      = if Text.fragment uri' = Text.fragment uri then (t.find? uri).map (fun _ => s)
        else t.find? uri' :=
  find?_replaceFirst (Text.fragment uri) (Text.fragment uri') s hs t.sources

/-- Putting a source in its own place changes nothing. -/
theorem put_self {t : SourceTable} {uri : String} {s : Source} (h : t.find? uri = some s) :
    t.put uri s = t := by
  have hreplace (l : List Source) (hl : l.find? (·.id == Text.fragment uri) = some s) :
      replaceFirst (Text.fragment uri) s l = l := by
    induction l with
    | nil => rfl
    | cons x xs ih =>
        rw [List.find?_cons] at hl
        rw [replaceFirst]
        split at hl
        · next hx =>
            rw [if_pos hx, Option.some.inj hl]
        · next hx =>
            rw [if_neg (by simp [hx]), ih hl]
  rw [put, hreplace t.sources h]

/-- What a table is after a source is added. -/
theorem add_value (t : SourceTable) (s : Source) :
    (t.add s).value = if (t.find? s.id).isSome then t else ⟨t.sources ++ [s]⟩ := by
  rw [add]
  cases t.find? s.id <;> rfl

/-- A source that is added is found by the references to its id that found nothing before. -/
theorem find?_add (t : SourceTable) (s : Source) (uri : String) :
    (t.add s).value.find? uri
      = (t.find? uri).or (if s.id = Text.fragment uri ∧ t.find? s.id = none then some s else none)
    := by
  rw [add_value]
  rcases hid : t.find? s.id with _ | found
  · have hnew : [s].find? (·.id == Text.fragment uri)
        = if s.id = Text.fragment uri then some s else none := by
      by_cases heq : s.id = Text.fragment uri <;> simp [heq]
    rw [Option.isSome_none, if_neg (by simp), find?, List.find?_append, hnew, find?]
    simp only [and_true]
  · simp

theorem find?_add_of_some (t : SourceTable) (s : Source) (uri : String) (found : Source)
    (h : t.find? uri = some found) : (t.add s).value.find? uri = some found := by
  rw [find?_add, h, Option.some_or]

/-! ## A table at two moments -/

/-- Every source of a table is found later, too. -/
def Keeps (t later : SourceTable) : Prop :=
  ∀ uri s, t.find? uri = some s → ∃ s', later.find? uri = some s' ∧ s.Becomes s'

theorem Keeps.refl (t : SourceTable) : t.Keeps t := fun _ s h => ⟨s, h, .refl s⟩

theorem Keeps.trans {t u v : SourceTable} (h : t.Keeps u) (h' : u.Keeps v) : t.Keeps v := by
  intro uri s hs
  obtain ⟨s', hs', hb⟩ := h uri s hs
  obtain ⟨s'', hs'', hb'⟩ := h' uri s' hs'
  exact ⟨s'', hs'', hb.trans hb'⟩

theorem keeps_put (t : SourceTable) (uri : String) (s s' : Source) (h : t.find? uri = some s)
    (hb : s.Becomes s') : t.Keeps (t.put uri s') := by
  have hid : s'.id = Text.fragment uri := hb.id_eq.trans (find?_id h)
  intro uri' x hx
  rw [find?_put t uri uri' s' hid]
  split
  · next heq =>
      have hsame : x = s := by
        rw [find?_congr t heq, h] at hx
        exact (Option.some.inj hx).symm
      exact ⟨s', by rw [h]; rfl, hsame ▸ hb⟩
  · exact ⟨x, hx, .refl x⟩

theorem keeps_add (t : SourceTable) (s : Source) : t.Keeps (t.add s).value :=
  fun uri x hx => ⟨x, find?_add_of_some t s uri x hx, .refl x⟩

end SourceTable

end MeshWeave
