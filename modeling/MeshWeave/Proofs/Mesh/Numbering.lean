import Mathlib.Data.Finset.Card
import Mathlib.Data.List.Induction
import Mathlib.Data.List.TakeWhile
import MeshWeave.Material
import MeshWeave.Mesh.Basic

set_option autoImplicit false

/-! # Numbers in the order of first use

Material symbols are numbered from zero as primitives begin, and the material ids that a mesh has
in use are numbered from one for a host. Both are a `Numbering`: a table that keeps what was given
to each key, with a counter for the next key that has nothing yet. What a key has got is told by
the keys alone, namely how many different ones were there before it. -/

namespace MeshWeave

/-- The numbers that were given to keys, in order, and the one for the next new key. -/
structure Numbering (κ : Type) where
  entries : List (κ × Nat)
  next : Nat
  deriving DecidableEq, Repr

namespace Numbering

variable {κ : Type} [DecidableEq κ]

/-- No key has a number, and the first one will get this. -/
def start (n : Nat) : Numbering κ := ⟨[], n⟩

/-- The number of a key. -/
def find? (t : Numbering κ) (k : κ) : Option Nat := t.entries.lookup k

/-- Number a key that has no number yet. -/
def enter (t : Numbering κ) (k : κ) : Numbering κ :=
  match t.find? k with
  | some _ => t
  | none => ⟨t.entries ++ [(k, t.next)], t.next + 1⟩

/-- Number keys in the order of their use. -/
def enterAll (t : Numbering κ) (ks : List κ) : Numbering κ := ks.foldl enter t

theorem enterAll_concat (t : Numbering κ) (ks : List κ) (k : κ) :
    t.enterAll (ks ++ [k]) = (t.enterAll ks).enter k :=
  List.foldl_concat enter t k ks

/-- How many different keys are used before the first use of one. -/
def distinctBefore (k : κ) (ks : List κ) : Nat := (ks.takeWhile (· ≠ k)).toFinset.card

/-! ## Keys in front of a first use -/

theorem distinctBefore_concat_of_mem {k : κ} {ks : List κ} (h : k ∈ ks) (j : κ) :
    distinctBefore k (ks ++ [j]) = distinctBefore k ks := by
  have hstops : (ks.takeWhile (· ≠ k)).length ≠ ks.length := by
    intro hall
    have hself : ks.takeWhile (· ≠ k) = ks := (List.takeWhile_prefix _).eq_of_length hall
    rw [← hself] at h
    simpa using List.mem_takeWhile_imp h
  rw [distinctBefore, List.takeWhile_append, if_neg hstops, distinctBefore]

theorem distinctBefore_concat_self {k : κ} {ks : List κ} (h : k ∉ ks) :
    distinctBefore k (ks ++ [k]) = ks.toFinset.card := by
  have hself : (ks ++ [k]).takeWhile (· ≠ k) = ks := by
    rw [List.takeWhile_append_of_pos]
    · simp
    · intro j hj
      simpa using ne_of_mem_of_not_mem hj h
  rw [distinctBefore, hself]

/-! ## Numberings of keys -/

/-- The keys that were used have consecutive numbers from the first one on, each by the number of
    different keys before it. -/
structure Numbers (t : Numbering κ) (n : Nat) (ks : List κ) : Prop where
  keys_nodup : (t.entries.map Prod.fst).Nodup
  mem_keys : ∀ k, k ∈ t.entries.map Prod.fst ↔ k ∈ ks
  numbers_eq : t.entries.map Prod.snd = List.range' n t.entries.length
  next_eq : t.next = n + t.entries.length
  find?_eq : ∀ k ∈ ks, t.find? k = some (n + distinctBefore k ks)

theorem numbers_start (n : Nat) : (start n : Numbering κ).Numbers n [] where
  keys_nodup := List.nodup_nil
  mem_keys := fun _ => Iff.rfl
  numbers_eq := rfl
  next_eq := rfl
  find?_eq := fun _ hk => absurd hk List.not_mem_nil

namespace Numbers

variable {t : Numbering κ} {n : Nat} {ks : List κ} (h : t.Numbers n ks)

include h

theorem length_eq : t.entries.length = ks.toFinset.card := by
  have hkeys : (t.entries.map Prod.fst).toFinset = ks.toFinset := by
    ext k
    rw [List.mem_toFinset, List.mem_toFinset, h.mem_keys]
  rw [← hkeys, List.toFinset_card_of_nodup h.keys_nodup, List.length_map]

theorem find?_of_not_mem {k : κ} (hk : k ∉ ks) : t.find? k = none := by
  rw [find?, List.lookup_eq_none_iff]
  intro entry hentry
  have hkey : entry.1 ∈ ks := (h.mem_keys entry.1).mp (List.mem_map_of_mem hentry)
  simpa using (ne_of_mem_of_not_mem hkey hk).symm

/-- A key that has a number keeps it, and one that has none gets the next. -/
theorem enter (k : κ) : (t.enter k).Numbers n (ks ++ [k]) := by
  by_cases hk : k ∈ ks
  · have hsame : t.enter k = t := by
      rw [Numbering.enter, h.find?_eq k hk]
    have hmem (j : κ) : j ∈ ks ++ [k] ↔ j ∈ ks := by
      rw [List.mem_append, List.mem_singleton]
      exact or_iff_left_of_imp fun hj => hj ▸ hk
    rw [hsame]
    refine ⟨h.keys_nodup, fun j => (h.mem_keys j).trans (hmem j).symm, h.numbers_eq, h.next_eq, ?_⟩
    intro j hj
    have hj' : j ∈ ks := (hmem j).mp hj
    rw [distinctBefore_concat_of_mem hj', h.find?_eq j hj']
  · have hnone : t.find? k = none := h.find?_of_not_mem hk
    have hnew : t.enter k = ⟨t.entries ++ [(k, t.next)], t.next + 1⟩ := by
      rw [Numbering.enter, hnone]
    rw [hnew]
    constructor
    case keys_nodup =>
      rw [List.map_append, List.nodup_append]
      refine ⟨h.keys_nodup, List.nodup_singleton k, ?_⟩
      intro j hj i hi
      obtain rfl : i = k := by simpa using hi
      exact ne_of_mem_of_not_mem ((h.mem_keys j).mp hj) hk
    case mem_keys =>
      intro j
      rw [List.map_append, List.mem_append, h.mem_keys, List.mem_append]
      rfl
    case numbers_eq =>
      rw [List.map_append, h.numbers_eq, List.length_append, List.length_singleton,
        List.range'_concat, Nat.one_mul, ← h.next_eq]
      rfl
    case next_eq =>
      rw [List.length_append, List.length_singleton, h.next_eq, Nat.add_assoc]
    case find?_eq =>
      intro j hj
      show (t.entries ++ [(k, t.next)]).lookup j = _
      rw [List.lookup_append]
      rcases List.mem_append.mp hj with hj | hj
      · have hfind : t.entries.lookup j = some (n + distinctBefore j ks) := h.find?_eq j hj
        rw [hfind, Option.some_or, distinctBefore_concat_of_mem hj]
      · obtain rfl : j = k := by simpa using hj
        have hfind : t.entries.lookup j = none := hnone
        rw [hfind, Option.none_or, distinctBefore_concat_self hk, ← h.length_eq, ← h.next_eq]
        simp

/-- Different keys have different numbers. -/
theorem injective {j k : κ} {v : Nat} (hj : (j, v) ∈ t.entries) (hk : (k, v) ∈ t.entries) :
    j = k := by
  have hnodup : (t.entries.map Prod.snd).Nodup := by
    rw [h.numbers_eq]
    exact List.nodup_range'
  exact congrArg Prod.fst (List.inj_on_of_nodup_map hnodup hj hk rfl)

end Numbers

/-- **Keys are numbered in the order of their first use.** -/
theorem numbers_enterAll (n : Nat) (ks : List κ) : ((start n).enterAll ks).Numbers n ks := by
  induction ks using List.reverseRecOn with
  | nil => exact numbers_start n
  | append_singleton ks k ih =>
      rw [enterAll_concat]
      exact ih.enter k

end Numbering

/-! ## Symbols -/

namespace SymbolTable

/-- The symbols with their numbers. -/
def numbering (t : SymbolTable) : Numbering String := ⟨t.symbols.zipIdx, t.symbols.length⟩

theorem find?_numbering (t : SymbolTable) (s : String) : t.numbering.find? s = t.find? s := by
  have hlookup (ss : List String) (n : Nat) :
      (ss.zipIdx n).lookup s = (ss.findIdx? (· == s)).map (n + ·) := by
    induction ss generalizing n with
    | nil => rfl
    | cons x ss ih =>
        rw [List.zipIdx_cons, List.lookup_cons, List.findIdx?_cons]
        by_cases hx : x = s
        · simp [hx]
        · have hx' : (s == x) = false := by simpa using Ne.symm hx
          have hx'' : (x == s) = false := by simpa using hx
          rw [hx', hx'', ih]
          simp [Function.comp_def, Nat.add_assoc, Nat.add_comm 1]
  have hall := hlookup t.symbols 0
  show t.symbols.zipIdx.lookup s = t.symbols.findIdx? (· == s)
  simpa using hall

/-- Number symbols in the order of their use. -/
def internAll (t : SymbolTable) (ss : List String) : SymbolTable :=
  ss.foldl (fun t s => (t.intern s).2) t

theorem internAll_append (t : SymbolTable) (ss us : List String) :
    t.internAll (ss ++ us) = (t.internAll ss).internAll us := List.foldl_append

theorem numbering_intern (t : SymbolTable) (s : String) :
    (t.intern s).2.numbering = t.numbering.enter s := by
  rw [intern, Numbering.enter, find?_numbering]
  cases t.find? s with
  | some id => rfl
  | none => simp [numbering, List.zipIdx_append]

theorem numbering_internAll (t : SymbolTable) (ss : List String) :
    (t.internAll ss).numbering = t.numbering.enterAll ss := by
  induction ss generalizing t with
  | nil => rfl
  | cons s ss ih =>
      show ((t.intern s).2.internAll ss).numbering = (t.numbering.enter s).enterAll ss
      rw [ih, numbering_intern]

/-- A symbol has the number that it is given. -/
theorem find?_intern_self (t : SymbolTable) (s : String) :
    (t.intern s).2.find? s = some (t.intern s).1 := by
  rw [intern]
  cases hs : t.find? s with
  | some id => exact hs
  | none =>
      have hs' : t.symbols.findIdx? (· == s) = none := hs
      show (t.symbols ++ [s]).findIdx? (· == s) = some t.symbols.length
      simp [List.findIdx?_append, hs']

/-- Different symbols have different numbers. -/
theorem find?_injective {t : SymbolTable} {s u : String} {id : Nat} (hs : t.find? s = some id)
    (hu : t.find? u = some id) : s = u := by
  obtain ⟨hlt, hs', -⟩ := List.findIdx?_eq_some_iff_getElem.mp hs
  obtain ⟨_, hu', -⟩ := List.findIdx?_eq_some_iff_getElem.mp hu
  rw [beq_iff_eq] at hs' hu'
  exact hs'.symm.trans hu'

/-- A symbol that is in use keeps its number. -/
theorem find?_internAll_of_some {t : SymbolTable} {s : String} {id : Nat}
    (h : t.find? s = some id) (ss : List String) : (t.internAll ss).find? s = some id := by
  induction ss generalizing t with
  | nil => exact h
  | cons x ss ih =>
      refine ih (t := (t.intern x).2) ?_
      rw [intern]
      cases t.find? x with
      | some _ => exact h
      | none =>
          have hs : t.symbols.findIdx? (· == s) = some id := h
          show (t.symbols ++ [x]).findIdx? (· == s) = some id
          rw [List.findIdx?_append, hs, Option.some_or]

/-- **The number of a symbol** is the number of different symbols that were used before it. -/
theorem find?_internAll (ss : List String) (s : String) :
    (empty.internAll ss).find? s
      = if s ∈ ss then some (Numbering.distinctBefore s ss) else none := by
  have hnumbers := Numbering.numbers_enterAll 0 ss
  rw [← find?_numbering, numbering_internAll]
  split
  · next hs =>
      rw [← Nat.zero_add (Numbering.distinctBefore s ss)]
      exact hnumbers.find?_eq s hs
  · next hs => exact hnumbers.find?_of_not_mem hs

end SymbolTable

/-! ## Material ids -/

namespace Mesh

/-- A number is used for the first time if it was not used before. -/
theorem firstUses_concat (ns : List Nat) (n : Nat) :
    firstUses (ns ++ [n]) = firstUses ns ++ if n ∈ ns then [] else [n] := by
  induction ns with
  | nil => rfl
  | cons m ns ih =>
      rw [List.cons_append, firstUses, ih, List.filter_append, firstUses, List.cons_append]
      congr 2
      by_cases hn : n ∈ ns
      · simp [hn]
      · by_cases hm : n = m <;> simp [hn, hm]

/-- Ids are numbered from one as the primitives come. -/
theorem zipIdx_firstUses (ns : List Nat) :
    (firstUses ns).zipIdx 1 = ((Numbering.start 1).enterAll ns).entries := by
  induction ns using List.reverseRecOn with
  | nil => rfl
  | append_singleton ns n ih =>
      have hnumbers := Numbering.numbers_enterAll 1 ns
      have hlength : (firstUses ns).length = ((Numbering.start 1).enterAll ns).entries.length := by
        rw [← ih, List.length_zipIdx]
      rw [firstUses_concat, List.zipIdx_append, ih, hlength, ← hnumbers.next_eq,
        Numbering.enterAll_concat, Numbering.enter]
      split
      · next hn =>
          rw [hnumbers.find?_eq n hn]
          exact List.append_nil _
      · next hn =>
          rw [hnumbers.find?_of_not_mem hn]
          rfl

/-- The material ids of the primitives, in order. -/
def materialIds (m : Mesh) : List Nat := m.primitives.toList.map (·.materialId)

/-- The numbers that a host gives to material ids. -/
def materialNumbering (m : Mesh) : Numbering Nat := ⟨m.materialMap, 1 + m.materialMap.length⟩

/-- **A host numbers the material ids** of the primitives from one, in the order of their first
    use. -/
theorem numbers_materialNumbering (m : Mesh) : m.materialNumbering.Numbers 1 m.materialIds := by
  have hnumbers := Numbering.numbers_enterAll 1 m.materialIds
  have hmap : m.materialMap = ((Numbering.start 1).enterAll m.materialIds).entries :=
    zipIdx_firstUses m.materialIds
  have hnumbering : m.materialNumbering = (Numbering.start 1).enterAll m.materialIds := by
    rw [materialNumbering, hmap, ← hnumbers.next_eq]
  rw [hnumbering]
  exact hnumbers

end Mesh

end MeshWeave
