import Mathlib.Data.List.TakeWhile
import MeshWeave.Text.Reference

set_option autoImplicit false

/-! # References by id

An id that can be referred to is its own fragment: it has no blanks, and no number sign at the
front. With a number sign in front it is a reference to itself, and so it is with any blanks around.

What a reference names has no blanks, but it begins with a number sign if there were two of them.
Only then does reading it as a reference change it once more. -/

namespace MeshWeave.Text

theorem dropWhile_isBlank_of_forall {s : List Char} (h : ∀ c ∈ s, isBlank c = false) :
    s.dropWhile isBlank = s := by
  cases s with
  | nil => rfl
  | cons c cs => simp [h c]

/-- Blanks around a text without blanks are trimmed. -/
theorem trim_padded {before s after : List Char} (hbefore : ∀ c ∈ before, isBlank c = true)
    (hs : ∀ c ∈ s, isBlank c = false) (hafter : ∀ c ∈ after, isBlank c = true) :
    trim (before ++ s ++ after) = s := by
  have hfront : (before ++ s ++ after).dropWhile isBlank = (s ++ after).dropWhile isBlank := by
    rw [List.append_assoc, List.dropWhile_append_of_pos hbefore]
  cases s with
  | nil =>
      have hall : after.dropWhile isBlank = [] := by
        rw [List.dropWhile_eq_nil_iff]
        exact hafter
      rw [trim, hfront, List.nil_append, hall]
      rfl
  | cons c cs =>
      have hstop : (c :: cs ++ after).dropWhile isBlank = c :: cs ++ after := by
        rw [List.cons_append, List.dropWhile_cons_of_neg (by simp [hs c])]
      have hback : ∀ d ∈ (c :: cs).reverse, isBlank d = false := by
        intro d hd
        exact hs d (List.mem_reverse.mp hd)
      rw [trim, hfront, hstop, List.reverse_append, List.dropWhile_append_of_pos,
        dropWhile_isBlank_of_forall hback, List.reverse_reverse]
      intro d hd
      exact hafter d (List.mem_reverse.mp hd)

/-- What a reference names has no blanks. -/
theorem isBlank_of_mem_fragmentChars {s : List Char} {c : Char} (h : c ∈ fragmentChars s) :
    isBlank c = false := by
  have hc := List.mem_takeWhile_imp h
  simpa using hc

theorem dropHash_of_head {s : List Char} (h : s.head? ≠ some '#') : dropHash s = s := by
  unfold dropHash
  split
  · exact absurd rfl h
  · rfl

theorem mem_of_mem_dropHash {s : List Char} {c : Char} (h : c ∈ dropHash s) : c ∈ s := by
  unfold dropHash at h
  split at h
  · exact List.mem_cons_of_mem _ h
  · exact h

/-- All that a reference may have in front of the id and behind it is dropped. -/
theorem fragmentChars_padded {before s after : List Char}
    (hbefore : ∀ c ∈ before, isBlank c = true) (hs : ∀ c ∈ s, isBlank c = false)
    (hafter : ∀ c ∈ after, isBlank c = true) :
    fragmentChars (before ++ s ++ after) = dropHash s := by
  rw [fragmentChars, trim_padded hbefore hs hafter, List.takeWhile_eq_self_iff]
  intro c hc
  rw [hs c (mem_of_mem_dropHash hc)]
  rfl

/-- Without blanks the only thing that is dropped is a number sign. -/
theorem fragmentChars_of_forall {s : List Char} (h : ∀ c ∈ s, isBlank c = false) :
    fragmentChars s = dropHash s := by
  have hpadded : fragmentChars ([] ++ s ++ []) = dropHash s :=
    fragmentChars_padded (by simp) h (by simp)
  rwa [List.nil_append, List.append_nil] at hpadded

theorem fragmentChars_hash {s : List Char} (h : ∀ c ∈ s, isBlank c = false) :
    fragmentChars ('#' :: s) = s := by
  apply fragmentChars_of_forall
  intro c hc
  rcases List.mem_cons.mp hc with rfl | hc
  · decide
  · exact h c hc

theorem fragmentChars_eq_self_iff {s : List Char} :
    fragmentChars s = s ↔ (∀ c ∈ s, isBlank c = false) ∧ s.head? ≠ some '#' := by
  constructor
  · intro h
    have hblank : ∀ c ∈ s, isBlank c = false := by
      intro c hc
      rw [← h] at hc
      exact isBlank_of_mem_fragmentChars hc
    refine ⟨hblank, ?_⟩
    intro hhead
    obtain ⟨cs, rfl⟩ := List.head?_eq_some_iff.mp hhead
    -- The number sign would be dropped.
    rw [fragmentChars_hash fun c hc => hblank c (List.mem_cons_of_mem _ hc)] at h
    exact List.cons_ne_self _ _ h.symm
  · rintro ⟨hblank, hhead⟩
    rw [fragmentChars_of_forall hblank, dropHash_of_head hhead]

/-- **The ids that name themselves** have no blanks, and no number sign at the front. -/
theorem fragment_eq_self_iff {id : String} :
    fragment id = id
      ↔ (∀ c ∈ id.toList, isBlank c = false) ∧ id.toList.head? ≠ some '#' := by
  rw [← fragmentChars_eq_self_iff, ← String.toList_inj, fragment, String.toList_ofList]

/-- **A reference to an id names the id**, if the id is its own fragment. -/
theorem fragment_hash {id : String} (h : fragment id = id) : fragment ("#" ++ id) = id := by
  obtain ⟨hblank, -⟩ := fragment_eq_self_iff.mp h
  rw [fragment, String.toList_append]
  show String.ofList (fragmentChars ('#' :: id.toList)) = id
  rw [fragmentChars_hash hblank, String.ofList_toList]

/-! ## References that are read twice -/

/-- What a reference names begins with a number sign if the reference begins with two. -/
theorem head_fragmentChars_iff {s : List Char} :
    (fragmentChars s).head? = some '#' ↔ ['#', '#'] <+: trim s := by
  rw [fragmentChars]
  generalize trim s = t
  constructor
  · intro hhead
    obtain ⟨cs, hcs⟩ := List.head?_eq_some_iff.mp hhead
    have hdrop : ['#'] <+: dropHash t := by
      refine List.IsPrefix.trans ?_ (List.takeWhile_prefix (fun c => !isBlank c))
      rw [hcs]
      exact ⟨cs, rfl⟩
    unfold dropHash at hdrop
    split at hdrop
    · exact List.cons_prefix_cons.mpr ⟨rfl, hdrop⟩
    · next hone =>
        obtain ⟨ds, rfl⟩ := hdrop
        exact absurd rfl (hone ds)
  · rintro ⟨cs, rfl⟩
    show (('#' :: cs).takeWhile (fun c => !isBlank c)).head? = some '#'
    rw [List.takeWhile_cons_of_pos (by decide), List.head?_cons]

/-- **Reading what a reference names as a reference** changes nothing, unless the reference begins
    with two number signs. -/
theorem fragment_fragment_eq_iff {uri : String} :
    fragment (fragment uri) = fragment uri ↔ ¬ ['#', '#'] <+: trim uri.toList := by
  rw [← head_fragmentChars_iff, fragment_eq_self_iff, fragment, String.toList_ofList]
  constructor
  · rintro ⟨-, hhead⟩
    exact hhead
  · intro hhead
    exact ⟨fun c hc => isBlank_of_mem_fragmentChars hc, hhead⟩

/-- **An id is named by itself**, with or without a number sign, and with blanks around. -/
theorem fragment_padded {before sign id after : String}
    (hbefore : ∀ c ∈ before.toList, isBlank c = true) (hsign : sign = "" ∨ sign = "#")
    (hid : fragment id = id) (hafter : ∀ c ∈ after.toList, isBlank c = true) :
    fragment (before ++ sign ++ id ++ after) = id := by
  obtain ⟨hblank, hhead⟩ := fragment_eq_self_iff.mp hid
  have hsigned : ∀ c ∈ (sign ++ id).toList, isBlank c = false := by
    intro c hc
    rw [String.toList_append] at hc
    rcases List.mem_append.mp hc with hc | hc
    · rcases hsign with rfl | rfl
      · exact absurd hc (by simp)
      · obtain rfl : c = '#' := by simpa using hc
        decide
    · exact hblank c hc
  have hdrop : dropHash (sign ++ id).toList = id.toList := by
    rcases hsign with rfl | rfl
    · rw [String.empty_append, dropHash_of_head hhead]
    · rw [String.toList_append]
      rfl
  have hparts : (before ++ sign ++ id ++ after).toList
      = before.toList ++ (sign ++ id).toList ++ after.toList := by
    simp only [String.toList_append, List.append_assoc]
  rw [fragment, hparts, fragmentChars_padded hbefore hsigned hafter, hdrop, String.ofList_toList]

end MeshWeave.Text
