import Mathlib.Data.List.Infix
import Mathlib.Data.List.TakeDrop
import MeshWeave.Listing.TextWriter

set_option autoImplicit false

/-! # Values between quotes

A value may hold anything, also text that looks like an entity: the value `&lt;` is written as
`&amp;lt;`, and whoever replaced one entity after the other in the whole text would read `<`.
Reading from left to right takes what is written of one character after the other, and never looks
at what it has read again, so every value comes back.

In what is written of a value only ampersands have a meaning in markup, and each of them begins an
entity. There is no quote in it, so the next quote behind the one that opens an attribute is the one
that closes it. -/

namespace MeshWeave.Text

/-- The characters with a meaning in markup. -/
def markup : List Char := ['&', '<', '>', '"']

/-- The texts that stand for them. -/
def entities : List String := ["&amp;", "&lt;", "&gt;", "&quot;"]

/-! ## What is written of a value -/

/-- A character is written as it is, or as an entity. -/
theorem escapeChar_spec (c : Char) :
    c ∉ markup ∧ escapeChar c = [c] ∨ ∃ e ∈ entities, escapeChar c = e.toList := by
  unfold escapeChar
  split
  case h_5 hamp hless hgreater hquote =>
    left
    simpa [markup] using ⟨hamp, hless, hgreater, hquote⟩
  all_goals
    right
    decide

/-- An entity begins with an ampersand, and has no other character with a meaning in markup. -/
theorem eq_cons_of_mem_entities {e : String} (he : e ∈ entities) :
    ∃ s, e.toList = '&' :: s ∧ ∀ d ∈ s, d ∉ markup := by
  simp only [entities, List.mem_cons, List.not_mem_nil, or_false] at he
  rcases he with rfl | rfl | rfl | rfl
  · exact ⟨['a', 'm', 'p', ';'], rfl, by simp [markup]⟩
  · exact ⟨['l', 't', ';'], rfl, by simp [markup]⟩
  · exact ⟨['g', 't', ';'], rfl, by simp [markup]⟩
  · exact ⟨['q', 'u', 'o', 't', ';'], rfl, by simp [markup]⟩

theorem eq_amp_of_mem_escape {value : String} {d : Char} (hd : d ∈ (escape value).toList)
    (hmarkup : d ∈ markup) : d = '&' := by
  rw [escape, String.toList_ofList] at hd
  obtain ⟨c, -, hd⟩ := List.mem_flatMap.mp hd
  rcases escapeChar_spec c with ⟨hc, hchar⟩ | ⟨e, he, hchar⟩
  · rw [hchar, List.mem_singleton] at hd
    exact absurd (hd ▸ hmarkup) hc
  · obtain ⟨s, hs, htail⟩ := eq_cons_of_mem_entities he
    rw [hchar, hs] at hd
    rcases List.mem_cons.mp hd with hamp | hd
    · exact hamp
    · exact absurd hmarkup (htail d hd)

/-- What begins with a character begins behind all others. -/
theorem suffix_of_suffix_append {c : Char} {s t rest : List Char} (hc : c ∉ t)
    (h : c :: s <:+ t ++ rest) : c :: s <:+ rest := by
  induction t with
  | nil => exact h
  | cons d t ih =>
      rw [List.mem_cons, not_or] at hc
      rcases List.suffix_cons_iff.mp h with heq | hsuffix
      · exact absurd (List.cons.inj heq).1 hc.1
      · exact ih hc.2 hsuffix

theorem entity_of_suffix {cs s : List Char} (h : '&' :: s <:+ cs.flatMap escapeChar) :
    ∃ e ∈ entities, e.toList <+: '&' :: s := by
  have hamp : '&' ∈ markup := by decide
  induction cs with
  | nil => exact absurd (List.suffix_nil.mp h) (List.cons_ne_nil _ _)
  | cons c cs ih =>
      rw [List.flatMap_cons] at h
      rcases escapeChar_spec c with ⟨hc, hchar⟩ | ⟨e, he, hchar⟩
      · rw [hchar] at h
        have hne : '&' ∉ [c] := fun hmem => hc (List.mem_singleton.mp hmem ▸ hamp)
        exact ih (suffix_of_suffix_append hne h)
      · obtain ⟨t, ht, htail⟩ := eq_cons_of_mem_entities he
        rw [hchar, ht, List.cons_append] at h
        rcases List.suffix_cons_iff.mp h with heq | hsuffix
        · refine ⟨e, he, ?_⟩
          rw [ht, heq]
          exact List.cons_prefix_cons.mpr ⟨rfl, List.prefix_append _ _⟩
        · exact ih (suffix_of_suffix_append (fun hmem => htail '&' hmem hamp) hsuffix)

/-! ## Reading it back -/

theorem unescapeChars_cons {c : Char} (hc : c ∉ markup) (s : List Char) :
    unescapeChars (c :: s) = c :: unescapeChars s := by
  have hamp : c ≠ '&' := by
    rintro rfl
    exact hc (by decide)
  rw [unescapeChars]
  all_goals
    rintro s rfl
    exact absurd rfl hamp

/-- What is written of a character is read as the character, and reading goes on behind it. -/
theorem unescapeChars_escapeChar (c : Char) (s : List Char) :
    unescapeChars (escapeChar c ++ s) = c :: unescapeChars s := by
  unfold escapeChar
  split
  case h_5 hamp hless hgreater hquote =>
    exact unescapeChars_cons (by simpa [markup] using ⟨hamp, hless, hgreater, hquote⟩) s
  all_goals rfl

theorem unescapeChars_flatMap (cs : List Char) :
    unescapeChars (cs.flatMap escapeChar) = cs := by
  induction cs with
  | nil => rfl
  | cons c cs ih => rw [List.flatMap_cons, unescapeChars_escapeChar, ih]

theorem unescape_escape (value : String) : unescape (escape value) = value := by
  rw [unescape, escape, String.toList_ofList, unescapeChars_flatMap, String.ofList_toList]

/-! ## Attributes -/

/-- Behind the quote that opens an attribute the next quote is the one that closes it. -/
theorem span_attr (name value rest : String) :
    ((attr name value ++ rest).toList.drop (name.length + 3)).span (· != '"')
      = ((escape value).toList, '"' :: rest.toList) := by
  have hopen : (attr name value ++ rest).toList
      = (" " ++ name ++ "=\"").toList ++ ((escape value).toList ++ '"' :: rest.toList) := by
    simp [attr]
  have hlength : (" " ++ name ++ "=\"").toList.length = name.length + 3 := by
    simp only [String.length_toList, String.length_append]
    rw [Nat.add_comm " ".length]
    rfl
  have hquote : ∀ d ∈ (escape value).toList, (d != '"') = true := by
    intro d hd
    rw [bne_iff_ne]
    rintro rfl
    exact absurd (eq_amp_of_mem_escape hd (by decide)) (by decide)
  rw [hopen, ← hlength, List.drop_left, List.span_eq_takeWhile_dropWhile,
    List.takeWhile_append_of_pos hquote, List.dropWhile_append_of_pos hquote]
  simp

/-- **Escaping is safe and reversible**: no character of a value is written with a meaning in markup
    but as an entity, reading the entities from left to right gives the value back, so no two values
    are written alike, and a value cannot end its attribute before the closing quote. -/
theorem escape_safe_reversible (value : String) :
    (∀ d ∈ (escape value).toList, d ≠ '<' ∧ d ≠ '>' ∧ d ≠ '"')
      ∧ (∀ s, '&' :: s <:+ (escape value).toList → ∃ e ∈ entities, e.toList <+: '&' :: s)
      ∧ unescape (escape value) = value
      ∧ (∀ other, escape value = escape other → value = other)
      ∧ ∀ name rest, ((attr name value ++ rest).toList.drop (name.length + 3)).span (· != '"')
          = ((escape value).toList, '"' :: rest.toList) := by
  refine ⟨?_, ?_, unescape_escape value, ?_, fun name rest => span_attr name value rest⟩
  · intro d hd
    have hne (c : Char) (hc : c ∈ markup) (hamp : c ≠ '&') : d ≠ c := by
      rintro rfl
      exact hamp (eq_amp_of_mem_escape hd hc)
    exact ⟨hne '<' (by decide) (by decide), hne '>' (by decide) (by decide),
      hne '"' (by decide) (by decide)⟩
  · intro s hs
    rw [escape, String.toList_ofList] at hs
    exact entity_of_suffix hs
  · intro other h
    calc
      value = unescape (escape value) := (unescape_escape value).symm
      _ = unescape (escape other) := by rw [h]
      _ = other := unescape_escape other

/-- What looks like an entity is not taken for one. -/
example : escape "a < &lt;" = "a &lt; &amp;lt;" ∧ unescape "a &lt; &amp;lt;" = "a < &lt;" := by
  decide +kernel

end MeshWeave.Text
