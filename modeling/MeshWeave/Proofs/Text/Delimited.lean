import Mathlib.Data.List.Basic
import MeshWeave.Proofs.Text.Escaping

set_option autoImplicit false

/-! # Texts that tell where they end

Markup is read from left to right. So that a document can be read in only one way, each part of it
has to tell what it is of, and where it ends, as long as what follows is nothing that could belong
to the part: no digit behind a number, no other attribute behind the last one. -/

namespace MeshWeave

/-- In front of anything that may follow, a text tells what is shown of the value that it is of,
    and where it ends. -/
def Tells {α β : Type} (text : α → List Char) (shown : α → β) (Follows : List Char → Prop) :
    Prop :=
  ∀ ⦃a b : α⦄ ⦃s t : List Char⦄, Follows s → Follows t → text a ++ s = text b ++ t →
    shown a = shown b ∧ s = t

namespace Tells

variable {α β : Type} {text : α → List Char} {shown : α → β} {Follows Next : List Char → Prop}

/-- Texts one after the other tell all the values, if none of them can be taken for what follows
    the last one. -/
theorem flatMap (h : Tells text shown Next) (hlast : ∀ s, Follows s → Next s)
    (hnext : ∀ a s, Next (text a ++ s)) (hmore : ∀ a s, ¬ Follows (text a ++ s)) :
    Tells (List.flatMap text) (List.map shown) Follows := by
  have hany (as : List α) (s : List Char) (hs : Follows s) : Next (as.flatMap text ++ s) := by
    cases as with
    | nil => exact hlast s hs
    | cons a as =>
        rw [List.flatMap_cons, List.append_assoc]
        exact hnext a _
  intro as bs s t hs ht heq
  induction as generalizing bs with
  | nil =>
      cases bs with
      | nil => exact ⟨rfl, heq⟩
      | cons b bs =>
          rw [List.flatMap_nil, List.nil_append, List.flatMap_cons, List.append_assoc] at heq
          rw [heq] at hs
          exact absurd hs (hmore b _)
  | cons a as ih =>
      cases bs with
      | nil =>
          rw [List.flatMap_nil, List.nil_append, List.flatMap_cons, List.append_assoc] at heq
          rw [← heq] at ht
          exact absurd ht (hmore a _)
      | cons b bs =>
          rw [List.flatMap_cons, List.append_assoc, List.flatMap_cons, List.append_assoc] at heq
          obtain ⟨hshown, hrest⟩ := h (hany as s hs) (hany bs t ht) heq
          obtain ⟨hmap, hst⟩ := ih hrest
          exact ⟨by rw [List.map_cons, List.map_cons, hshown, hmap], hst⟩

end Tells

/-! ## Words -/

/-- A word ends at the first character that none of its kind can have. -/
theorem append_inj_of_word {p : Char → Bool} {v w s t : List Char} (hv : ∀ c ∈ v, p c = true)
    (hw : ∀ c ∈ w, p c = true) (hs : ∀ c ∈ s.head?, p c = false) (ht : ∀ c ∈ t.head?, p c = false)
    (h : v ++ s = w ++ t) : v = w ∧ s = t := by
  have htake (u : List Char) (hu : ∀ c ∈ u.head?, p c = false) : u.takeWhile p = [] := by
    cases u with
    | nil => rfl
    | cons c u => simp [hu c rfl]
  have hwords := congrArg (List.takeWhile p) h
  rw [List.takeWhile_append_of_pos hv, List.takeWhile_append_of_pos hw, htake s hs, htake t ht,
    List.append_nil, List.append_nil] at hwords
  rw [hwords] at h
  exact ⟨hwords, List.append_cancel_left h⟩

theorem isDigit_of_mem_toString {n : Nat} {c : Char} (h : c ∈ (toString n).toList) :
    c.isDigit = true := by
  rw [Nat.toString_eq_repr, Nat.toList_repr] at h
  exact Nat.isDigit_of_mem_toDigits (by decide) (by decide) h

theorem toString_injective {m n : Nat} (h : toString m = toString n) : m = n := by
  have hdigits : Nat.toDigits 10 m = Nat.toDigits 10 n := by
    rw [← Nat.toList_repr, ← Nat.toList_repr]
    exact congrArg String.toList h
  calc
    m = Nat.ofDigitChars 10 (Nat.toDigits 10 m) 0 := Nat.ofDigitChars_ten_toDigits.symm
    _ = Nat.ofDigitChars 10 (Nat.toDigits 10 n) 0 := by rw [hdigits]
    _ = n := Nat.ofDigitChars_ten_toDigits

/-- A number ends where the digits end. -/
theorem tells_toString :
    Tells (fun n : Nat => (toString n).toList) id fun s => ∀ c ∈ s.head?, c.isDigit = false := by
  intro m n s t hs ht h
  obtain ⟨hdigits, hst⟩ := append_inj_of_word (fun _ => isDigit_of_mem_toString)
    (fun _ => isDigit_of_mem_toString) hs ht h
  exact ⟨toString_injective (String.toList_inj.mp hdigits), hst⟩

theorem numberList_cons (n : Nat) (ns : List Nat) :
    numberList (n :: ns) = toString n ++ String.join (ns.map fun n => " " ++ toString n) := by
  unfold numberList
  induction ns generalizing n with
  | nil => simp
  | cons m ns ih =>
      rw [List.map_cons, List.map_cons, String.intercalate_cons_cons, ← List.map_cons, ih m]
      simp [String.append_assoc]

/-- Numbers do not begin like markup. -/
theorem head_numberList (n : Nat) (ns : List Nat) (s : List Char) :
    ((numberList (n :: ns)).toList ++ s).head? ≠ some '<' := by
  rw [numberList_cons, String.toList_append]
  cases hdigits : (toString n).toList with
  | nil =>
      rw [Nat.toString_eq_repr, Nat.toList_repr] at hdigits
      exact absurd hdigits Nat.toDigits_ne_nil
  | cons c cs =>
      have hc : c.isDigit = true := isDigit_of_mem_toString (hdigits ▸ List.mem_cons_self)
      intro hmarkup
      obtain rfl := Option.some.inj hmarkup
      exact absurd hc (by decide)

/-- Numbers end at markup. -/
theorem tells_numberList :
    Tells (fun ns : List Nat => (numberList ns).toList) id fun s => s.head? = some '<' := by
  have hmarkup (s : List Char) (hs : s.head? = some '<') : ∀ c ∈ s.head?, c.isDigit = false := by
    intro c hc
    obtain rfl := Option.some.inj (hs.symm.trans hc)
    rfl
  -- Behind the first number each one has a blank before it, so the list tells its numbers if the
  -- first one gets a blank as well.
  have hitem : Tells (fun n : Nat => (" " ++ toString n).toList) id
      fun s => ∀ c ∈ s.head?, c.isDigit = false := by
    intro m n s t hs ht h
    simp only [String.toList_append, List.append_assoc] at h
    exact tells_toString hs ht (List.append_cancel_left h)
  have hitems := hitem.flatMap hmarkup (by simp) (by simp)
  have hcons (n : Nat) (ns : List Nat) (s : List Char) :
      (n :: ns).flatMap (fun n => (" " ++ toString n).toList) ++ s
        = ' ' :: ((numberList (n :: ns)).toList ++ s) := by
    simp [numberList_cons, List.flatMap_map]
  intro ms ns s t hs ht h
  cases ms with
  | nil =>
      cases ns with
      | nil => exact ⟨rfl, h⟩
      | cons n ns => exact absurd (h ▸ hs) (head_numberList n ns t)
  | cons m ms =>
      cases ns with
      | nil => exact absurd (h ▸ ht) (head_numberList m ms s)
      | cons n ns =>
          have hblank := congrArg (List.cons ' ') h
          rw [← hcons, ← hcons] at hblank
          obtain ⟨hnumbers, hst⟩ := hitems hs ht hblank
          exact ⟨by simpa using hnumbers, hst⟩

/-! ## Attributes -/

namespace Text

/-- What is written of a character is not the beginning of what is written of another one. -/
theorem tells_escapeChar : Tells escapeChar id fun _ => True := by
  intro c d s t _ _ h
  have hread := congrArg unescapeChars h
  rw [unescapeChars_escapeChar, unescapeChars_escapeChar] at hread
  obtain rfl := (List.cons.inj hread).1
  exact ⟨rfl, List.append_cancel_left h⟩

theorem tells_escape :
    Tells (fun v : String => (escape v).toList) id fun s => s.head? = some '"' := by
  have hquote (c : Char) (s : List Char) : (escapeChar c ++ s).head? ≠ some '"' := by
    unfold escapeChar
    split <;> grind
  intro v w s t hs ht h
  simp only [escape, String.toList_ofList] at h
  have hchars : Tells (List.flatMap escapeChar) (List.map id) fun s => s.head? = some '"' :=
    tells_escapeChar.flatMap (fun _ _ => trivial) (fun _ _ => trivial) hquote
  obtain ⟨hvalue, hst⟩ := hchars hs ht h
  rw [List.map_id, List.map_id] at hvalue
  exact ⟨String.toList_inj.mp hvalue, hst⟩

end Text

/-- An attribute ends at its closing quote. -/
theorem tells_attr (name : String) : Tells (fun v => (attr name v).toList) id fun _ => True := by
  intro v w s t _ _ h
  simp only [attr, String.toList_append, List.append_assoc, List.append_cancel_left_eq] at h
  obtain ⟨hvalue, hst⟩ := Text.tells_escape rfl rfl h
  exact ⟨hvalue, List.append_cancel_left hst⟩

/-- An attribute that may be left out is told from what follows by its blank. -/
theorem tells_attr? (name : String) :
    Tells (fun v => (attr? name v).toList) id fun s => s.head? ≠ some ' ' := by
  have hlist (v : Option String) :
      (attr? name v).toList = v.toList.flatMap fun v => (attr name v).toList := by
    cases v <;> simp [attr?]
  have hattrs : Tells (List.flatMap fun v => (attr name v).toList) (List.map id)
      fun s => s.head? ≠ some ' ' :=
    (tells_attr name).flatMap (fun _ _ => trivial) (fun _ _ => trivial)
      (fun v s => by simp [attr])
  intro v w s t hs ht h
  simp only [hlist] at h
  obtain ⟨hvalue, hst⟩ := hattrs hs ht h
  exact ⟨by simpa using congrArg List.head? hvalue, hst⟩

end MeshWeave
