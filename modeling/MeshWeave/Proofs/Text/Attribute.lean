import Mathlib.Data.List.Basic
import MeshWeave.Semantic
import MeshWeave.Text.Attribute

set_option autoImplicit false

/-! # Attribute values as they are written

Letters and digits are written as they are, so numbers and the names of semantics are. -/

namespace MeshWeave.Text

theorem escapeChar_of_isAlphanum {c : Char} (h : c.isAlphanum = true) : escapeChar c = [c] := by
  unfold escapeChar
  split
  · exact absurd h (by decide)
  · exact absurd h (by decide)
  · exact absurd h (by decide)
  · exact absurd h (by decide)
  · rfl

theorem escape_of_isAlphanum {s : String} (h : ∀ c ∈ s.toList, c.isAlphanum = true) :
    escape s = s := by
  have hchars : s.toList.flatMap escapeChar = s.toList.flatMap fun c => [c] :=
    List.flatMap_congr fun c hc => escapeChar_of_isAlphanum (h c hc)
  rw [← String.toList_inj, escape, String.toList_ofList, hchars]
  exact List.flatMap_singleton' _

theorem escape_toString (n : Nat) : escape (toString n) = toString n := by
  apply escape_of_isAlphanum
  intro c hc
  rw [Nat.toString_eq_repr, Nat.toList_repr] at hc
  rw [Char.isAlphanum, Nat.isDigit_of_mem_toDigits (by decide) (by decide) hc, Bool.or_true]

theorem escape_name (s : Semantic) : escape s.name = s.name := by
  have hname : s.name.toList.all Char.isAlphanum = true := by
    cases s <;> decide
  exact escape_of_isAlphanum (List.all_eq_true.mp hname)

end MeshWeave.Text
