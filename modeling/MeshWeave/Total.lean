set_option autoImplicit false

/-! # Totals

The total of a list of counts. -/

namespace MeshWeave

/-- The sum of counts. -/
def total (counts : List Nat) : Nat := counts.foldr (· + ·) 0

@[simp] theorem total_nil : total [] = 0 := rfl

@[simp] theorem total_cons (n : Nat) (ns : List Nat) : total (n :: ns) = n + total ns := rfl

@[simp] theorem total_append (ns ms : List Nat) : total (ns ++ ms) = total ns + total ms := by
  induction ns with
  | nil => simp
  | cons n ns ih => simp [ih, Nat.add_assoc]

/-- The lengths of the parts of a list. -/
theorem total_map_length {α β : Type} (f : α → List β) (l : List α) :
    total (l.map fun a => (f a).length) = (l.flatMap f).length := by
  induction l with
  | nil => rfl
  | cons a l ih => rw [List.map_cons, total_cons, ih, List.flatMap_cons, List.length_append]

theorem total_le_mul {ns : List Nat} {bound : Nat} (h : ∀ n ∈ ns, n ≤ bound) :
    total ns ≤ ns.length * bound := by
  induction ns with
  | nil => exact Nat.zero_le _
  | cons n ns ih =>
      have hn := h n List.mem_cons_self
      have hns := ih fun m hm => h m (List.mem_cons_of_mem n hm)
      rw [total_cons, List.length_cons, Nat.add_mul]
      omega

end MeshWeave
