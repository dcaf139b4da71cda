import MeshWeave.Proofs.Mesh.Numbering
import MeshWeave.Proofs.Reader.Alignment
import MeshWeave.Proofs.Reader.Invariants

set_option autoImplicit false

/-! # Material ids of a mesh

A reader numbers the material symbols of the primitive elements that begin, whether or not their
primitives are kept, and gives each primitive the number of its symbol. Which symbol a primitive has
and what its number is are settled by the begin tag, and nothing that is read later changes them. A
host numbers once more, by the ids of the primitives that are kept.

Events may come in any order, and only begin tags that have their places count. -/

namespace MeshWeave

/-! ## The label of a primitive -/

/-- The material of a primitive, by symbol and by number. -/
def Primitive.label (p : Primitive) : String × Nat := (p.material, p.materialId)

theorem Layout.label_pushTuples (l : Layout) (ts : List (Array Nat)) (p : Primitive) :
    (l.pushTuples ts p).label = p.label := by
  induction ts generalizing p with
  | nil => rfl
  | cons t ts ih => exact ih (l.pushTuple t p)

namespace Assembly

theorem label_closeRun (a : Assembly) (mesh : String) (run : Run) :
    (a.closeRun mesh run).value.primitive.label = a.primitive.label := by
  rw [closeRun, Noted.value_bind]
  dsimp only
  split
  · rw [addPolygonRun]
    split
    · rfl
    · rfl
    · split <;> rfl
    · split <;> rfl
    · split <;> rfl
  · rw [addHoleRun]
    split
    · split <;> rfl
    · rfl

/-- A primitive under construction keeps its label. -/
theorem Moves.label_eq {v : Vertices} {a b : Assembly} {e : Event} (h : a.Moves v e b) :
    b.primitive.label = a.primitive.label := by
  cases h with
  | counts values => exact apply_addCounts (·.primitive.label) (fun _ _ => rfl) a values
  | @indices values run _ _ =>
      rw [readValues, Layout.readValues_eq]
      exact a.layout.label_pushTuples _ a.primitive
  | @closeRun mesh run => exact a.label_closeRun mesh run
  | _ => rfl

/-- A primitive that is kept has the label that it had under construction. -/
theorem label_of_finished {a : Assembly} {p : Primitive} (h : a.finished = some p) :
    p.label = a.primitive.label := by
  have hkeep {q : Primitive} {faces : Nat} (h : (a.keep "" q faces).value = some p)
      (hq : q.label = a.primitive.label) : p.label = a.primitive.label := by
    rw [eq_of_keep h]
    exact hq
  rw [finished, finish] at h
  split at h
  · exact hkeep h rfl
  · split at h
    · exact hkeep h rfl
    · exact hkeep h rfl
  · exact hkeep h rfl
  · exact hkeep h rfl
  · exact hkeep h rfl

end Assembly

/-! ## The symbols that begin tags use -/

namespace Reader

variable {r : Reader} {e : Event}

/-- The symbol that an event puts into use: that of a primitive element which it begins. -/
def begunBy (r : Reader) (e : Event) : List String :=
  if r.takes [e] then e.symbol?.toList else []

/-- The material symbols of the primitive elements that events begin, in order. -/
def begun : Reader → List Event → List String
  | _, [] => []
  | r, e :: es => r.begunBy e ++ begun (r.next e) es

theorem materials_settled (r : Reader) : r.settled.materials = r.materials := by
  rcases r.settled_eq_or with hsame | ⟨a, h, hstage⟩
  · rw [hsame]
  · rw [settled_of_declaring h hstage]

theorem materials_ready (r : Reader) (e : Event) : (r.ready e).materials = r.materials := by
  rw [ready]
  split
  · exact r.materials_settled
  · rfl

/-- An event that has its place puts the symbol into use that it names. -/
theorem materials_of_advance {n : Noted Reader} (h : r.advance e = some n) :
    n.value.materials = r.materials.internAll e.symbol?.toList := by
  by_cases hinner : e.isInner = true
  · have hsymbol : e.symbol? = none := by
      cases e <;> first | rfl | exact absurd hinner (by simp [Event.isInner])
    rw [hsymbol]
    rcases hcurrent : r.current with _ | a
    · rw [advance_of_idle hcurrent hinner] at h
      exact absurd h (by simp)
    · by_cases hcounts : e = .openCounts
      · subst hcounts
        rw [advance_openCounts hcurrent] at h
        obtain ⟨-, rfl⟩ := of_place h
        exact r.materials_settled
      · rcases moves_of_advance_inner hcurrent hinner hcounts h with ⟨b, hn, -⟩ | ⟨-, -, hn⟩
        · rw [hn]
          rfl
        · rw [hn]
          cases a.finished <;> rfl
  · have houter : e.isInner = false := by simpa using hinner
    rcases advance_outer_eq houter h with ⟨_, _, rfl, -, -, hn⟩ | ⟨hsymbol, _, _, _, _, hn⟩
    · rw [hn]
      rfl
    · rw [hn, hsymbol]
      rfl

theorem materials_next (r : Reader) (e : Event) :
    (r.next e).materials = r.materials.internAll (r.begunBy e) := by
  rw [begunBy, takes_singleton]
  rcases hadv : (r.ready e).advance e with _ | n
  · rw [next_of_none hadv, materials_ready]
    rfl
  · rw [next_of_some hadv, materials_of_advance hadv, materials_ready]
    rfl

/-- **The symbols in use** are those of the primitive elements that began. -/
theorem materials_after (r : Reader) (es : List Event) :
    (r.after es).materials = r.materials.internAll (r.begun es) := by
  induction es generalizing r with
  | nil => rfl
  | cons e es ih =>
      rw [after_cons, ih, materials_next, begun, SymbolTable.internAll_append]

/-! ## Labels in a reader -/

/-- A primitive has the label, whether it is kept or under construction. -/
def Shows (r : Reader) (l : String × Nat) : Prop :=
  (∃ p ∈ r.mesh.primitives, p.label = l) ∨ ∃ a, r.current = some a ∧ a.primitive.label = l

/-- Inside of a primitive element no new label comes in. -/
theorem shows_of_next_of_current {c : Assembly} (hcurrent : r.current = some c) {l : String × Nat}
    (h : (r.next e).Shows l) : r.Shows l := by
  have hopen {p : Primitive} (hp : p.label = c.primitive.label) (hl : p.label = l) : r.Shows l :=
    Or.inr ⟨c, hcurrent, hp.symm.trans hl⟩
  obtain ⟨a, ha, hsettled⟩ := current_before hcurrent e
  have hlabel : a.primitive.label = c.primitive.label := by
    rcases hsettled with rfl | ⟨_, rfl⟩
    · rfl
    · rfl
  rcases h with ⟨p, hp, hl⟩ | ⟨b, hb, hl⟩
  · rcases r.primitives_next e with ⟨hsame, -⟩ | ⟨-, a', q, ha', hq, hpush, -⟩
    · rw [hsame] at hp
      exact Or.inl ⟨p, hp, hl⟩
    · rw [hpush, Array.mem_push] at hp
      rcases hp with hp | rfl
      · exact Or.inl ⟨p, hp, hl⟩
      · obtain rfl := Option.some.inj (ha.symm.trans ha')
        exact hopen ((Assembly.label_of_finished hq).trans hlabel) hl
  · rcases next_of_current ha with ⟨-, hnext⟩ | ⟨-, b', hb', -, hmoves⟩ | ⟨-, -, hclosed⟩
    · rw [hnext, ha] at hb
      obtain rfl := Option.some.inj hb
      exact hopen hlabel hl
    · obtain rfl := Option.some.inj (hb'.symm.trans hb)
      exact hopen (hmoves.label_eq.trans hlabel) hl
    · rw [hclosed] at hb
      cases hfinished : a.finished <;> simp [hfinished, closed] at hb

/-- Outside of primitive elements the label comes in that a begin tag makes. -/
theorem shows_of_next_of_idle (hidle : r.current = none) {l : String × Nat}
    (h : (r.next e).Shows l) :
    r.Shows l ∨ ∃ s, r.begunBy e = [s] ∧ l = (s, (r.materials.intern s).1) := by
  rcases hadv : r.advance e with _ | n
  · rw [next_of_idle hidle hadv] at h
    exact Or.inl h
  · have hready : (r.ready e).advance e = some n := by rw [ready_of_none e hidle, hadv]
    rw [next_of_some hready] at h
    rcases advance_outer_eq (outer_of_advance_idle hidle hadv) hadv with
      ⟨element, material, rfl, -, -, hn⟩ | ⟨-, _, _, _, _, hn⟩
    · rw [hn] at h
      rcases h with hkept | ⟨a, ha, hl⟩
      · exact Or.inl (Or.inl hkept)
      · obtain rfl := Option.some.inj ha
        refine Or.inr ⟨material.getD "", ?_, hl.symm⟩
        rw [begunBy, takes_singleton, hready]
        rfl
    · rw [hn] at h
      exact Or.inl h

/-- All primitives have the numbers of their symbols. -/
def Labelled (r : Reader) : Prop := ∀ l, r.Shows l → r.materials.find? l.1 = some l.2

theorem labelled_start (id name : String) : (start id name).Labelled := by
  rintro l (⟨p, hp, -⟩ | ⟨a, ha, -⟩)
  · exact absurd hp (Array.not_mem_empty p)
  · exact absurd ha (by simp [start])

/-- Every event leaves primitives their labels, and a primitive that begins gets the number of its
    symbol. -/
theorem Labelled.next (h : r.Labelled) (e : Event) : (r.next e).Labelled := by
  intro l hl
  rw [materials_next]
  have hstays (hshown : r.Shows l) :
      (r.materials.internAll (r.begunBy e)).find? l.1 = some l.2 :=
    SymbolTable.find?_internAll_of_some (h l hshown) _
  rcases hcurrent : r.current with _ | c
  · rcases shows_of_next_of_idle hcurrent hl with hshown | ⟨s, hbegun, rfl⟩
    · exact hstays hshown
    · rw [hbegun]
      exact r.materials.find?_intern_self s
  · exact hstays (shows_of_next_of_current hcurrent hl)

theorem Labelled.after (h : r.Labelled) (es : List Event) : (r.after es).Labelled := by
  induction es generalizing r with
  | nil => exact h
  | cons e es ih => exact ih (h.next e)

/-! ## The mesh that is read -/

/-- **Material ids stand for symbols.** Whatever events are read, the number of a symbol is the
    number of different symbols of the primitive elements that began before it was first used, also
    of those that were dropped. A primitive of the mesh has the number of its symbol, so that
    primitives have one number if and only if they have one symbol. The map for a host is an
    injective one of the ids of these primitives to the numbers from one on, in the order of their
    first use. -/
theorem materials_of_finish (id name : String) (es : List Event) :
    let r := (start id name).after es
    let begun := (start id name).begun es
    let m := r.finish.value
    (∀ s, r.materials.find? s
      = if s ∈ begun then some (Numbering.distinctBefore s begun) else none)
    ∧ (∀ p ∈ m.primitives,
      p.material ∈ begun ∧ p.materialId = Numbering.distinctBefore p.material begun)
    ∧ (∀ p ∈ m.primitives, ∀ q ∈ m.primitives,
      p.materialId = q.materialId ↔ p.material = q.material)
    ∧ m.materialNumbering.Numbers 1 m.materialIds
    ∧ ∀ j k v, (j, v) ∈ m.materialMap → (k, v) ∈ m.materialMap → j = k := by
  intro r begun m
  have hsymbols (s : String) : r.materials.find? s
      = if s ∈ begun then some (Numbering.distinctBefore s begun) else none := by
    have hmaterials : r.materials = SymbolTable.empty.internAll begun := materials_after _ es
    rw [hmaterials, SymbolTable.find?_internAll]
  have hlabels (p : Primitive) (hp : p ∈ m.primitives) :
      r.materials.find? p.material = some p.materialId := by
    have hkept : p ∈ r.mesh.primitives := r.finish_value ▸ hp
    exact (labelled_start id name).after es p.label (Or.inl ⟨p, hkept, rfl⟩)
  have hnumbers := m.numbers_materialNumbering
  refine ⟨hsymbols, ?_, ?_, hnumbers, fun j k v => hnumbers.injective⟩
  · intro p hp
    have hid := (hsymbols p.material).symm.trans (hlabels p hp)
    obtain ⟨hbegun, hid⟩ := Option.ite_none_right_eq_some.mp hid
    exact ⟨hbegun, (Option.some.inj hid).symm⟩
  · intro p hp q hq
    constructor
    · intro hid
      exact SymbolTable.find?_injective (hlabels p hp) (hid ▸ hlabels q hq)
    · intro hmaterial
      exact Option.some.inj ((hlabels p hp).symm.trans (hmaterial ▸ hlabels q hq))

/-- A dropped primitive uses up a number, and so does the empty symbol. -/
theorem materials_of_finish_dropped :
    let face : List Event := [.openRun .polygon, .indices .polygon [0, 1, 2], .closeRun .polygon]
    let element (material : Option String) (contents : List Event) : List Event :=
      .openPrimitive .triangles material :: contents ++ [.closePrimitive]
    let es := element (some "steel") [] ++ element (some "oak") face ++ element none face
      ++ [.openPrimitive .triangles (some "steel"), .openPrimitive .triangles (some "glass")]
      ++ face ++ [.closePrimitive] ++ element (some "oak") face
    let begun := (start "mesh" "").begun es
    let m := ((start "mesh" "").after es).finish.value
    begun = ["steel", "oak", "", "steel", "oak"]
    ∧ m.materialIds = [1, 2, 0, 1] ∧ m.materialMap = [(1, 1), (2, 2), (0, 3)]
    ∧ (∀ p ∈ m.primitives, p.material ∈ begun
      ∧ p.materialId = Numbering.distinctBefore p.material begun)
    ∧ m.materialNumbering.find? 0 = some (1 + Numbering.distinctBefore 0 m.materialIds) := by
  intro face element es begun m
  obtain ⟨-, hids, -, hnumbers, -⟩ := materials_of_finish "mesh" "" es
  refine ⟨by decide +kernel, by decide +kernel, by decide +kernel, hids, ?_⟩
  exact hnumbers.find?_eq 0 (by decide +kernel)

end Reader

end MeshWeave
