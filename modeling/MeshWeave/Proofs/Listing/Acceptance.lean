import Mathlib.Data.List.Forall2
import Mathlib.Data.List.ReduceOption
import MeshWeave.Proofs.Listing.Replaying
import MeshWeave.Proofs.Reader.Keeping

set_option autoImplicit false

/-! # Which listings are taken

Listings need not be consistent: the vertex counts may be wrong, inputs may be missing or refer to
nothing, and runs may end in the middle of a tuple or have no indices at all. A reader takes all of
that. The one thing it refuses is the begin tag of a polygon with holes in an element that allows
none, and even then it goes on, and is at no element again behind the end tag.

So the answer to a replay depends on the listings alone. Whatever it is, each listing adds one
primitive to the mesh or none. -/

namespace MeshWeave

/-! ## Inside an element without holes -/

namespace Reader

variable {r : Reader} {a : Assembly}

theorem takes_openHoled (h : r.current = some a) (helement : a.element ≠ .polygons) :
    r.takes [.openHoled] = false := by
  obtain ⟨b, hb, hsame⟩ := exists_current_before h .openHoled
  rcases next_of_current hb with ⟨htakes, -⟩ | ⟨-, c, -, -, hmoves⟩ | ⟨hclose, -⟩
  · exact htakes
  · cases hmoves with
    | outer outer => exact absurd outer (by simp [Event.isInner])
    | openHoled _ hpolygons => exact absurd (hsame.symm.trans hpolygons) helement
  · exact absurd hclose (by simp)

/-- **A polygon with holes is refused** wherever it stands in an element that allows none. -/
theorem takes_of_openHoled_mem (h : r.current = some a) (helement : a.element ≠ .polygons)
    {es : List Event} (hopen : .closePrimitive ∉ es) (hmem : .openHoled ∈ es) :
    r.takes es = false := by
  induction es generalizing r a with
  | nil => exact absurd hmem (by simp)
  | cons e es ih =>
      rw [List.mem_cons, not_or] at hopen
      rw [← List.singleton_append, takes_append, Bool.and_eq_false_iff]
      rcases List.mem_cons.mp hmem with rfl | hmem
      · exact Or.inl (takes_openHoled h helement)
      · obtain ⟨b, hb, hsame⟩ := exists_current_next h (Ne.symm hopen.1)
        exact Or.inr (ih hb (by rw [hsame]; exact helement) hopen.2 hmem)

end Reader

/-! ## One listing -/

namespace Listing

variable (l : Listing) {r : Reader}

theorem openHoled_mem_of_not_placed (h : ¬ l.IsPlaced) :
    l.session.element ≠ .polygons
      ∧ .openHoled ∈ l.session.countEvents ++ l.session.nodes.flatMap IndexNode.events := by
  simp only [IsPlaced, not_forall] at h
  obtain ⟨outer, holes, hmem, hshape⟩ := h
  constructor
  · show l.header.shape.element ≠ .polygons
    intro helement
    refine hshape ?_
    cases hs : l.header.shape with
    | polygons => rfl
    | _ => simp [hs, Shape.element] at helement
  · refine List.mem_append_right _ (List.mem_flatMap.mpr ⟨_, List.mem_map_of_mem hmem, ?_⟩)
    exact List.mem_cons_self

/-- **A listing is taken just if its polygons with holes are in an element for them.** -/
theorem takes_iff (hidle : r.current = none) (hsource : r.source = none) :
    r.takes l.events = true ↔ l.IsPlaced := by
  constructor
  · intro htakes
    by_contra hplaced
    obtain ⟨helement, hmem⟩ := l.openHoled_mem_of_not_placed hplaced
    have hopen := l.session.closePrimitive_not_mem_opening
    rw [← l.events_session, Session.events_eq, Session.opening, ← List.cons_append,
      List.append_assoc, Reader.takes_append, (l.session.reads_begun r hidle hsource).1,
      Reader.takes_append] at htakes
    have hrefused := Reader.takes_of_openHoled_mem (r := l.session.begun r)
      (a := l.session.declared r) rfl helement
      (fun hclose => hopen (by simp [Session.opening, hclose])) hmem
    simp [hrefused] at htakes
  · intro hplaced
    exact (reads_listing hplaced hidle hsource).2

/-- A primitive that a listing can become. -/
structure Becomes (p : Primitive) : Prop where
  material_eq : p.material = l.header.material.getD ""
  grouping_eq : p.grouping = l.header.shape.element.grouping

/-- **Any listing** leaves the reader at no element, with one more primitive or none. -/
theorem after_listing (hidle : r.current = none) (hsource : r.source = none) :
    (r.after l.events).current = none ∧ (r.after l.events).source = none
    ∧ ∃ added : Option Primitive, (∀ p ∈ added, l.Becomes p)
      ∧ (r.after l.events).mesh.primitives = r.mesh.primitives ++ added.toArray := by
  rw [← l.events_session, l.session.after_session r hidle hsource]
  refine ⟨l.session.current_behind r, ?_, (l.session.assembly r).finished, ?_, ?_⟩
  · rw [Session.source_behind, hsource]
  · intro p hp
    refine ⟨?_, l.session.grouping_of_finished r hp⟩
    rw [(Assembly.keeps_of_finished hp).material_eq, Session.material_assembly]
    rfl
  · rw [Session.primitives_behind]
    cases (l.session.assembly r).finished <;> rfl

end Listing

/-! ## Listings in a row -/

namespace Reader

/-- **Which replays are accepted.** A reader that is at no element takes all listings just if no
    polygon with holes is in an element for other polygons. In any case it is at no element again
    behind them, and of each listing in order the mesh has got one primitive or none, behind those
    that it had. -/
theorem replayAll_accepted_iff (r : Reader) (hidle : r.isIdle = true) (hsource : r.source = none)
    (ls : List Listing) :
    let read := (r.replayAll ls).value
    (read.1 = true ↔ ∀ l ∈ ls, l.IsPlaced)
    ∧ read.2.isIdle = true ∧ read.2.source = none
    ∧ ∃ added : List (Option Primitive),
      List.Forall₂ (fun l q => ∀ p ∈ q, l.Becomes p) ls added
      ∧ ∀ n, (r.replayAll (ls.take n)).value.2.mesh.primitives
          = r.mesh.primitives ++ (added.take n).reduceOption.toArray := by
  intro read
  induction ls generalizing r with
  | nil =>
      refine ⟨by simp [read, replayAll], hidle, hsource, [], .nil, ?_⟩
      intro n
      simp [replayAll]
  | cons l ls ih =>
      have hcurrent : r.current = none := by simpa [isIdle] using hidle
      obtain ⟨hnone, hclosed, first, hbecomes, hprimitives⟩ := l.after_listing hcurrent hsource
      obtain ⟨htaken, hidle', hsource', added, hadded, hall⟩ :=
        ih (r.after l.events) (by rw [isIdle, hnone]; rfl) hclosed
      have hread : read = _ := r.replayAll_cons l ls
      rw [hread]
      refine ⟨?_, hidle', hsource', first :: added, .cons hbecomes hadded, ?_⟩
      · rw [Bool.and_eq_true, l.takes_iff hcurrent hsource, htaken, List.forall_mem_cons]
      · intro n
        cases n with
        | zero => simp [replayAll]
        | succ n =>
            rw [List.take_succ_cons, List.take_succ_cons, replayAll_cons, hall n, hprimitives]
            cases first <;> simp

/-- A list of polygons with too few vertices and a polygon with a hole are taken. Triangles are not
    if there is a polygon with a hole among them, but its outline and the polygons behind it are
    read. -/
theorem replayAll_accepted_iff_mixed :
    let r := start "mesh" ""
    let short : Listing :=
      ⟨⟨.polylist, 2, none, [⟨.position, "#nowhere", 0, none⟩], [3, 4]⟩, #[.polygon #[0, 1, 2]]⟩
    let misplaced : Listing :=
      ⟨⟨.triangles, 1, some "red", [], []⟩, #[.holed #[0, 1, 2] #[#[3]], .polygon #[4, 5, 6]]⟩
    let holed : Listing := ⟨⟨.polygons, 1, none, [], []⟩, #[.holed #[0, 1, 2] #[#[3, 4, 5]]]⟩
    let read := (r.replayAll [short, misplaced, holed]).value
    r.isIdle = true ∧ r.source = none
    ∧ (r.replayAll [short, holed]).value.1 = true
    ∧ read.1 = false ∧ read.2.isIdle = true
    ∧ read.2.mesh.primitives.map (fun p => (p.material, p.faces)) = #[("red", 2), ("", 1)] := by
  intro r short misplaced holed read
  have hshort : short.IsPlaced := fun outer holes h => absurd h (by simp [short])
  have hholed : holed.IsPlaced := fun _ _ _ => rfl
  have htaken := (r.replayAll_accepted_iff rfl rfl [short, holed]).1
  obtain ⟨hread, hidle, -⟩ := r.replayAll_accepted_iff rfl rfl [short, misplaced, holed]
  refine ⟨rfl, rfl, htaken.mpr (by simp [hshort, hholed]), ?_, hidle, by decide +kernel⟩
  rw [Bool.eq_false_iff]
  intro haccepted
  have hplaced := hread.mp haccepted misplaced (by simp)
  exact absurd (hplaced #[0, 1, 2] #[#[3]] (by simp [misplaced])) (by decide)

end Reader

end MeshWeave
