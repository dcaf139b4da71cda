import MeshWeave.Proofs.Export.Buffering
import MeshWeave.Proofs.Export.Slots

set_option autoImplicit false

/-! # What buffers are written as

Writing from buffers issues the commands of the index elements that the faces have. The end of a
ring is met where its last vertex was written, because no ring is empty, so every hole gets its
element, and no position or face is looked up that is not there. -/

namespace MeshWeave

/-! ## Commands -/

namespace Writing

variable {σ α β : Type}

theorem bind_apply (m : Writing σ α) (f : α → Writing σ β) (w : σ) :
    (m >>= f) w = match m w with
      | .ok (.ok a, w') => f a w'
      | .ok (.error failure, w') => .ok (.error failure, w')
      | .error fault => .error fault := by
  simp only [bind, ExceptT.bind, ExceptT.mk, StateT.bind, ExceptT.bindCont, Except.bind]
  rcases m w with fault | ⟨failure | a, w'⟩ <;> rfl

theorem check_ok (a : α) : (check (.ok a) : Writing σ α) = pure a := rfl

variable [Writer σ]

/-- Perform commands in order. -/
def issue : List Command → Writing σ Unit
  | [] => return ()
  | c :: cs => do
      perform c
      issue cs

theorem issue_append (cs ds : List Command) :
    (issue (cs ++ ds) : Writing σ Unit) = (do issue cs; issue ds) := by
  induction cs with
  | nil => rw [List.nil_append, issue, pure_bind]
  | cons c cs ih => rw [List.cons_append, issue, ih, issue, bind_assoc]

theorem issue_singleton (c : Command) : (issue [c] : Writing σ Unit) = perform c := by
  rw [issue, issue]
  exact bind_pure _

/-- Steps that issue commands, one after the other. -/
theorem each_map_eq_issue {γ : Type} {f : β → Writing σ Unit} {g : γ → β}
    {commands : γ → List Command} {xs : List γ} (h : ∀ x ∈ xs, f (g x) = issue (commands x)) :
    each f (xs.map g) = issue (xs.flatMap commands) := by
  induction xs with
  | nil => rfl
  | cons x xs ih =>
      obtain ⟨hx, hxs⟩ := List.forall_mem_cons.mp h
      rw [List.map_cons, each, hx, ih hxs, List.flatMap_cons, issue_append]

/-- Issuing commands is performing them up to the first failure. -/
theorem issue_apply (cs : List Command) (w : σ) :
    issue cs w = .ok (match Writer.performAll w cs with
      | (w, none) => (.ok (), w)
      | (w, some failure) => (.error failure, w)) := by
  induction cs generalizing w with
  | nil => rfl
  | cons c cs ih =>
      rw [issue, bind_apply, Writer.performAll, perform]
      rcases Writer.perform w c with ⟨w', _ | failure⟩
      · exact ih w'
      · rfl

end Writing

/-! ## Vertices -/

namespace FaceBuffer

open Writing (check perform each issue check_ok issue_append issue_singleton each_map_eq_issue)

variable {σ : Type} [Writer σ] {h : Host} {attributes : List Attribute} {polygon : Nat}
  {b : FaceBuffer} {run : List Nat}

/-- The commands that write a face vertex. -/
def vertexCommands (h : Host) (attributes : List Attribute) (polygon position : Nat) :
    List Command :=
  attributes.map fun a => .index (a.value h polygon position)

theorem writeVertex_eq (hb : b.columns = columnsOf h attributes polygon run) {position i : Nat}
    (hi : run[position]? = some i) :
    (b.writeVertex position : Writing σ Unit) = issue (vertexCommands h attributes polygon i) := by
  have hindex : ∀ a ∈ attributes, (do
      perform (.index (← check (Checked.lookup (run.map (a.value h polygon)) position)))
        : Writing σ Unit) = issue [.index (a.value h polygon i)] := by
    intro a _
    have hlookup : Checked.lookup (run.map (a.value h polygon)) position
        = .ok (a.value h polygon i) := by
      rw [Checked.lookup, List.getElem?_map, hi]
      rfl
    rw [hlookup, check_ok, pure_bind, issue_singleton]
  rw [writeVertex, hb, columnsOf, each_map_eq_issue hindex, vertexCommands,
    List.map_eq_flatMap]

/-- Vertices one after the other. -/
theorem each_writeVertex (hb : b.columns = columnsOf h attributes polygon run)
    (before is : List Nat) {behind : List Nat} (hrun : run = before ++ is ++ behind) :
    (each b.writeVertex (List.range' before.length is.length) : Writing σ Unit)
      = issue (is.flatMap (vertexCommands h attributes polygon)) := by
  induction is generalizing before with
  | nil => rfl
  | cons i is ih =>
      have hi : run[before.length]? = some i := by
        simp [hrun]
      have hrun' : run = (before ++ [i]) ++ is ++ behind := by
        simp [hrun]
      rw [List.length_cons, List.range'_succ, each, writeVertex_eq hb hi,
        List.flatMap_cons, issue_append]
      have hrest := ih (before ++ [i]) hrun'
      rw [List.length_append, List.length_singleton] at hrest
      rw [hrest]

/-! ## Faces -/

/-- Without holes all vertices belong to one face. -/
theorem writeFaces_of_plain (hb : b.isHoled = false) (face stop : Nat) (positions : List Nat) :
    (b.writeFaces face stop positions : Writing σ Unit) = each b.writeVertex positions := by
  induction positions with
  | nil => rfl
  | cons position positions ih =>
      rw [writeFaces, hb, if_neg (by simp), ih, each]

/-- Up to the end of a face vertices are written one after the other. -/
theorem writeFaces_append (face stop : Nat) {positions : List Nat}
    (hstop : ∀ position ∈ positions, position ≠ stop) (behind : List Nat) :
    (b.writeFaces face stop (positions ++ behind) : Writing σ Unit)
      = (do each b.writeVertex positions; b.writeFaces face stop behind) := by
  induction positions with
  | nil => rw [List.nil_append, each, pure_bind]
  | cons position positions ih =>
      obtain ⟨hne, hstop⟩ := List.forall_mem_cons.mp hstop
      rw [List.cons_append, writeFaces, if_neg (by simp [hne]), ih hstop, each, bind_assoc]

/-- A hole begins where the face before ends. -/
theorem writeFaces_hole (hb : b.isHoled = true) {face stop size : Nat}
    (hsize : b.sizes[face + 1]? = some (size + 1)) (htag : b.tag (face + 1) = .h)
    (behind : List Nat) :
    (b.writeFaces face stop (List.range' stop (size + 1) ++ behind) : Writing σ Unit)
      = (do
          issue [.closeElement, .openElement .h]
          each b.writeVertex (List.range' stop (size + 1))
          b.writeFaces (face + 1) (stop + (size + 1)) behind) := by
  have hlt : face + 1 < b.sizes.length := (List.getElem?_eq_some_iff.mp hsize).1
  have hlookup : Checked.lookup b.sizes (face + 1) = .ok (size + 1) := by
    rw [Checked.lookup, hsize]
  have hstop : ∀ position ∈ List.range' (stop + 1) size, position ≠ stop + (size + 1) := by
    intro position hposition
    have := (List.mem_range'_1.mp hposition).2
    omega
  rw [List.range'_succ, List.cons_append, writeFaces, if_pos (by simp [hb, hlt]), hlookup,
    check_ok, pure_bind, htag, writeFaces_append _ _ hstop, issue, issue, issue, each]
  simp only [bind_assoc, pure_bind]

/-- Holes are written one after the other. -/
theorem writeFaces_holes (hb : b.isHoled = true)
    (hcolumns : b.columns = columnsOf h attributes polygon run) (holes : List (List Nat))
    (hne : ∀ hole ∈ holes, hole ≠ []) {before : List Nat} (hrun : run = before ++ holes.flatten)
    {face : Nat} (hsizes : b.sizes.drop (face + 1) = holes.map List.length)
    (htag : ∀ k, face < k → k < b.sizes.length → b.tag k = .h) :
    (b.writeFaces face before.length (List.range' before.length holes.flatten.length)
        : Writing σ Unit)
      = issue (holes.flatMap fun hole => [.closeElement, .openElement .h]
          ++ hole.flatMap (vertexCommands h attributes polygon)) := by
  induction holes generalizing before face with
  | nil => rfl
  | cons hole holes ih =>
      obtain ⟨hhole, hne⟩ := List.forall_mem_cons.mp hne
      obtain ⟨size, hsize⟩ : ∃ size, hole.length = size + 1 :=
        Nat.exists_eq_succ_of_ne_zero fun h => hhole (List.length_eq_zero_iff.mp h)
      have hget : b.sizes[face + 1]? = some (size + 1) := by
        rw [← Nat.add_zero (face + 1), ← List.getElem?_drop, hsizes, List.map_cons, hsize]
        rfl
      have hlt : face + 1 < b.sizes.length := (List.getElem?_eq_some_iff.mp hget).1
      have hdrop : b.sizes.drop (face + 1 + 1) = holes.map List.length := by
        rw [← List.drop_drop, hsizes]
        rfl
      have hvertices : (each b.writeVertex (List.range' before.length (size + 1)) : Writing σ Unit)
          = issue (hole.flatMap (vertexCommands h attributes polygon)) := by
        rw [← hsize]
        exact each_writeVertex hcolumns before hole (by rw [hrun, List.flatten_cons,
          ← List.append_assoc])
      have hrun' : run = before ++ hole ++ holes.flatten := by
        rw [hrun, List.flatten_cons, List.append_assoc]
      have hrest := ih hne hrun' hdrop fun k hk => htag k (Nat.lt_of_succ_lt hk)
      rw [List.length_append, hsize] at hrest
      rw [List.flatten_cons, List.length_append, hsize, ← List.range'_append_1,
        writeFaces_hole hb hget (htag _ (Nat.lt_succ_self face) hlt), hvertices, hrest,
        List.flatMap_cons, issue_append, issue_append]
      simp only [bind_assoc]

theorem vertexCount_eq (hcolumns : b.columns = columnsOf h attributes polygon run) :
    b.vertexCount = if attributes = [] then 0 else run.length := by
  rw [vertexCount, hcolumns, columnsOf]
  cases attributes <;> simp

end FaceBuffer

/-! ## Index elements -/

/-- The commands for the indices of face vertices. -/
theorem Tuple.map_index_indices (t : Tuple) (h : Host) (polygon : Nat) (positions : List Nat) :
    (t.indices h polygon positions).map Command.index
      = positions.flatMap (FaceBuffer.vertexCommands h t.attributes polygon) := by
  rw [indices, List.map_flatMap]
  simp only [List.map_map]
  rfl

/-- The end tags may stand behind the runs, or before those of the next ones. -/
theorem flatMap_run_h {α : Type} (f : α → List Command) (holes : List α) :
    (holes.flatMap fun hole => [.closeElement, .openElement .h] ++ f hole) ++ [.closeElement]
      = .closeElement :: holes.flatMap fun hole =>
          .openElement .h :: (f hole ++ [.closeElement]) := by
  induction holes with
  | nil => rfl
  | cons hole holes ih =>
      rw [List.flatMap_cons, List.append_assoc, ih]
      simp

namespace Faces

open Writing (each issue issue_append issue_singleton check_ok)

variable {σ : Type} [Writer σ] (t : Tuple) (h : Host)

theorem indices_run (f : Faces) : f.indices t h = t.indices h f.polygon f.run := by
  cases f <;> rfl

theorem writeVertices_eq (f : Faces) :
    (each (f.buffer h t.attributes).writeVertex (List.range (f.buffer h t.attributes).vertexCount)
        : Writing σ Unit)
      = issue ((f.indices t h).map .index) := by
  have hcolumns := f.columns_buffer h t.attributes
  rw [FaceBuffer.vertexCount_eq hcolumns, indices_run, Tuple.map_index_indices]
  by_cases hnone : t.attributes = []
  · rw [if_pos hnone, hnone]
    have hnil : f.run.flatMap (FaceBuffer.vertexCommands h [] f.polygon) = [] := by
      simp [FaceBuffer.vertexCommands]
    rw [hnil]
    rfl
  · have hrun : f.run = [] ++ f.run ++ [] := by
      simp
    rw [if_neg hnone, List.range_eq_range']
    exact FaceBuffer.each_writeVertex hcolumns [] f.run hrun

/-- The commands of rings from the first vertex to the last. Holes are written only if their
    vertices have indices. -/
def ringCommands (p : Nat) (rings : Rings) : List Command :=
  rings.outline.flatMap (FaceBuffer.vertexCommands h t.attributes p)
    ++ (if t.attributes = [] then [] else rings.holes).flatMap fun hole =>
      [.closeElement, .openElement .h] ++ hole.flatMap (FaceBuffer.vertexCommands h t.attributes p)

theorem commands_holed (p : Nat) (rings : Rings) :
    ((holed p rings).group t h).commands
      = .openElement .ph :: .openElement .p
        :: (ringCommands t h p rings ++ [.closeElement, .closeElement]) := by
  have hholes := flatMap_run_h (List.flatMap (FaceBuffer.vertexCommands h t.attributes p))
    (if t.attributes = [] then [] else rings.holes)
  have hends : ringCommands t h p rings ++ [.closeElement, .closeElement]
      = rings.outline.flatMap (FaceBuffer.vertexCommands h t.attributes p)
        ++ (((if t.attributes = [] then [] else rings.holes).flatMap fun hole =>
          [.closeElement, .openElement .h]
            ++ hole.flatMap (FaceBuffer.vertexCommands h t.attributes p)) ++ [.closeElement])
        ++ [.closeElement] := by
    simp [ringCommands]
  rw [hends, hholes]
  simp [group, Group.commands, Command.run, Tuple.map_index_indices, List.flatMap_map]

/-- The rings of a polygon with holes. -/
theorem writeRings_holed (p : Nat) {rings : Rings} (hholes : ∀ hole ∈ rings.holes, hole ≠ []) :
    (((holed p rings).buffer h t.attributes).writeRings : Writing σ Unit)
      = issue (.openElement .p :: (ringCommands t h p rings ++ [.closeElement])) := by
  have hcolumns : ((holed p rings).buffer h t.attributes).columns
      = columnsOf h t.attributes p (rings.outline ++ rings.holes.flatten) := rfl
  have hlookup : Checked.lookup ((holed p rings).buffer h t.attributes).sizes 0
      = .ok rings.outline.length := rfl
  have htag (k : Nat) : ((holed p rings).buffer h t.attributes).tag k
      = if 1 ≤ k ∧ k < 1 + rings.holes.length then .h else .p := by
    simp [FaceBuffer.tag, buffer]
  have hfirst : ((holed p rings).buffer h t.attributes).tag 0 = .p := by
    simp [htag]
  rw [FaceBuffer.writeRings, hlookup, check_ok, pure_bind, hfirst,
    FaceBuffer.vertexCount_eq hcolumns, issue, issue_append, issue_singleton]
  by_cases hnone : t.attributes = []
  · have hnil : ringCommands t h p rings = [] := by
      simp [ringCommands, hnone, FaceBuffer.vertexCommands]
    rw [if_pos hnone, hnil]
    rfl
  · have hrun : rings.outline ++ rings.holes.flatten
        = [] ++ rings.outline ++ rings.holes.flatten := rfl
    have houtline := FaceBuffer.each_writeVertex (σ := σ) hcolumns [] rings.outline hrun
    rw [List.length_nil] at houtline
    have hrest := FaceBuffer.writeFaces_holes (σ := σ) rfl hcolumns rings.holes hholes rfl rfl
      fun k hk hlt => (htag k).trans (if_pos ⟨hk, by
        simpa [buffer, Nat.add_comm] using hlt⟩)
    have hstop : ∀ position ∈ List.range' 0 rings.outline.length,
        position ≠ rings.outline.length := by
      intro position hposition
      have := (List.mem_range'_1.mp hposition).2
      omega
    rw [if_neg hnone, List.range_eq_range', List.length_append, ← List.range'_append_1,
      Nat.zero_add, FaceBuffer.writeFaces_append _ _ hstop, houtline, hrest, ringCommands,
      if_neg hnone, issue_append]

/-- A polygon is written as its index element. -/
theorem writeGroup_eq {f : Faces} (hf : f.IsProper false) :
    ((f.buffer h t.attributes).writeGroup : Writing σ Unit) = issue (f.group t h).commands := by
  cases f with
  | triangles p ts => exact absurd hf (by simp [IsProper])
  | plain p run =>
      have hgroup : ((plain p run).group t h).commands
          = .openElement .p :: (((plain p run).indices t h).map .index ++ [.closeElement]) := by
        simp [group, Group.commands, Command.run]
      have hlookup : Checked.lookup ((plain p run).buffer h t.attributes).sizes 0
          = .ok run.length := rfl
      have htag : ((plain p run).buffer h t.attributes).tag 0 = .p := rfl
      show FaceBuffer.writeRings _ = _
      rw [FaceBuffer.writeRings, hlookup, check_ok, pure_bind, htag,
        FaceBuffer.writeFaces_of_plain rfl, writeVertices_eq t h, hgroup, issue, issue_append,
        issue_singleton]
  | holed p rings =>
      have hends : ((holed p rings).group t h).commands
          = .openElement .ph :: (.openElement .p :: (ringCommands t h p rings ++ [.closeElement])
            ++ [.closeElement]) := by
        rw [commands_holed]
        simp
      rw [hends, issue, issue_append, ← writeRings_holed t h p hf.2.2, issue_singleton]
      rfl

end Faces

end MeshWeave
