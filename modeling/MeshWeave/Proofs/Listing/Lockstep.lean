import MeshWeave.Proofs.Listing.OpenElements
import MeshWeave.Proofs.Listing.Printing
import MeshWeave.Proofs.Text.Attribute

set_option autoImplicit false

/-! # Recorders and text writers in lockstep

A place is a stack of open elements, a draft holds the listing of the open primitive element, and
the indentation is as deep as the place. So a recorder and a text writer can be told from what is
open alone whether they do a command, and so can the registers of both: what `ListingRegisters`
might miss is always there.

`Follows` says this of one command for each of the two, and its lemmas carry it to calls and to any
number of calls. -/

namespace MeshWeave

/-! ## Places as stacks -/

namespace Place

/-- The open elements at a place. -/
def elements : Place → OpenElements
  | outside => ⟨false, []⟩
  | primitive => ⟨true, []⟩
  | polygon => ⟨true, [.p]⟩
  | holed => ⟨true, [.ph]⟩
  | holedPolygon => ⟨true, [.p, .ph]⟩
  | hole => ⟨true, [.h, .ph]⟩

/-- The number of elements around a line at a place. -/
def depth : Place → Nat
  | outside => 0
  | primitive | polygon => 1
  | holed | holedPolygon | hole => 2

variable (p : Place)

theorem openPrimitive_elements (h : Header) :
    p.elements.openPrimitive = (p.step (.openPrimitive h)).map elements := by
  cases p <;> rfl

theorem openElement_elements (tag : IndexTag) :
    p.elements.openElement tag = (p.step (.openElement tag)).map elements := by
  cases p <;> cases tag <;> rfl

theorem checkIndex_elements (i : UInt32) :
    p.elements.checkIndex = (p.step (.index i)).map fun _ => () := by
  cases p <;> rfl

theorem closePrimitive_elements :
    p.elements.closePrimitive = (p.step .closePrimitive).map elements := by
  cases p <;> rfl

/-- A place takes all indices, and stays, or it takes none. -/
theorem step_index :
    (∀ i, p.step (.index i) = .ok p) ∨ ∀ i, p.step (.index i) = .error .indexOutsideElement := by
  cases p with
  | polygon | holedPolygon | hole => exact .inl fun _ => rfl
  | _ => exact .inr fun _ => rfl

/-- The place behind commands that are all allowed. -/
def steps (p : Place) (cs : List Command) : Except Misuse Place := cs.foldlM step p

theorem steps_cons (c : Command) (cs : List Command) :
    p.steps (c :: cs) = (p.step c).bind (·.steps cs) := List.foldlM_cons

theorem steps_indices {p : Place} (h : ∀ i, p.step (.index i) = .ok p) (is : List UInt32) :
    p.steps (is.map .index) = .ok p := by
  induction is with
  | nil => rfl
  | cons i is ih =>
      rw [List.map_cons, steps_cons, h]
      exact ih

/-- A call that is not allowed is not allowed from its first command on. -/
theorem steps_call {m : Misuse} {call : Call} (h : p.steps call.commands = .error m) :
    ∃ c cs, call.commands = c :: cs ∧ p.step c = .error m := by
  cases call with
  | command c =>
      rw [Call.commands, steps_cons] at h
      cases hstep : p.step c with
      | error m' =>
          rw [hstep] at h
          cases h
          exact ⟨c, [], rfl, hstep⟩
      | ok p' =>
          rw [hstep] at h
          cases h
  | indices is =>
      -- An index that is taken leaves the place, so the ones behind it are taken as well.
      rcases p.step_index with htakes | hrefuses
      · rw [Call.commands, steps_indices htakes is] at h
        cases h
      · cases is with
        | nil => cases h
        | cons i is =>
            rw [Call.commands, List.map_cons, steps_cons, hrefuses i] at h
            cases h
            exact ⟨.index i, is.map .index, rfl, hrefuses i⟩

/-- The place behind a call, which stays the same if the call is not allowed. -/
def afterCall (p : Place) (call : Call) : Place :=
  match p.steps call.commands with
  | .ok p => p
  | .error _ => p

end Place

/-! ## A recorder as registers -/

/-- The listing of the open primitive element, with all that was written of it. -/
def Draft.current : Draft → Option Listing
  | outside => none
  | primitive l => some l
  | polygon l is => some (l.push (.polygon is))
  | holed l outer holes | holedPolygon l outer holes => some (l.push (.holed outer holes))
  | hole l outer holes is => some (l.push (.holed outer (holes.push is)))

theorem Listing.changeLast?_push (l : Listing) (g : Group) (f : Group → Option Group) :
    (l.push g).changeLast? f = (f g).map l.push := by
  cases h : f g <;> simp [changeLast?, push, h]

namespace Recorder

/-- A writer that keeps the same listings in registers. -/
def registers (r : Recorder) : ListingRegisters :=
  ⟨r.listings, r.draft.current, r.draft.place.elements⟩

/-- A recorder takes what its place allows. -/
theorem place_step (r : Recorder) (c : Command) :
    (r.step c).map (·.draft.place) = r.draft.place.step c := by
  obtain ⟨ls, d⟩ := r
  cases c with
  | openElement tag => cases d <;> cases tag <;> rfl
  | _ => cases d <;> rfl

/-- The registers miss nothing that a recorder has in its draft. -/
theorem perform_registers (r : Recorder) (c : Command) :
    r.registers.perform c =
      match r.step c with
      | .ok r' => (.done, r'.registers)
      | .error m => (.refused m, r.registers) := by
  obtain ⟨ls, d⟩ := r
  cases c with
  | openElement tag =>
      cases d with
      | holed l outer holes =>
          cases tag with
          | h =>
              have hbegin : (l.push (.holed outer holes)).begin true .h
                  = l.push (.holed outer (holes.push #[])) := by
                rw [Listing.begin, Listing.changeLast?_push]
                rfl
              show (Answer.done, (⟨ls, some ((l.push _).begin true .h), _⟩ : ListingRegisters)) = _
              rw [hbegin]
              rfl
          | _ => rfl
      | _ => cases tag <;> rfl
  | index i =>
      cases d with
      | polygon | holedPolygon | hole =>
          simp only [ListingRegisters.perform, ListingRegisters.index, registers, Draft.place,
            Place.elements, Draft.current, OpenElements.checkIndex, List.head?_cons,
            Option.bind_some, Listing.changeLast?_push]
          simp [Group.append?, step, setDraft]
      | _ => rfl
  | _ => cases d <;> rfl

end Recorder

/-! ## A text writer as registers -/

namespace TextRegisters

/-- Write a text. -/
def append (r : TextRegisters) (text : String) : TextRegisters :=
  { r with bytes := r.bytes ++ text.toUTF8 }

theorem append_append (r : TextRegisters) (s t : String) :
    (r.append s).append t = r.append (s ++ t) := by
  simp [append, ByteArray.append_assoc]

/-- Writing pieces is writing their concatenation. -/
theorem emit_eq (r : TextRegisters) (pieces : List String) :
    r.emit pieces = r.append (String.join pieces) := by
  have hbytes : pieces.foldl (fun bytes piece => bytes ++ piece.toUTF8) r.bytes
      = r.bytes ++ (String.join pieces).toUTF8 := by
    generalize r.bytes = bytes
    induction pieces generalizing bytes with
    | nil => simp
    | cons piece pieces ih =>
        rw [List.foldl_cons, ih]
        simp [ByteArray.append_assoc]
  rw [emit, hbytes, append]

/-! ### Headers -/

theorem join_countPieces (ns : List Nat) : String.join (countPieces ns) = numberList ns := by
  cases ns with
  | nil => rfl
  | cons n ns =>
      rw [countPieces, String.join_cons, numberList_cons]
      simp [← String.toList_inj, List.flatMap_map, List.flatMap_assoc]

theorem join_inputPieces (i : ListedInput) (ind : Indentation) :
    ind.text 1 ++ String.join (inputPieces i) = i.line ind := by
  unfold inputPieces ListedInput.line attr
  rw [Text.escape_name, Text.escape_toString]
  cases i.set with
  | none => simp [attr?, ← String.toList_inj]
  | some set =>
      simp only [Option.map_some, attr?, attr, Text.escape_toString]
      simp [← String.toList_inj]

theorem join_tagPieces (h : Header) (ind : Indentation) :
    ind.text 0 ++ String.join (tagPieces h) = h.tagLine ind := by
  unfold tagPieces Header.tagLine attr
  rw [Text.escape_toString]
  cases h.material with
  | none => simp [attr?, ← String.toList_inj]
  | some material => simp [attr?, attr, ← String.toList_inj]

/-- The registers are about to write a line that stands a number of elements deep. -/
structure IsAt (r : TextRegisters) (ind : Indentation) (depth : Nat) : Prop where
  unit_eq : r.unit = ind.unit
  level_eq : r.level = ind.base + depth

namespace IsAt

variable {r : TextRegisters} {ind : Indentation} {depth : Nat}

theorem join_indent (h : r.IsAt ind depth) : String.join r.indent = ind.text depth := by
  rw [indent, h.unit_eq, h.level_eq, Indentation.text]

theorem append (h : r.IsAt ind depth) (text : String) : (r.append text).IsAt ind depth :=
  ⟨h.unit_eq, h.level_eq⟩

theorem emitInput (h : r.IsAt ind 1) (i : ListedInput) : r.emitInput i = r.append (i.line ind) := by
  rw [TextRegisters.emitInput, emit_eq, String.join_append, h.join_indent, join_inputPieces]

theorem foldl_emitInput (h : r.IsAt ind 1) (is : List ListedInput) :
    is.foldl TextRegisters.emitInput r = r.append (String.join (is.map (·.line ind))) := by
  induction is generalizing r with
  | nil => simp [TextRegisters.append]
  | cons i is ih =>
      rw [List.foldl_cons, h.emitInput, ih (h.append _), append_append, List.map_cons,
        String.join_cons]

theorem emitCounts (h : r.IsAt ind 1) (header : Header) :
    r.emitCounts header = r.append (header.countsLine ind) := by
  unfold TextRegisters.emitCounts Header.countsLine
  cases header.shape with
  | polylist =>
      rw [if_pos rfl, emit_eq]
      simp only [String.join_append, h.join_indent, join_countPieces]
      simp
  | _ => simp [TextRegisters.append]

/-- A text on a line of its own. -/
theorem emit_line (h : r.IsAt ind depth) (pieces : List String) :
    r.emit (r.indent ++ pieces) = r.append (ind.text depth ++ String.join pieces) := by
  rw [emit_eq, String.join_append, h.join_indent]

/-- A header is written as its lines. -/
theorem emitHeader (h : r.IsAt ind 0) (header : Header) :
    r.emitHeader header = { r with level := r.level + 1 }.append (header.lines ind) := by
  have hinside : { r.append (header.tagLine ind) with level := r.level + 1 }.IsAt ind 1 :=
    ⟨h.unit_eq, congrArg (· + 1) h.level_eq⟩
  unfold TextRegisters.emitHeader
  rw [emit_eq, String.join_append, h.join_indent, join_tagPieces]
  show (header.inputs.foldl _
    { r.append (header.tagLine ind) with level := r.level + 1 }).emitCounts header = _
  rw [hinside.foldl_emitInput, (hinside.append _).emitCounts, append_append, Header.lines]
  simp [TextRegisters.append, ByteArray.append_assoc]

/-- A run is written on the line of its element. -/
theorem emitBegin_run (h : r.IsAt ind depth) {tag : IndexTag} (htag : tag ≠ .ph) :
    r.emitBegin tag
      = { r with empty := true }.append (ind.text depth ++ "<" ++ tag.name ++ ">") := by
  simp [TextRegisters.emitBegin, h.emit_line, htag, TextRegisters.append, ByteArray.append_assoc]

theorem emitBegin_holed (h : r.IsAt ind depth) :
    r.emitBegin .ph
      = { r with level := r.level + 1, empty := true }.append (ind.text depth ++ "<ph>\n") := by
  have htag : "<" ++ IndexTag.ph.name ++ ">" ++ "\n" = "<ph>\n" := by decide
  simp [TextRegisters.emitBegin, h.emit_line, emit_eq, TextRegisters.append, ← htag,
    ByteArray.append_assoc]

/-- Behind the elements inside of an element. -/
theorem outward (h : r.IsAt ind (depth + 1)) : { r with level := r.level - 1 }.IsAt ind depth := by
  refine ⟨h.unit_eq, ?_⟩
  show r.level - 1 = ind.base + depth
  rw [h.level_eq]
  rfl

theorem emitEnd_holed (h : r.IsAt ind (depth + 1)) :
    r.emitEnd .ph = { r with level := r.level - 1 }.append (ind.text depth ++ "</ph>\n") := by
  unfold TextRegisters.emitEnd
  simp only [if_true, emit_eq, append_append, h.outward.join_indent]
  rfl

theorem emitLast (h : r.IsAt ind (depth + 1)) :
    r.emitLast
      = { r with level := r.level - 1, shape := none }.append
          (ind.text depth ++ "</" ++ (r.shape.map Shape.name).getD "triangles" ++ ">\n") := by
  have houter : { r with level := r.level - 1, shape := none }.IsAt ind depth :=
    ⟨h.unit_eq, h.outward.level_eq⟩
  unfold TextRegisters.emitLast
  simp [houter.emit_line, String.append_assoc]

end IsAt

end TextRegisters

namespace TextWriter

/-- A writer that writes the same text from registers. -/
def registers (w : TextWriter) : TextRegisters :=
  { bytes := w.output.bytes
    unit := w.indentation.unit
    level := w.indentation.base + w.place.depth
    elements := w.place.elements
    empty := w.fresh
    shape := if w.place = .outside then none else some w.shape }

/-- With other elements open the registers are still where they were. -/
theorem isAt_registers (w : TextWriter) (elements : OpenElements) :
    { w.registers with elements }.IsAt w.indentation w.place.depth := ⟨rfl, rfl⟩

/-- The stack refuses what the place refuses, and nothing is changed before it is asked. -/
theorem perform_registers_of_error {w : TextWriter} {c : Command} {m : Misuse}
    (h : w.place.step c = .error m) : w.registers.perform c = (.refused m, w.registers) := by
  cases c with
  | openPrimitive header =>
      simp only [TextRegisters.perform, registers, w.place.openPrimitive_elements header, h]
      rfl
  | openElement tag =>
      simp only [TextRegisters.perform, registers, w.place.openElement_elements tag, h]
      rfl
  | index i =>
      simp only [TextRegisters.perform, registers, w.place.checkIndex_elements i, h]
      rfl
  | closeElement =>
      obtain ⟨ind, p, shape, fresh, output⟩ := w
      cases p <;> first | cases h; rfl | cases h
  | closePrimitive =>
      simp only [TextRegisters.perform, registers, w.place.closePrimitive_elements, h]
      rfl

theorem perform_openElement {w : TextWriter} {tag : IndexTag} {p : Place}
    (h : w.place.step (.openElement tag) = .ok p) :
    w.registers.perform (.openElement tag)
      = (.done, (w.reached (.openElement tag) p).registers) := by
  obtain ⟨ind, place, shape, fresh, output⟩ := w
  have hat (tags : List IndexTag) :=
    isAt_registers ⟨ind, place, shape, fresh, output⟩ ⟨true, tags⟩
  cases place with
  | primitive =>
      cases tag with
      | p =>
          cases h
          exact congrArg (Prod.mk Answer.done) ((hat [.p]).emitBegin_run nofun)
      | ph =>
          cases h
          exact congrArg (Prod.mk Answer.done) (hat [.ph]).emitBegin_holed
      | h => cases h
  | holed =>
      cases tag with
      | ph => cases h
      | p =>
          cases h
          exact congrArg (Prod.mk Answer.done) ((hat [.p, .ph]).emitBegin_run nofun)
      | h =>
          cases h
          exact congrArg (Prod.mk Answer.done) ((hat [.h, .ph]).emitBegin_run nofun)
  | _ => cases tag <;> cases h

theorem perform_index {w : TextWriter} {i : UInt32} {p : Place}
    (h : w.place.step (.index i) = .ok p) :
    w.registers.perform (.index i) = (.done, (w.reached (.index i) p).registers) := by
  obtain ⟨ind, place, shape, fresh, output⟩ := w
  have hdone : place.elements.checkIndex = .ok () := by
    rw [place.checkIndex_elements i, h]
    rfl
  obtain rfl : p = place := by
    rcases place.step_index with htakes | hrefuses <;> simp_all
  simp only [TextRegisters.perform, registers, hdone]
  cases fresh <;>
    simp [TextRegisters.emitIndex, TextRegisters.emit_eq, reached, text, note,
      TextRegisters.append, ByteArray.append_assoc]

theorem perform_closeElement {w : TextWriter} {p : Place}
    (h : w.place.step .closeElement = .ok p) :
    w.registers.perform .closeElement = (.done, (w.reached .closeElement p).registers) := by
  obtain ⟨ind, place, shape, fresh, output⟩ := w
  cases place with
  | outside | primitive => cases h
  | holed =>
      cases h
      have hat := isAt_registers ⟨ind, .holed, shape, fresh, output⟩ ⟨true, []⟩
      exact congrArg (Prod.mk Answer.done) hat.emitEnd_holed
  | _ =>
      cases h
      exact congrArg (Prod.mk Answer.done) (TextRegisters.emit_eq _ _)

/-- A text writer over an output that takes everything does what its place allows. -/
theorem perform_registers {w : TextWriter} (h : w.output.capacity = none) (c : Command) :
    w.registers.perform c =
      match w.place.step c with
      | .ok _ => (.done, (w.perform c).1.registers)
      | .error m => (.refused m, w.registers) := by
  cases hstep : w.place.step c with
  | error m => exact perform_registers_of_error hstep
  | ok p =>
      rw [perform_of_step h hstep]
      cases c with
      | openPrimitive header =>
          obtain ⟨ind, place, shape, fresh, output⟩ := w
          cases place <;> cases hstep
          -- The shape is noted before the header is written.
          have hat : TextRegisters.IsAt ⟨output.bytes, ind.unit, ind.base, ⟨true, []⟩, fresh,
            some header.shape⟩ ind 0 := ⟨rfl, rfl⟩
          exact congrArg (Prod.mk Answer.done) (hat.emitHeader header)
      | openElement tag => exact perform_openElement hstep
      | index i => exact perform_index hstep
      | closeElement => exact perform_closeElement hstep
      | closePrimitive =>
          obtain ⟨ind, place, shape, fresh, output⟩ := w
          cases place <;> cases hstep
          have hat := isAt_registers ⟨ind, .primitive, shape, fresh, output⟩ ⟨false, []⟩
          exact congrArg (Prod.mk Answer.done) hat.emitLast

end TextWriter

/-! ## Calls -/

open Writer (performAll)
open CallWriter (answer answerAll)

/-- Writers that follow the protocol, and what they keep in registers. -/
structure Follows {ω σ : Type} [Writer ω] [CallWriter σ] (Good : ω → Prop) (place : ω → Place)
    (registers : ω → σ) : Prop where
  /-- A command that is allowed is done, and leads to the place of the protocol. -/
  ok {w : ω} {c : Command} {p : Place} : Good w → (place w).step c = .ok p →
    ∃ w', Writer.perform w c = (w', none) ∧ Good w' ∧ place w' = p
      ∧ answer (registers w) c = (.done, registers w')
  /-- A command that is not allowed is refused, and changes nothing. -/
  error {w : ω} {c : Command} {m : Misuse} : Good w → (place w).step c = .error m →
    Writer.perform w c = (w, some (.misuse m)) ∧ answer (registers w) c = (.refused m, registers w)

/-- A writer after calls, each up to its first command that fails. -/
def Writer.afterCalls {ω : Type} [Writer ω] (w : ω) (calls : List Call) : ω :=
  calls.foldl (fun w call => (performAll w call.commands).1) w

/-- A writer and its registers do a call. -/
def DoneBy {ω σ : Type} [Writer ω] [CallWriter σ] (registers : ω → σ) (w : ω) (call : Call) :
    Prop :=
  ∃ w', performAll w call.commands = (w', none)
    ∧ answerAll (registers w) call.commands = (.done, registers w')

/-- A writer and its registers refuse a call, and stay as they are. -/
def RefusedBy {ω σ : Type} [Writer ω] [CallWriter σ] (registers : ω → σ) (m : Misuse) (w : ω)
    (call : Call) : Prop :=
  performAll w call.commands = (w, some (.misuse m))
    ∧ answerAll (registers w) call.commands = (.refused m, registers w)

namespace Follows

variable {ω σ : Type} [Writer ω] [CallWriter σ] {Good : ω → Prop} {place : ω → Place}
  {registers : ω → σ}

theorem performAll_of_steps (h : Follows Good place registers) {w : ω} (hw : Good w)
    {cs : List Command} {p : Place} (hsteps : (place w).steps cs = .ok p) :
    ∃ w', performAll w cs = (w', none) ∧ Good w' ∧ place w' = p
      ∧ answerAll (registers w) cs = (.done, registers w') := by
  induction cs generalizing w with
  | nil => exact ⟨w, rfl, hw, Except.ok.inj hsteps, rfl⟩
  | cons c cs ih =>
      rw [Place.steps_cons] at hsteps
      cases hstep : (place w).step c with
      | error m =>
          rw [hstep] at hsteps
          cases hsteps
      | ok q =>
          obtain ⟨v, hperform, hv, rfl, hanswer⟩ := h.ok hw hstep
          rw [hstep] at hsteps
          obtain ⟨w', hall, hgood, hplace, hanswers⟩ := ih hv hsteps
          exact ⟨w', by rw [performAll, hperform]; exact hall, hgood, hplace,
            by rw [answerAll, hanswer]; exact hanswers⟩

/-- A call is answered by the place, and what it does to a writer it does to the registers. -/
theorem answers_call (h : Follows Good place registers) (w : ω) (hw : Good w) (call : Call) :
    match (place w).steps call.commands with
    | .ok _ => DoneBy registers w call
    | .error m => RefusedBy registers m w call := by
  cases hsteps : (place w).steps call.commands with
  | ok p =>
      obtain ⟨w', hall, -, -, hanswers⟩ := h.performAll_of_steps hw hsteps
      exact ⟨w', hall, hanswers⟩
  | error m =>
      obtain ⟨c, cs, hcall, hstep⟩ := (place w).steps_call hsteps
      obtain ⟨hperform, hanswer⟩ := h.error hw hstep
      show RefusedBy registers m w call
      rw [RefusedBy, hcall, performAll, hperform, answerAll, hanswer]
      exact ⟨rfl, rfl⟩

theorem after_call (h : Follows Good place registers) (w : ω) (hw : Good w) (call : Call) :
    Good (performAll w call.commands).1
      ∧ place (performAll w call.commands).1 = (place w).afterCall call
      ∧ (answerAll (registers w) call.commands).2 = registers (performAll w call.commands).1 := by
  have hanswers := h.answers_call w hw call
  unfold Place.afterCall
  cases hsteps : (place w).steps call.commands with
  | ok p =>
      obtain ⟨w', hall, hgood, hplace, hregisters⟩ := h.performAll_of_steps hw hsteps
      rw [hall, hregisters]
      exact ⟨hgood, hplace, rfl⟩
  | error m =>
      rw [hsteps] at hanswers
      rw [hanswers.1, hanswers.2]
      exact ⟨hw, rfl, rfl⟩

/-- Along calls a writer stays at the place of the protocol, and its registers with it. -/
theorem after_calls (h : Follows Good place registers) (w : ω) (hw : Good w)
    (calls : List Call) :
    Good (Writer.afterCalls w calls)
      ∧ place (Writer.afterCalls w calls) = calls.foldl Place.afterCall (place w)
      ∧ CallWriter.afterCalls (registers w) calls = registers (Writer.afterCalls w calls) := by
  induction calls generalizing w with
  | nil => exact ⟨hw, rfl, rfl⟩
  | cons call calls ih =>
      obtain ⟨hgood, hplace, hregisters⟩ := h.after_call w hw call
      obtain ⟨hgood', hplace', hregisters'⟩ := ih _ hgood
      refine ⟨hgood', ?_, ?_⟩
      · rw [List.foldl_cons, ← hplace]
        exact hplace'
      · rw [CallWriter.afterCalls, List.foldl_cons, hregisters]
        exact hregisters'

end Follows

theorem Recorder.follows : Follows (fun _ => True) (·.draft.place) Recorder.registers where
  ok {r c p} _ hstep := by
    have hplace := r.place_step c
    have hregisters := r.perform_registers c
    rw [hstep] at hplace
    cases hr : r.step c with
    | error m => simp [hr, Except.map] at hplace
    | ok r' =>
        rw [hr] at hplace hregisters
        refine ⟨r', ?_, trivial, Except.ok.inj hplace, hregisters⟩
        simp only [Writer.perform, hr]
  error {r c m} _ hstep := by
    have hplace := r.place_step c
    have hregisters := r.perform_registers c
    rw [hstep] at hplace
    cases hr : r.step c with
    | ok r' => simp [hr, Except.map] at hplace
    | error m' =>
        rw [hr] at hplace hregisters
        obtain rfl := Except.error.inj hplace
        refine ⟨?_, hregisters⟩
        simp only [Writer.perform, hr]

theorem TextWriter.follows :
    Follows (·.output.capacity = none) TextWriter.place TextWriter.registers where
  ok {w c p} hw hstep := by
    have hregisters := perform_registers hw c
    have hperform := perform_of_step hw hstep
    rw [hstep, hperform] at hregisters
    exact ⟨w.reached c p, hperform, hw, rfl, hregisters⟩
  error {w c m} hw hstep := by
    have hregisters := perform_registers hw c
    rw [hstep] at hregisters
    refine ⟨?_, hregisters⟩
    show w.perform c = _
    rw [perform, hstep]

/-- **Writers that are told the same answer the same.** After any calls a fresh recorder and a
fresh text writer, over an output that takes everything, have in common with their registers all
that these keep. The next call is done by all four, or it is refused by all four, for the same
reason, and then it changes nothing. So no call of `ListingRegisters` is ever lost. -/
theorem lockstep (ind : Indentation) (calls : List Call) (call : Call) :
    let recorder := Writer.afterCalls Recorder.empty calls
    let writer := Writer.afterCalls (TextWriter.start ind none) calls
    CallWriter.afterCalls ListingRegisters.fresh calls = recorder.registers
      ∧ CallWriter.afterCalls (TextRegisters.fresh ind) calls = writer.registers
      ∧ ((DoneBy Recorder.registers recorder call ∧ DoneBy TextWriter.registers writer call)
        ∨ ∃ m, RefusedBy Recorder.registers m recorder call
            ∧ RefusedBy TextWriter.registers m writer call) := by
  intro recorder writer
  obtain ⟨-, hplace, hlistings⟩ := Recorder.follows.after_calls .empty trivial calls
  obtain ⟨hwriter, hplace', htext⟩ := TextWriter.follows.after_calls (.start ind none) rfl calls
  refine ⟨hlistings, htext, ?_⟩
  have hrecorded := Recorder.follows.answers_call recorder trivial call
  have hwritten := TextWriter.follows.answers_call writer hwriter call
  -- Both writers are at the place that the calls lead to, and it answers the next one.
  rw [show recorder.draft.place = calls.foldl Place.afterCall .outside from hplace] at hrecorded
  rw [show writer.place = calls.foldl Place.afterCall .outside from hplace'] at hwritten
  cases hsteps : (calls.foldl Place.afterCall .outside).steps call.commands with
  | ok p =>
      rw [hsteps] at hrecorded hwritten
      exact .inl ⟨hrecorded, hwritten⟩
  | error m =>
      rw [hsteps] at hrecorded hwritten
      exact .inr ⟨m, hrecorded, hwritten⟩

end MeshWeave
