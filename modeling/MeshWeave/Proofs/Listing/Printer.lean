import MeshWeave.Proofs.Listing.Lockstep

set_option autoImplicit false

/-! # Writing text piece by piece

A text writer hands the text of a command to its output at once. `TextRegisters` puts it together
from pieces, but has no output that could be full. A `Printer` keeps the same registers over an
output. It hands over one piece after the other, and the first one that is not taken whole ends the
command. Registers are changed where the command has come to, so one that ends early leaves them as
they are then.

The pieces that were handed over are kept, whether the output took them or not. Over an output that
takes everything a printer is a text writer: `Printer.Alike.perform` says so of one command. -/

namespace MeshWeave

/-- What a printer keeps besides its output. -/
structure Cursor where
  /-- The text of one step of indentation. -/
  unit : String
  /-- The steps before the next line. -/
  level : Nat
  elements : OpenElements
  /-- Whether the open run has no index yet. -/
  empty : Bool
  /-- The shape of the open primitive element. -/
  shape : Option Shape
  deriving DecidableEq, Repr

/-- A writer of text that hands it over in pieces. -/
structure Printer where
  output : Output
  /-- The pieces that were handed to the output, in order. -/
  handed : List String
  cursor : Cursor

/-- A printer that has written nothing. -/
def Printer.start (indentation : Indentation) (capacity : Option Nat) : Printer :=
  { output := .empty capacity
    handed := []
    cursor := ⟨indentation.unit, indentation.base, .none, true, none⟩ }

instance : Inhabited Printer := ⟨.start (.spaces 0) none⟩

/-! ## Steps -/

/-- Steps of a printer. The first one that fails ends them. -/
abbrev Printing (α : Type) := ExceptT Failure (StateM Printer) α

namespace Printing

/-- Hand a piece of text to the output. -/
def put (piece : String) : Printing Unit := fun p =>
  let (output, whole) := p.output.write piece
  (if whole then .ok () else .error .outputFull,
    { p with output, handed := p.handed ++ [piece] })

/-- Look at the cursor. -/
def look : Printing Cursor := fun p => (.ok p.cursor, p)

/-- Change the cursor. -/
def move (f : Cursor → Cursor) : Printing Unit := fun p => (.ok (), { p with cursor := f p.cursor })

/-- Ask the open elements whether a command is allowed. -/
def ask {α : Type} (question : OpenElements → Except Misuse α) : Printing α := fun p =>
  match question p.cursor.elements with
  | .ok a => (.ok a, p)
  | .error m => (.error (.misuse m), p)

/-- Write pieces of text. -/
def emit (pieces : List String) : Printing Unit := pieces.forM put

/-- Write the indentation of a line. -/
def indent : Printing Unit := do
  let c ← look
  emit (List.replicate c.level c.unit)

/-- Write a line, or the begin of one. -/
def line (pieces : List String) : Printing Unit := do
  indent
  emit pieces

/-! ## Commands -/

/-- Write the line of the vertex counts, if the primitive element has one. -/
def counts (h : Header) : Printing Unit :=
  if h.shape = .polylist then
    line (["<vcount>"] ++ TextRegisters.countPieces h.counts ++ ["</vcount>\n"])
  else return ()

/-- Write what stands before the first index element. -/
def openPrimitive (h : Header) : Printing Unit := do
  let elements ← ask OpenElements.openPrimitive
  move fun c => { c with elements, shape := some h.shape }
  line (TextRegisters.tagPieces h)
  move fun c => { c with level := c.level + 1 }
  h.inputs.forM fun i => line (TextRegisters.inputPieces i)
  counts h

/-- Begin the lines of the elements inside of an element for a polygon with holes. -/
def inward (tag : IndexTag) : Printing Unit :=
  if tag = .ph then do
    emit ["\n"]
    move fun c => { c with level := c.level + 1 }
  else return ()

/-- Write the begin tag of an index element. -/
def openElement (tag : IndexTag) : Printing Unit := do
  let elements ← ask (·.openElement tag)
  move fun c => { c with elements }
  line ["<", tag.name, ">"]
  inward tag
  move fun c => { c with empty := true }

/-- Write what stands between an index and the one before. -/
def separate : Printing Unit := do
  let c ← look
  if c.empty then return () else emit [" "]

/-- Write an index. -/
def index (i : UInt32) : Printing Unit := do
  ask OpenElements.checkIndex
  separate
  emit [toString i.toNat]
  move fun c => { c with empty := false }

/-- End the lines of the elements inside of an element for a polygon with holes. -/
def outward (tag : IndexTag) : Printing Unit :=
  if tag = .ph then do
    move fun c => { c with level := c.level - 1 }
    indent
  else return ()

/-- Write the end tag of an index element. -/
def closeElement : Printing Unit := do
  let (tag, elements) ← ask OpenElements.closeElement
  move fun c => { c with elements }
  outward tag
  emit ["</", tag.name, ">\n"]

/-- Write the end tag of the primitive element. -/
def closePrimitive : Printing Unit := do
  let elements ← ask OpenElements.closePrimitive
  move fun c => { c with elements, level := c.level - 1 }
  indent
  let c ← look
  move fun c => { c with shape := none }
  emit ["</", (c.shape.map Shape.name).getD "triangles", ">\n"]

/-- What a command does. -/
def command : Command → Printing Unit
  | .openPrimitive h => openPrimitive h
  | .openElement tag => openElement tag
  | .index i => index i
  | .closeElement => closeElement
  | .closePrimitive => closePrimitive

end Printing

instance : Writer Printer where
  perform p c :=
    match Printing.command c p with
    | (.ok (), p) => (p, none)
    | (.error failure, p) => (p, some failure)

/-! ## Printers and their registers -/

/-- The registers beside the bytes. -/
def TextRegisters.cursor (r : TextRegisters) : Cursor :=
  ⟨r.unit, r.level, r.elements, r.empty, r.shape⟩

/-- The registers of a cursor and bytes. -/
def Cursor.registers (c : Cursor) (bytes : ByteArray) : TextRegisters :=
  ⟨bytes, c.unit, c.level, c.elements, c.empty, c.shape⟩

/-- What a printer has in common with `TextRegisters`. -/
def Printer.registers (p : Printer) : TextRegisters := p.cursor.registers p.output.bytes

theorem TextRegisters.emit_append (r : TextRegisters) (before after : List String) :
    (r.emit before).emit after = r.emit (before ++ after) := by
  rw [emit, emit, emit, List.foldl_append]

namespace Printing

variable {α β : Type}

theorem bind_apply (x : Printing α) (k : α → Printing β) (p : Printer) :
    (x >>= k) p = match x p with
      | (.ok a, p) => k a p
      | (.error failure, p) => (.error failure, p) := by
  simp only [bind, ExceptT.bind, ExceptT.mk, StateT.bind, ExceptT.bindCont]
  rcases x p with ⟨failure | a, p'⟩ <;> rfl

/-- Over an output that takes everything steps succeed, and they do to the registers what a function
    does. -/
def ActsAs (x : Printing Unit) (f : TextRegisters → TextRegisters) : Prop :=
  ∀ p : Printer, p.output.capacity = none →
    ∃ p', x p = (.ok (), p') ∧ p'.output.capacity = none ∧ p'.registers = f p.registers

namespace ActsAs

variable {x y : Printing Unit} {f g : TextRegisters → TextRegisters}

theorem done : ActsAs (pure ()) id := fun p hp => ⟨p, rfl, hp, rfl⟩

theorem bind (hx : ActsAs x f) (hy : ActsAs y g) :
    ActsAs (do x; y) fun r => g (f r) := by
  intro p hp
  obtain ⟨q, hfirst, hq, hregisters⟩ := hx p hp
  obtain ⟨q', hsecond, hq', hregisters'⟩ := hy q hq
  refine ⟨q', ?_, hq', ?_⟩
  · rw [bind_apply, hfirst]
    exact hsecond
  · rw [hregisters', hregisters]

theorem look {k : Cursor → Printing Unit} {f : Cursor → TextRegisters → TextRegisters}
    (h : ∀ c, ActsAs (k c) (f c)) :
    ActsAs (do let c ← Printing.look; k c) fun r => f r.cursor r :=
  fun p hp => h p.cursor p hp

theorem move {f : Cursor → Cursor} (h : ∀ c bytes, (f c).registers bytes = g (c.registers bytes)) :
    ActsAs (Printing.move f) g :=
  fun p hp => ⟨{ p with cursor := f p.cursor }, rfl, hp, h p.cursor p.output.bytes⟩

theorem moveTo (elements : OpenElements) :
    ActsAs (Printing.move fun c => { c with elements }) fun r => { r with elements } :=
  move fun _ _ => rfl

theorem moveInward :
    ActsAs (Printing.move fun c => { c with level := c.level + 1 })
      fun r => { r with level := r.level + 1 } :=
  move fun _ _ => rfl

theorem moveEmpty (empty : Bool) :
    ActsAs (Printing.move fun c => { c with empty }) fun r => { r with empty } :=
  move fun _ _ => rfl

theorem put (piece : String) : ActsAs (Printing.put piece) (·.emit [piece]) := by
  intro p hp
  refine ⟨{ p with
    output := { p.output with bytes := p.output.bytes ++ piece.toUTF8 }
    handed := p.handed ++ [piece] }, ?_, hp, rfl⟩
  rw [Printing.put, Output.write_of_unlimited hp]
  rfl

theorem forM {γ : Type} {x : γ → Printing Unit} {f : TextRegisters → γ → TextRegisters}
    (h : ∀ i, ActsAs (x i) (f · i)) (is : List γ) :
    ActsAs (is.forM x) fun r => is.foldl f r := by
  induction is with
  | nil => exact done
  | cons i is ih => exact (h i).bind ih

theorem emit (pieces : List String) : ActsAs (Printing.emit pieces) (·.emit pieces) := by
  induction pieces with
  | nil => exact done
  | cons piece pieces ih => exact (put piece).bind ih

theorem indent : ActsAs Printing.indent fun r => r.emit r.indent :=
  look fun c => emit (List.replicate c.level c.unit)

theorem line (pieces : List String) :
    ActsAs (Printing.line pieces) fun r => r.emit (r.indent ++ pieces) := by
  have h := indent.bind (emit pieces)
  simp only [TextRegisters.emit_append] at h
  exact h

theorem counts (h : Header) : ActsAs (Printing.counts h) (·.emitCounts h) := by
  unfold Printing.counts TextRegisters.emitCounts
  by_cases hshape : h.shape = .polylist
  · simp only [if_pos hshape]
    simpa only [List.append_assoc] using line _
  · simp only [if_neg hshape]
    exact done

theorem inward (tag : IndexTag) :
    ActsAs (Printing.inward tag) fun r =>
      if tag = .ph then { r.emit ["\n"] with level := r.level + 1 } else r := by
  unfold Printing.inward
  by_cases htag : tag = .ph
  · simp only [if_pos htag]
    exact (emit ["\n"]).bind moveInward
  · simp only [if_neg htag]
    exact done

theorem outward (tag : IndexTag) :
    ActsAs (Printing.outward tag) fun r =>
      if tag = .ph then
        let r := { r with level := r.level - 1 }
        r.emit r.indent
      else r := by
  unfold Printing.outward
  by_cases htag : tag = .ph
  · simp only [if_pos htag]
    exact (move (g := fun r => { r with level := r.level - 1 }) fun _ _ => rfl).bind indent
  · simp only [if_neg htag]
    exact done

theorem separate :
    ActsAs Printing.separate fun r => if r.empty then r else r.emit [" "] := by
  refine look (f := fun c r => if c.empty then r else r.emit [" "]) fun c => ?_
  cases c.empty with
  | true => exact done
  | false => exact emit [" "]

end ActsAs

end Printing

/-! ### Commands -/

/-- What an answer reports. -/
def Answer.result : Answer → Except Failure Unit
  | done => .ok ()
  | refused m | lost m => .error (.misuse m)

namespace Printer

open Printing (ActsAs ask move line emit)

variable {p : Printer}

/-- Steps of a printer end as an answer says, and leave the registers that come with it. -/
def Obeys (p : Printer) (x : Printing Unit) (answer : Answer × TextRegisters) : Prop :=
  ∃ p', x p = (answer.1.result, p') ∧ p'.output.capacity = none ∧ p'.registers = answer.2

theorem ask_of_error {γ : Type} (question : OpenElements → Except Misuse γ) {m : Misuse}
    (h : question p.registers.elements = .error m) : ask question p = (.error (.misuse m), p) := by
  rw [ask, show question p.cursor.elements = .error m from h]

theorem ask_of_ok {γ : Type} (question : OpenElements → Except Misuse γ) {a : γ}
    (h : question p.registers.elements = .ok a) : ask question p = (.ok a, p) := by
  rw [ask, show question p.cursor.elements = .ok a from h]

/-- What the open elements refuse has no effect. -/
theorem obeys_of_refused {γ : Type} {x : Printing γ} {k : γ → Printing Unit} {m : Misuse}
    (hp : p.output.capacity = none) (h : x p = (.error (.misuse m), p)) :
    p.Obeys (do let a ← x; k a) (.refused m, p.registers) := by
  refine ⟨p, ?_, hp, rfl⟩
  rw [Printing.bind_apply, h]
  rfl

/-- What they allow is written. -/
theorem obeys_of_allowed {γ : Type} {x : Printing γ} {k : γ → Printing Unit} {a : γ}
    {f : TextRegisters → TextRegisters} {r : TextRegisters} (hp : p.output.capacity = none)
    (h : x p = (.ok a, p)) (hk : ActsAs (k a) f) (hr : f p.registers = r) :
    p.Obeys (do let a ← x; k a) (.done, r) := by
  subst hr
  rw [Obeys, Printing.bind_apply, h]
  exact hk p hp

theorem obeys_openPrimitive (hp : p.output.capacity = none) (h : Header) :
    p.Obeys (Printing.openPrimitive h) (p.registers.perform (.openPrimitive h)) := by
  rw [Printing.openPrimitive, TextRegisters.perform]
  cases hask : p.registers.elements.openPrimitive with
  | error m => exact obeys_of_refused hp (ask_of_error OpenElements.openPrimitive hask)
  | ok elements =>
      have hinputs := ActsAs.forM (fun i => ActsAs.line (TextRegisters.inputPieces i)) h.inputs
      have hlines := (ActsAs.line (TextRegisters.tagPieces h)).bind
        (ActsAs.moveInward.bind (hinputs.bind (ActsAs.counts h)))
      have hshape := ActsAs.move (f := fun c => { c with elements, shape := some h.shape })
        (g := fun r => { r with elements, shape := some h.shape }) fun _ _ => rfl
      exact obeys_of_allowed hp (ask_of_ok OpenElements.openPrimitive hask) (hshape.bind hlines) rfl

theorem obeys_openElement (hp : p.output.capacity = none) (tag : IndexTag) :
    p.Obeys (Printing.openElement tag) (p.registers.perform (.openElement tag)) := by
  rw [Printing.openElement, TextRegisters.perform]
  cases hask : p.registers.elements.openElement tag with
  | error m => exact obeys_of_refused hp (ask_of_error (·.openElement tag) hask)
  | ok elements =>
      have hbegin := (ActsAs.line ["<", tag.name, ">"]).bind
        ((ActsAs.inward tag).bind (ActsAs.moveEmpty true))
      exact obeys_of_allowed hp (ask_of_ok (·.openElement tag) hask)
        ((ActsAs.moveTo elements).bind hbegin) rfl

theorem obeys_index (hp : p.output.capacity = none) (i : UInt32) :
    p.Obeys (Printing.index i) (p.registers.perform (.index i)) := by
  rw [Printing.index, TextRegisters.perform]
  cases hask : p.registers.elements.checkIndex with
  | error m => exact obeys_of_refused hp (ask_of_error OpenElements.checkIndex hask)
  | ok taken =>
      have hindex := ActsAs.separate.bind
        ((ActsAs.emit [toString i.toNat]).bind (ActsAs.moveEmpty false))
      exact obeys_of_allowed hp (ask_of_ok OpenElements.checkIndex hask) hindex rfl

theorem obeys_closeElement (hp : p.output.capacity = none) :
    p.Obeys Printing.closeElement (p.registers.perform .closeElement) := by
  rw [Printing.closeElement, TextRegisters.perform]
  cases hask : p.registers.elements.closeElement with
  | error m => exact obeys_of_refused hp (ask_of_error OpenElements.closeElement hask)
  | ok closed =>
      obtain ⟨tag, elements⟩ := closed
      have hend := (ActsAs.outward tag).bind (ActsAs.emit ["</", tag.name, ">\n"])
      exact obeys_of_allowed hp (ask_of_ok OpenElements.closeElement hask)
        ((ActsAs.moveTo elements).bind hend) rfl

theorem obeys_closePrimitive (hp : p.output.capacity = none) :
    p.Obeys Printing.closePrimitive (p.registers.perform .closePrimitive) := by
  rw [Printing.closePrimitive, TextRegisters.perform]
  cases hask : p.registers.elements.closePrimitive with
  | error m => exact obeys_of_refused hp (ask_of_error OpenElements.closePrimitive hask)
  | ok elements =>
      have hlast := ActsAs.look fun c => (ActsAs.move (f := fun c => { c with shape := none })
        (g := fun r => { r with shape := none }) fun _ _ => rfl).bind
          (ActsAs.emit ["</", (c.shape.map Shape.name).getD "triangles", ">\n"])
      have hclose := (ActsAs.move (f := fun c => { c with elements, level := c.level - 1 })
        (g := fun r => { r with elements, level := r.level - 1 }) fun _ _ => rfl).bind
          (ActsAs.indent.bind hlast)
      -- The shape is forgotten between the indentation and the tag.
      exact obeys_of_allowed hp (ask_of_ok OpenElements.closePrimitive hask) hclose
        (TextRegisters.emit_append
          { p.registers with elements, level := p.registers.level - 1, shape := none } _ _)

/-- Over an output that takes everything a printer is its registers. -/
theorem obeys_command (hp : p.output.capacity = none) (c : Command) :
    p.Obeys (Printing.command c) (p.registers.perform c) := by
  cases c with
  | openPrimitive h => exact obeys_openPrimitive hp h
  | openElement tag => exact obeys_openElement hp tag
  | index i => exact obeys_index hp i
  | closeElement => exact obeys_closeElement hp
  | closePrimitive => exact obeys_closePrimitive hp

theorem perform_eq (p : Printer) (c : Command) :
    Writer.perform p c = ((Printing.command c p).2, match (Printing.command c p).1 with
      | .ok () => none
      | .error failure => some failure) := by
  simp only [Writer.perform]
  rcases Printing.command c p with ⟨_ | _, p'⟩ <;> rfl

/-- A printer and a text writer, both over outputs that take everything, have written the same. -/
structure Alike (p : Printer) (w : TextWriter) : Prop where
  printer_unlimited : p.output.capacity = none
  writer_unlimited : w.output.capacity = none
  registers_eq : p.registers = w.registers

theorem alike_start (ind : Indentation) : Alike (.start ind none) (.start ind none) :=
  ⟨rfl, rfl, rfl⟩

/-- A printer and a text writer are told the same and answer the same. -/
theorem Alike.perform {w : TextWriter} (h : Alike p w) (c : Command) :
    Alike (Writer.perform p c).1 (Writer.perform w c).1
      ∧ (Writer.perform p c).2 = (Writer.perform w c).2 := by
  obtain ⟨hp, hw, hregisters⟩ := h
  have hobeys := obeys_command hp c
  rw [hregisters] at hobeys
  cases hstep : w.place.step c with
  | ok place =>
      obtain ⟨w', hwritten, hw', -, hanswer⟩ := TextWriter.follows.ok hw hstep
      rw [show w.registers.perform c = _ from hanswer] at hobeys
      obtain ⟨p', hcommand, hp', hregisters'⟩ := hobeys
      have hprinted : Writer.perform p c = (p', none) := by
        rw [perform_eq, hcommand]
        rfl
      rw [hprinted, hwritten]
      exact ⟨⟨hp', hw', hregisters'⟩, rfl⟩
  | error m =>
      obtain ⟨hrefused, hanswer⟩ := TextWriter.follows.error hw hstep
      rw [show w.registers.perform c = _ from hanswer] at hobeys
      obtain ⟨p', hcommand, hp', hregisters'⟩ := hobeys
      have hprinted : Writer.perform p c = (p', some (.misuse m)) := by
        rw [perform_eq, hcommand]
        rfl
      rw [hprinted, hrefused]
      exact ⟨⟨hp', hw, hregisters'⟩, rfl⟩

end Printer

end MeshWeave
