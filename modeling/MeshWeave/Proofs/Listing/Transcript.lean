import MeshWeave.Listing.Recorder

set_option autoImplicit false

/-! # Transcripts

A recorder sorts what it is told. In an element for a polygon with holes all polygon runs continue
one outline, and the holes follow it wherever they were written. A transcript takes the same
commands and keeps everything in the order in which it was written, so that the commands that were
performed can be read off it again.

A transcript is the history of a recorder: `after_recorder` says that a recorder always has what
`Transcript.recorder` makes of its transcript. -/

namespace MeshWeave

/-! ## Commands that are refused -/

namespace Writer

variable {σ : Type} [Writer σ]

/-- A writer after commands, those that it refuses included. -/
def after (w : σ) (cs : List Command) : σ := cs.foldl (fun w c => (perform w c).1) w

/-- The commands that a writer does not refuse. -/
def accepted : σ → List Command → List Command
  | _, [] => []
  | w, c :: cs =>
      match perform w c with
      | (w, none) => c :: accepted w cs
      | (w, some _) => accepted w cs

theorem performAll_cons (w : σ) (c : Command) (cs : List Command) :
    performAll w (c :: cs)
      = match (perform w c).2 with
        | none => performAll (perform w c).1 cs
        | some failure => ((perform w c).1, some failure) := by
  rw [performAll]
  rcases perform w c with ⟨w', _ | failure⟩ <;> rfl

theorem after_cons (w : σ) (c : Command) (cs : List Command) :
    after w (c :: cs) = after (perform w c).1 cs := rfl

theorem accepted_cons (w : σ) (c : Command) (cs : List Command) :
    accepted w (c :: cs)
      = (if (perform w c).2.isNone then [c] else []) ++ accepted (perform w c).1 cs := by
  rw [accepted]
  rcases perform w c with ⟨w', _ | failure⟩ <;> rfl

end Writer

/-! ## What is written -/

/-- An index element as it was written. -/
inductive WrittenGroup where
  | polygon (indices : Array UInt32)
  | holed (runs : List (RunKind × Array UInt32))
  deriving DecidableEq, Repr, Inhabited

/-- The indices of the runs of a kind. -/
def runsOf (kind : RunKind) (runs : List (RunKind × Array UInt32)) : List (Array UInt32) :=
  (runs.filter (·.1 == kind)).map (·.2)

/-- The commands that write a run inside an element for a polygon with holes. -/
def runCommands (run : RunKind × Array UInt32) : List Command := Command.run run.1.tag run.2

namespace WrittenGroup

/-- The commands that wrote the element. -/
def commands : WrittenGroup → List Command
  | polygon indices => Command.run .p indices
  | holed runs => .openElement .ph :: (runs.flatMap runCommands ++ [.closeElement])

/-- The runs in the order in which they were written. -/
def runs : WrittenGroup → List (RunKind × Array UInt32)
  | polygon indices => [(.polygon, indices)]
  | holed runs => runs

/-- The element as it is recorded: one outline, then the holes. -/
def group : WrittenGroup → Group
  | polygon indices => .polygon indices
  | holed runs => .holed (runsOf .polygon runs).toArray.flatten (runsOf .hole runs).toArray

end WrittenGroup

/-- A primitive element as it was written. -/
structure WrittenListing where
  header : Header
  groups : List WrittenGroup
  deriving DecidableEq, Repr, Inhabited

namespace WrittenListing

/-- The commands up to the last index element. -/
def opening (l : WrittenListing) : List Command :=
  .openPrimitive l.header :: l.groups.flatMap WrittenGroup.commands

/-- The commands that wrote the element. -/
def commands (l : WrittenListing) : List Command := l.opening ++ [.closePrimitive]

/-- The element as it is recorded. -/
def listing (l : WrittenListing) : Listing :=
  ⟨l.header, (l.groups.map WrittenGroup.group).toArray⟩

/-- Append an index element. -/
def push (l : WrittenListing) (g : WrittenGroup) : WrittenListing :=
  { l with groups := l.groups ++ [g] }

theorem opening_nil (h : Header) : opening ⟨h, []⟩ = [.openPrimitive h] := rfl

theorem opening_push (l : WrittenListing) (g : WrittenGroup) :
    (l.push g).opening = l.opening ++ g.commands := by
  simp [opening, push]

theorem listing_push (l : WrittenListing) (g : WrittenGroup) :
    (l.push g).listing = l.listing.push g.group := by
  simp [listing, push, Listing.push]

end WrittenListing

/-! ## Writing a transcript -/

/-- The primitive element that is being written, by the elements that are open. -/
inductive WrittenDraft where
  | outside
  | primitive (listing : WrittenListing)
  | polygon (listing : WrittenListing) (indices : Array UInt32)
  | holed (listing : WrittenListing) (runs : List (RunKind × Array UInt32))
  | run (listing : WrittenListing) (runs : List (RunKind × Array UInt32)) (kind : RunKind)
      (indices : Array UInt32)
  deriving DecidableEq, Repr, Inhabited

namespace WrittenDraft

/-- The commands that wrote so far. -/
def commands : WrittenDraft → List Command
  | outside => []
  | primitive l => l.opening
  | polygon l indices => l.opening ++ .openElement .p :: indices.toList.map .index
  | holed l runs => l.opening ++ .openElement .ph :: runs.flatMap runCommands
  | run l runs kind indices =>
      l.opening ++ .openElement .ph :: (runs.flatMap runCommands
        ++ .openElement kind.tag :: indices.toList.map .index)

/-- The draft of a recorder. -/
def draft : WrittenDraft → Draft
  | outside => .outside
  | primitive l => .primitive l.listing
  | polygon l indices => .polygon l.listing indices
  | holed l runs =>
      .holed l.listing (runsOf .polygon runs).toArray.flatten (runsOf .hole runs).toArray
  | run l runs .polygon indices =>
      .holedPolygon l.listing ((runsOf .polygon runs).toArray.flatten ++ indices)
        (runsOf .hole runs).toArray
  | run l runs .hole indices =>
      .hole l.listing (runsOf .polygon runs).toArray.flatten (runsOf .hole runs).toArray indices

end WrittenDraft

/-- Everything that was written, in order. -/
structure Transcript where
  /-- The finished primitive elements. -/
  listings : List WrittenListing
  draft : WrittenDraft
  deriving DecidableEq, Repr

namespace Transcript

/-- Nothing was written. -/
def empty : Transcript := ⟨[], .outside⟩

instance : Inhabited Transcript := ⟨empty⟩

/-- Perform a command that is allowed. -/
def step (t : Transcript) (c : Command) : Except Misuse Transcript :=
  match t.draft, c with
  | .outside, .openPrimitive h => .ok ⟨t.listings, .primitive ⟨h, []⟩⟩
  | .primitive l, .openElement .p => .ok ⟨t.listings, .polygon l #[]⟩
  | .primitive l, .openElement .ph => .ok ⟨t.listings, .holed l []⟩
  | .primitive l, .closePrimitive => .ok ⟨t.listings ++ [l], .outside⟩
  | .polygon l is, .index i => .ok ⟨t.listings, .polygon l (is.push i)⟩
  | .polygon l is, .closeElement => .ok ⟨t.listings, .primitive (l.push (.polygon is))⟩
  | .holed l runs, .openElement .p => .ok ⟨t.listings, .run l runs .polygon #[]⟩
  | .holed l runs, .openElement .h => .ok ⟨t.listings, .run l runs .hole #[]⟩
  | .holed l runs, .closeElement => .ok ⟨t.listings, .primitive (l.push (.holed runs))⟩
  | .run l runs kind is, .index i => .ok ⟨t.listings, .run l runs kind (is.push i)⟩
  | .run l runs kind is, .closeElement => .ok ⟨t.listings, .holed l (runs ++ [(kind, is)])⟩
  | d, c => .error (d.draft.place.misuse c)

instance : Writer Transcript where
  perform t c :=
    match t.step c with
    | .ok t => (t, none)
    | .error m => (t, some (.misuse m))

/-- The commands that were performed. -/
def commands (t : Transcript) : List Command :=
  t.listings.flatMap WrittenListing.commands ++ t.draft.commands

/-- A recorder that was told the same. -/
def recorder (t : Transcript) : Recorder :=
  ⟨(t.listings.map WrittenListing.listing).toArray, t.draft.draft⟩

/-! ## A transcript tells all -/

/-- A command that is allowed is the next one of the transcript. -/
theorem commands_step {t t' : Transcript} {c : Command} (h : t.step c = .ok t') :
    t'.commands = t.commands ++ [c] := by
  obtain ⟨ls, d⟩ := t
  unfold step at h
  split at h <;> cases h <;>
    simp_all [commands, WrittenDraft.commands, WrittenListing.commands,
      WrittenListing.opening_nil, WrittenListing.opening_push, WrittenGroup.commands, runCommands,
      Command.run, RunKind.tag]

/-- A transcript and its recorder take the same commands. -/
theorem step_recorder (t : Transcript) (c : Command) :
    t.recorder.step c = (t.step c).map recorder := by
  obtain ⟨ls, d⟩ := t
  cases d with
  | outside => cases c <;> rfl
  | primitive l =>
      cases c with
      | openElement tag => cases tag <;> rfl
      | closePrimitive =>
          simp [step, recorder, Recorder.step, WrittenDraft.draft, Except.map]
      | _ => rfl
  | polygon l is =>
      cases c with
      | closeElement =>
          simp [step, recorder, Recorder.step, Recorder.setDraft, WrittenDraft.draft, Except.map,
            WrittenListing.listing_push, WrittenGroup.group]
      | _ => rfl
  | holed l runs =>
      cases c with
      | openElement tag =>
          cases tag <;>
            simp [step, recorder, Recorder.step, Recorder.setDraft, WrittenDraft.draft, Except.map]
      | closeElement =>
          simp [step, recorder, Recorder.step, Recorder.setDraft, WrittenDraft.draft, Except.map,
            WrittenListing.listing_push, WrittenGroup.group]
      | _ => rfl
  | run l runs kind is =>
      cases kind <;> cases c <;>
        simp [step, recorder, Recorder.step, Recorder.setDraft, WrittenDraft.draft, Except.map,
          runsOf, Draft.place]

theorem perform_recorder (t : Transcript) (c : Command) :
    Writer.perform t.recorder c
      = ((Writer.perform t c).1.recorder, (Writer.perform t c).2) := by
  simp only [Writer.perform, step_recorder]
  cases t.step c <;> rfl

/-- **A recorder has what its transcript says**, and takes the same commands. -/
theorem after_recorder (t : Transcript) (cs : List Command) :
    Writer.after t.recorder cs = (Writer.after t cs).recorder
      ∧ Writer.accepted t.recorder cs = Writer.accepted t cs := by
  induction cs generalizing t with
  | nil => exact ⟨rfl, rfl⟩
  | cons c cs ih =>
      obtain ⟨hafter, haccepted⟩ := ih (Writer.perform t c).1
      rw [Writer.after_cons, Writer.after_cons, Writer.accepted_cons, Writer.accepted_cons,
        perform_recorder, hafter, haccepted]
      exact ⟨rfl, rfl⟩

/-- So it does while commands are performed, up to the first one that fails. -/
theorem performAll_recorder (t : Transcript) (cs : List Command) :
    Writer.performAll t.recorder cs
      = ((Writer.performAll t cs).1.recorder, (Writer.performAll t cs).2) := by
  induction cs generalizing t with
  | nil => rfl
  | cons c cs ih =>
      rw [Writer.performAll_cons, Writer.performAll_cons, perform_recorder]
      cases (Writer.perform t c).2 with
      | none => exact ih _
      | some failure => rfl

/-- **A transcript lists the commands that were accepted.** -/
theorem commands_after (t : Transcript) (cs : List Command) :
    (Writer.after t cs).commands = t.commands ++ Writer.accepted t cs := by
  induction cs generalizing t with
  | nil => exact (List.append_nil _).symm
  | cons c cs ih =>
      rw [Writer.after_cons, Writer.accepted_cons, ih]
      cases ht : t.step c with
      | error m => simp [Writer.perform, ht]
      | ok t' => simp [Writer.perform, ht, commands_step ht]

end Transcript

end MeshWeave
