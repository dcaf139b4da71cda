import MeshWeave.Proofs.Reader.Resolving

set_option autoImplicit false

/-! # Writing indices as they come

A reader collects the values of a tuple and appends all its indices at once. A decoder of a stream
does not wait: each value goes to the index arrays that take it from its offset, and a channel comes
into being with its first index. So there may be arrays that are one index longer than others, and
channels that are still missing.

Every channel input remembers the slot of its channel in the primitive. Channels come into being in
the order of the layout, by offset and then by declaration, and `ChannelInput.Spread` says which of
them exist, where they are and what they hold in the middle of a tuple. -/

namespace MeshWeave

/-- The index that a lane makes of a value. -/
def Lane.index (l : Lane) (v : Nat) : UInt32 := Index.saturate (v + l.correction)

/-- A channel input, and the place of its channel in the primitive once there is one. -/
structure ChannelInput where
  lane : ChannelLane
  slot : Option Nat
  deriving DecidableEq, Repr, Inhabited

/-- The indices that a lane reads from complete tuples, and from an incomplete one that has reached
    its offset. -/
def Lane.readTo (l : Lane) (ts : List (Array Nat)) (pending : Array Nat) : List UInt32 :=
  (if l.offset < pending.size then ts ++ [pending] else ts).map l.read

/-- The channel with the indices that its lane reads. -/
def ChannelLane.fillTo (c : ChannelLane) (ts : List (Array Nat)) (pending : Array Nat) : Channel :=
  { c.channel with indices := (c.lane.readTo ts pending).toArray }

/-- The channel lanes of one offset in order of declaration. -/
def ChannelLane.atOffset (k : Nat) (cs : List ChannelLane) : List ChannelLane :=
  cs.filter (·.lane.offset == k)

namespace ChannelLane

theorem byOffset_succ (n : Nat) (cs : List ChannelLane) :
    byOffset (n + 1) cs = byOffset n cs ++ atOffset n cs := by
  simp [byOffset, atOffset, List.range_succ]

/-- The channels of fewer offsets come first. -/
theorem byOffset_add (n m : Nat) (cs : List ChannelLane) :
    byOffset (n + m) cs
      = byOffset n cs ++ (List.range' n m).flatMap fun o => atOffset o cs := by
  induction m with
  | zero => simp
  | succ m ih =>
      rw [← Nat.add_assoc, byOffset_succ, ih, List.range'_concat]
      simp

theorem offset_of_mem_atOffset {k : Nat} {c : ChannelLane} {cs : List ChannelLane}
    (h : c ∈ atOffset k cs) : c.lane.offset = k := by
  simpa using (List.mem_filter.mp h).2

end ChannelLane

namespace ChannelInput

/-- The offset of an input. -/
def offset (c : ChannelInput) : Nat := c.lane.lane.offset

/-- Append an index to the channel of an input. The first one makes the channel. -/
def push (c : ChannelInput) (v : Nat) (channels : List Channel) : ChannelInput × List Channel :=
  match c.slot with
  | some i => (c, channels.modify i (·.push (c.lane.lane.index v)))
  | none =>
      ({ c with slot := some channels.length },
        channels ++ [c.lane.channel.push (c.lane.lane.index v)])

/-- Append an index to the channels of all inputs at an offset. -/
def pushAt (k v : Nat) : List ChannelInput → List Channel → List ChannelInput × List Channel
  | [], channels => ([], channels)
  | c :: cs, channels =>
      let pushed := if c.offset = k then c.push v channels else (c, channels)
      let rest := pushAt k v cs pushed.2
      (pushed.1 :: rest.1, rest.2)

/-- The lanes of inputs. -/
def lanes (cs : List ChannelInput) : List ChannelLane := cs.map (·.lane)

/-- The slots of the inputs at an offset. -/
def slotsAt (k : Nat) (cs : List ChannelInput) : List (Option Nat) :=
  (cs.filter (·.offset == k)).map (·.slot)

theorem lanes_cons (c : ChannelInput) (cs : List ChannelInput) :
    lanes (c :: cs) = c.lane :: lanes cs := rfl

theorem atOffset_cons_of_eq {k : Nat} {c : ChannelInput} (h : c.offset = k)
    (cs : List ChannelInput) :
    ChannelLane.atOffset k (lanes (c :: cs)) = c.lane :: ChannelLane.atOffset k (lanes cs) :=
  List.filter_cons_of_pos (by simpa [offset] using h)

theorem atOffset_cons_of_ne {k : Nat} {c : ChannelInput} (h : c.offset ≠ k)
    (cs : List ChannelInput) :
    ChannelLane.atOffset k (lanes (c :: cs)) = ChannelLane.atOffset k (lanes cs) :=
  List.filter_cons_of_neg (by simpa [offset] using h)

theorem slotsAt_cons_of_eq {k : Nat} {c : ChannelInput} (h : c.offset = k)
    (cs : List ChannelInput) :
    slotsAt k (c :: cs) = c.slot :: slotsAt k cs := by
  rw [slotsAt, List.filter_cons_of_pos (by simpa using h)]
  rfl

theorem slotsAt_cons_of_ne {k : Nat} {c : ChannelInput} (h : c.offset ≠ k)
    (cs : List ChannelInput) :
    slotsAt k (c :: cs) = slotsAt k cs := by
  rw [slotsAt, List.filter_cons_of_neg (by simpa using h)]
  rfl

/-- Consecutive slots. -/
def slotsFrom (start n : Nat) : List (Option Nat) := (List.range' start n).map some

theorem slotsFrom_succ (start n : Nat) :
    slotsFrom start (n + 1) = some start :: slotsFrom (start + 1) n := rfl

/-! ## One value -/

theorem modify_append_cons {α : Type} (f : α → α) (xs : List α) (y : α) (ys : List α) :
    (xs ++ y :: ys).modify xs.length f = xs ++ f y :: ys :=
  List.modifyTailIdx_add (List.modifyHead f) 0 xs (y :: ys)

/-- Indices of channels that exist and stand next to each other. -/
theorem pushAt_of_placed (k v : Nat) (content : ChannelLane → Channel) (cs : List ChannelInput)
    (before behind : List Channel)
    (hslots : slotsAt k cs
      = slotsFrom before.length (ChannelLane.atOffset k (lanes cs)).length) :
    pushAt k v cs (before ++ ((ChannelLane.atOffset k (lanes cs)).map content ++ behind))
      = (cs, before ++ ((ChannelLane.atOffset k (lanes cs)).map
          (fun c => (content c).push (c.lane.index v)) ++ behind)) := by
  induction cs generalizing before with
  | nil => rfl
  | cons c cs ih =>
      by_cases hk : c.offset = k
      · rw [slotsAt_cons_of_eq hk, atOffset_cons_of_eq hk, List.length_cons, slotsFrom_succ,
          List.cons.injEq] at hslots
        obtain ⟨hslot, hslots⟩ := hslots
        have hrest := ih (before ++ [(content c.lane).push (c.lane.lane.index v)])
          (by rw [hslots, List.length_append, List.length_singleton])
        rw [atOffset_cons_of_eq hk, pushAt, if_pos hk, push, hslot]
        simp only [List.map_cons, List.cons_append, modify_append_cons]
        simp only [List.append_assoc, List.singleton_append] at hrest
        rw [hrest]
      · rw [slotsAt_cons_of_ne hk, atOffset_cons_of_ne hk] at hslots
        rw [atOffset_cons_of_ne hk, pushAt, if_neg hk]
        simp only [ih before hslots]

/-- The first indices of channels that do not exist yet. -/
theorem pushAt_of_missing (k v : Nat) (cs : List ChannelInput) (before : List Channel)
    (hslots : slotsAt k cs = List.replicate (ChannelLane.atOffset k (lanes cs)).length none) :
    ∃ cs', pushAt k v cs before
        = (cs', before ++ (ChannelLane.atOffset k (lanes cs)).map
            fun c => c.channel.push (c.lane.index v))
      ∧ lanes cs' = lanes cs
      ∧ slotsAt k cs' = slotsFrom before.length (ChannelLane.atOffset k (lanes cs)).length
      ∧ ∀ j, j ≠ k → slotsAt j cs' = slotsAt j cs := by
  induction cs generalizing before with
  | nil => exact ⟨[], by simp [pushAt, lanes, ChannelLane.atOffset], rfl, rfl, fun _ _ => rfl⟩
  | cons c cs ih =>
      by_cases hk : c.offset = k
      · rw [slotsAt_cons_of_eq hk, atOffset_cons_of_eq hk, List.length_cons, List.replicate_succ,
          List.cons.injEq] at hslots
        obtain ⟨hslot, hslots⟩ := hslots
        obtain ⟨cs', hpush, hlanes, hplaced, hother⟩ :=
          ih (before ++ [c.lane.channel.push (c.lane.lane.index v)]) hslots
        let c' : ChannelInput := { c with slot := some before.length }
        have hk' : c'.offset = k := hk
        refine ⟨c' :: cs', ?_, ?_, ?_, ?_⟩
        · rw [atOffset_cons_of_eq hk, pushAt, if_pos hk, push, hslot]
          simp only [hpush]
          simp [c']
        · rw [lanes_cons, lanes_cons, hlanes]
        · rw [slotsAt_cons_of_eq hk', atOffset_cons_of_eq hk, List.length_cons, slotsFrom_succ,
            hplaced, List.length_append, List.length_singleton]
        · intro j hj
          have hne : c.offset ≠ j := fun h => hj (h.symm.trans hk)
          rw [slotsAt_cons_of_ne (c := c') hne, slotsAt_cons_of_ne hne, hother j hj]
      · rw [slotsAt_cons_of_ne hk, atOffset_cons_of_ne hk] at hslots
        obtain ⟨cs', hpush, hlanes, hplaced, hother⟩ := ih before hslots
        refine ⟨c :: cs', ?_, ?_, ?_, ?_⟩
        · rw [atOffset_cons_of_ne hk, pushAt, if_neg hk]
          simp only [hpush]
        · rw [lanes_cons, lanes_cons, hlanes]
        · rw [slotsAt_cons_of_ne hk, atOffset_cons_of_ne hk, hplaced]
        · intro j hj
          by_cases hne : c.offset = j
          · rw [slotsAt_cons_of_eq hne, slotsAt_cons_of_eq hne, hother j hj]
          · rw [slotsAt_cons_of_ne hne, slotsAt_cons_of_ne hne, hother j hj]

end ChannelInput

namespace Lane

variable (l : Lane) (ts : List (Array Nat)) {pending : Array Nat}

theorem readTo_empty : l.readTo ts #[] = ts.map l.read := rfl

/-- A lane in front of the offset that is written is left alone. -/
theorem readTo_push_of_lt (v : Nat) (h : l.offset < pending.size) :
    l.readTo ts (pending.push v) = l.readTo ts pending := by
  have hread : l.read (pending.push v) = l.read pending := by
    simp [read, Array.getD_eq_getD_getElem?, Array.getElem?_push, Nat.ne_of_lt h]
  have hreached : l.offset < (pending.push v).size := by
    rw [Array.size_push]
    omega
  rw [readTo, readTo, if_pos h, if_pos hreached, List.map_append, List.map_append,
    List.map_singleton, List.map_singleton, hread]

/-- So is one behind it. -/
theorem readTo_push_of_gt (v : Nat) (h : pending.size < l.offset) :
    l.readTo ts (pending.push v) = l.readTo ts pending := by
  have hbehind : ¬ l.offset < (pending.push v).size := by
    rw [Array.size_push]
    omega
  rw [readTo, readTo, if_neg hbehind, if_neg (Nat.lt_asymm h)]

/-- A lane at the offset reads an index. -/
theorem readTo_push_of_eq (v : Nat) (h : l.offset = pending.size) :
    l.readTo ts (pending.push v) = l.readTo ts pending ++ [l.index v] := by
  have hread : l.read (pending.push v) = l.index v := by
    simp [read, index, Array.getD_eq_getD_getElem?, h]
  have hreached : l.offset < (pending.push v).size := by
    rw [Array.size_push]
    omega
  rw [readTo, readTo, if_pos hreached, if_neg (Nat.lt_irrefl _ <| h ▸ ·), List.map_append,
    List.map_singleton, hread]

/-- A complete tuple has reached every offset. -/
theorem readTo_of_complete (h : l.offset < pending.size) :
    l.readTo ts pending = l.readTo (ts ++ [pending]) #[] := by
  rw [readTo, if_pos h, readTo_empty]

/-- Taking back what is not complete. -/
theorem take_readTo {n : Nat} (hn : n ≤ ts.length) :
    (l.readTo ts pending).take n = (ts.take n).map l.read := by
  rw [readTo, ← List.map_take]
  split
  · rw [List.take_append_of_le_length hn]
  · rfl

end Lane

namespace ChannelInput

/-- The channels of a kind in the middle of a tuple. Those that were ever reached exist, in the
    order of the layout, and all inputs know their places. -/
structure Spread (ls : List ChannelLane) (reach : Nat) (ts : List (Array Nat)) (pending : Array Nat)
    (cs : List ChannelInput) (channels : List Channel) : Prop where
  lanes_eq : lanes cs = ls
  slots_eq : ∀ k, slotsAt k cs =
    if k < reach then
      slotsFrom (ChannelLane.byOffset k ls).length (ChannelLane.atOffset k ls).length
    else List.replicate (ChannelLane.atOffset k ls).length none
  channels_eq : channels = (ChannelLane.byOffset reach ls).map (·.fillTo ts pending)

namespace Spread

variable {ls : List ChannelLane} {reach : Nat} {ts : List (Array Nat)} {pending : Array Nat}
  {cs : List ChannelInput} {channels : List Channel}

/-- Before the first value there are no channels. -/
theorem start (ls : List ChannelLane) : Spread ls 0 [] #[] (ls.map (⟨·, none⟩)) [] where
  lanes_eq := by
    rw [lanes, List.map_map]
    exact List.map_id _
  slots_eq k := by
    rw [if_neg (Nat.not_lt_zero k), List.eq_replicate_iff]
    constructor
    · simp [slotsAt, ChannelLane.atOffset, List.filter_map, Function.comp_def, offset]
    · intro s hs
      obtain ⟨c, hc, rfl⟩ := List.mem_map.mp hs
      obtain ⟨l, -, rfl⟩ := List.mem_map.mp (List.mem_filter.mp hc).1
      rfl
  channels_eq := rfl

/-- The channels in front of the offset that is written are left alone. -/
theorem map_byOffset_push (ls : List ChannelLane) (ts : List (Array Nat)) (v : Nat) :
    (ChannelLane.byOffset pending.size ls).map (·.fillTo ts (pending.push v))
      = (ChannelLane.byOffset pending.size ls).map (·.fillTo ts pending) := by
  apply List.map_congr_left
  intro c hc
  rw [ChannelLane.fillTo, ChannelLane.fillTo,
    c.lane.readTo_push_of_lt ts v (ChannelLane.offset_lt_of_mem_byOffset hc).1]

theorem map_atOffset_push (ls : List ChannelLane) (ts : List (Array Nat)) (v : Nat) :
    (ChannelLane.atOffset pending.size ls).map (·.fillTo ts (pending.push v))
      = (ChannelLane.atOffset pending.size ls).map
          fun c => (c.fillTo ts pending).push (c.lane.index v) := by
  apply List.map_congr_left
  intro c hc
  rw [ChannelLane.fillTo, ChannelLane.fillTo, Channel.push,
    c.lane.readTo_push_of_eq ts v (ChannelLane.offset_of_mem_atOffset hc), List.push_toArray]

/-- A value for channels that exist. -/
theorem pushAt_of_lt (h : Spread ls reach ts pending cs channels) (hlt : pending.size < reach)
    (v : Nat) :
    Spread ls reach ts (pending.push v) (pushAt pending.size v cs channels).1
      (pushAt pending.size v cs channels).2 := by
  obtain ⟨m, rfl⟩ := Nat.exists_eq_add_of_lt hlt
  have hsplit : ChannelLane.byOffset (pending.size + m + 1) ls
      = ChannelLane.byOffset pending.size ls ++ (ChannelLane.atOffset pending.size ls
        ++ (List.range' (pending.size + 1) m).flatMap fun o => ChannelLane.atOffset o ls) := by
    rw [Nat.add_right_comm, ChannelLane.byOffset_add, ChannelLane.byOffset_succ, List.append_assoc]
  have hbehind : ((List.range' (pending.size + 1) m).flatMap
        fun o => ChannelLane.atOffset o ls).map (·.fillTo ts (pending.push v))
      = ((List.range' (pending.size + 1) m).flatMap
        fun o => ChannelLane.atOffset o ls).map (·.fillTo ts pending) := by
    apply List.map_congr_left
    intro c hc
    obtain ⟨o, ho, hc⟩ := List.mem_flatMap.mp hc
    have hle := (List.mem_range'_1.mp ho).1
    have hgt : pending.size < c.lane.offset := by
      rw [ChannelLane.offset_of_mem_atOffset hc]
      omega
    rw [ChannelLane.fillTo, ChannelLane.fillTo, c.lane.readTo_push_of_gt ts v hgt]
  have hslots := h.slots_eq pending.size
  rw [if_pos hlt, ← h.lanes_eq] at hslots
  have hpush := pushAt_of_placed pending.size v (·.fillTo ts pending) cs
    ((ChannelLane.byOffset pending.size ls).map (·.fillTo ts pending))
    (((List.range' (pending.size + 1) m).flatMap
      fun o => ChannelLane.atOffset o ls).map (·.fillTo ts pending))
    (by rw [hslots, List.length_map, h.lanes_eq])
  rw [h.lanes_eq, ← List.map_append, ← List.map_append, ← hsplit, ← h.channels_eq] at hpush
  rw [hpush]
  refine ⟨h.lanes_eq, h.slots_eq, ?_⟩
  rw [hsplit, List.map_append, List.map_append, map_byOffset_push, map_atOffset_push, hbehind]

/-- The first value for channels at an offset. -/
theorem pushAt_of_eq (h : Spread ls pending.size [] pending cs channels)
    (hblank : ∀ c ∈ ls, c.channel.indices = #[]) (v : Nat) :
    Spread ls (pending.size + 1) [] (pending.push v) (pushAt pending.size v cs channels).1
      (pushAt pending.size v cs channels).2 := by
  have hslots := h.slots_eq pending.size
  rw [if_neg (Nat.lt_irrefl _), ← h.lanes_eq] at hslots
  obtain ⟨cs', hpush, hlanes, hplaced, hother⟩ :=
    pushAt_of_missing pending.size v cs channels hslots
  rw [h.lanes_eq] at hpush hlanes hplaced
  rw [hpush]
  refine ⟨hlanes, ?_, ?_⟩
  · intro k
    by_cases hk : k = pending.size
    · subst hk
      rw [if_pos (Nat.lt_succ_self _), hplaced, h.channels_eq, List.length_map]
    · rw [hother k hk, h.slots_eq k]
      simp only [Nat.lt_succ_iff_lt_or_eq, hk, or_false]
  · have hfirst : (ChannelLane.atOffset pending.size ls).map
          (fun c => c.channel.push (c.lane.index v))
        = (ChannelLane.atOffset pending.size ls).map (·.fillTo [] (pending.push v)) := by
      rw [map_atOffset_push]
      apply List.map_congr_left
      intro c hc
      have hnone : c.fillTo [] pending = c.channel := by
        rw [ChannelLane.fillTo, Lane.readTo, ChannelLane.offset_of_mem_atOffset hc,
          if_neg (Nat.lt_irrefl _), List.map_nil, ← hblank c (List.mem_filter.mp hc).1]
      rw [hnone]
    show channels ++ _ = _
    rw [ChannelLane.byOffset_succ, List.map_append, map_byOffset_push, ← hfirst, h.channels_eq]

/-- A value for all channels at the offset that is written. Channels that do not exist yet are only
    met in the first tuple. -/
theorem pushAt (h : Spread ls reach ts pending cs channels)
    (hblank : ∀ c ∈ ls, c.channel.indices = #[]) (hle : pending.size ≤ reach)
    (hfirst : pending.size = reach → ts = []) (v : Nat) :
    Spread ls (max reach (pending.size + 1)) ts (pending.push v)
      (ChannelInput.pushAt pending.size v cs channels).1
      (ChannelInput.pushAt pending.size v cs channels).2 := by
  rcases Nat.lt_or_eq_of_le hle with hlt | heq
  · rw [Nat.max_eq_left hlt]
    exact h.pushAt_of_lt hlt v
  · obtain rfl := hfirst heq
    subst heq
    rw [Nat.max_eq_right (Nat.le_succ _)]
    exact h.pushAt_of_eq hblank v

/-- At the end of a tuple all channels have got their index. -/
theorem complete (h : Spread ls reach ts pending cs channels) (hsize : reach ≤ pending.size) :
    Spread ls reach (ts ++ [pending]) #[] cs channels := by
  refine ⟨h.lanes_eq, h.slots_eq, ?_⟩
  rw [h.channels_eq]
  apply List.map_congr_left
  intro c hc
  have hlt := (ChannelLane.offset_lt_of_mem_byOffset hc).1
  rw [ChannelLane.fillTo, ChannelLane.fillTo,
    c.lane.readTo_of_complete ts (Nat.lt_of_lt_of_le hlt hsize)]

/-- The lengths of the channels between tuples. -/
theorem sizes_eq (h : Spread ls reach ts #[] cs channels) :
    channels.map (·.indices.size) = (ChannelLane.byOffset reach ls).map fun _ => ts.length := by
  rw [h.channels_eq, List.map_map]
  apply List.map_congr_left
  intro c hc
  simp [ChannelLane.fillTo, Lane.readTo_empty]

/-- Taking back what was read since earlier. Channels that did not exist then stay, because no tuple
    was complete at that time. -/
theorem takeEach (h : Spread ls reach ts pending cs channels) {before n extra : Nat}
    (hbefore : before ≤ reach) (hnew : before < reach → n = 0) (hle : n + extra ≤ ts.length) :
    Spread ls reach (ts.take (n + extra)) #[] cs
      (Channel.takeEach extra channels ((ChannelLane.byOffset before ls).map fun _ => n)) := by
  have htake (c : ChannelLane) :
      (c.fillTo ts pending).take (n + extra) = c.fillTo (ts.take (n + extra)) #[] := by
    have hindices : (c.lane.readTo ts pending).take (n + extra)
        = (ts.take (n + extra)).map c.lane.read := c.lane.take_readTo ts hle
    rw [ChannelLane.fillTo, ChannelLane.fillTo, Channel.take, Lane.readTo_empty, ← hindices,
      List.take_toArray]
  -- Channels with a length in front, and those without behind them.
  have hfront (as bs : List ChannelLane) (hbs : bs ≠ [] → n = 0) :
      Channel.takeEach extra ((as ++ bs).map (·.fillTo ts pending)) (as.map fun _ => n)
        = (as ++ bs).map (·.fillTo (ts.take (n + extra)) #[]) := by
    induction as with
    | nil =>
        induction bs with
        | nil => rfl
        | cons b bs ih =>
            have hn : n = 0 := hbs (by simp)
            have hb := htake b
            rw [hn, Nat.zero_add] at hb
            have hrest := ih fun _ => hn
            simp only [List.nil_append, List.map_nil, List.map_cons, Channel.takeEach] at hrest ⊢
            rw [hrest, hb, hn, Nat.zero_add]
    | cons a as ih =>
        simp only [List.cons_append, List.map_cons, Channel.takeEach, htake, ih]
  obtain ⟨m, rfl⟩ := Nat.exists_eq_add_of_le hbefore
  refine ⟨h.lanes_eq, h.slots_eq, ?_⟩
  rw [h.channels_eq, ChannelLane.byOffset_add]
  apply hfront
  intro hsome
  apply hnew
  rcases Nat.eq_zero_or_pos m with rfl | hpos
  · exact absurd rfl hsome
  · omega

end Spread

end ChannelInput

end MeshWeave
