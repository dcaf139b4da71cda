import MeshWeave.Primitive.Lengths

set_option autoImplicit false

/-! # Taking appended indices back

Lengths are matched to channels by place, and new channels stand behind the others. So lengths still
belong to the channels that they were taken of, whatever was appended since, and a channel without a
length is new. All that it has was appended since, so it counts as having had nothing.

Every array is what it was when the lengths were taken, with what was appended to it behind that,
in whatever order the arrays had their turns. Going back to the lengths takes all of that away.
Keeping a number of indices past them keeps the first ones of each array.

A place to cut at is the sum of a length and a number of indices. In words of 64 bits such a sum can
wrap, but not one of numbers of indices that arrays have: an index takes four bytes of memory. So
all of this is so for words too. -/

namespace MeshWeave

/-- Of the indices that were appended to an array the first ones are kept. -/
theorem take_append_toArray (old : Array UInt32) (is : List UInt32) (n : Nat) :
    (old ++ is.toArray).take (old.size + n) = old ++ (is.take n).toArray := by
  apply Array.toList_inj.mp
  have hold : old.toList.take (old.size + n) = old.toList := List.take_of_length_le (by simp)
  simp [hold]

namespace Channel

/-- All that describes the channel. -/
def withoutIndices (c : Channel) : Channel := { c with indices := #[] }

/-- Each channel is cut by the length at its place. -/
theorem takeEach_eq_mapIdx (extra : Nat) (cs : List Channel) (ns : List Nat) :
    takeEach extra cs ns = cs.mapIdx fun place c => c.take (ns.getD place 0 + extra) := by
  induction cs generalizing ns with
  | nil => rfl
  | cons c cs ih =>
      cases ns with
      | nil => simp [takeEach, ih, List.mapIdx_cons]
      | cons n ns => simp [takeEach, ih, List.mapIdx_cons]

theorem withoutIndices_takeEach (extra : Nat) (cs : List Channel) (ns : List Nat) :
    (takeEach extra cs ns).map withoutIndices = cs.map withoutIndices := by
  induction cs generalizing ns with
  | nil => rfl
  | cons c cs ih =>
      cases ns with
      | nil =>
          rw [takeEach, List.map_cons, List.map_cons, ih]
          rfl
      | cons n ns =>
          rw [takeEach, List.map_cons, List.map_cons, ih]
          rfl

end Channel

/-! ## Appending to channels -/

/-- An append to the channels of a kind. -/
inductive ChannelAppend where
  /-- A channel behind the others, with the indices that it already has. -/
  | channel (c : Channel)
  /-- Indices for the channel at a place, if there is one. -/
  | indices (place : Nat) (is : List UInt32)

namespace ChannelAppend

/-- The channels after an append. -/
def perform (cs : List Channel) : ChannelAppend → List Channel
  | channel c => cs ++ [c]
  | indices place is => cs.modify place (·.append is.toArray)

/-- The new channel, without its indices. -/
def added : ChannelAppend → List Channel
  | channel c => [c.withoutIndices]
  | indices _ _ => []

/-- The indices for the channel at a place, where there are `count` channels before the append.
    Those that a new channel already has are appended with it. -/
def indicesFor (place count : Nat) : ChannelAppend → List UInt32
  | channel c => if place = count then c.indices.toList else []
  | indices k is => if place = k ∧ place < count then is else []

/-- The indices for the channel at a place, from one append after the other. -/
def received (place : Nat) : Nat → List ChannelAppend → List UInt32
  | _, [] => []
  | count, a :: as => a.indicesFor place count ++ received place (count + a.added.length) as

theorem length_perform (cs : List Channel) (a : ChannelAppend) :
    (a.perform cs).length = cs.length + a.added.length := by
  cases a <;> simp [perform, added]

/-- At each place an append is the same as a new channel without indices, and then the indices for
    that place. -/
theorem getElem?_perform (cs news : List Channel) (a : ChannelAppend) (place : Nat)
    (is : List UInt32) :
    (a.perform cs ++ news)[place]?.map (·.append is.toArray)
      = (cs ++ (a.added ++ news))[place]?.map
          (·.append (a.indicesFor place cs.length ++ is).toArray) := by
  cases a with
  | channel c =>
      simp only [perform, added, indicesFor, List.append_assoc]
      rcases Nat.lt_trichotomy place cs.length with hlt | rfl | hgt
      · simp only [List.getElem?_append_left hlt, if_neg (Nat.ne_of_lt hlt), List.nil_append]
      · simp [Channel.append, Channel.withoutIndices]
      · obtain ⟨d, rfl⟩ := Nat.exists_eq_add_of_lt hgt
        simp [Nat.add_assoc, List.getElem?_append_right]
  | indices k js =>
      simp only [perform, added, indicesFor, List.nil_append]
      by_cases hlt : place < cs.length
      · rw [List.getElem?_append_left (by rwa [List.length_modify]), List.getElem?_append_left hlt,
          List.getElem?_modify]
        by_cases hk : place = k
        · subst hk
          simp [hlt, Channel.append]
        · simp [hk, Ne.symm hk]
      · have hge : cs.length ≤ place := Nat.le_of_not_lt hlt
        rw [List.getElem?_append_right (by rwa [List.length_modify]),
          List.getElem?_append_right hge, List.length_modify, if_neg fun h => hlt h.2,
          List.nil_append]

/-- After appends the channels are those of earlier and the new ones, each with what it received. -/
theorem foldl_perform (cs : List Channel) (as : List ChannelAppend) :
    as.foldl perform cs
      = (cs ++ as.flatMap added).mapIdx fun place c =>
          c.append (received place cs.length as).toArray := by
  rw [eq_comm, List.mapIdx_eq_iff]
  intro place
  induction as generalizing cs with
  | nil => simp [received, Channel.append]
  | cons a as ih =>
      rw [List.foldl_cons, ih, length_perform, getElem?_perform, List.flatMap_cons, received]

theorem indices_of_mem_added {as : List ChannelAppend} {c : Channel}
    (h : c ∈ as.flatMap added) : c.indices = #[] := by
  obtain ⟨a, -, hc⟩ := List.mem_flatMap.mp h
  cases a with
  | channel d =>
      obtain rfl := List.mem_singleton.mp hc
      rfl
  | indices k is => exact absurd hc List.not_mem_nil

/-- The channels of earlier and the new ones, with the first indices that each one received. -/
def firstReceived (n : Nat) (cs : List Channel) (as : List ChannelAppend) : List Channel :=
  (cs ++ as.flatMap added).mapIdx fun place c =>
    c.append ((received place cs.length as).take n).toArray

theorem takeEach_foldl_perform (n : Nat) (cs : List Channel) (as : List ChannelAppend) :
    Channel.takeEach n (as.foldl perform cs) (cs.map (·.indices.size)) = firstReceived n cs as := by
  rw [Channel.takeEach_eq_mapIdx, foldl_perform, List.mapIdx_mapIdx, firstReceived,
    List.mapIdx_eq_mapIdx_iff]
  intro place hplace
  -- The length of a channel is its own, or it is new, and then there is none.
  have hlength : (cs.map (·.indices.size)).getD place 0
      = (cs ++ as.flatMap added)[place].indices.size := by
    rw [List.getD_eq_getElem?_getD, List.getElem?_map]
    by_cases hlt : place < cs.length
    · simp [hlt]
    · have hge : cs.length ≤ place := Nat.le_of_not_lt hlt
      rw [List.getElem?_eq_none hge, List.getElem_append_right hge,
        indices_of_mem_added (List.getElem_mem _)]
      rfl
  rw [Function.comp_apply, hlength, Channel.take, Channel.append, Channel.append,
    take_append_toArray]

theorem firstReceived_zero (cs : List Channel) (as : List ChannelAppend) :
    firstReceived 0 cs as = cs ++ as.flatMap added := by
  rw [firstReceived, List.mapIdx_eq_iff]
  intro place
  simp [Channel.append]

end ChannelAppend

/-! ## Appending to primitives -/

/-- An append to the index arrays of a primitive. -/
inductive Append where
  | positions (is : List UInt32)
  | normals (is : List UInt32)
  | texCoords (a : ChannelAppend)
  | colors (a : ChannelAppend)

namespace Append

/-- The primitive after an append. -/
def perform (p : Primitive) : Append → Primitive
  | positions is => { p with positions := p.positions ++ is.toArray }
  | normals is => { p with normals := p.normals ++ is.toArray }
  | texCoords a => { p with texCoords := a.perform p.texCoords }
  | colors a => { p with colors := a.perform p.colors }

/-! What an append has for each of the arrays. -/

def forPositions : Append → List UInt32
  | positions is => is
  | _ => []

def forNormals : Append → List UInt32
  | normals is => is
  | _ => []

def forTexCoords : Append → List ChannelAppend
  | texCoords a => [a]
  | _ => []

def forColors : Append → List ChannelAppend
  | colors a => [a]
  | _ => []

/-- Appends to one array have nothing to do with the others. -/
theorem foldl_perform (p : Primitive) (as : List Append) :
    as.foldl perform p
      = { p with
          positions := p.positions ++ (as.flatMap forPositions).toArray
          normals := p.normals ++ (as.flatMap forNormals).toArray
          texCoords := (as.flatMap forTexCoords).foldl ChannelAppend.perform p.texCoords
          colors := (as.flatMap forColors).foldl ChannelAppend.perform p.colors } := by
  induction as generalizing p with
  | nil => simp
  | cons a as ih =>
      rw [List.foldl_cons, ih]
      cases a <;> simp [perform, forPositions, forNormals, forTexCoords, forColors]

end Append

namespace Primitive

/-- The primitive after appends one after the other. -/
def appendAll (p : Primitive) (as : List Append) : Primitive := as.foldl Append.perform p

/-- The primitive with the new channels, and with the first indices for each array and channel. -/
def appendFirst (n : Nat) (p : Primitive) (as : List Append) : Primitive :=
  { p with
    positions := p.positions ++ ((as.flatMap (·.forPositions)).take n).toArray
    normals := p.normals ++ ((as.flatMap (·.forNormals)).take n).toArray
    texCoords := ChannelAppend.firstReceived n p.texCoords (as.flatMap (·.forTexCoords))
    colors := ChannelAppend.firstReceived n p.colors (as.flatMap (·.forColors)) }

/-- The primitive with each array cut to its own length, and channels without one to nothing. -/
def cutTo (p : Primitive) (l : Lengths) : Primitive :=
  { p with
    positions := p.positions.take l.positions
    normals := p.normals.take l.normals
    texCoords := p.texCoords.mapIdx fun place c => c.take (l.texCoords.getD place 0)
    colors := p.colors.mapIdx fun place c => c.take (l.colors.getD place 0) }

/-- All of the primitive but its indices. -/
def withoutIndices (p : Primitive) : Primitive :=
  { p with
    positions := #[]
    normals := #[]
    texCoords := p.texCoords.map (·.withoutIndices)
    colors := p.colors.map (·.withoutIndices) }

theorem takeAfter_appendAll (n : Nat) (p : Primitive) (as : List Append) :
    (p.appendAll as).takeAfter p.lengths n = p.appendFirst n as := by
  rw [appendAll, Append.foldl_perform]
  simp only [takeAfter, lengths, appendFirst, ChannelAppend.takeEach_foldl_perform,
    take_append_toArray]

theorem restore_appendAll (p : Primitive) (as : List Append) :
    (p.appendAll as).restore p.lengths
      = { p with
          texCoords := p.texCoords ++ (as.flatMap (·.forTexCoords)).flatMap (·.added)
          colors := p.colors ++ (as.flatMap (·.forColors)).flatMap (·.added) } := by
  rw [restore, takeAfter_appendAll]
  simp [appendFirst, ChannelAppend.firstReceived_zero]

theorem takeAfter_zero (p : Primitive) (start : Lengths) : p.takeAfter start 0 = p.cutTo start := by
  simp [takeAfter, cutTo, Channel.takeEach_eq_mapIdx]

theorem withoutIndices_takeAfter (n : Nat) (p : Primitive) (start : Lengths) :
    (p.takeAfter start n).withoutIndices = p.withoutIndices := by
  simp only [withoutIndices, takeAfter, Channel.withoutIndices_takeEach]

/-- **Saved lengths undo appends**, to any arrays and channels and in any order. Going back to them
    gives each array and channel back, and leaves new channels without indices; keeping a number of
    indices keeps the first ones for each. For any lengths going back is keeping none, and only
    indices are changed. -/
theorem lengths_undo_appends (p : Primitive) (as : List Append) :
    ((p.appendAll as).restore p.lengths
        = { p with
            texCoords := p.texCoords ++ (as.flatMap (·.forTexCoords)).flatMap (·.added)
            colors := p.colors ++ (as.flatMap (·.forColors)).flatMap (·.added) })
      ∧ (∀ n, (p.appendAll as).takeAfter p.lengths n = p.appendFirst n as)
      ∧ ∀ (q : Primitive) (start : Lengths),
          q.restore start = q.takeAfter start 0 ∧ q.restore start = q.cutTo start
            ∧ (q.restore start).withoutIndices = q.withoutIndices
            ∧ ∀ n, (q.takeAfter start n).withoutIndices = q.withoutIndices := by
  refine ⟨p.restore_appendAll as, fun n => p.takeAfter_appendAll n as, ?_⟩
  intro q start
  have hzero : q.takeAfter start 0 = q.cutTo start := q.takeAfter_zero start
  have hrestore : q.restore start = q.cutTo start := hzero
  exact ⟨hrestore.trans hzero.symm, hrestore, q.withoutIndices_takeAfter 0 start,
    fun n => q.withoutIndices_takeAfter n start⟩

/-- What a new channel already has counts as appended. -/
example :
    (((empty .strips).appendAll
        [.colors (.channel ⟨"paint", 0, 3, 0, #[1, 2]⟩), .colors (.indices 0 [4, 5])]).takeAfter
      (empty .strips).lengths 3).colors = [⟨"paint", 0, 3, 0, #[1, 2, 4]⟩] := by
  decide

end Primitive

/-! ## Sums of words -/

/-- All lengths are below a limit. -/
structure Lengths.Below (l : Lengths) (limit : Nat) : Prop where
  positions : l.positions < limit
  normals : l.normals < limit
  texCoords : ∀ n ∈ l.texCoords, n < limit
  colors : ∀ n ∈ l.colors, n < limit

namespace Primitive

/-- No array has as many indices: each takes four bytes, and addresses are words. -/
def indexLimit : Nat := 0x4000000000000000

/-- A length and a number of indices, added as words. -/
def wordSum (length : Nat) (count : UInt64) : Nat := (UInt64.ofNat length + count).toNat

/-- Keep a number of indices past the earlier lengths, where the places to cut at are words. -/
def takeAfterWord (p : Primitive) (start : Lengths) (count : UInt64) : Primitive :=
  { p with
    positions := p.positions.take (wordSum start.positions count)
    normals := p.normals.take (wordSum start.normals count)
    texCoords := p.texCoords.mapIdx fun place c =>
      c.take (wordSum (start.texCoords.getD place 0) count)
    colors := p.colors.mapIdx fun place c => c.take (wordSum (start.colors.getD place 0) count) }

theorem wordSum_eq {length : Nat} {count : UInt64} (h : length + count.toNat < UInt64.size) :
    wordSum length count = length + count.toNat := by
  have hlength : length < UInt64.size := by omega
  rw [wordSum, UInt64.toNat_add, UInt64.toNat_ofNat_of_lt' hlength]
  exact Nat.mod_eq_of_lt h

/-- A channel without a length is cut at the number of indices, which is a word by itself. -/
theorem wordSum_getD {ns : List Nat} {count : UInt64}
    (h : ∀ n ∈ ns, n + count.toNat < UInt64.size) (place : Nat) :
    wordSum (ns.getD place 0) count = ns.getD place 0 + count.toNat := by
  apply wordSum_eq
  rw [List.getD_eq_getElem?_getD]
  cases hn : ns[place]? with
  | none =>
      rw [Option.getD_none, Nat.zero_add]
      exact count.toNat_lt_size
  | some n => exact h n (List.mem_of_getElem? hn)

/-- Words do as well as numbers of any size, if all sums are words. -/
theorem takeAfterWord_eq (p : Primitive) {start : Lengths} {count : UInt64} {limit : Nat}
    (hstart : start.Below limit) (hlimit : limit + count.toNat ≤ UInt64.size) :
    p.takeAfterWord start count = p.takeAfter start count.toNat := by
  have hfits (n : Nat) (hn : n < limit) : n + count.toNat < UInt64.size := by omega
  have htexCoords := wordSum_getD fun n hn => hfits n (hstart.texCoords n hn)
  have hcolors := wordSum_getD fun n hn => hfits n (hstart.colors n hn)
  simp only [takeAfterWord, takeAfter, Channel.takeEach_eq_mapIdx, htexCoords, hcolors,
    wordSum_eq (hfits _ hstart.positions), wordSum_eq (hfits _ hstart.normals)]

/-- Saved lengths undo appends with sums of words as well, of numbers that arrays can have. -/
theorem takeAfterWord_appendAll (p : Primitive) (as : List Append) {count : UInt64}
    (hp : p.lengths.Below indexLimit) (hcount : count.toNat < indexLimit) :
    (p.appendAll as).takeAfterWord p.lengths count = p.appendFirst count.toNat as := by
  have hlimit : indexLimit + count.toNat ≤ UInt64.size := by
    unfold indexLimit at hcount ⊢
    unfold UInt64.size
    omega
  rw [takeAfterWord_eq _ hp hlimit, takeAfter_appendAll]

end Primitive

end MeshWeave
