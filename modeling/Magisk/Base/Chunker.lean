import Mathlib

/-!
# Splitting a stream into chunks of one size

A `Chunker` keeps the bytes of an unfinished chunk.  `addData` consumes at
least one byte of a non-empty input and emits a chunk whenever one is full.
-/

namespace Magisk.Base

open List

/-- The chunk being filled; it is never full between calls. -/
structure Chunker where
  chunkSize : Nat
  /-- The first `pos` bytes of the buffer. -/
  chunk : List UInt8
  room : chunk.length < chunkSize

namespace Chunker

/-- `Chunker::new`. -/
def new (chunkSize : Nat) (positive : 0 < chunkSize) : Chunker :=
  ⟨chunkSize, [], positive⟩

/-- Start a new chunk. -/
def clear (chunker : Chunker) : Chunker :=
  ⟨chunker.chunkSize, [], Nat.zero_lt_of_lt chunker.room⟩

/-- `Chunker::add_data`: the remaining input, the chunk that became full, and the
state afterwards. -/
def addData (chunker : Chunker) (buf : List UInt8) :
    List UInt8 × Option (List UInt8) × Chunker :=
  if 0 < chunker.chunk.length then
    let len := min (chunker.chunkSize - chunker.chunk.length) buf.length
    let chunk := chunker.chunk ++ buf.take len
    if notFull : chunk.length < chunker.chunkSize then
      (buf.drop len, none, ⟨chunker.chunkSize, chunk, notFull⟩)
    else
      (buf.drop len, some chunk, chunker.clear)
  else if small : buf.length < chunker.chunkSize then
    ([], none, ⟨chunker.chunkSize, buf, small⟩)
  else
    (buf.drop chunker.chunkSize, some (buf.take chunker.chunkSize), chunker.clear)

/-- `Chunker::get_available`. -/
def getAvailable (chunker : Chunker) : List UInt8 × Chunker :=
  (chunker.chunk, chunker.clear)

/-- What one call does: nothing is lost or reordered, and an emitted chunk is
full. -/
structure Added (before : Chunker) (buf rest : List UInt8) (emitted : Option (List UInt8))
    (after : Chunker) : Prop where
  content : before.chunk ++ buf = emitted.getD [] ++ (after.chunk ++ rest)
  full : ∀ chunk, emitted = some chunk → chunk.length = before.chunkSize
  sameSize : after.chunkSize = before.chunkSize
  consumed : buf ≠ [] → rest.length < buf.length

theorem added_addData (chunker : Chunker) (buf : List UInt8) :
    Added chunker buf (chunker.addData buf).1 (chunker.addData buf).2.1
      (chunker.addData buf).2.2 := by
  have room := chunker.room
  unfold addData
  split
  · simp only
    have nonemptyLength : buf ≠ [] → 0 < buf.length := length_pos_of_ne_nil
    split
    · refine ⟨?_, ?_, rfl, ?_⟩
      · simp
      · simp
      · intro nonempty
        have := nonemptyLength nonempty
        simp only [length_drop]
        omega
    · rename_i full
      refine ⟨?_, ?_, rfl, ?_⟩
      · simp [clear]
      · rintro chunk ⟨⟩
        simp only [length_append, length_take] at full ⊢
        omega
      · intro nonempty
        have := nonemptyLength nonempty
        simp only [length_drop]
        omega
  · have empty : chunker.chunk = [] := eq_nil_of_length_eq_zero (by omega)
    split
    · refine ⟨?_, ?_, rfl, ?_⟩
      · simp [empty]
      · simp
      · intro nonempty
        exact length_pos_of_ne_nil nonempty
    · refine ⟨?_, ?_, rfl, ?_⟩
      · simp [empty, clear]
      · rintro chunk ⟨⟩
        rw [length_take]
        omega
      · intro nonempty
        rw [length_drop]
        omega

/-- What is fed comes out in full chunks, or is kept. -/
structure Fed (before : Chunker) (input : List UInt8) (chunks : List (List UInt8))
    (after : Chunker) : Prop where
  content : before.chunk ++ input = chunks.flatten ++ after.chunk
  full : ∀ chunk ∈ chunks, chunk.length = before.chunkSize
  sameSize : after.chunkSize = before.chunkSize

theorem Fed.refl (chunker : Chunker) : Fed chunker [] [] chunker :=
  ⟨append_nil _, by simp, rfl⟩

theorem Added.fed {before middle after : Chunker} {buf rest : List UInt8}
    {emitted : Option (List UInt8)} {chunks : List (List UInt8)}
    (added : Added before buf rest emitted middle) (fed : Fed middle rest chunks after) :
    Fed before buf (emitted.toList ++ chunks) after := by
  obtain ⟨content, full, sameSize, _⟩ := added
  refine ⟨?_, ?_, fed.sameSize.trans sameSize⟩
  · rw [content, fed.content]
    cases emitted <;> simp
  · rw [forall_mem_append, ← sameSize]
    exact ⟨fun chunk mem => sameSize ▸ full chunk (Option.mem_toList.mp mem), fed.full⟩

theorem Fed.trans {before middle after : Chunker} {first second : List UInt8}
    {chunks more : List (List UInt8)} (fed : Fed before first chunks middle)
    (then_ : Fed middle second more after) :
    Fed before (first ++ second) (chunks ++ more) after where
  content := by
    rw [← append_assoc, fed.content, append_assoc, then_.content, flatten_append, append_assoc]
  full := by
    rw [forall_mem_append, ← fed.sameSize]
    exact ⟨fed.sameSize ▸ fed.full, then_.full⟩
  sameSize := then_.sameSize.trans fed.sameSize

end Chunker

/-! ## The buffer -/

/-- A chunker in memory; a byte of the buffer that was never written is `none`. -/
structure Buffered where
  chunk : List (Option UInt8)
  chunkSize : Nat
  pos : Nat

namespace Buffered

/-- `Chunker::new`. -/
def new (chunkSize : Nat) : Buffered :=
  ⟨replicate chunkSize none, chunkSize, 0⟩

/-- Copy bytes to the position, and move it; an index may be out of range. -/
def copy (buffered : Buffered) (bytes : List UInt8) : Option Buffered :=
  if buffered.pos + bytes.length ≤ buffered.chunk.length then
    some
      { buffered with
        chunk := buffered.chunk.take buffered.pos ++ bytes.map some ++
          buffered.chunk.drop (buffered.pos + bytes.length)
        pos := buffered.pos + bytes.length }
  else
    none

/-- `Chunker::add_data`. -/
def addData (buffered : Buffered) (buf : List UInt8) :
    Option (List UInt8 × Option (List (Option UInt8)) × Buffered) :=
  if 0 < buffered.pos then
    let len := min (buffered.chunkSize - buffered.pos) buf.length
    (buffered.copy (buf.take len)).map fun filled =>
      if filled.pos = filled.chunkSize then
        (buf.drop len, some (filled.chunk.take filled.chunkSize), { filled with pos := 0 })
      else
        (buf.drop len, none, filled)
  else if buffered.chunkSize ≤ buf.length then
    some (buf.drop buffered.chunkSize, some ((buf.take buffered.chunkSize).map some), buffered)
  else
    (buffered.copy buf).map fun filled => ([], none, filled)

/-- The bytes that `Chunker::get_available` returns. -/
def getAvailable (buffered : Buffered) : List (Option UInt8) :=
  buffered.chunk.take buffered.pos

/-- `while !buf.is_empty()`, at most `fuel` times around: the chunks, and the state
afterwards. -/
def feed : Nat → Buffered → List UInt8 → Option (List (List (Option UInt8)) × Buffered)
  | _, buffered, [] => some ([], buffered)
  | 0, _, _ :: _ => none
  | fuel + 1, buffered, byte :: buf =>
    (buffered.addData (byte :: buf)).bind fun added =>
      (feed fuel added.2.2 added.1).map fun fed => (added.2.1.toList ++ fed.1, fed.2)

/-- Slice after slice. -/
def feedAll : Buffered → List (List UInt8) → Option (List (List (Option UInt8)) × Buffered)
  | buffered, [] => some ([], buffered)
  | buffered, input :: inputs =>
    (feed input.length buffered input).bind fun fed =>
      (feedAll fed.2 inputs).map fun more => (fed.1 ++ more.1, more.2)

/-- The buffer starts with the bytes of a chunk. -/
def Holds (buffered : Buffered) (chunker : Chunker) : Prop :=
  ∃ unused : List (Option UInt8),
    buffered = ⟨chunker.chunk.map some ++ unused, chunker.chunkSize, chunker.chunk.length⟩ ∧
      chunker.chunk.length + unused.length = chunker.chunkSize

theorem copy_eq {held bytes : List UInt8} {unused : List (Option UInt8)} (size : Nat)
    (fits : bytes.length ≤ unused.length) :
    copy ⟨held.map some ++ unused, size, held.length⟩ bytes =
      some ⟨(held ++ bytes).map some ++ unused.drop bytes.length, size, (held ++ bytes).length⟩ := by
  have inRange : held.length + bytes.length ≤ (held.map some ++ unused).length := by
    rw [length_append, length_map]
    exact Nat.add_le_add_left fits _
  rw [copy, if_pos inRange]
  simp [drop_append]

/-- The bytes in memory are those of the chunk. -/
theorem exists_addData_eq {buffered : Buffered} {chunker : Chunker}
    (holds : buffered.Holds chunker) (buf : List UInt8) :
    ∃ after, buffered.addData buf = some ((chunker.addData buf).1,
      (chunker.addData buf).2.1.map (map some), after) ∧ after.Holds (chunker.addData buf).2.2 := by
  obtain ⟨unused, rfl, size⟩ := holds
  have room := chunker.room
  unfold addData Chunker.addData
  by_cases filling : 0 < chunker.chunk.length
  · rw [if_pos filling, if_pos filling]
    dsimp only
    generalize taken : buf.take (min (chunker.chunkSize - chunker.chunk.length) buf.length) = bytes
    have fits : bytes.length ≤ unused.length := by
      rw [← taken, length_take]
      omega
    have total : (chunker.chunk ++ bytes).length + (unused.drop bytes.length).length =
        chunker.chunkSize := by
      rw [length_append, length_drop]
      omega
    rw [copy_eq _ fits, Option.map_some]
    by_cases notFull : (chunker.chunk ++ bytes).length < chunker.chunkSize
    · rw [if_neg notFull.ne, dif_pos notFull]
      exact ⟨_, rfl, _, rfl, total⟩
    · have full : (chunker.chunk ++ bytes).length = chunker.chunkSize := by
        omega
      have used : unused.drop bytes.length = [] := eq_nil_of_length_eq_zero (by omega)
      have whole : ((chunker.chunk ++ bytes).map some).length = chunker.chunkSize := by
        rw [length_map, full]
      rw [if_pos full, dif_neg notFull, used, append_nil, take_of_length_le whole.le]
      exact ⟨_, rfl, _, rfl, (Nat.zero_add _).trans whole⟩
  · have empty : chunker.chunk = [] := eq_nil_of_length_eq_zero (Nat.eq_zero_of_not_pos filling)
    rw [empty] at size
    rw [if_neg filling, if_neg filling]
    by_cases small : buf.length < chunker.chunkSize
    · have unusedAll : unused.length = chunker.chunkSize := (Nat.zero_add _).symm.trans size
      have fits : buf.length ≤ unused.length := small.le.trans_eq unusedAll.symm
      rw [if_neg small.not_ge, dif_pos small, empty, copy_eq _ fits]
      refine ⟨_, rfl, _, rfl, ?_⟩
      change buf.length + (unused.drop buf.length).length = chunker.chunkSize
      rw [length_drop, Nat.add_sub_cancel' fits, unusedAll]
    · rw [if_pos (Nat.le_of_not_lt small), dif_neg small, empty]
      exact ⟨_, rfl, _, rfl, size⟩

theorem exists_feed_eq {buffered : Buffered} {chunker : Chunker} {buf : List UInt8} {fuel : Nat}
    (enough : buf.length ≤ fuel) (holds : buffered.Holds chunker) :
    ∃ chunks after kept, feed fuel buffered buf = some (chunks.map (map some), after) ∧
      after.Holds kept ∧ chunker.Fed buf chunks kept := by
  induction fuel generalizing buffered chunker buf with
  | zero =>
    rw [eq_nil_of_length_eq_zero (Nat.le_zero.mp enough)]
    exact ⟨[], buffered, chunker, rfl, holds, .refl chunker⟩
  | succ fuel ih =>
    cases buf with
    | nil => exact ⟨[], buffered, chunker, rfl, holds, .refl chunker⟩
    | cons byte buf =>
      obtain ⟨filled, added, filledHolds⟩ := exists_addData_eq holds (byte :: buf)
      have facts := chunker.added_addData (byte :: buf)
      have shorter := facts.consumed nofun
      obtain ⟨chunks, after, kept, fed, afterHolds, rest⟩ :=
        ih (Nat.le_of_lt_succ (shorter.trans_le enough)) filledHolds
      refine ⟨(chunker.addData (byte :: buf)).2.1.toList ++ chunks, after, kept, ?_, afterHolds,
        facts.fed rest⟩
      rw [feed, added, Option.bind_some, fed, Option.map_some, map_append]
      cases (chunker.addData (byte :: buf)).2.1 <;> rfl

theorem exists_feedAll_eq {buffered : Buffered} {chunker : Chunker}
    (holds : buffered.Holds chunker) (inputs : List (List UInt8)) :
    ∃ chunks after kept, feedAll buffered inputs = some (chunks.map (map some), after) ∧
      after.Holds kept ∧ chunker.Fed inputs.flatten chunks kept := by
  induction inputs generalizing buffered chunker with
  | nil => exact ⟨[], buffered, chunker, rfl, holds, .refl chunker⟩
  | cons input inputs ih =>
    obtain ⟨chunks, filled, middle, first, filledHolds, fed⟩ := exists_feed_eq le_rfl holds
    obtain ⟨more, after, kept, others, afterHolds, rest⟩ := ih filledHolds
    refine ⟨chunks ++ more, after, kept, ?_, afterHolds, fed.trans rest⟩
    rw [feedAll, first, Option.bind_some, others, map_append]
    rfl

/-- Slices come out in full chunks, what is left is shorter than one, and every byte
returned was written. -/
theorem feedAll_new (chunkSize : Nat) (positive : 0 < chunkSize) (inputs : List (List UInt8)) :
    ∃ (chunks : List (List UInt8)) (remainder : List UInt8) (after : Buffered),
      feedAll (new chunkSize) inputs = some (chunks.map (map some), after) ∧
      after.getAvailable = remainder.map some ∧
      (∀ chunk ∈ chunks, chunk.length = chunkSize) ∧ remainder.length < chunkSize ∧
      chunks.flatten ++ remainder = inputs.flatten := by
  have holds : (new chunkSize).Holds (.new chunkSize positive) :=
    ⟨replicate chunkSize none, rfl, by simp [Chunker.new]⟩
  obtain ⟨chunks, after, kept, fed, ⟨unused, rfl, _⟩, content, full, sameSize⟩ :=
    exists_feedAll_eq holds inputs
  refine ⟨chunks, kept.chunk, _, fed, ?_, full, ?_, content.symm⟩
  · rw [getAvailable, take_left' (length_map some)]
  · exact kept.room.trans_eq sameSize

theorem feedAll_new_two : (feedAll (new 2) [[1], [2, 3]]).isSome = true := by
  obtain ⟨_, _, _, fed, _⟩ := feedAll_new 2 (by decide) [[1], [2, 3]]
  rw [fed]
  rfl

end Buffered

end Magisk.Base
