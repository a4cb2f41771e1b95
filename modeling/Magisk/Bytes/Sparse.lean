import Magisk.Bytes.Window

/-!
# Files written at offsets

A file that is written by seeking and writing.  A write behind the end of the
file leaves a hole, which reads as zero; a write of nothing changes nothing,
wherever it is made.  After a list of writes each position holds what the last
write that covers it has put there, and a zero if there is none.
-/

namespace Magisk.Bytes

open List

variable {file : List UInt8} {position : Nat}

/-! ## One write -/

/-- Seek to `offset` and write `data`. -/
def writeAt (file : List UInt8) (offset : Nat) (data : List UInt8) : List UInt8 :=
  if data = [] then file
  else (file.take offset ++ zeros (offset - file.length)) ++
    (data ++ file.drop (offset + data.length))

/-- A write and where it is made. -/
structure Write where
  offset : Nat
  data : List UInt8
  deriving DecidableEq, Repr

/-- A position that a write reaches. -/
def Write.Covers (write : Write) (position : Nat) : Prop :=
  write.offset ≤ position ∧ position < write.offset + write.data.length

instance (write : Write) (position : Nat) : Decidable (write.Covers position) :=
  inferInstanceAs (Decidable (_ ∧ _))

/-- No position is reached by both writes. -/
def Write.Apart (first second : Write) : Prop :=
  ∀ position, ¬ (first.Covers position ∧ second.Covers position)

instance : Std.Symm Write.Apart where
  symm _ _ apart position covers := apart position covers.symm

theorem length_front (file : List UInt8) (offset : Nat) :
    (file.take offset ++ zeros (offset - file.length)).length = offset := by
  rw [length_append, length_take, length_zeros]
  omega

theorem getD_zeros (count position : Nat) : (zeros count).getD position 0 = 0 := by
  rw [zeros, getD_eq_getElem?_getD, getElem?_replicate]
  split
  · rfl
  · rfl

theorem getD_front (file : List UInt8) {offset : Nat} (before : position < offset) :
    (file.take offset ++ zeros (offset - file.length)).getD position 0 = file.getD position 0 := by
  by_cases inFile : position < file.length
  · have inTake : position < (file.take offset).length := by
      rw [length_take]
      omega
    rw [getD_append _ _ _ _ inTake, getD_eq_getElem?_getD, getD_eq_getElem?_getD,
      getElem?_take_of_lt before]
  · have behind : (file.take offset).length ≤ position := by
      rw [length_take]
      omega
    rw [getD_append_right _ _ _ _ behind, getD_zeros, getD_eq_default _ _ (by omega)]

variable {write : Write} {writes : List Write}

theorem Write.not_covers_of_nil (nothing : write.data = []) (position : Nat) :
    ¬ write.Covers position := by
  rintro ⟨above, below⟩
  rw [nothing, length_nil] at below
  omega

/-- What a position holds after a write. -/
theorem getD_writeAt (file : List UInt8) (write : Write) (position : Nat) :
    (writeAt file write.offset write.data).getD position 0 =
      if write.Covers position then write.data.getD (position - write.offset) 0
      else file.getD position 0 := by
  by_cases nothing : write.data = []
  · rw [writeAt, if_pos nothing, if_neg (write.not_covers_of_nil nothing position)]
  rw [writeAt, if_neg nothing]
  by_cases before : position < write.offset
  · have uncovered : ¬ write.Covers position := fun covers => Nat.not_le_of_lt before covers.1
    rw [if_neg uncovered, getD_append _ _ _ _ (by rwa [length_front]), getD_front file before]
  rw [getD_append_right _ _ _ _ (by rw [length_front]; omega), length_front]
  by_cases inside : position < write.offset + write.data.length
  · have covers : write.Covers position := ⟨by omega, inside⟩
    rw [if_pos covers, getD_append _ _ _ _ (by omega)]
  · have uncovered : ¬ write.Covers position := fun covers => inside covers.2
    rw [if_neg uncovered, getD_append_right _ _ _ _ (by omega), getD_eq_getElem?_getD, getElem?_drop]
    congr 2
    omega

/-- No write makes the file shorter, and a write reaches into the file as far as
it has data. -/
theorem lt_length_writeAt (reached : position < file.length ∨ write.Covers position) :
    position < (writeAt file write.offset write.data).length := by
  by_cases nothing : write.data = []
  · rw [writeAt, if_pos nothing]
    rcases reached with inFile | covers
    · exact inFile
    · exact absurd covers (write.not_covers_of_nil nothing position)
  · rw [writeAt, if_neg nothing, length_append, length_front, length_append, length_drop]
    rcases reached with inFile | ⟨above, below⟩
    · omega
    · omega

/-! ## A list of writes -/

/-- Make the writes in order. -/
def writeAll (file : List UInt8) (writes : List Write) : List UInt8 :=
  writes.foldl (fun file write => writeAt file write.offset write.data) file

@[simp]
theorem writeAll_cons (file : List UInt8) (write : Write) (writes : List Write) :
    writeAll file (write :: writes) = writeAll (writeAt file write.offset write.data) writes :=
  rfl

/-- A position holds what some write that covers it has put there, or is covered
by none and holds what it held before. -/
theorem getD_writeAll_cases (file : List UInt8) (writes : List Write) (position : Nat) :
    (∃ write ∈ writes, write.Covers position ∧ (writeAll file writes).getD position 0 =
          write.data.getD (position - write.offset) 0) ∨
      ((∀ write ∈ writes, ¬ write.Covers position) ∧
        (writeAll file writes).getD position 0 = file.getD position 0) := by
  induction writes generalizing file with
  | nil => exact Or.inr ⟨fun write mem => absurd mem not_mem_nil, rfl⟩
  | cons first rest ih =>
    rcases ih (writeAt file first.offset first.data) with ⟨write, mem, covers, holds⟩ |
      ⟨uncovered, holds⟩
    · exact Or.inl ⟨write, mem_cons_of_mem _ mem, covers, holds⟩
    · rw [getD_writeAt] at holds
      by_cases covers : first.Covers position
      · rw [if_pos covers] at holds
        exact Or.inl ⟨first, mem_cons_self, covers, holds⟩
      · rw [if_neg covers] at holds
        exact Or.inr ⟨forall_mem_cons.mpr ⟨covers, uncovered⟩, holds⟩

/-- The file reaches as far as any of the writes. -/
theorem lt_length_writeAll
    (reached : position < file.length ∨ ∃ write ∈ writes, write.Covers position) :
    position < (writeAll file writes).length := by
  induction writes generalizing file with
  | nil =>
    rcases reached with inFile | ⟨write, mem, covers⟩
    · exact inFile
    · exact absurd mem not_mem_nil
  | cons first rest ih =>
    apply ih
    rcases reached with inFile | ⟨write, mem, covers⟩
    · exact Or.inl (lt_length_writeAt (Or.inl inFile))
    · rcases mem_cons.mp mem with rfl | mem
      · exact Or.inl (lt_length_writeAt (Or.inr covers))
      · exact Or.inr ⟨write, mem, covers⟩

theorem length_writeAt_of_inside (inside : write.offset + write.data.length ≤ file.length) :
    (writeAt file write.offset write.data).length = file.length := by
  rw [writeAt]
  split
  · rfl
  · rw [length_append, length_front, length_append, length_drop]
    omega

/-- Writes inside a file do not change its length. -/
theorem length_writeAll_of_inside
    (inside : ∀ write ∈ writes, write.offset + write.data.length ≤ file.length) :
    (writeAll file writes).length = file.length := by
  induction writes generalizing file with
  | nil => rfl
  | cons first rest ih =>
    rw [forall_mem_cons] at inside
    have kept := length_writeAt_of_inside inside.1
    rw [writeAll_cons, ih (by rw [kept]; exact inside.2), kept]

theorem getD_writeAll_of_uncovered (uncovered : ∀ write ∈ writes, ¬ write.Covers position) :
    (writeAll file writes).getD position 0 = file.getD position 0 := by
  rcases getD_writeAll_cases file writes position with ⟨write, mem, covers, _⟩ | ⟨_, holds⟩
  · exact absurd covers (uncovered write mem)
  · exact holds

/-- Writes that do not meet are all read back. -/
theorem getD_writeAll_of_covers (apart : writes.Pairwise Write.Apart) (mem : write ∈ writes)
    (covers : write.Covers position) :
    (writeAll file writes).getD position 0 = write.data.getD (position - write.offset) 0 := by
  rcases getD_writeAll_cases file writes position with ⟨other, memOther, coversToo, holds⟩ |
    ⟨uncovered, _⟩
  · by_cases same : other = write
    · rw [holds, same]
    · exact absurd ⟨coversToo, covers⟩ (apart.forall memOther mem same position)
  · exact absurd covers (uncovered write mem)

/-- Writes that do not meet are windows of the result. -/
theorem window_writeAll (apart : writes.Pairwise Write.Apart) (mem : write ∈ writes) :
    window (writeAll file writes) write.offset write.data.length = write.data := by
  apply ext_getElem?
  intro index
  rw [window, getElem?_take]
  split
  · rename_i inside
    have covers : write.Covers (write.offset + index) := ⟨by omega, by omega⟩
    have reached : write.offset + index < (writeAll file writes).length :=
      lt_length_writeAll (Or.inr ⟨write, mem, covers⟩)
    have holds : (writeAll file writes).getD (write.offset + index) 0 = _ :=
      getD_writeAll_of_covers apart mem covers
    rw [Nat.add_sub_cancel_left, getD_eq_getElem _ _ reached, getD_eq_getElem _ _ inside] at holds
    rw [getElem?_drop, getElem?_eq_getElem reached, getElem?_eq_getElem inside, holds]
  · rw [getElem?_eq_none (by omega)]

end Magisk.Bytes
