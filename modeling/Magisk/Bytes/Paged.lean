import Magisk.Bytes.Window

/-!
# Blocks on page boundaries

A file format that stores a sequence of blocks, each of them zero-padded to a
multiple of a page size.  The sizes are stored elsewhere: a reader that knows
the start of the first block and all sizes finds every block by rounding its
position up to the page size after each of them.  `cut_pack` is the round trip
between that reader and the writer that pads as it goes.
-/

namespace Magisk.Bytes

open List

/-- Bytes missing from `size` to the next multiple of `page`. -/
def padding (page size : Nat) : Nat :=
  alignTo size page - size

/-- A block followed by its padding. -/
def padded (page : Nat) (block : List UInt8) : List UInt8 :=
  block ++ zeros (padding page block.length)

/-- A sequence of blocks, each on a page boundary. -/
def pack (page : Nat) (blocks : List (List UInt8)) : List UInt8 :=
  blocks.flatMap (padded page)

/-- Read blocks of the given sizes, each with the bytes up to the next page
boundary, starting at position `start`. -/
def cut (page : Nat) (file : List UInt8) : Nat → List Nat → List (List UInt8 × List UInt8)
  | _, [] => []
  | start, size :: sizes =>
    let stop := alignTo (start + size) page
    (window file start size, window file (start + size) (stop - (start + size))) ::
      cut page file stop sizes

section Padding

variable {page : Nat}

theorem add_padding (positive : 0 < page) (size : Nat) :
    size + padding page size = alignTo size page :=
  Nat.add_sub_cancel' (le_alignTo positive)

/-- Padding only depends on the position within the page. -/
theorem padding_add_of_dvd {start : Nat} (positive : 0 < page) (divides : page ∣ start)
    (size : Nat) : padding page (start + size) = padding page size := by
  rw [padding, padding, alignTo_add_of_dvd positive divides, Nat.add_sub_add_left]

theorem padding_eq_zero_of_dvd {size : Nat} (positive : 0 < page) (divides : page ∣ size) :
    padding page size = 0 := by
  rw [padding, alignTo_eq_self_of_dvd positive divides, Nat.sub_self]

theorem length_padded (positive : 0 < page) (block : List UInt8) :
    (padded page block).length = alignTo block.length page := by
  rw [padded, length_append, length_zeros, add_padding positive]

theorem dvd_length_padded (positive : 0 < page) (block : List UInt8) :
    page ∣ (padded page block).length := by
  rw [length_padded positive]
  exact dvd_alignTo _ _

@[simp]
theorem padded_nil (positive : 0 < page) : padded page [] = [] := by
  rw [padded, length_nil, padding_eq_zero_of_dvd positive (Nat.dvd_zero page)]
  rfl

/-- Padding a file up to the page size after a block pads that block. -/
theorem append_zeros_padding {file : List UInt8} (positive : 0 < page)
    (divides : page ∣ file.length) (block : List UInt8) :
    (file ++ block) ++ zeros (padding page (file ++ block).length) = file ++ padded page block := by
  rw [length_append, padding_add_of_dvd positive divides, padded, append_assoc]

theorem pack_append (blocks others : List (List UInt8)) :
    pack page (blocks ++ others) = pack page blocks ++ pack page others :=
  flatMap_append

theorem pack_cons (block : List UInt8) (blocks : List (List UInt8)) :
    pack page (block :: blocks) = padded page block ++ pack page blocks :=
  flatMap_cons

theorem dvd_length_pack (positive : 0 < page) (blocks : List (List UInt8)) :
    page ∣ (pack page blocks).length := by
  induction blocks with
  | nil => exact Nat.dvd_zero page
  | cons block blocks ih =>
    rw [pack_cons, length_append]
    exact Nat.dvd_add (dvd_length_padded positive block) ih

/-- A block is no longer than what it is packed into. -/
theorem length_le_length_pack {block : List UInt8} {blocks : List (List UInt8)}
    (mem : block ∈ blocks) : block.length ≤ (pack page blocks).length := by
  induction blocks with
  | nil => exact absurd mem not_mem_nil
  | cons first blocks ih =>
    rw [pack_cons, padded, length_append, length_append]
    rcases mem_cons.mp mem with rfl | mem
    · omega
    · have rest := ih mem
      omega

/-- The blocks written on page boundaries behind `head` are read back from
their sizes, and only zeros separate them. -/
theorem cut_pack {head : List UInt8} (positive : 0 < page) (divides : page ∣ head.length)
    (blocks : List (List UInt8)) (rest : List UInt8) :
    cut page (head ++ (pack page blocks ++ rest)) head.length (blocks.map length) =
      blocks.map fun block => (block, zeros (padding page block.length)) := by
  induction blocks generalizing head with
  | nil => rfl
  | cons block blocks ih =>
    have stop : alignTo (head.length + block.length) page = (head ++ padded page block).length := by
      rw [alignTo_add_of_dvd positive divides, length_append, length_padded positive]
    have gap : alignTo (head.length + block.length) page - (head.length + block.length) =
        padding page block.length := by
      rw [alignTo_add_of_dvd positive divides, Nat.add_sub_add_left, padding]
    have here : window (head ++ (pack page (block :: blocks) ++ rest)) head.length
        block.length = block := by
      rw [pack_cons, padded, append_assoc, append_assoc]
      exact window_append_middle _ _ _
    have between : window (head ++ (pack page (block :: blocks) ++ rest))
        (head.length + block.length) (padding page block.length) =
          zeros (padding page block.length) := by
      have regroup : head ++ (pack page (block :: blocks) ++ rest) =
          (head ++ block) ++ (zeros (padding page block.length) ++ (pack page blocks ++ rest)) := by
        simp only [pack_cons, padded, append_assoc]
      have middle := window_append_middle (head ++ block)
        (zeros (padding page block.length)) (pack page blocks ++ rest)
      rwa [← regroup, length_append, length_zeros] at middle
    have onward := ih (stop ▸ dvd_alignTo _ page)
    rw [append_assoc, ← stop] at onward
    rw [map_cons, cut, here, gap, between, map_cons, pack_cons, append_assoc, onward]

end Padding

end Magisk.Bytes
