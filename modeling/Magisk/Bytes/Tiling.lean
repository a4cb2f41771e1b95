import Magisk.Bytes.Window

/-!
# Tilings of a block

A block that is a concatenation of parts is described by a list of tiles, each
with the position and the length of a part.  They form a tiling if each starts
where the ones before it end and the last ends with the block.  The running sums
of the lengths of the parts are such a tiling, and its slices are the parts.
-/

namespace Magisk.Bytes

open List

universe u

variable {α : Type u}

/-- A range of a block. -/
structure Tile where
  offset : Nat
  size : Nat
  deriving DecidableEq, Repr

namespace Tile

variable {start : Nat} {parts : List (List α)} {tile : Tile}

/-- The part of a block that a tile stands for. -/
def slice (block : List α) (tile : Tile) : List α :=
  window block tile.offset tile.size

/-- The tiles of parts that stand one behind the other, from `start` on. -/
def ofParts (start : Nat) : List (List α) → List Tile
  | [] => []
  | part :: parts => ⟨start, part.length⟩ :: ofParts (start + part.length) parts

/-- The offset of every tile is the sum of the sizes before it, and all sizes
add up to `length`. -/
structure Tiling (tiles : List Tile) (length : Nat) : Prop where
  offset : ∀ before tile after, tiles = before ++ tile :: after →
    tile.offset = (before.map size).sum
  total : (tiles.map size).sum = length

theorem map_size_ofParts (start : Nat) (parts : List (List α)) :
    (ofParts start parts).map size = parts.map List.length := by
  induction parts generalizing start with
  | nil => rfl
  | cons part parts ih => rw [ofParts, map_cons, ih, map_cons]

theorem offset_of_ofParts_eq {before after : List Tile}
    (split : ofParts start parts = before ++ tile :: after) :
    tile.offset = start + (before.map size).sum := by
  induction parts generalizing start before with
  | nil => cases before <;> cases split
  | cons part parts ih =>
    cases before with
    | nil =>
      cases split
      rfl
    | cons first before =>
      obtain ⟨rfl, later⟩ := List.cons.inj split
      rw [ih later, map_cons, sum_cons, Nat.add_assoc]

/-- The tiles of parts cover their concatenation. -/
theorem tiling_ofParts (parts : List (List α)) :
    Tiling (ofParts 0 parts) parts.flatten.length where
  offset before tile after split := by
    rw [offset_of_ofParts_eq split, Nat.zero_add]
  total := by
    rw [map_size_ofParts, length_flatten]

/-- The slices of the tiles of parts, behind some front, are the parts. -/
theorem map_slice_ofParts (front : List α) (parts : List (List α)) :
    (ofParts front.length parts).map (slice (front ++ parts.flatten)) = parts := by
  induction parts generalizing front with
  | nil => rfl
  | cons part parts ih =>
    have onward := ih (front ++ part)
    rw [length_append, append_assoc] at onward
    rw [ofParts, map_cons, flatten_cons]
    congr 1
    exact window_append_middle front part parts.flatten

/-- Tiles of parts end inside their concatenation. -/
theorem le_of_mem_ofParts (mem : tile ∈ ofParts start parts) :
    tile.offset + tile.size ≤ start + parts.flatten.length := by
  induction parts generalizing start with
  | nil => cases mem
  | cons part parts ih =>
    rw [flatten_cons, length_append, ← Nat.add_assoc]
    rcases mem_cons.mp mem with rfl | mem
    · exact Nat.le_add_right _ _
    · exact ih mem

end Tile

end Magisk.Bytes
