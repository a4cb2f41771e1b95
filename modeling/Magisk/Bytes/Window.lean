import Magisk.Bytes.Core

/-!
# Windows of a buffer

Reading and patching a range of a flat buffer, as a program does through a
pointer into a file it has mapped.  A patch never changes the length: what
would fall behind the end of the buffer is lost.  The lemmas say how windows
and patches pass through concatenation, so that a buffer that is known as a
concatenation of parts can be patched part by part.
-/

namespace Magisk.Bytes

open List

universe u

variable {start count size : Nat} {α : Type u}

/-! ## Reading a range -/

/-- The `count` elements from position `start` on. -/
def window (buffer : List α) (start count : Nat) : List α :=
  (buffer.drop start).take count

variable {buffer left right new : List α}

theorem length_window (inside : start + count ≤ buffer.length) :
    (window buffer start count).length = count := by
  rw [window, length_take, length_drop]
  omega

theorem window_zero (buffer : List α) (count : Nat) : window buffer 0 count = buffer.take count :=
  rfl

@[simp]
theorem window_count_zero (buffer : List α) (start : Nat) : window buffer start 0 = [] := take_zero

/-- A window that ends in the left part does not see the right one. -/
theorem window_append_left (inside : start + count ≤ left.length) :
    window (left ++ right) start count = window left start count := by
  have fits : count ≤ (left.drop start).length := by
    rw [length_drop]
    omega
  rw [window, window, drop_append_of_le_length (by omega), take_append_of_le_length fits]

/-- A window that starts in the right part does not see the left one. -/
theorem window_append_right (behind : left.length ≤ start) :
    window (left ++ right) start count = window right (start - left.length) count := by
  rw [window, window, drop_append, drop_eq_nil_of_le behind, nil_append]

/-- The window over a part of a concatenation is that part. -/
theorem window_append_middle (left middle right : List α) :
    window (left ++ (middle ++ right)) left.length middle.length = middle := by
  rw [window_append_right le_rfl, Nat.sub_self, window_append_left (by omega), window_zero,
    take_length]

/-- Windows side by side are one window. -/
theorem window_append_window (buffer : List α) (start first second : Nat) :
    window buffer start first ++ window buffer (start + first) second =
      window buffer start (first + second) := by
  rw [window, window, window, take_add, drop_drop]

theorem window_take (inside : start + count ≤ size) :
    window (buffer.take size) start count = window buffer start count := by
  rw [window, window, drop_take, take_take, Nat.min_eq_left (by omega)]

theorem window_window {offset : Nat} (inside : offset + count ≤ size) :
    window (window buffer start size) offset count = window buffer (start + offset) count := by
  rw [window, window, drop_take, take_take, drop_drop, Nat.min_eq_left (by omega)]
  rfl

/-! ## Patching a range -/

/-- Overwrite the elements from position `start` on, within the buffer. -/
def poke (buffer : List α) (start : Nat) (new : List α) : List α :=
  (buffer.take start ++ (new ++ buffer.drop (start + new.length))).take buffer.length

@[simp]
theorem length_poke (buffer : List α) (start : Nat) (new : List α) :
    (poke buffer start new).length = buffer.length := by
  simp only [poke, length_take, length_append, length_drop]
  omega

/-- A patch inside the buffer replaces exactly its range. -/
theorem poke_eq_of_le (inside : start + new.length ≤ buffer.length) : poke buffer start new =
      buffer.take start ++ (new ++ buffer.drop (start + new.length)) := by
  apply take_of_length_le
  simp only [length_append, length_take, length_drop]
  omega

theorem poke_append_left (inside : start + new.length ≤ left.length) :
    poke (left ++ right) start new = poke left start new ++ right := by
  have insideAll : start + new.length ≤ (left ++ right).length := by
    rw [length_append]
    omega
  rw [poke_eq_of_le insideAll, poke_eq_of_le inside, take_append_of_le_length (by omega),
    drop_append_of_le_length inside]
  simp only [append_assoc]

theorem poke_append_right (behind : left.length ≤ start) :
    poke (left ++ right) start new = left ++ poke right (start - left.length) new := by
  have shifted : start + new.length - left.length = start - left.length + new.length := by
    omega
  have front : (left ++ right).take start = left ++ right.take (start - left.length) := by
    rw [take_append, take_of_length_le behind]
  have back : (left ++ right).drop (start + new.length) =
      right.drop (start - left.length + new.length) := by
    rw [drop_append, drop_eq_nil_of_le (by omega), nil_append, shifted]
  rw [poke, poke, front, back, append_assoc, length_append, take_length_add_append]

/-- Patching a part of a concatenation replaces that part. -/
theorem poke_append_middle {middle : List α} (startEq : start = left.length)
    (same : new.length = middle.length) :
    poke (left ++ (middle ++ right)) start new = left ++ (new ++ right) := by
  subst startEq
  rw [poke_append_right le_rfl, Nat.sub_self, poke_append_left (by omega), poke_eq_of_le (by omega),
    Nat.zero_add, same, drop_length, append_nil, take_zero, nil_append]

/-- What was patched in is read back. -/
theorem window_poke_self (inside : start + new.length ≤ buffer.length) :
    window (poke buffer start new) start new.length = new := by
  have atStart : (buffer.take start).length = start := length_take_of_le (by omega)
  have middle := window_append_middle (buffer.take start) new (buffer.drop (start + new.length))
  rwa [atStart, ← poke_eq_of_le inside] at middle

/-- A patch is not seen in front of its range. -/
theorem take_poke_of_le (before : size ≤ start) :
    (poke buffer start new).take size = buffer.take size := by
  rw [poke, take_take]
  by_cases inside : size ≤ buffer.length
  · have fits : size ≤ (buffer.take start).length := by
      rw [length_take]
      omega
    rw [Nat.min_eq_left inside, take_append_of_le_length fits, take_take, Nat.min_eq_left before]
  · have whole : buffer.take start = buffer := take_of_length_le (by omega)
    rw [Nat.min_eq_right (by omega), whole, take_append_of_le_length le_rfl,
      take_length, take_of_length_le (by omega)]

/-- A patch is not seen behind its range. -/
theorem drop_poke_of_le (behind : start + new.length ≤ size) :
    (poke buffer start new).drop size = buffer.drop size := by
  by_cases inside : start + new.length ≤ buffer.length
  · have front : (buffer.take start ++ new).length = start + new.length := by
      rw [length_append, length_take]
      omega
    rw [poke_eq_of_le inside, ← append_assoc, drop_append,
      drop_eq_nil_of_le (by omega), nil_append, drop_drop]
    congr 1
    omega
  · rw [drop_eq_nil_of_le (by rw [length_poke]; omega), drop_eq_nil_of_le (by omega)]

/-- Windows apart from the range of a patch keep their contents. -/
theorem window_poke_of_disjoint {other : Nat}
    (apart : other + count ≤ start ∨ start + new.length ≤ other) :
    window (poke buffer start new) other count = window buffer other count := by
  rcases apart with before | behind
  · rw [← window_take (Nat.le_refl (other + count)), take_poke_of_le before,
      window_take (Nat.le_refl (other + count))]
  · rw [window, window, drop_poke_of_le behind]

end Magisk.Bytes
