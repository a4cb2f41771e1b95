import Mathlib

/-!
# Byte strings

Shared vocabulary for programs that read and write flat byte buffers: leftmost
substring search, alignment, and the UTF-8 view of a string.  Everything here
is a plain function on lists, so that positions are list lengths and a reader
and a writer can be compared by rewriting with `List.append`.
-/

namespace Magisk.Bytes

open List

universe u

variable {value unit : Nat} {text : String}

/-! ## Leftmost search -/

variable {α : Type u} [DecidableEq α]

/-- Position of the leftmost occurrence of `needle`, as computed by `memmem`. -/
def find (needle : List α) : List α → Option Nat
  | [] => if needle = [] then some 0 else none
  | x :: rest =>
    if needle <+: x :: rest then some 0 else (find needle rest).map (· + 1)

/-- Padding that avoids the needle's first element is skipped exactly. -/
theorem find_append_of_notMem {first : α} {needle padding rest : List α}
    (absent : first ∉ padding) (found : first :: needle <+: rest) :
    find (first :: needle) (padding ++ rest) = some padding.length := by
  induction padding with
  | nil =>
    cases rest with
    | nil => simp at found
    | cons x rest => simp [find, found]
  | cons x padding ih =>
    have first_ne : first ≠ x := fun equal => absent (by simp [equal])
    have notPrefix : ¬ first :: needle <+: x :: (padding ++ rest) := by
      intro isPrefix
      exact first_ne (cons_prefix_cons.mp isPrefix).1
    rw [cons_append, find, if_neg notPrefix, ih (fun mem => absent (mem_cons_of_mem x mem))]
    rfl

section Find

variable {needle text : List α} {x : Nat}

theorem find_eq_none_iff (nonempty : needle ≠ []) :
    find needle text = none ↔ ∀ y, ¬ needle <+: text.drop y := by
  induction text with
  | nil => simp [find]
  | cons head rest ih =>
    rw [find]
    split
    · rename_i here
      exact iff_of_false nofun fun none => none 0 here
    · rename_i elsewhere
      rw [Option.map_eq_none_iff, ih]
      refine ⟨fun none y => ?_, fun none y => none (y + 1)⟩
      cases y with
      | zero => exact elsewhere
      | succ y => exact none y

theorem find_eq_some (found : find needle text = some x) :
    needle <+: text.drop x ∧ ∀ y < x, ¬ needle <+: text.drop y := by
  induction text generalizing x with
  | nil =>
    unfold find at found
    split at found
    · rename_i empty
      cases found
      exact ⟨by rw [empty]; exact nil_prefix, nofun⟩
    · cases found
  | cons head rest ih =>
    rw [find] at found
    split at found
    · rename_i here
      cases found
      exact ⟨here, nofun⟩
    · rename_i elsewhere
      obtain ⟨x, later, rfl⟩ := Option.map_eq_some_iff.mp found
      obtain ⟨isPrefix, first⟩ := ih later
      refine ⟨isPrefix, fun y less => ?_⟩
      cases y with
      | zero => exact elsewhere
      | succ y => exact first y (Nat.lt_of_succ_lt_succ less)

theorem length_of_find (found : find needle text = some x) : x + needle.length ≤ text.length := by
  obtain ⟨isPrefix, first⟩ := find_eq_some found
  have within := isPrefix.length_le
  rw [length_drop] at within
  by_contra behind
  have empty : needle = [] := eq_nil_of_length_eq_zero (by omega)
  exact first 0 (by omega) (empty ▸ nil_prefix)

end Find

/-! ## Alignment -/

/-- Round `value` up to the next multiple of `unit`. -/
def alignTo (value unit : Nat) : Nat :=
  (value + unit - 1) / unit * unit

theorem le_alignTo (positive : 0 < unit) : value ≤ alignTo value unit := by
  have division := Nat.div_add_mod (value + unit - 1) unit
  have remainder := Nat.mod_lt (value + unit - 1) positive
  rw [Nat.mul_comm] at division
  unfold alignTo
  omega

theorem dvd_alignTo (value unit : Nat) : unit ∣ alignTo value unit := Dvd.intro_left _ rfl

/-- A multiple of the unit is its own alignment. -/
theorem alignTo_eq_self_of_dvd (positive : 0 < unit) (divides : unit ∣ value) :
    alignTo value unit = value := by
  obtain ⟨count, rfl⟩ := divides
  have quotient : (unit * count + unit - 1) / unit = count := by
    rw [Nat.add_sub_assoc positive, Nat.mul_add_div positive,
      Nat.div_eq_of_lt (by omega), Nat.add_zero]
  rw [alignTo, quotient, Nat.mul_comm]

/-- Aligning past a multiple of the unit only aligns the excess. -/
theorem alignTo_add_of_dvd {start : Nat} (positive : 0 < unit) (divides : unit ∣ start) :
    alignTo (start + value) unit = start + alignTo value unit := by
  obtain ⟨count, rfl⟩ := divides
  have regroup : unit * count + value + unit - 1 = unit * count + (value + unit - 1) := by
    omega
  rw [alignTo, alignTo, regroup, Nat.mul_add_div positive, Nat.add_mul, Nat.mul_comm]

/-! ## Zero padding -/

/-- A run of zero bytes. -/
def zeros (count : Nat) : List UInt8 :=
  replicate count 0

@[simp]
theorem length_zeros (count : Nat) : (zeros count).length = count := length_replicate

theorem eq_zero_of_mem_zeros {byte : UInt8} {count : Nat} (mem : byte ∈ zeros count) : byte = 0 :=
  eq_of_mem_replicate mem

/-! ## Strings as bytes -/

/-- The UTF-8 bytes of a string. -/
def utf8 (text : String) : List UInt8 :=
  text.toByteArray.data.toList

/-- Validate bytes as UTF-8. -/
def fromUtf8 (bytes : List UInt8) : Option String :=
  String.fromUTF8? ⟨⟨bytes⟩⟩

@[simp]
theorem fromUtf8_utf8 (text : String) : fromUtf8 (utf8 text) = some text := by
  simp [fromUtf8, utf8, String.fromUTF8?, String.fromUTF8, text.isValidUTF8]

theorem utf8_injective : Function.Injective utf8 := by
  intro first second equal
  have decoded := congrArg fromUtf8 equal
  rw [fromUtf8_utf8, fromUtf8_utf8] at decoded
  exact Option.some.inj decoded

/-- Accepted bytes are the encoding of the string they decode to. -/
theorem utf8_of_fromUtf8_eq_some {bytes : List UInt8} (decoded : fromUtf8 bytes = some text) :
    utf8 text = bytes := by
  unfold fromUtf8 String.fromUTF8? at decoded
  split at decoded
  · cases decoded
    rfl
  · contradiction

theorem utf8_append (left right : String) : utf8 (left ++ right) = utf8 left ++ utf8 right := by
  simp [utf8]

/-- A NUL character shows up as a zero byte. -/
theorem zero_mem_utf8 (mem : Char.ofNat 0 ∈ text.toList) : 0 ∈ utf8 text := by
  obtain ⟨before, after, split⟩ := append_of_mem mem
  have parts : text = String.ofList before ++ "\x00" ++ String.ofList after := by
    apply String.toList_injective
    simp [split]
  have nul : utf8 "\x00" = [0] := by decide
  rw [parts, utf8_append, utf8_append, nul]
  simp

theorem utf8_ofList (chars : List Char) :
    utf8 (String.ofList chars) = chars.flatMap String.utf8EncodeChar := by
  simp [utf8, utf8Encode]

/-- A byte below 128 is a character of its own. -/
theorem mem_of_ascii_mem_utf8 {c : Char} (ascii : c.toNat < 128) {chars : List Char}
    (mem : UInt8.ofNat c.toNat ∈ utf8 (String.ofList chars)) : c ∈ chars := by
  have same : ∀ {value : Nat}, value < 256 → UInt8.ofNat c.toNat = UInt8.ofNat value →
      c.toNat = value := by
    intro value small equal
    have numbers := congrArg UInt8.toNat equal
    rw [UInt8.toNat_ofNat_of_lt' (Nat.lt_trans ascii (by decide)),
      UInt8.toNat_ofNat_of_lt' small] at numbers
    exact numbers
  rw [utf8_ofList, mem_flatMap] at mem
  rcases mem with ⟨other, otherMem, mem⟩
  have code : c.toNat = other.toNat := by
    unfold String.utf8EncodeChar at mem
    change c.toNat = other.val.toNat
    dsimp only at mem
    split at mem
    · exact same (by omega) (mem_singleton.mp mem)
    · split at mem
      · simp only [mem_cons, not_mem_nil, or_false] at mem
        rcases mem with mem | mem <;> have := same (by omega) mem <;> omega
      · split at mem
        · simp only [mem_cons, not_mem_nil, or_false] at mem
          rcases mem with mem | mem | mem <;> have := same (by omega) mem <;> omega
        · simp only [mem_cons, not_mem_nil, or_false] at mem
          rcases mem with mem | mem | mem | mem <;> have := same (by omega) mem <;> omega
  rw [Char.toNat_inj.mp code]
  exact otherMem

end Magisk.Bytes
