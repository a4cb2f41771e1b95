import Mathlib

/-!
# Numbers as bytes

Fixed-width numbers as byte strings, least significant byte first, and the
same read backwards for big-endian fields.
-/

namespace Magisk.Bytes

open List

/-- The `width` low bytes of a number. -/
def leBytes : Nat → Nat → List UInt8
  | 0, _ => []
  | width + 1, value => UInt8.ofNat value :: leBytes width (value / 256)

/-- The number a byte string stands for. -/
def ofLe : List UInt8 → Nat
  | [] => 0
  | byte :: rest => byte.toNat + 256 * ofLe rest

/-- The number a big-endian byte string stands for. -/
def ofBe (bytes : List UInt8) : Nat :=
  ofLe bytes.reverse

/-- The `width` low bytes of a number, most significant byte first. -/
def beBytes (width value : Nat) : List UInt8 :=
  (leBytes width value).reverse

@[simp]
theorem length_leBytes (width value : Nat) : (leBytes width value).length = width := by
  induction width generalizing value with
  | zero => rfl
  | succ width ih => rw [leBytes, length_cons, ih]

@[simp]
theorem length_beBytes (width value : Nat) : (beBytes width value).length = width := by
  rw [beBytes, length_reverse, length_leBytes]

theorem ofLe_leBytes (width value : Nat) : ofLe (leBytes width value) = value % 256 ^ width := by
  induction width generalizing value with
  | zero => rw [leBytes, ofLe, Nat.pow_zero, Nat.mod_one]
  | succ width ih =>
    have split : value % 256 ^ (width + 1) = value % 256 + 256 * (value / 256 % 256 ^ width) := by
      rw [Nat.pow_succ', Nat.mod_mul]
    rw [leBytes, ofLe, ih, UInt8.toNat_ofNat', split]

/-- Only the low bytes of a number are stored. -/
theorem leBytes_mod (width value : Nat) :
    leBytes width (value % 256 ^ width) = leBytes width value := by
  induction width generalizing value with
  | zero => rfl
  | succ width ih =>
    have low : value % 256 ^ (width + 1) % 256 = value % 256 := by
      rw [Nat.pow_succ', Nat.mod_mul_right_mod]
    have high : value % 256 ^ (width + 1) / 256 = value / 256 % 256 ^ width := by
      rw [Nat.pow_succ', Nat.mod_mul_right_div_self]
    have byte : UInt8.ofNat (value % 256 ^ (width + 1)) = UInt8.ofNat value := by
      apply UInt8.toNat_inj.mp
      exact low
    rw [leBytes, leBytes, byte, high, ih]

/-- A number that fits is read back. -/
theorem ofLe_leBytes_of_lt {width value : Nat} (fits : value < 256 ^ width) :
    ofLe (leBytes width value) = value := by
  rw [ofLe_leBytes, Nat.mod_eq_of_lt fits]

/-- Bytes are the bytes of the number they stand for. -/
theorem leBytes_ofLe (bytes : List UInt8) : leBytes bytes.length (ofLe bytes) = bytes := by
  induction bytes with
  | nil => rfl
  | cons byte rest ih =>
    have bound := byte.toNat_lt
    have low : UInt8.ofNat (byte.toNat + 256 * ofLe rest) = byte := by
      apply UInt8.toNat_inj.mp
      rw [UInt8.toNat_ofNat']
      omega
    have high : (byte.toNat + 256 * ofLe rest) / 256 = ofLe rest := by
      omega
    rw [ofLe, length_cons, leBytes, low, high, ih]

theorem ofBe_beBytes_of_lt {width value : Nat} (fits : value < 256 ^ width) :
    ofBe (beBytes width value) = value := by
  rw [ofBe, beBytes, reverse_reverse, ofLe_leBytes_of_lt fits]

theorem ofLe_lt (bytes : List UInt8) : ofLe bytes < 256 ^ bytes.length := by
  induction bytes with
  | nil => exact Nat.one_pos
  | cons byte rest ih =>
    have bound := byte.toNat_lt
    rw [ofLe, length_cons]
    omega

end Magisk.Bytes
