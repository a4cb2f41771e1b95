import Magisk.Bytes.Core
import Magisk.Bytes.Endian

/-!
# UTF-16

Strings of a language whose characters are 16-bit units.  A pair of surrogates
stands for one code point; a surrogate outside a pair is malformed, and both
directions of the `UTF-16LE` charset replace it.
-/

namespace Magisk.Bytes.Utf16

open List

/-- The first unit of a surrogate pair. -/
def isHigh (unit : UInt16) : Bool :=
  0xD800 ≤ unit && unit < 0xDC00

/-- The second unit of a surrogate pair. -/
def isLow (unit : UInt16) : Bool :=
  0xDC00 ≤ unit && unit < 0xE000

/-- The unit an unpaired surrogate is replaced with. -/
def replaced (unit : UInt16) : UInt16 :=
  if isHigh unit || isLow unit then 0xFFFD else unit

/-- Replace the surrogates that are not in a pair. -/
def scrub : List UInt16 → List UInt16
  | [] => []
  | [unit] => [replaced unit]
  | first :: second :: rest =>
    if isHigh first && isLow second then
      first :: second :: scrub rest
    else
      replaced first :: scrub (second :: rest)

/-- Every surrogate is in a pair. -/
def Valid : List UInt16 → Prop
  | [] => True
  | [unit] => isHigh unit = false ∧ isLow unit = false
  | first :: second :: rest =>
    if isHigh first then
      isLow second = true ∧ Valid rest
    else
      isLow first = false ∧ Valid (second :: rest)

/-- Valid text is kept. -/
theorem scrub_of_valid {units : List UInt16} (valid : Valid units) : scrub units = units := by
  fun_induction scrub units with
  | case1 => rfl
  | case2 unit =>
    rw [replaced, valid.1, valid.2]
    rfl
  | case3 first second rest paired ih =>
    rw [Bool.and_eq_true] at paired
    rw [Valid, if_pos paired.1] at valid
    rw [ih valid.2]
  | case4 first second rest unpaired ih =>
    rw [Valid] at valid
    split at valid
    · rename_i high
      rw [high, valid.1] at unpaired
      exact absurd rfl unpaired
    · rename_i notHigh
      rw [Bool.not_eq_true] at notHigh
      rw [ih valid.2, replaced, notHigh, valid.1]
      rfl

/-! ## Little-endian units -/

/-- Units as bytes. -/
def bytesOf (units : List UInt16) : List UInt8 :=
  units.flatMap fun unit => leBytes 2 unit.toNat

/-- Bytes as units. -/
def unitsOf : List UInt8 → List UInt16
  | low :: high :: rest => UInt16.ofNat (ofLe [low, high]) :: unitsOf rest
  | _ => []

@[simp]
theorem length_bytesOf (units : List UInt16) : (bytesOf units).length = 2 * units.length := by
  induction units with
  | nil => rfl
  | cons unit units ih =>
    rw [bytesOf, flatMap_cons, length_append, length_leBytes, length_cons]
    rw [bytesOf] at ih
    omega

theorem unitsOf_append (unit : UInt16) (rest : List UInt8) :
    unitsOf (leBytes 2 unit.toNat ++ rest) = unit :: unitsOf rest := by
  have fits : unit.toNat < 256 ^ 2 := unit.toNat_lt
  have readBack := ofLe_leBytes_of_lt fits
  rw [leBytes, leBytes, leBytes] at readBack ⊢
  rw [cons_append, cons_append, nil_append, unitsOf, readBack, UInt16.ofNat_toNat]

@[simp]
theorem unitsOf_bytesOf (units : List UInt16) : unitsOf (bytesOf units) = units := by
  induction units with
  | nil => rfl
  | cons unit units ih =>
    rw [bytesOf, flatMap_cons, unitsOf_append]
    exact congrArg (unit :: ·) ih

/-- `String(bytes, UTF_16LE)`, for an even number of bytes. -/
def decode (bytes : List UInt8) : List UInt16 :=
  scrub (unitsOf bytes)

/-- `toByteArray(UTF_16LE)`. -/
def encode (text : List UInt16) : List UInt8 :=
  bytesOf (scrub text)

theorem decode_bytesOf {text : List UInt16} (valid : Valid text) :
    decode (bytesOf text) = text := by
  rw [decode, unitsOf_bytesOf, scrub_of_valid valid]

theorem encode_of_valid {text : List UInt16} (valid : Valid text) : encode text = bytesOf text := by
  rw [encode, scrub_of_valid valid]

end Magisk.Bytes.Utf16
