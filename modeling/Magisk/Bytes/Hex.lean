import Magisk.Bytes.Core

/-!
# Fixed-width hexadecimal fields

A number is written as at least `width` lower-case hexadecimal digits and read
back by accumulating digits from the left.  Reading inverts writing whenever
the number fits the width; a larger number would simply take more digits.
-/

namespace Magisk.Bytes

open List

variable {value digit width acc : Nat} {c : Char} {digits : List Char}

/-- Value of one hexadecimal digit of either case. -/
def hexDigit? (c : Char) : Option Nat :=
  if '0' ≤ c ∧ c ≤ '9' then some (c.toNat - '0'.toNat)
  else if 'a' ≤ c ∧ c ≤ 'f' then some (c.toNat - 'a'.toNat + 10)
  else if 'A' ≤ c ∧ c ≤ 'F' then some (c.toNat - 'A'.toNat + 10)
  else none

/-- Accumulate hexadecimal digits from the left onto `acc`. -/
def readHex : Nat → List Char → Option Nat
  | acc, [] => some acc
  | acc, c :: rest =>
    match hexDigit? c with
    | none => none
    | some digit => readHex (acc * 16 + digit) rest

/-- The digits of `value`, zero-padded on the left to at least `width`. -/
def hexDigits (width value : Nat) : List Char :=
  leftpad width '0' (Nat.toDigits 16 value)

/-- The text written for `value` by a zero-padded hexadecimal format. -/
def hex (width value : Nat) : List UInt8 :=
  utf8 (String.ofList (hexDigits width value))

theorem hexDigit?_digitChar (small : digit < 16) : hexDigit? digit.digitChar = some digit := by
  interval_cases digit <;> rfl

theorem utf8Size_digitChar (small : digit < 16) : digit.digitChar.utf8Size = 1 := by
  interval_cases digit <;> rfl

theorem hexDigit?_lt (isDigit : hexDigit? c = some digit) : digit < 16 := by
  have nine : '9'.toNat = '0'.toNat + 9 := rfl
  have lowerF : 'f'.toNat = 'a'.toNat + 5 := rfl
  have upperF : 'F'.toNat = 'A'.toNat + 5 := rfl
  rw [hexDigit?] at isDigit
  split at isDigit
  · rename_i range
    have high : c.toNat ≤ '9'.toNat := range.2
    cases isDigit
    omega
  · split at isDigit
    · rename_i range
      have high : c.toNat ≤ 'f'.toNat := range.2
      cases isDigit
      omega
    · split at isDigit
      · rename_i range
        have high : c.toNat ≤ 'F'.toNat := range.2
        cases isDigit
        omega
      · cases isDigit

theorem le_of_readHex (read : readHex acc digits = some value) : acc ≤ value := by
  induction digits generalizing acc with
  | nil =>
    cases read
    exact le_rfl
  | cons c rest ih =>
    rw [readHex] at read
    split at read
    · cases read
    · have further := ih read
      omega

/-- What fits a number of digits. -/
theorem lt_of_readHex (read : readHex acc digits = some value) :
    value < (acc + 1) * 16 ^ digits.length := by
  induction digits generalizing acc with
  | nil =>
    cases read
    rw [length_nil, pow_zero, Nat.mul_one]
    exact Nat.lt_succ_self _
  | cons c rest ih =>
    rw [readHex] at read
    split at read
    · cases read
    · rename_i digit isDigit
      have small := hexDigit?_lt isDigit
      calc value < (acc * 16 + digit + 1) * 16 ^ rest.length := ih read
        _ ≤ ((acc + 1) * 16) * 16 ^ rest.length := Nat.mul_le_mul_right _ (by omega)
        _ = (acc + 1) * 16 ^ (c :: rest).length := by
          rw [length_cons, pow_succ', Nat.mul_assoc]

theorem readHex_append (acc : Nat) (left right : List Char) :
    readHex acc (left ++ right) = (readHex acc left).bind (readHex · right) := by
  induction left generalizing acc with
  | nil => rfl
  | cons c left ih =>
    simp only [cons_append, readHex]
    cases hexDigit? c with
    | none => rfl
    | some digit => exact ih _

/-- Leading zeros do not change an accumulator that is still zero. -/
theorem readHex_replicate_zero (count : Nat) (digits : List Char) :
    readHex 0 (replicate count '0' ++ digits) = readHex 0 digits := by
  induction count with
  | zero => rfl
  | succ count ih =>
    exact ih

theorem readHex_toDigits (value : Nat) : readHex 0 (Nat.toDigits 16 value) = some value := by
  induction value using Nat.strong_induction_on with
  | _ value ih =>
    rw [Nat.toDigits_eq_if (by decide)]
    split
    · rename_i small
      simp [readHex, hexDigit?_digitChar small]
    · have quotient := ih (value / 16) (by omega)
      rw [readHex_append, quotient]
      simp only [Option.bind_some, readHex,
        hexDigit?_digitChar (Nat.mod_lt value (by decide : 0 < 16))]
      congr 1
      omega

/-- Reading the padded digits recovers the number. -/
theorem readHex_hexDigits (width value : Nat) : readHex 0 (hexDigits width value) = some value := by
  rw [hexDigits, leftpad, readHex_replicate_zero, readHex_toDigits]

theorem length_hexDigits (positive : 0 < width) (fits : value < 16 ^ width) :
    (hexDigits width value).length = width := by
  have atMost := (Nat.length_toDigits_le_iff (by decide : 1 < 16) positive).mpr fits
  simp only [hexDigits, leftpad, length_append, length_replicate]
  omega

private theorem utf8Size_of_mem_toDigits (value : Nat) (mem : c ∈ Nat.toDigits 16 value) :
    c.utf8Size = 1 := by
  induction value using Nat.strong_induction_on generalizing c with
  | _ value ih =>
    rw [Nat.toDigits_eq_if (by decide)] at mem
    split at mem
    · rename_i small
      rw [mem_singleton.mp mem]
      exact utf8Size_digitChar small
    · rcases mem_append.mp mem with earlier | last
      · exact ih (value / 16) (by omega) earlier
      · rw [mem_singleton.mp last]
        exact utf8Size_digitChar (Nat.mod_lt value (by decide))

theorem utf8Size_of_mem_hexDigits (mem : c ∈ hexDigits width value) : c.utf8Size = 1 := by
  rw [hexDigits, leftpad] at mem
  rcases mem_append.mp mem with zero | digit
  · rw [eq_of_mem_replicate zero]
    rfl
  · exact utf8Size_of_mem_toDigits value digit

/-- One-byte characters contribute one byte each. -/
theorem length_utf8_ofList {chars : List Char} (ascii : ∀ c ∈ chars, c.utf8Size = 1) :
    (utf8 (String.ofList chars)).length = chars.length := by
  have bytes : utf8 (String.ofList chars) = chars.flatMap String.utf8EncodeChar := by
    simp [utf8, utf8Encode]
  rw [bytes]
  induction chars with
  | nil => rfl
  | cons c chars ih =>
    have rest := ih (fun d mem => ascii d (mem_cons_of_mem c mem)) (by simp [utf8, utf8Encode])
    simp [rest, ascii c mem_cons_self, Nat.add_comm]

/-- A fitting number occupies exactly its field. -/
theorem length_hex (positive : 0 < width) (fits : value < 16 ^ width) :
    (hex width value).length = width := by
  rw [hex, length_utf8_ofList (fun _ => utf8Size_of_mem_hexDigits), length_hexDigits positive fits]

@[simp]
theorem fromUtf8_hex (width value : Nat) :
    fromUtf8 (hex width value) = some (String.ofList (hexDigits width value)) :=
  fromUtf8_utf8 _

end Magisk.Bytes
