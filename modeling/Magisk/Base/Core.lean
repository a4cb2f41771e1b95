import Magisk.Bytes.Core

/-!
# Results, slices and C strings of the base crate

Rust code returns `LoggedResult`; an out-of-range slice index does not return
at all but aborts the process.  Both are failures here, kept apart so that a
statement can say which one happens.
-/

namespace Magisk.Base

open List Bytes

/-- Why a computation did not produce a value. -/
inductive Fault where
  /-- An error carrying the logged message. -/
  | logged (message : String)
  /-- A `StrErr`: missing or interior NUL, or invalid UTF-8. -/
  | strErr
  /-- A slice index outside its buffer: the process aborts. -/
  | outOfRange
  deriving DecidableEq, Repr

/-- A computation that may fail. -/
abbrev LoggedResult := Except Fault

/-- The slice `data[first..last]`. -/
def slice (data : List UInt8) (first last : Nat) : LoggedResult (List UInt8) :=
  if first ≤ last ∧ last ≤ data.length then
    .ok ((data.drop first).take (last - first))
  else
    .error .outOfRange

/-- The slice `data[first..]`. -/
def sliceFrom (data : List UInt8) (first : Nat) : LoggedResult (List UInt8) :=
  if first ≤ data.length then .ok (data.drop first) else .error .outOfRange

/-- Slicing out the middle part of a concatenation. -/
theorem slice_append (before middle after : List UInt8) {first last : Nat}
    (firstEq : first = before.length) (lastEq : last = before.length + middle.length) :
    slice (before ++ (middle ++ after)) first last = .ok middle := by
  subst firstEq lastEq
  have inRange : before.length ≤ before.length + middle.length ∧
      before.length + middle.length ≤ (before ++ (middle ++ after)).length := by
    simp only [length_append]
    omega
  rw [slice, if_pos inRange, drop_left, Nat.add_sub_cancel_left, take_left]

theorem sliceFrom_append (before after : List UInt8) {first : Nat}
    (firstEq : first = before.length) :
    sliceFrom (before ++ after) first = .ok after := by
  subst firstEq
  rw [sliceFrom, if_pos (by simp), drop_left]

namespace Utf8CStr

/-- `Utf8CStr::from_bytes`: exactly one NUL, at the end, and valid UTF-8 before
it. -/
def fromBytes (bytes : List UInt8) : LoggedResult String :=
  if bytes.getLast? = some 0 ∧ 0 ∉ bytes.dropLast then
    match fromUtf8 bytes.dropLast with
    | some text => .ok text
    | none => .error .strErr
  else
    .error .strErr

/-- A NUL-terminated name without interior NUL reads back as itself. -/
theorem fromBytes_utf8_append_nul {text : String} (noNul : 0 ∉ utf8 text) :
    fromBytes (utf8 text ++ [0]) = .ok text := by
  simp [fromBytes, noNul]

end Utf8CStr

end Magisk.Base
