import Mathlib

/-!
# Decoders of a stream

A decoder takes a value from the front of a stream and leaves the rest, or fails.
It reads a code if it takes exactly the code whatever follows.  Codes are read one
after the other by decoders that run one after the other.
-/

namespace Magisk.Codec

open List

universe u v

variable {Symbol ε : Type u} {α β : Type v}

/-- A decoder of a stream. -/
abbrev Decoder (Symbol ε : Type u) (α : Type v) :=
  List Symbol → Except ε (α × List Symbol)

/-- The decoder takes exactly this code for the value. -/
def Reads (decode : Decoder Symbol ε α) (code : List Symbol) (value : α) : Prop :=
  ∀ rest, decode (code ++ rest) = .ok (value, rest)

/-- Decode one value after another. -/
def both (first : Decoder Symbol ε α) (second : Decoder Symbol ε β) :
    Decoder Symbol ε (α × β) := fun stream =>
  match first stream with
  | .error error => .error error
  | .ok (value, rest) =>
    match second rest with
    | .error error => .error error
    | .ok (other, rest) => .ok ((value, other), rest)

/-- Decode a number of values. -/
def many (decode : Decoder Symbol ε α) : Nat → Decoder Symbol ε (List α)
  | 0, stream => .ok ([], stream)
  | count + 1, stream =>
    match decode stream with
    | .error error => .error error
    | .ok (value, rest) =>
      match many decode count rest with
      | .error error => .error error
      | .ok (values, rest) => .ok (value :: values, rest)

theorem Reads.both {first : Decoder Symbol ε α} {second : Decoder Symbol ε β}
    {code otherCode : List Symbol} {value : α} {other : β} (reads : Reads first code value)
    (readsOther : Reads second otherCode other) :
    Reads (both first second) (code ++ otherCode) (value, other) := by
  intro rest
  rw [append_assoc, Codec.both, reads]
  dsimp only
  rw [readsOther]

variable {decode : Decoder Symbol ε α} {values : List α}

/-- The codes of values are read one after the other. -/
theorem Reads.many {encode : α → List Symbol}
    (reads : ∀ value ∈ values, Reads decode (encode value) value) :
    Reads (many decode values.length) (values.flatMap encode) values := by
  induction values with
  | nil => exact fun rest => rfl
  | cons value values ih =>
    intro rest
    have later := ih (fun value mem => reads value (mem_cons_of_mem _ mem)) rest
    rw [flatMap_cons, append_assoc, length_cons, Codec.many, reads value mem_cons_self]
    dsimp only
    rw [later]

theorem length_of_many {count : Nat} {stream rest : List Symbol}
    (decoded : many decode count stream = .ok (values, rest)) : values.length = count := by
  induction count generalizing stream values with
  | zero =>
    cases decoded
    rfl
  | succ count ih =>
    rw [many] at decoded
    split at decoded
    · cases decoded
    · split at decoded
      · cases decoded
      · rename_i later
        cases decoded
        rw [length_cons, ih later]

/-! ## Decoders of a fixed width -/

/-- The decoder takes a number of symbols, whatever they are, and fails in one way if
there are fewer. -/
def Fixed (decode : Decoder Symbol ε α) (encode : α → List Symbol) (width : Nat) (eof : ε) :
    Prop :=
  ∀ stream,
    (stream.length < width ∧ decode stream = .error eof) ∨
      ∃ value rest, stream = encode value ++ rest ∧ (encode value).length = width ∧
        decode stream = .ok (value, rest)

theorem Fixed.many {encode : α → List Symbol} {width : Nat} {eof : ε}
    (fixed : Fixed decode encode width eof) (count : Nat) :
    Fixed (many decode count) (fun values => values.flatMap encode) (count * width) eof := by
  induction count with
  | zero => exact fun stream => Or.inr ⟨[], stream, rfl, (Nat.zero_mul width).symm, rfl⟩
  | succ count ih =>
    intro stream
    rw [Codec.many, Nat.succ_mul]
    rcases fixed stream with ⟨short, failed⟩ | ⟨value, rest, rfl, length, decoded⟩
    · rw [failed]
      exact Or.inl ⟨by omega, rfl⟩
    · rw [decoded]
      dsimp only
      rcases ih rest with ⟨short, failed⟩ | ⟨values, left, rfl, valuesLength, valuesDecoded⟩
      · rw [failed]
        exact Or.inl ⟨by rw [length_append]; omega, rfl⟩
      · rw [valuesDecoded]
        refine Or.inr ⟨value :: values, left, ?_, ?_, rfl⟩
        · rw [flatMap_cons, append_assoc]
        · dsimp only at valuesLength
          rw [flatMap_cons, length_append]
          omega

/-! ## Faithful results -/

/-- The result is a failure that is allowed, or exactly the code of the value was taken;
`returns` says whether a value may be returned at all. -/
def Faithful (allowed : ε → Prop) (returns : Prop) (encode : α → List Symbol)
    (stream : List Symbol) : Except ε (α × List Symbol) → Prop
  | .error error => allowed error
  | .ok (value, rest) => returns ∧ stream = encode value ++ rest

section Both

variable {allowed : ε → Prop} {returns : Prop} {first : Decoder Symbol ε α}
  {second : Decoder Symbol ε β} {encode : α → List Symbol} {encodeSecond : β → List Symbol}
  {stream rest code : List Symbol} {value : α}

theorem faithful_both_of_error {error : ε} (failed : first stream = .error error) :
    Faithful allowed returns (fun values => encode values.1 ++ encodeSecond values.2) stream
      (both first second stream) ↔ allowed error := by
  rw [both, failed]
  rfl

/-- After a value was taken, the result depends on the rest; the code of the value has
to be the right one if the rest can be decoded. -/
theorem faithful_both_of_ok (taken : first (code ++ rest) = .ok (value, rest))
    (length : code.length = (encode value).length) :
    Faithful allowed returns (fun values => encode values.1 ++ encodeSecond values.2) (code ++ rest)
        (both first second (code ++ rest)) ↔
      Faithful allowed (returns ∧ code = encode value) encodeSecond rest (second rest) := by
  rw [both, taken]
  dsimp only
  cases second rest with
  | error error => exact Iff.rfl
  | ok result =>
    rw [Faithful, Faithful, append_assoc, and_assoc]
    apply and_congr_right
    intro _
    constructor
    · exact fun same => append_inj same length
    · rintro ⟨sameCode, sameRest⟩
      rw [sameCode, sameRest]

end Both

end Magisk.Codec
