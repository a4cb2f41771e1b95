import Mathlib

/-!
# Readers that may return less than asked for

A `Read` implementation may deliver fewer bytes than the buffer holds, be
interrupted, or fail.  A `Reader` is the bytes still to come together with what
happens on the next calls; once these events are used up, every call delivers
all it can.  `readExact` is the standard library's loop over `read`.
-/

namespace Magisk.Base

open List

/-- Why a read failed. -/
inductive IoError where
  | unexpectedEof
  | interrupted
  | other
  deriving DecidableEq, Repr

/-- What happens on one call of `read`. -/
inductive ReadEvent where
  /-- At most `bound + 1` bytes are delivered. -/
  | short (bound : Nat)
  | interrupted
  | broken
  deriving DecidableEq, Repr

/-- A source of bytes. -/
structure Reader where
  data : List UInt8
  events : List ReadEvent
  deriving DecidableEq, Repr

namespace Reader

variable {size : Nat} {reader next : Reader} {error : IoError}

/-- Deliver the first `count` bytes. -/
def deliver (reader : Reader) (count : Nat) (events : List ReadEvent) :
    Except IoError (List UInt8) × Reader :=
  (.ok (reader.data.take count), ⟨reader.data.drop count, events⟩)

/-- `Read::read` into a buffer of `size` bytes. -/
def read (reader : Reader) (size : Nat) : Except IoError (List UInt8) × Reader :=
  match reader.events with
  | [] => reader.deliver size []
  | .short bound :: events => reader.deliver (min size (bound + 1)) events
  | .interrupted :: events => (.error .interrupted, ⟨reader.data, events⟩)
  | .broken :: events => (.error .other, ⟨reader.data, events⟩)

/-- A call that delivers bytes, or is interrupted, brings `readExact` closer to
its end. -/
theorem read_measure (positive : 0 < size) {bytes : List UInt8}
    (delivered : reader.read size = (.ok bytes, next)) (nonempty : bytes ≠ []) :
    size - bytes.length + next.events.length < size + reader.events.length := by
  have count : 0 < bytes.length := length_pos_of_ne_nil nonempty
  have fewer : next.events.length ≤ reader.events.length := by
    unfold read at delivered
    split at delivered
    · cases delivered
      exact Nat.zero_le _
    · rename_i bound events found
      cases delivered
      rw [found]
      exact Nat.le_succ _
    · cases delivered
    · cases delivered
  omega

theorem read_interrupted_measure (failed : reader.read size = (.error error, next)) :
    next.events.length < reader.events.length := by
  unfold read at failed
  split at failed
  · cases failed
  · cases failed
  · rename_i events found
    cases failed
    rw [found]
    exact Nat.lt_succ_self _
  · rename_i events found
    cases failed
    rw [found]
    exact Nat.lt_succ_self _

/-- `Read::read_exact`: the bytes that made it into the buffer, and the error if
it was not filled. -/
def readExact (reader : Reader) (size : Nat) : List UInt8 × Option IoError × Reader :=
  if _positive : 0 < size then
    match _step : reader.read size with
    | (.ok bytes, next) =>
      if _nonempty : bytes = [] then
        ([], some .unexpectedEof, next)
      else
        let (rest, error, last) := next.readExact (size - bytes.length)
        (bytes ++ rest, error, last)
    | (.error .interrupted, next) => next.readExact size
    | (.error error, next) => ([], some error, next)
  else
    ([], none, reader)
termination_by size + reader.events.length
decreasing_by
  · exact read_measure _positive _step _nonempty
  · exact Nat.add_lt_add_left (read_interrupted_measure _step) size

/-! ## Readers that only return short -/

/-- No call fails. -/
def Steady (reader : Reader) : Prop :=
  ∀ event ∈ reader.events, ∃ bound, event = .short bound

/-- A steady reader delivers a prefix of what it holds, which is not empty unless
it holds nothing. -/
theorem Steady.read_eq (steady : reader.Steady) (positive : 0 < size) :
    ∃ count next, reader.read size = (.ok (reader.data.take count), next) ∧
      next.data = reader.data.drop count ∧ 0 < count ∧ count ≤ size ∧ next.Steady := by
  unfold read
  split
  · refine ⟨size, _, rfl, rfl, positive, le_rfl, ?_⟩
    intro event mem
    exact absurd mem not_mem_nil
  · rename_i bound events found
    refine ⟨min size (bound + 1), _, rfl, rfl, by omega, Nat.min_le_left _ _, ?_⟩
    intro event mem
    exact steady event (found ▸ mem_cons_of_mem _ mem)
  · rename_i events found
    obtain ⟨bound, impossible⟩ := steady .interrupted (found ▸ mem_cons_self)
    cases impossible
  · rename_i events found
    obtain ⟨bound, impossible⟩ := steady .broken (found ▸ mem_cons_self)
    cases impossible

theorem Steady.read_ne_error (steady : reader.Steady) (positive : 0 < size) :
    reader.read size ≠ (.error error, next) := by
  obtain ⟨count, after, readEq, _⟩ := steady.read_eq positive
  rw [readEq]
  simp

/-- A steady reader that holds enough fills the buffer. -/
theorem Steady.readExact_eq (steady : reader.Steady) (enough : size ≤ reader.data.length) :
    ∃ next, reader.readExact size = (reader.data.take size, none, next) ∧
      next.data = reader.data.drop size ∧ next.Steady := by
  fun_induction readExact reader size with
  | case1 reader size positive next delivered =>
    obtain ⟨count, after, readEq, _, countPositive, _⟩ := steady.read_eq positive
    rw [readEq, Prod.mk.injEq, Except.ok.injEq, take_eq_nil_iff] at delivered
    rcases delivered.1 with zero | noData
    · omega
    · rw [noData, length_nil] at enough
      omega
  | case2 reader size positive bytes next delivered nonempty rest error last found ih =>
    obtain ⟨count, after, readEq, afterData, _, countLe, afterSteady⟩ := steady.read_eq positive
    rw [readEq] at delivered
    cases delivered
    have lengthEq : (reader.data.take count).length = count := by
      rw [length_take]
      omega
    have restEnough : size - (reader.data.take count).length ≤ next.data.length := by
      rw [afterData, length_drop]
      omega
    obtain ⟨final, restEq, finalData, finalSteady⟩ := ih afterSteady restEnough
    rw [found, lengthEq, afterData] at restEq
    cases restEq
    refine ⟨last, ?_, ?_, finalSteady⟩
    · rw [← take_add, Nat.add_sub_cancel' countLe]
    · rw [finalData, afterData, drop_drop, lengthEq, Nat.add_sub_cancel' countLe]
  | case3 reader size positive next failed ih =>
    exact absurd failed (steady.read_ne_error positive)
  | case4 reader size positive error next notInterrupted failed =>
    exact absurd failed (steady.read_ne_error positive)
  | case5 reader size notPositive =>
    have zero : size = 0 := by omega
    subst zero
    exact ⟨reader, rfl, rfl, steady⟩

/-- A steady reader at its end reports it. -/
theorem Steady.readExact_of_nil (steady : reader.Steady) (positive : 0 < size)
    (atEnd : reader.data = []) :
    ∃ next, reader.readExact size = ([], some .unexpectedEof, next) := by
  obtain ⟨count, next, readEq, _⟩ := steady.read_eq positive
  rw [atEnd, take_nil] at readEq
  refine ⟨next, ?_⟩
  rw [readExact, dif_pos positive]
  split
  · rename_i bytes after delivered
    rw [readEq] at delivered
    cases delivered
    rfl
  · rename_i after failed
    rw [readEq] at failed
    cases failed
  · rename_i error after notInterrupted failed
    rw [readEq] at failed
    cases failed

end Reader

end Magisk.Base
