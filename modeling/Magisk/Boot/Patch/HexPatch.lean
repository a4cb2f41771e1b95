import Magisk.Bytes.Core

/-!
# Patching a file by hexadecimal patterns

`byte_data::patch` searches the bytes it has not passed yet, clears an occurrence of
the pattern, and copies the replacement over it.  A replacement that is not longer
than the pattern leaves the rest of the bytes alone, so the search goes on in the
original.  Nothing checks that the replacement fits into the file, nor that the
pattern has any bytes.
-/

namespace Magisk.Boot.Patch

open List Bytes

/-! ## The search loop -/

/-- How far a run gets. -/
inductive Patching (α : Type) where
  | done (result : α)
  | outside
  | running
  deriving DecidableEq

def Patching.map {α β : Type} (f : α → β) : Patching α → Patching β
  | .done result => .done (f result)
  | .outside => .outside
  | .running => .running

theorem Patching.map_done_iff {α β : Type} {f : α → β} {run : Patching α} :
    (∃ result, run.map f = .done result) ↔ ∃ result, run = .done result := by
  cases run with
  | done result => exact iff_of_true ⟨_, rfl⟩ ⟨_, rfl⟩
  | outside => exact iff_of_false nofun nofun
  | running => exact iff_of_false nofun nofun

/-- Write over bytes that start at `pos`; `none` if that is not inside. -/
def overwrite (bytes : List UInt8) (pos : Nat) (data : List UInt8) : Option (List UInt8) :=
  if pos + data.length ≤ bytes.length then
    some (bytes.take pos ++ data ++ bytes.drop (pos + data.length))
  else
    none

/-- The loop of `byte_data::patch`, for at most `fuel` rounds. -/
def patchLoop (pattern replacement : List UInt8) :
    Nat → List UInt8 → Nat → List Nat → Patching (List UInt8 × List Nat)
  | 0, _, _, _ => .running
  | fuel + 1, bytes, p, v =>
    if p < bytes.length then
      match find pattern (bytes.drop p) with
      | none => .done (bytes, v)
      | some x =>
        match (overwrite bytes (p + x) (zeros pattern.length)).bind
          (overwrite · (p + x) replacement) with
        | none => .outside
        | some written =>
          patchLoop pattern replacement fuel written (p + x + pattern.length) (v ++ [p + x])
    else
      .done (bytes, v)

/-- `byte_data::patch`: the bytes it leaves and the positions it returns. -/
def patchBytes (fuel : Nat) (bytes pattern replacement : List UInt8) :
    Patching (List UInt8 × List Nat) :=
  patchLoop pattern replacement fuel bytes 0 []

/-! ## Hexadecimal arguments -/

/-- The value of a hexadecimal digit, in wrapping arithmetic. -/
def digitValue (byte : UInt8) : UInt8 :=
  let upper := if 0x61 ≤ byte ∧ byte ≤ 0x7a then byte - 0x20 else byte
  let digit := upper - 0x30
  if 9 < digit then digit - 7 else digit

/-- `hex2byte`: an odd digit at the end is left out. -/
def hex2byte : List UInt8 → List UInt8
  | high :: low :: rest => (digitValue high <<< 4 ||| digitValue low) :: hex2byte rest
  | _ => []

/-- `hexpatch` on a file that could be mapped or not: the mapped bytes and the
result. -/
def hexpatch (fuel : Nat) (file : Option (List UInt8)) (src dest : List UInt8) :
    Patching (Option (List UInt8) × Bool) :=
  match file with
  | none => .done (none, false)
  | some map =>
    (patchBytes fuel map (hex2byte src) (hex2byte dest)).map fun (bytes, v) =>
      (some bytes, !v.isEmpty)

/-! ## One round -/

variable {pattern replacement front rest bytes : List UInt8} {fuel x : Nat} {v : List Nat}

/-- An occurrence once it is replaced, with what is before it. -/
def passed (pattern replacement rest : List UInt8) (x : Nat) : List UInt8 :=
  rest.take x ++ (replacement.take pattern.length ++ zeros (pattern.length - replacement.length))

/-- The bytes behind an occurrence once it is replaced. -/
def onward (pattern replacement rest : List UInt8) (x : Nat) : List UInt8 :=
  replacement.drop pattern.length ++ rest.drop (x + max pattern.length replacement.length)

theorem overwrite_append (front rest : List UInt8) (x : Nat) (data : List UInt8) :
    overwrite (front ++ rest) (front.length + x) data =
      (overwrite rest x data).map (front ++ ·) := by
  unfold overwrite
  simp only [length_append, Nat.add_assoc, Nat.add_le_add_iff_left]
  split
  · rw [take_length_add_append, drop_length_add_append, Option.map_some,
      append_assoc, append_assoc, append_assoc]
  · rfl

theorem length_passed (replacement : List UInt8) (inside : x + pattern.length ≤ rest.length) :
    (passed pattern replacement rest x).length = x + pattern.length := by
  simp only [passed, length_append, length_take, length_zeros]
  omega

/-- Clearing an occurrence and copying the replacement over it. -/
theorem overwrite_cleared (inside : x + pattern.length ≤ rest.length) :
    (overwrite (front ++ rest) (front.length + x) (zeros pattern.length)).bind
        (overwrite · (front.length + x) replacement) =
      if x + replacement.length ≤ rest.length then
        some (front ++ passed pattern replacement rest x ++ onward pattern replacement rest x)
      else
        none := by
  have start : (front ++ rest.take x).length = front.length + x := by
    rw [length_append, length_take]
    omega
  have clear : overwrite (front ++ rest) (front.length + x) (zeros pattern.length) =
      some (front ++ rest.take x ++ (zeros pattern.length ++ rest.drop (x + pattern.length))) := by
    rw [overwrite_append, overwrite, length_zeros, if_pos inside, Option.map_some,
      append_assoc, append_assoc]
  have sameLength : (zeros pattern.length ++ rest.drop (x + pattern.length)).length =
      rest.length - x := by
    rw [length_append, length_zeros, length_drop]
    omega
  have copy := overwrite_append (front ++ rest.take x)
    (zeros pattern.length ++ rest.drop (x + pattern.length)) 0 replacement
  rw [start, Nat.add_zero] at copy
  rw [clear, Option.bind_some, copy, overwrite, Nat.zero_add]
  by_cases fits : x + replacement.length ≤ rest.length
  · rw [if_pos fits, if_pos (by omega), Option.map_some, passed, onward]
    rw [take_zero, drop_append, drop_drop, length_zeros, zeros, drop_replicate]
    rcases Nat.le_total replacement.length pattern.length with short | long
    · rw [Nat.max_eq_left short, take_of_length_le short, drop_of_length_le short,
        Nat.sub_eq_zero_of_le short]
      simp [zeros]
    · rw [Nat.max_eq_right long, Nat.sub_eq_zero_of_le long, Nat.add_assoc,
        Nat.add_sub_cancel' long]
      simp only [zeros, replicate_zero, nil_append, append_assoc]
      rw [← append_assoc (replacement.take _), take_append_drop]
  · rw [if_neg fits, if_neg (by omega)]
    rfl

/-- A round that finds the pattern. -/
theorem patchLoop_found (found : find pattern rest = some x) (more : rest ≠ []) :
    patchLoop pattern replacement (fuel + 1) (front ++ rest) front.length v =
      if x + replacement.length ≤ rest.length then
        patchLoop pattern replacement fuel
          (front ++ passed pattern replacement rest x ++ onward pattern replacement rest x)
          (front ++ passed pattern replacement rest x).length (v ++ [front.length + x])
      else
        .outside := by
  have inside := length_of_find found
  have positive := length_pos_of_ne_nil more
  rw [patchLoop, if_pos (by rw [length_append]; omega), drop_left, found]
  dsimp only
  rw [overwrite_cleared inside]
  by_cases fits : x + replacement.length ≤ rest.length
  · rw [if_pos fits, if_pos fits, length_append, length_passed _ inside, Nat.add_assoc]
  · rw [if_neg fits, if_neg fits]

theorem patchLoop_absent (absent : find pattern rest = none) :
    patchLoop pattern replacement (fuel + 1) (front ++ rest) front.length v =
      .done (front ++ rest, v) := by
  rw [patchLoop, drop_left, absent]
  split <;> rfl

/-! ## Replacements that are not longer than the pattern -/

/-- Positions `v` are the leftmost occurrences of a pattern that do not overlap, and
`bytes` is a buffer with these replaced. -/
structure Patched (pattern replacement buf : List UInt8) (v : List Nat) (bytes : List UInt8) :
    Prop where
  occurs : ∀ p ∈ v, pattern <+: buf.drop p
  apart : v.Pairwise fun p q => p + pattern.length ≤ q
  leftmost : ∀ q, pattern <+: buf.drop q → ∃ p ∈ v, p ≤ q ∧ q < p + pattern.length
  length : bytes.length = buf.length
  written : ∀ p ∈ v, replacement ++ zeros (pattern.length - replacement.length) <+: bytes.drop p
  unchanged : ∀ i, (∀ p ∈ v, i < p ∨ p + pattern.length ≤ i) → bytes[i]? = buf[i]?

theorem Patched.absent (nonempty : pattern ≠ []) (absent : find pattern rest = none) :
    Patched pattern replacement rest [] rest where
  occurs := nofun
  apart := .nil
  leftmost := fun q occurs => absurd occurs ((find_eq_none_iff nonempty).mp absent q)
  length := rfl
  written := nofun
  unchanged := fun _ _ => rfl

/-- One occurrence more in front. -/
theorem Patched.found (found : find pattern rest = some x)
    (short : replacement.length ≤ pattern.length)
    (later : Patched pattern replacement (rest.drop (x + pattern.length)) v bytes) :
    Patched pattern replacement rest (x :: v.map (x + pattern.length + ·))
      (passed pattern replacement rest x ++ bytes) := by
  have inside := length_of_find found
  have passedLength := length_passed replacement inside
  obtain ⟨here, first⟩ := find_eq_some found
  have shifted : ∀ {motive : Nat → Prop}, (∀ p ∈ x :: v.map (x + pattern.length + ·), motive p) ↔
        motive x ∧ ∀ p ∈ v, motive (x + pattern.length + p) := by
    simp
  constructor
  · refine shifted.mpr ⟨here, fun p mem => ?_⟩
    rw [← drop_drop]
    exact later.occurs p mem
  · refine pairwise_cons.mpr ⟨forall_mem_map.mpr fun p _ => ?_, ?_⟩
    · exact Nat.le_add_right _ p
    · exact pairwise_map.mpr (later.apart.imp fun before => by omega)
  · intro q occurs
    by_cases before : q < x
    · exact absurd occurs (first q before)
    · by_cases overlaps : q < x + pattern.length
      · exact ⟨x, mem_cons_self, Nat.not_lt.mp before, overlaps⟩
      · obtain ⟨r, rfl⟩ := Nat.exists_eq_add_of_le (Nat.not_lt.mp overlaps)
        rw [← drop_drop] at occurs
        obtain ⟨p, mem, least, less⟩ := later.leftmost r occurs
        exact ⟨_, mem_cons_of_mem x (mem_map_of_mem mem), by omega, by omega⟩
  · rw [length_append, later.length, length_drop]
    omega
  · refine shifted.mpr ⟨?_, fun p mem => ?_⟩
    · have start : (rest.take x).length = x := by
        rw [length_take]
        omega
      rw [passed, append_assoc, drop_left' start, take_of_length_le short]
      exact prefix_append _ _
    · rw [← passedLength, drop_length_add_append]
      exact later.written p mem
  · intro i outside
    obtain ⟨outsideFirst, outsideLater⟩ := shifted.mp outside
    rcases outsideFirst with before | behind
    · rw [passed, append_assoc, getElem?_append_left, getElem?_take_of_lt before]
      rw [length_take]
      omega
    · obtain ⟨j, rfl⟩ := Nat.exists_eq_add_of_le behind
      rw [getElem?_append_right (by omega), passedLength, Nat.add_sub_cancel_left,
        later.unchanged j fun p mem => ?_, getElem?_drop]
      have := outsideLater p mem
      omega

theorem onward_of_le (short : replacement.length ≤ pattern.length) :
    onward pattern replacement rest x = rest.drop (x + pattern.length) := by
  rw [onward, drop_of_length_le short, Nat.max_eq_left short, nil_append]

/-- The loop from any position on. -/
theorem patchLoop_patched (nonempty : pattern ≠ []) (short : replacement.length ≤ pattern.length)
    (rest : List UInt8) :
    ∃ occurrences bytes, Patched pattern replacement rest occurrences bytes ∧
      ∀ fuel front v, rest.length < fuel →
        patchLoop pattern replacement fuel (front ++ rest) front.length v =
          .done (front ++ bytes, v ++ occurrences.map (front.length + ·)) := by
  induction size : rest.length using Nat.strong_induction_on generalizing rest with
  | _ size ih =>
    subst size
    have positive := length_pos_of_ne_nil nonempty
    cases search : find pattern rest with
    | none =>
      refine ⟨[], rest, .absent nonempty search, fun fuel front v enough => ?_⟩
      obtain ⟨less, rfl⟩ := Nat.exists_eq_add_of_lt enough
      rw [patchLoop_absent search, map_nil, append_nil]
    | some x =>
      have inside := length_of_find search
      have shorter : (rest.drop (x + pattern.length)).length < rest.length := by
        rw [length_drop]
        omega
      obtain ⟨occurrences, bytes, patched, runs⟩ := ih _ shorter _ rfl
      refine ⟨_, _, patched.found search short, fun fuel front v enough => ?_⟩
      obtain ⟨less, rfl⟩ := Nat.exists_eq_add_of_lt enough
      have more : rest ≠ [] := ne_nil_of_length_pos (by omega)
      rw [patchLoop_found search more, if_pos (by omega), onward_of_le short, runs _ _ _ (by omega)]
      simp [length_passed _ inside, Nat.add_assoc]

/-- A pattern is replaced by one that is not longer at the leftmost occurrences in the
original, and nothing else changes. -/
theorem patchBytes_patched (nonempty : pattern ≠ [])
    (short : replacement.length ≤ pattern.length) (buf : List UInt8) :
    ∃ v bytes, Patched pattern replacement buf v bytes ∧ ∀ fuel, buf.length < fuel →
        patchBytes fuel buf pattern replacement = .done (bytes, v) := by
  obtain ⟨v, bytes, patched, runs⟩ := patchLoop_patched nonempty short buf
  refine ⟨v, bytes, patched, fun fuel enough => ?_⟩
  have ran := runs fuel [] [] enough
  simpa [patchBytes] using ran

theorem patchBytes_patched_three : ∃ v bytes, Patched [1, 1] [2] [1, 1, 1] v bytes ∧
      ∀ fuel, 3 < fuel → patchBytes fuel [1, 1, 1] [1, 1] [2] = .done (bytes, v) :=
  patchBytes_patched (by decide) (by decide) [1, 1, 1]

/-! ## Any arguments -/

/-- Each occurrence that the search meets leaves room for the replacement. -/
inductive Room (pattern replacement : List UInt8) : List UInt8 → Prop
  | absent (rest : List UInt8) : find pattern rest = none → Room pattern replacement rest
  | found (rest : List UInt8) (x : Nat) : find pattern rest = some x →
      x + replacement.length ≤ rest.length →
      Room pattern replacement (onward pattern replacement rest x) →
      Room pattern replacement rest

theorem length_hex2byte (digits : List UInt8) : (hex2byte digits).length = digits.length / 2 := by
  fun_induction hex2byte digits with
  | case1 high low rest ih =>
    rw [length_cons, ih]
    exact (Nat.add_div_right _ two_pos).symm
  | case2 digits short =>
    rcases digits with - | ⟨high, - | ⟨low, rest⟩⟩
    · rfl
    · exact (Nat.div_eq_of_lt one_lt_two).symm
    · exact absurd rfl (short high low rest)

/-- With room for every replacement the loop ends. -/
theorem Room.done (room : Room pattern replacement rest) (front : List UInt8) (v : List Nat) :
    ∃ fuel result, patchLoop pattern replacement fuel (front ++ rest) front.length v =
      .done result := by
  induction room generalizing front v with
  | absent rest search => exact ⟨1, _, patchLoop_absent search⟩
  | found rest x search fits _ ih =>
    by_cases more : rest = []
    · exact ⟨1, _, by rw [more, append_nil, patchLoop, if_neg (Nat.lt_irrefl _)]⟩
    · obtain ⟨fuel, result, ends⟩ :=
        ih (front ++ passed pattern replacement rest x) (v ++ [front.length + x])
      exact ⟨fuel + 1, result, by rw [patchLoop_found search more, if_pos fits, ends]⟩

/-- A loop that ends had room for every replacement. -/
theorem room_of_done (front : List UInt8) (nonempty : pattern ≠ []) {result : List UInt8 × List Nat}
    (ended : patchLoop pattern replacement fuel (front ++ rest) front.length v = .done result) :
    Room pattern replacement rest := by
  induction fuel generalizing front rest v with
  | zero => cases ended
  | succ fuel ih =>
    cases search : find pattern rest with
    | none => exact .absent rest search
    | some x =>
      have inside := length_of_find search
      have positive := length_pos_of_ne_nil nonempty
      rw [patchLoop_found search (ne_nil_of_length_pos (by omega))] at ended
      split at ended
      · rename_i fits
        exact .found rest x search fits (ih _ ended)
      · cases ended

/-- An empty pattern is found where the search starts, again and again. -/
theorem patchLoop_nil (more : bytes ≠ []) (result : List UInt8 × List Nat) :
    patchLoop [] replacement fuel bytes 0 v ≠ .done result := by
  induction fuel generalizing bytes v with
  | zero => nofun
  | succ fuel ih =>
    have here : find [] bytes = some 0 := by cases bytes <;> rfl
    have round : patchLoop [] replacement (fuel + 1) ([] ++ bytes) 0 v = _ :=
      patchLoop_found here more
    rw [nil_append] at round
    rw [round]
    split
    · have none : passed [] replacement bytes 0 = [] := by simp [passed, zeros]
      rw [none]
      refine ih (ne_nil_of_length_pos ?_)
      have positive := length_pos_of_ne_nil more
      simp [onward]
      omega
    · nofun

/-- `hexpatch` ends and writes inside the file exactly if the file is empty or cannot
be mapped, or the pattern has two digits and all replacements have room. -/
theorem hexpatch_done_iff (file : Option (List UInt8)) (src dest : List UInt8) :
    (∃ fuel result, hexpatch fuel file src dest = .done result) ↔ ∀ map ∈ file, map ≠ [] →
        2 ≤ src.length ∧ Room (hex2byte src) (hex2byte dest) map := by
  cases file with
  | none => exact iff_of_true ⟨0, _, rfl⟩ nofun
  | some map =>
    simp only [hexpatch, Patching.map_done_iff, Option.mem_some_iff, forall_eq']
    constructor
    · rintro ⟨fuel, result, ends⟩ more
      have nonempty : hex2byte src ≠ [] := by
        intro empty
        rw [empty] at ends
        exact patchLoop_nil more result ends
      have digits := length_pos_of_ne_nil nonempty
      rw [length_hex2byte] at digits
      exact ⟨by omega, room_of_done [] nonempty ends⟩
    · intro room
      by_cases more : map = []
      · exact ⟨1, _, by rw [patchBytes, more, patchLoop, if_neg (by simp)]⟩
      · exact (room more).2.done [] []

/-- An empty pattern, and a replacement that is longer than the file. -/
theorem hexpatch_not_done : (¬ ∃ fuel result, hexpatch fuel (some [0x41]) [] [] = .done result) ∧
      hexpatch 1 (some [0x41]) (utf8 "41") (utf8 "4242") = .outside := by
  refine ⟨?_, by decide +kernel⟩
  rintro ⟨fuel, ends⟩
  obtain ⟨result, ends⟩ := Patching.map_done_iff.mp ends
  exact patchLoop_nil (cons_ne_nil 0x41 []) result ends

end Magisk.Boot.Patch
