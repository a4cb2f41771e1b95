import Magisk.Boot.Cpio.Batch

/-!
# Removing options in place

`remove_pattern` reads and writes one buffer with two cursors.  The write cursor
never passes the read cursor, so what is not read yet is still the original, and
the loop leaves what a scan of the original keeps.
-/

namespace Magisk.Boot.Patch

open List Bytes Boot.Cpio

/-- A matcher tells the length of a match at the head of a buffer. -/
abbrev Matcher := List UInt8 → Option Nat

/-- The buffer and the counters of `remove_pattern`. -/
structure Removal where
  buf : List UInt8
  write : Nat
  read : Nat
  sz : Nat

namespace Removal

/-- Before the loop. -/
def start (buf : List UInt8) : Removal :=
  ⟨buf, 0, 0, buf.length⟩

/-- One round of the loop. -/
def round (matcher : Matcher) (s : Removal) : Removal :=
  match matcher (s.buf.drop s.read) with
  | some len => { s with sz := s.sz - len, read := s.read + len }
  | none =>
    { s with
      buf := s.buf.set s.write (s.buf.getD s.read 0)
      write := s.write + 1
      read := s.read + 1 }

/-- The loop; `none` if `fuel` rounds were not enough. -/
def loop (matcher : Matcher) : Nat → Removal → Option Removal
  | 0, _ => none
  | fuel + 1, s => if s.read < s.buf.length then loop matcher fuel (s.round matcher) else some s

/-- The state of the loop at the head of the next round. -/
def Next (matcher : Matcher) (s t : Removal) : Prop :=
  s.read < s.buf.length ∧ t = s.round matcher

/-- Clear the buffer behind the kept bytes and return the size. -/
def clear (s : Removal) : List UInt8 × Nat :=
  (s.buf.take s.write ++ zeros (s.buf.length - s.write), s.sz)

end Removal

/-- `remove_pattern`: the buffer it leaves and the size it returns. -/
def removeInPlace (matcher : Matcher) (fuel : Nat) (buf : List UInt8) :
    Option (List UInt8 × Nat) :=
  ((Removal.start buf).loop matcher fuel).map Removal.clear

/-! ## Scanning the original -/

/-- A match is not empty and ends inside the buffer. -/
def Fits (matcher : Matcher) : Prop :=
  ∀ suffix, suffix ≠ [] → ∀ len, matcher suffix = some len → 0 < len ∧ len ≤ suffix.length

/-- Scan from left to right: drop each matched span, keep every other byte. -/
def kept (matcher : Matcher) : List UInt8 → List UInt8
  | [] => []
  | byte :: rest =>
    match matcher (byte :: rest) with
    | some len => kept matcher (rest.drop (len - 1))
    | none => byte :: kept matcher rest
termination_by buf => buf.length

variable {matcher : Matcher} {buf text : List UInt8} {len : Nat} {s : Removal}

theorem kept_of_none {byte : UInt8} {rest : List UInt8}
    (unmatched : matcher (byte :: rest) = none) :
    kept matcher (byte :: rest) = byte :: kept matcher rest := by
  rw [kept, unmatched]

theorem kept_of_some (nonempty : text ≠ []) (positive : 0 < len) (matched : matcher text = some len) :
    kept matcher text = kept matcher (text.drop len) := by
  cases text with
  | nil => exact absurd rfl nonempty
  | cons byte rest =>
    obtain ⟨more, rfl⟩ := Nat.exists_eq_add_of_lt positive
    rw [kept, matched]
    rfl

/-- The scan of the archive code is this one. -/
theorem kept_matchPatterns (patterns : List (List UInt8)) (buf : List UInt8) :
    kept (matchPatterns patterns) buf = removePattern patterns buf := by
  fun_induction removePattern patterns buf with
  | case1 => rw [kept]
  | case2 byte rest len matched ih =>
    rw [kept, matched]
    exact ih
  | case3 byte rest unmatched ih => rw [kept, unmatched, ih]

/-! ## The loop -/

/-- What the loop keeps: behind the read cursor the buffer is the original, and
before the write cursor it is what the scan has kept so far. -/
structure Copies (matcher : Matcher) (buf : List UInt8) (s : Removal) : Prop where
  length : s.buf.length = buf.length
  cursors : s.write ≤ s.read
  inside : s.read ≤ buf.length
  unread : s.buf.drop s.read = buf.drop s.read
  done : kept matcher buf = s.buf.take s.write ++ kept matcher (buf.drop s.read)
  size : s.sz + s.read = buf.length + s.write

theorem copies_start (matcher : Matcher) (buf : List UInt8) : Copies matcher buf (.start buf) :=
  ⟨rfl, le_rfl, Nat.zero_le _, rfl, rfl, rfl⟩

/-- One round reads on and keeps the invariant. -/
theorem Copies.round (copies : Copies matcher buf s) (fits : Fits matcher)
    (more : s.read < s.buf.length) :
    Copies matcher buf (s.round matcher) ∧ s.read < (s.round matcher).read := by
  have unread := copies.unread
  have cursors := copies.cursors
  have size := copies.size
  rw [copies.length] at more
  have nonempty : buf.drop s.read ≠ [] := by
    rw [Ne, drop_eq_nil_iff]
    exact Nat.not_le.mpr more
  cases matched : matcher (s.buf.drop s.read) with
  | some len =>
    have onOriginal : matcher (buf.drop s.read) = some len := unread ▸ matched
    obtain ⟨positive, bound⟩ := fits _ nonempty len onOriginal
    rw [length_drop] at bound
    have moved : s.round matcher = { s with sz := s.sz - len, read := s.read + len } := by
      rw [Removal.round, matched]
    rw [moved]
    refine ⟨⟨copies.length, by dsimp only; omega, by dsimp only; omega, ?_, ?_,
      by dsimp only; omega⟩, by dsimp only; omega⟩
    · rw [← drop_drop, unread, drop_drop]
    · rw [copies.done, kept_of_some nonempty positive onOriginal, drop_drop]
  | none =>
    have onward : matcher (buf[s.read] :: buf.drop (s.read + 1)) = none := by
      rw [← drop_eq_getElem_cons more, ← unread]
      exact matched
    have byte : s.buf.getD s.read 0 = buf[s.read] := by
      have first := congrArg head? unread
      rw [head?_drop, head?_drop] at first
      rw [getD_eq_getElem?_getD, first, getElem?_eq_getElem more]
      rfl
    have moved : s.round matcher =
        { s with buf := s.buf.set s.write buf[s.read], write := s.write + 1
                 read := s.read + 1 } := by
      rw [Removal.round, matched, byte]
    rw [moved]
    refine ⟨⟨?_, by dsimp only; omega, more, ?_, ?_, by dsimp only; omega⟩, Nat.lt_succ_self _⟩
    · rw [length_set, copies.length]
    · have rest := congrArg (drop 1) unread
      rw [drop_drop, drop_drop] at rest
      rw [drop_set_of_lt (Nat.lt_succ_of_le cursors)]
      exact rest
    · rw [copies.done, drop_eq_getElem_cons more, kept_of_none onward]
      have start : s.write < (s.buf.set s.write buf[s.read]).length := by
        rw [length_set, copies.length]
        exact Nat.lt_of_le_of_lt cursors more
      rw [take_succ_eq_append_getElem start, take_set_of_le le_rfl, getElem_set_self, append_assoc]
      rfl

/-- The state at the head of every round. -/
theorem copies_of_reaches (fits : Fits matcher)
    (reaches : Relation.ReflTransGen (Removal.Next matcher) (.start buf) s) :
    Copies matcher buf s := by
  induction reaches with
  | refl => exact copies_start matcher buf
  | tail _ next ih =>
    rw [next.2]
    exact (ih.round fits next.1).1

/-- The loop ends when everything is read. -/
theorem Copies.loop (copies : Copies matcher buf s) (fits : Fits matcher) {fuel : Nat}
    (enough : buf.length - s.read < fuel) :
    ∃ last, s.loop matcher fuel = some last ∧ Copies matcher buf last ∧ last.read = buf.length := by
  induction fuel generalizing s with
  | zero => exact absurd enough (Nat.not_lt_zero _)
  | succ fuel ih =>
    rw [Removal.loop]
    split
    · rename_i more
      obtain ⟨next, further⟩ := copies.round fits more
      rw [copies.length] at more
      exact ih next (by omega)
    · rename_i done
      rw [copies.length] at done
      exact ⟨s, rfl, copies, Nat.le_antisymm copies.inside (Nat.not_lt.mp done)⟩

/-- `remove_pattern` leaves what the scan of the original keeps, then zeros, and
returns how much that is; every match is looked for in original bytes. -/
theorem removeInPlace_eq (fits : Fits matcher) (buf : List UInt8) :
    (∀ fuel, buf.length < fuel → removeInPlace matcher fuel buf =
      some (kept matcher buf ++ zeros (buf.length - (kept matcher buf).length),
        (kept matcher buf).length)) ∧
      ∀ s, Relation.ReflTransGen (Removal.Next matcher) (.start buf) s →
        s.buf.drop s.read = buf.drop s.read := by
  refine ⟨fun fuel enough => ?_, fun s reaches => (copies_of_reaches fits reaches).unread⟩
  obtain ⟨last, ran, copies, atEnd⟩ := (copies_start matcher buf).loop fits (s := .start buf) enough
  have done := copies.done
  rw [atEnd, drop_length, kept, append_nil] at done
  have written : (kept matcher buf).length = last.write := by
    rw [done, length_take, copies.length, ← atEnd, Nat.min_eq_left copies.cursors]
  have size := copies.size
  rw [removeInPlace, ran, written, Option.map_some, Removal.clear, copies.length, done]
  congr 2
  omega

/-! ## The matcher of the archive code -/

/-- A byte that ends a value. -/
def isStop (byte : UInt8) : Bool :=
  byte ∈ [0x20, 0x0a, 0x00]

/-- The equals sign and the value at the head of a text. -/
def valueOf (text : List UInt8) : List UInt8 :=
  if text.head? = some 0x3d then text.takeWhile fun c => !isStop c else []

/-- The length of the comma at the head of a text. -/
def commaLen (text : List UInt8) : Nat :=
  if text.head? = some 0x2c then 1 else 0

/-- A match consists of a comma or none, the first pattern that fits, and a value
or none. -/
theorem matchPatterns_eq (patterns : List (List UInt8)) (text : List UInt8) :
    matchPatterns patterns text =
      (patterns.find? (·.isPrefixOf (text.drop (commaLen text)))).map fun key =>
        commaLen text + key.length + (valueOf (text.drop (commaLen text + key.length))).length := by
  have comma : (if text.head? = some 0x2c then 1 else 0) = commaLen text := rfl
  simp only [matchPatterns, comma]
  cases patterns.find? (·.isPrefixOf (text.drop (commaLen text))) with
  | none => rfl
  | some key =>
    rw [Option.map_some, valueOf]
    by_cases valued : (text.drop (commaLen text + key.length)).head? = some 0x3d
    · simp only [if_pos valued, decide_not]
      rfl
    · simp only [if_neg valued]
      rfl

theorem length_valueOf_le (text : List UInt8) : (valueOf text).length ≤ text.length := by
  unfold valueOf
  split
  · exact (takeWhile_sublist _).length_le
  · exact Nat.zero_le _

/-- A match has at least the bytes of its pattern. -/
theorem fits_matchPatterns {patterns : List (List UInt8)} (nonempty : [] ∉ patterns) :
    Fits (matchPatterns patterns) := by
  intro suffix _ len matched
  rw [matchPatterns_eq, Option.map_eq_some_iff] at matched
  obtain ⟨key, first, rfl⟩ := matched
  have isPrefix : key <+: suffix.drop (commaLen suffix) := by
    simpa using find?_some first
  have positive : key ≠ [] := fun empty => nonempty (empty ▸ mem_of_find?_eq_some first)
  have keyLength := isPrefix.length_le
  have valueLength := length_valueOf_le (suffix.drop (commaLen suffix + key.length))
  have keyPositive := length_pos_of_ne_nil positive
  rw [length_drop] at keyLength valueLength
  omega

/-- An option is removed from a buffer of nine bytes. -/
theorem removeInPlace_eq_verify : (∀ fuel, (utf8 "ro,verify").length < fuel →
      removeInPlace (matchPatterns [utf8 "verify"]) fuel (utf8 "ro,verify") =
        some (kept (matchPatterns [utf8 "verify"]) (utf8 "ro,verify") ++
          zeros ((utf8 "ro,verify").length -
            (kept (matchPatterns [utf8 "verify"]) (utf8 "ro,verify")).length),
          (kept (matchPatterns [utf8 "verify"]) (utf8 "ro,verify")).length)) ∧
      ∀ s, Relation.ReflTransGen (Removal.Next (matchPatterns [utf8 "verify"]))
        (.start (utf8 "ro,verify")) s → s.buf.drop s.read = (utf8 "ro,verify").drop s.read :=
  removeInPlace_eq (fits_matchPatterns (by decide)) (utf8 "ro,verify")

/-! ## The options that are removed -/

/-- The two functions that remove options. -/
inductive Removed where
  | verity
  | encryption

/-- The keys of the options that are removed, in the order they are tried. -/
def Removed.keys : Removed → List (List UInt8)
  | .verity => ["verifyatboot", "verify", "avb_keys", "avb", "support_scfs", "fsverity"].map utf8
  | .encryption => ["forceencrypt", "forcefdeorfbe", "fileencryption"].map utf8

/-- What makes keys distinguishable: they have no byte that separates, and none is
tried before a longer one that starts with it. -/
structure Keys (keys : List (List UInt8)) : Prop where
  nonempty : [] ∉ keys
  plain : ∀ key ∈ keys, ∀ byte ∈ key, byte ∉ [0x2c, 0x3d, 0x20, 0x09, 0x0a, 0x00]
  longest : keys.Pairwise fun key other => ¬ key <+: other

theorem Removed.keys_ok (removed : Removed) : Keys removed.keys := by
  cases removed <;> exact ⟨by decide, by decide +kernel, by decide⟩

/-- `patch_verity` and `patch_encryption` leave in the buffer, up to the size they
return, what the archive code takes them to leave. -/
theorem removeInPlace_eq_removePattern (removed : Removed) (buf : List UInt8) :
    (removeInPlace (matchPatterns removed.keys) (buf.length + 1) buf).map
      (fun result => result.1.take result.2) = some (removePattern removed.keys buf) := by
  obtain ⟨last, ran, copies, atEnd⟩ := (copies_start _ buf).loop
    (fits_matchPatterns removed.keys_ok.nonempty) (Nat.lt_succ_self buf.length)
  obtain ⟨length, cursors, _, _, done, size⟩ := copies
  rw [atEnd, drop_length, kept, append_nil, kept_matchPatterns] at done
  have sz : last.sz = last.write := by omega
  have written : (last.buf.take last.write).length = last.write := by
    rw [length_take]
    omega
  rw [removeInPlace, ran, done, Option.map_some, Option.map_some, Removal.clear, sz,
    take_left' written]

end Magisk.Boot.Patch
