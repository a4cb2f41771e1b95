import Magisk.Boot.Patch.Remove

/-!
# The spans that are reported

`remove_pattern` reports each span it removes as a string, without a check.  The
comma and the key of a span are ASCII; the value is whatever the file has up to the
next blank.
-/

namespace Magisk.Boot.Patch

open List Bytes Boot.Cpio

/-- The loop of `remove_pattern` removes a span of its buffer. -/
def Skips (matcher : Matcher) (buf span : List UInt8) : Prop :=
  ∃ s len, Relation.ReflTransGen (Removal.Next matcher) (.start buf) s ∧ s.read < s.buf.length ∧
    matcher (s.buf.drop s.read) = some len ∧ span = (s.buf.drop s.read).take len

/-- Only bytes below 0x80. -/
def Ascii (text : List UInt8) : Prop :=
  ∀ byte ∈ text, byte < 0x80

/-- No option that is to be removed has a value outside ASCII. -/
def PlainValues (keys : List (List UInt8)) : List UInt8 → Prop
  | [] => True
  | byte :: rest =>
    let comma := commaLen (byte :: rest)
    match keys.find? (·.isPrefixOf ((byte :: rest).drop comma)) with
    | none => PlainValues keys rest
    | some key =>
      let value := valueOf ((byte :: rest).drop (comma + key.length))
      Ascii value ∧ PlainValues keys (rest.drop (comma + key.length + value.length - 1))
termination_by text => text.length

variable {keys : List (List UInt8)} {buf text : List UInt8} {len : Nat} {s : Removal}

theorem valueOf_isPrefix (text : List UInt8) : valueOf text <+: text := by
  unfold valueOf
  split
  · exact takeWhile_prefix _
  · exact nil_prefix

theorem commaLen_ascii (text : List UInt8) : Ascii (text.take (commaLen text)) := by
  intro byte mem
  unfold commaLen at mem
  split at mem
  · rename_i isComma
    obtain ⟨rest, rfl⟩ := head?_eq_some_iff.mp isComma
    rw [mem_singleton.mp mem]
    decide
  · cases mem

/-- A span is ASCII exactly if its value is. -/
theorem ascii_take_iff (ascii : ∀ key ∈ keys, Ascii key) {key : List UInt8}
    (first : keys.find? (·.isPrefixOf (text.drop (commaLen text))) = some key) :
    Ascii (text.take (commaLen text + key.length +
        (valueOf (text.drop (commaLen text + key.length))).length)) ↔
      Ascii (valueOf (text.drop (commaLen text + key.length))) := by
  have isPrefix : key <+: text.drop (commaLen text) := by simpa using find?_some first
  have plain := ascii key (mem_of_find?_eq_some first)
  rw [take_add, take_add, ← prefix_iff_eq_take.mp isPrefix,
    ← prefix_iff_eq_take.mp (valueOf_isPrefix _)]
  simp only [Ascii, mem_append, or_imp, forall_and]
  exact ⟨fun all => all.2, fun value => ⟨⟨commaLen_ascii text, plain⟩, value⟩⟩

theorem plainValues_none {byte : UInt8} {rest : List UInt8}
    (unmatched : matchPatterns keys (byte :: rest) = none) :
    PlainValues keys (byte :: rest) ↔ PlainValues keys rest := by
  rw [matchPatterns_eq, Option.map_eq_none_iff] at unmatched
  rw [PlainValues]
  simp only [unmatched]

theorem plainValues_some (ascii : ∀ key ∈ keys, Ascii key) (nonempty : text ≠ [])
    (positive : 0 < len) (matched : matchPatterns keys text = some len) :
    PlainValues keys text ↔ Ascii (text.take len) ∧ PlainValues keys (text.drop len) := by
  rw [matchPatterns_eq, Option.map_eq_some_iff] at matched
  obtain ⟨key, first, rfl⟩ := matched
  rw [ascii_take_iff ascii first]
  obtain ⟨byte, rest, rfl⟩ := exists_cons_of_ne_nil nonempty
  rw [PlainValues]
  simp only [first]
  obtain ⟨less, isSucc⟩ := Nat.exists_eq_add_of_lt positive
  rw [isSucc, drop_succ_cons, Nat.add_sub_cancel]

section

variable (ok : Keys keys) (ascii : ∀ key ∈ keys, Ascii key)
include ok ascii

/-- One round of the loop. -/
theorem plainValues_round (copies : Copies (matchPatterns keys) buf s)
    (more : s.read < s.buf.length) :
    PlainValues keys (s.buf.drop s.read) ↔
      (∀ len, matchPatterns keys (s.buf.drop s.read) = some len →
        Ascii ((s.buf.drop s.read).take len)) ∧
      PlainValues keys ((s.round (matchPatterns keys)).buf.drop
        (s.round (matchPatterns keys)).read) := by
  have fits := fits_matchPatterns ok.nonempty
  have nonempty : s.buf.drop s.read ≠ [] := drop_eq_nil_iff.not.mpr (Nat.not_le.mpr more)
  rw [(copies.round fits more).1.unread, Removal.round]
  rw [copies.unread] at nonempty ⊢
  cases matched : matchPatterns keys (buf.drop s.read) with
  | some len =>
    rw [plainValues_some ascii nonempty (fits _ nonempty len matched).1 matched]
    simp
  | none =>
    obtain ⟨byte, rest, split⟩ := exists_cons_of_ne_nil nonempty
    rw [← drop_drop]
    rw [split] at matched ⊢
    rw [plainValues_none matched]
    simp

/-- What the loop has still to read has plain values if the buffer has. -/
theorem PlainValues.of_reaches (plain : PlainValues keys buf)
    (reaches : Relation.ReflTransGen (Removal.Next (matchPatterns keys)) (.start buf) s) :
    PlainValues keys (s.buf.drop s.read) := by
  induction reaches with
  | refl => exact plain
  | tail before next ih =>
    have copies := copies_of_reaches (fits_matchPatterns ok.nonempty) before
    rw [next.2]
    exact ((plainValues_round ok ascii copies next.1).mp ih).2

/-- The loop reports the spans of everything it has still to read. -/
theorem plainValues_of_skips (all : ∀ span, Skips (matchPatterns keys) buf span → Ascii span)
    (reaches : Relation.ReflTransGen (Removal.Next (matchPatterns keys)) (.start buf) s) :
    PlainValues keys (s.buf.drop s.read) := by
  have fits := fits_matchPatterns ok.nonempty
  induction left : buf.length - s.read using Nat.strong_induction_on generalizing s with
  | _ left ih =>
    have copies := copies_of_reaches fits reaches
    by_cases more : s.read < s.buf.length
    · have further := (copies.round fits more).2
      have rest := ih _ (by rw [copies.length] at more; omega) (reaches.tail ⟨more, rfl⟩) rfl
      refine (plainValues_round ok ascii copies more).mpr ⟨fun len matched => ?_, rest⟩
      exact all _ ⟨s, len, reaches, more, matched, rfl⟩
    · rw [drop_eq_nil_of_le (Nat.not_lt.mp more), PlainValues]
      trivial

end

/-- Every span that is reported is ASCII exactly if no removed option has a value
outside ASCII. -/
theorem skips_ascii_iff (removed : Removed) (buf : List UInt8) :
    (∀ span, Skips (matchPatterns removed.keys) buf span → Ascii span) ↔
      PlainValues removed.keys buf := by
  have ascii : ∀ key ∈ removed.keys, Ascii key := by
    unfold Ascii
    cases removed <;> decide +kernel
  have ok := removed.keys_ok
  constructor
  · intro all
    exact plainValues_of_skips ok ascii all .refl
  · rintro plain span ⟨s, len, reaches, more, matched, rfl⟩
    have nonempty : s.buf.drop s.read ≠ [] := drop_eq_nil_iff.not.mpr (Nat.not_le.mpr more)
    have positive := (fits_matchPatterns ok.nonempty _ nonempty len matched).1
    have here := plain.of_reaches ok ascii reaches
    exact ((plainValues_some ascii nonempty positive matched).mp here).1

/-- A value of one byte. -/
theorem skips_not_ascii :
    Skips (matchPatterns Removed.verity.keys) (utf8 "verify=" ++ [0xff])
        (utf8 "verify=" ++ [0xff]) ∧ ¬ Ascii (utf8 "verify=" ++ [0xff]) := by
  refine ⟨⟨_, 8, .refl, by decide, by decide +kernel, rfl⟩, fun ascii => ?_⟩
  exact absurd (ascii 0xff (by decide)) (by decide)

end Magisk.Boot.Patch
