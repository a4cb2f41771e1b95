import Magisk.App.Axml.Core

/-!
# Chunks and string pools

A binary XML file is a type, its length and a sequence of chunks, each with its
own length in its second word.  A string pool chunk holds a table of offsets and
the strings they point to.  Here is what the patch reads of such a file.
-/

namespace Magisk.App.Axml

open List Bytes Bytes.Utf16 Result

variable {strings : List (List UInt16)}

/-! ## The format -/

/-- A chunk knows its length. -/
structure Chunk where
  bytes : List UInt8
  long : 8 ≤ bytes.length
  sized : ofLe (window bytes 4 4) = bytes.length

/-- The chunks of a file in order. -/
def flat (chunks : List Chunk) : List UInt8 :=
  chunks.flatMap Chunk.bytes

/-- The file of a type and its chunks. -/
def file (kind : List UInt8) (chunks : List Chunk) : List UInt8 :=
  kind ++ (leBytes 4 (8 + (flat chunks).length) ++ flat chunks)

/-- The chunk is a string pool. -/
def Chunk.IsPool (chunk : Chunk) : Prop :=
  ofLe (window chunk.bytes 0 4) = 0x1C0001

/-- A string is found at a position: its length, and then its characters. -/
structure StoredAt (bytes : List UInt8) (off : Nat) (str : List UInt16) : Prop where
  inside : off + 2 + 2 * str.length ≤ bytes.length
  length : ofLe (window bytes off 2) = str.length
  text : window bytes (off + 2) (2 * str.length) = bytesOf str

/-- Where the string data of a pool starts. -/
def stringsStart (bytes : List UInt8) : Nat :=
  ofLe (window bytes 20 4)

/-- The chunk is a UTF-16 string pool without styles that holds the strings. -/
structure Pool (chunk : Chunk) (strings : List (List UInt16)) : Prop where
  isPool : chunk.IsPool
  count : ofLe (window chunk.bytes 8 4) = strings.length
  noStyles : ofLe (window chunk.bytes 12 4) = 0
  utf16 : ofLe (window chunk.bytes 16 4) &&& 0x100 = 0
  table : 28 + 4 * strings.length ≤ stringsStart chunk.bytes
  start : stringsStart chunk.bytes ≤ chunk.bytes.length
  stored : ∀ index (known : index < strings.length),
    StoredAt chunk.bytes
      (stringsStart chunk.bytes + ofLe (window chunk.bytes (28 + 4 * index) 4))
      (strings.get ⟨index, known⟩)

/-- Text that a pool can hold with a length of one unit. -/
def Storable (str : List UInt16) : Prop :=
  Valid str ∧ str.length < 0x8000

/-! ## Finding the pool -/

section Reading

variable (front middle rest : List UInt8) {pos : Int} {offset : Nat}

theorem getInt_append (posEq : pos = front.length + offset) (inside : offset + 4 ≤ middle.length) :
    getInt (front ++ (middle ++ rest)) pos = .ok (i32 (ofLe (window middle offset 4))) := by
  have bounds : 0 ≤ pos ∧ pos + 4 ≤ ((front ++ (middle ++ rest)).length : Int) := by
    rw [length_append, length_append]
    omega
  have natural : pos.toNat = front.length + offset := by omega
  rw [getInt, if_pos bounds, natural, window_append_right (by omega), Nat.add_sub_cancel_left,
    window_append_left inside]

theorem getShort_append (posEq : pos = front.length + offset)
    (inside : offset + 2 ≤ middle.length) :
    getShort (front ++ (middle ++ rest)) pos =
      .ok ((ofLe (window middle offset 2) : Int).bmod (2 ^ 16)) := by
  have bounds : 0 ≤ pos ∧ pos + 2 ≤ ((front ++ (middle ++ rest)).length : Int) := by
    rw [length_append, length_append]
    omega
  have natural : pos.toNat = front.length + offset := by omega
  rw [getShort, if_pos bounds, natural, window_append_right (by omega), Nat.add_sub_cancel_left,
    window_append_left inside]

theorem newString_append {count : Nat} (posEq : pos = front.length + offset)
    (inside : offset + count ≤ middle.length) :
    newString (front ++ (middle ++ rest)) pos count =
      .ok (decode (window middle offset count)) := by
  have bounds : 0 ≤ pos ∧ (0 : Int) ≤ count ∧
      pos + count ≤ ((front ++ (middle ++ rest)).length : Int) := by
    rw [length_append, length_append]
    omega
  have natural : pos.toNat = front.length + offset := by omega
  rw [newString, if_pos bounds, natural, Int.toNat_natCast, window_append_right (by omega),
    Nat.add_sub_cancel_left, window_append_left inside]

end Reading

theorem flat_cons (chunk : Chunk) (chunks : List Chunk) :
    flat (chunk :: chunks) = chunk.bytes ++ flat chunks :=
  flatMap_cons

/-- The first two words of a chunk as the search reads them. -/
theorem getInt_chunk (front rest : List UInt8) (chunk : Chunk)
    (small : chunk.bytes.length < 2 ^ 31) :
    (∃ type, getInt (front ++ (chunk.bytes ++ rest)) front.length = .ok type ∧
      (type = 0x1C0001 ↔ chunk.IsPool)) ∧
    getInt (front ++ (chunk.bytes ++ rest)) (front.length + chunkSizeOff) =
      .ok chunk.bytes.length := by
  have long := chunk.long
  have typePos : (front.length : Int) = front.length + (0 : Nat) := by omega
  have sizePos : front.length + chunkSizeOff = front.length + (4 : Nat) := rfl
  constructor
  · refine ⟨_, getInt_append front chunk.bytes rest typePos (by omega), ?_⟩
    have bound := ofLe_lt (window chunk.bytes 0 4)
    rw [length_window (by omega)] at bound
    rw [i32, Int.bmod_def, Chunk.IsPool]
    omega
  · rw [getInt_append front chunk.bytes rest sizePos (by omega), chunk.sized, i32_natCast small]

variable {pool : Chunk}

/-- The search steps over the chunks in front of the pool. -/
theorem findStringPool_chunks {front : List UInt8} {before : List Chunk} (after : List UInt8)
    {rounds : Nat} (enough : before.length < rounds) (other : ∀ chunk ∈ before, ¬ chunk.IsPool)
    (isPool : pool.IsPool)
    (small : (front ++ (flat before ++ (pool.bytes ++ after))).length < 2 ^ 31) :
    findStringPool (front ++ (flat before ++ (pool.bytes ++ after))) rounds front.length =
      .ok (front.length + (flat before).length : Nat) := by
  induction before generalizing front rounds with
  | nil =>
    obtain ⟨rounds, rfl⟩ := Nat.exists_eq_succ_of_ne_zero (Nat.ne_of_gt enough)
    have long := pool.long
    simp only [length_append] at small
    have inside : (front.length : Int) < (front ++ (pool.bytes ++ after)).length := by
      simp only [length_append]
      omega
    obtain ⟨⟨type, read, typeIff⟩, _⟩ := getInt_chunk front after pool (by omega)
    change findStringPool (front ++ (pool.bytes ++ after)) _ _ = _
    rw [findStringPool, if_pos inside, read, ok_bind, if_pos (typeIff.mpr isPool)]
    rfl
  | cons chunk before ih =>
    obtain ⟨rounds, rfl⟩ := Nat.exists_eq_succ_of_ne_zero (Nat.ne_of_gt (Nat.zero_lt_of_lt enough))
    have long := chunk.long
    have regroup : front ++ (flat (chunk :: before) ++ (pool.bytes ++ after)) =
        front ++ (chunk.bytes ++ (flat before ++ (pool.bytes ++ after))) := by
      rw [flat_cons, append_assoc]
    have shifted : front ++ (chunk.bytes ++ (flat before ++ (pool.bytes ++ after))) =
        (front ++ chunk.bytes) ++ (flat before ++ (pool.bytes ++ after)) :=
      (append_assoc _ _ _).symm
    rw [regroup] at small ⊢
    have later := small
    rw [shifted] at later
    simp only [length_append] at small
    have inside : (front.length : Int) <
        (front ++ (chunk.bytes ++ (flat before ++ (pool.bytes ++ after)))).length := by
      simp only [length_append]
      omega
    obtain ⟨⟨type, read, typeIff⟩, size⟩ :=
      getInt_chunk front (flat before ++ (pool.bytes ++ after)) chunk (by omega)
    have different : type ≠ 0x1C0001 := fun same =>
      other chunk mem_cons_self (typeIff.mp same)
    have next : i32 (front.length + chunk.bytes.length) =
        ((front ++ chunk.bytes).length : Nat) := by
      rw [length_append, i32_eq (by omega) (by omega)]
      omega
    have fewer : before.length < rounds := Nat.lt_of_succ_lt_succ enough
    have found := ih fewer (fun chunk mem => other chunk (mem_cons_of_mem _ mem)) later
    rw [findStringPool, if_pos inside, read, ok_bind, if_neg different, size, ok_bind, next,
      shifted, found, flat_cons]
    simp only [length_append, Nat.add_assoc]

/-! ## Reading the strings -/

/-- Reading the strings one by one gives the list of them. -/
theorem readStrings_eq {bytes : List UInt8} {dataOff pos : Int}
    (each : ∀ index (known : index < strings.length),
      readString bytes dataOff (pos + (4 * index : Nat)) = .ok (strings.get ⟨index, known⟩)) :
    readStrings bytes dataOff strings.length pos = .ok strings := by
  induction strings generalizing pos with
  | nil => rfl
  | cons str strings ih =>
    have first : readString bytes dataOff pos = .ok str := by
      simpa using each 0 (Nat.succ_pos _)
    have later : readStrings bytes dataOff strings.length (pos + 4) = .ok strings := by
      apply ih
      intro index known
      have shifted : pos + 4 + (4 * index : Nat) = pos + (4 * (index + 1) : Nat) := by omega
      rw [shifted]
      exact each (index + 1) (Nat.succ_lt_succ known)
    rw [length_cons, readStrings, first, later]
    rfl

/-- A stored string is read back. -/
theorem readString_stored (front rest : List UInt8) (holds : Pool pool strings)
    (small : front.length + pool.bytes.length < 2 ^ 31) {index : Nat}
    (known : index < strings.length) (storable : Storable (strings.get ⟨index, known⟩)) :
    readString (front ++ (pool.bytes ++ rest)) (front.length + stringsStart pool.bytes : Nat)
        (front.length + stringIndicesOff + (4 * index : Nat)) =
      .ok (strings.get ⟨index, known⟩) := by
  have stored := holds.stored index known
  have table := holds.table
  generalize strings.get ⟨index, known⟩ = str at *
  generalize readOff : ofLe (window pool.bytes (28 + 4 * index) 4) = off at *
  have inside := stored.inside
  have indexPos : front.length + stringIndicesOff + (4 * index : Nat) =
      front.length + (28 + 4 * index : Nat) := by
    rw [stringIndicesOff]
    omega
  have indexRead := getInt_append front pool.bytes rest indexPos (by omega)
  rw [readOff, i32_natCast (by omega)] at indexRead
  have offEq : i32 ((front.length + stringsStart pool.bytes : Nat) + off) =
      front.length + (stringsStart pool.bytes + off : Nat) := by
    rw [i32_eq (by omega) (by omega)]
    omega
  have textPos : i32 (i32 ((front.length + stringsStart pool.bytes : Nat) + off) + 2) =
      front.length + (stringsStart pool.bytes + off + 2 : Nat) := by
    rw [i32_eq (by omega) (by omega)]
    omega
  have textRead : newString (front ++ (pool.bytes ++ rest)) _ (2 * str.length : Nat) = _ :=
    newString_append front pool.bytes rest textPos (by omega)
  have lengthRead := getShort_append front pool.bytes rest offEq (by omega)
  have short := storable.2
  have lengthEq : (str.length : Int).bmod (2 ^ 16) = str.length :=
    Int.bmod_eq_of_le (by omega) (by omega)
  rw [stored.length, lengthEq] at lengthRead
  have doubled : (str.length : Int) * 2 = (2 * str.length : Nat) := by omega
  rw [readString, indexRead, ok_bind]
  dsimp only
  rw [lengthRead, ok_bind, doubled, textRead, stored.text, decode_bytesOf storable.1]

/-- The header of the pool as it is read. -/
theorem readHeader_eq (front rest : List UInt8) (holds : Pool pool strings)
    (small : front.length + pool.bytes.length < 2 ^ 31) :
    ∃ header, readHeader (front ++ (pool.bytes ++ rest)) front.length = .ok header ∧
      header.size = pool.bytes.length ∧ header.count = strings.length ∧
      header.dataOff = (front.length + stringsStart pool.bytes : Nat) := by
  have table := holds.table
  have start := holds.start
  have field : ∀ offset : Nat, offset + 4 ≤ pool.bytes.length →
      getInt (front ++ (pool.bytes ++ rest)) (front.length + offset) =
        .ok (i32 (ofLe (window pool.bytes offset 4))) :=
    fun offset inside => getInt_append front pool.bytes rest rfl inside
  have sizeRead := field 4 (by omega)
  have countRead := field 8 (by omega)
  have stylesRead := field 12 (by omega)
  have flagsRead := field 16 (by omega)
  have stringsRead := field 20 (by omega)
  have lastRead := field 24 (by omega)
  rw [pool.sized, i32_natCast (by omega)] at sizeRead
  rw [holds.count, i32_natCast (by omega)] at countRead
  change getInt _ _ = .ok (i32 (stringsStart pool.bytes : Nat)) at stringsRead
  rw [i32_natCast (by omega)] at stringsRead
  have dataOff : i32 (front.length + (stringsStart pool.bytes : Nat)) =
      (front.length + stringsStart pool.bytes : Nat) := by
    rw [i32_eq (by omega) (by omega), Nat.cast_add]
  push_cast at sizeRead countRead stylesRead flagsRead stringsRead lastRead
  have ran : readHeader (front ++ (pool.bytes ++ rest)) front.length =
      .ok ⟨pool.bytes.length, strings.length,
        i32 (front.length + (stringsStart pool.bytes : Nat))⟩ := by
    rw [readHeader, sizeRead, countRead, stylesRead, flagsRead, stringsRead, lastRead]
    rfl
  rw [dataOff] at ran
  exact ⟨_, ran, rfl, rfl, rfl⟩

end Magisk.App.Axml
