import Magisk.App.Axml.Format

/-!
# The new pool

What the patch writes: the front of the file, the new strings one behind another,
padding, and then the sizes and the table patched into what was written.  The
result is a pool again, and holds the new strings.
-/

namespace Magisk.App.Axml

open List Bytes Bytes.Utf16 Result

variable {values : List Nat} {index : Nat} {str : List UInt16} {stream : RawByteStream} {pos : Int}

/-! ## Writing -/

theorem intBytes_natCast (value : Nat) : intBytes value = leBytes 4 value := by
  have reduced : ((value : Int) % 2 ^ 32).toNat = value % 256 ^ 4 := by omega
  rw [intBytes, reduced, leBytes_mod]

@[simp]
theorem length_intBytes (value : Int) : (intBytes value).length = 4 := length_leBytes _ _

namespace RawByteStream

section

variable (stream : RawByteStream)

theorem length_toByteArray : stream.toByteArray.length = stream.count :=
  length_take_of_le stream.inside

theorem take_grown (needed : Nat) :
    (grown stream.buf needed).take stream.count = stream.toByteArray := by
  rw [grown]
  split
  · rfl
  · exact take_append_of_le_length stream.inside

/-- What is written stands behind what was written before. -/
theorem write_eq (bytes : List UInt8) (fits : stream.toByteArray.length + bytes.length < 2 ^ 31) :
    ∃ next, stream.write bytes = .ok next ∧
      next.toByteArray = stream.toByteArray ++ bytes := by
  rw [length_toByteArray] at fits
  refine ⟨_, if_pos fits, ?_⟩
  have room := le_length_grown stream.buf (stream.count + bytes.length)
  have front := take_grown stream (stream.count + bytes.length)
  change (poke (grown stream.buf (stream.count + bytes.length)) stream.count bytes).take
    (stream.count + bytes.length) = _
  rw [poke_eq_of_le room, ← append_assoc, front]
  apply take_left'
  rw [length_append, length_toByteArray]

theorem writeRange_eq {bytes : List UInt8} {off len : Nat} (inside : off + len ≤ bytes.length)
    (fits : stream.toByteArray.length + len < 2 ^ 31) :
    ∃ next, stream.writeRange bytes off len = .ok next ∧
      next.toByteArray = stream.toByteArray ++ window bytes off len := by
  have bounds : (0 : Int) ≤ off ∧ (0 : Int) ≤ len ∧ (off + len : Int) ≤ bytes.length := by omega
  rw [writeRange, if_pos bounds, Int.toNat_natCast, Int.toNat_natCast]
  apply write_eq
  rwa [length_window inside]

theorem writeZeros_eq {count : Nat} (fits : stream.toByteArray.length + count < 2 ^ 31) :
    ∃ next, writeZeros count stream = .ok next ∧
      next.toByteArray = stream.toByteArray ++ zeros count := by
  induction count generalizing stream with
  | zero => exact ⟨stream, rfl, (append_nil _).symm⟩
  | succ count ih =>
    obtain ⟨next, wrote, contents⟩ := stream.write_eq [0] (by simp; omega)
    obtain ⟨last, rest, all⟩ := ih next (by rw [contents]; simp; omega)
    refine ⟨last, ?_, ?_⟩
    · rw [writeZeros, wrote, ok_bind, rest]
    · rw [all, contents, append_assoc]
      rfl

/-- Zeros up to the next multiple of four. -/
theorem align_eq (fits : alignTo stream.toByteArray.length 4 < 2 ^ 31) :
    ∃ next, stream.align = .ok next ∧
      next.toByteArray = stream.toByteArray ++
        zeros (alignTo stream.toByteArray.length 4 - stream.toByteArray.length) := by
  have above : stream.toByteArray.length ≤ alignTo stream.toByteArray.length 4 :=
    le_alignTo (by decide)
  have missing : (i32 ((i32 (stream.count + 4 - 1)).tdiv 4 * 4 - stream.count)).toNat =
      alignTo stream.toByteArray.length 4 - stream.toByteArray.length := by
    rw [length_toByteArray, alignTo] at *
    have inner : i32 (stream.count + 4 - 1) = stream.count + 4 - 1 := i32_eq (by omega) (by omega)
    rw [Int.tdiv_eq_ediv_of_nonneg (by omega), i32_eq (by omega) (by omega)]
    omega
  rw [align, missing]
  apply writeZeros_eq
  omega

end

end RawByteStream

/-- A string of the pool as it is written. -/
def record (str : List UInt16) : List UInt8 :=
  leBytes 2 str.length ++ (bytesOf str ++ [0, 0])

theorem length_record (str : List UInt16) : (record str).length = 4 + 2 * str.length := by
  simp only [record, length_append, length_leBytes, length_bytesOf, length_cons, length_nil]
  omega

/-- Where the strings start when the first one does at `base`. -/
def offsets : Nat → List (List UInt16) → List Nat
  | _, [] => []
  | base, str :: rest => base :: offsets (base + (record str).length) rest

theorem writeString_eq (stream : RawByteStream) (valid : Valid str)
    (fits : stream.toByteArray.length + (record str).length < 2 ^ 31) :
    ∃ next, writeString stream str = .ok next ∧
      next.toByteArray = stream.toByteArray ++ record str := by
  rw [length_record] at fits
  obtain ⟨first, wroteLength, firstEq⟩ := stream.write_eq (leBytes 2 str.length)
    (by rw [length_leBytes]; omega)
  obtain ⟨second, wroteText, secondEq⟩ := first.write_eq (encode str)
    (by simp only [firstEq, encode_of_valid valid, length_append, length_leBytes,
          length_bytesOf]; omega)
  obtain ⟨third, wroteNul, thirdEq⟩ := second.write_eq [0]
    (by simp only [secondEq, firstEq, encode_of_valid valid, length_append, length_leBytes,
          length_bytesOf, length_cons, length_nil]; omega)
  obtain ⟨last, wroteLast, lastEq⟩ := third.write_eq [0]
    (by simp only [thirdEq, secondEq, firstEq, encode_of_valid valid, length_append,
          length_leBytes, length_bytesOf, length_cons, length_nil]; omega)
  refine ⟨last, ?_, ?_⟩
  · rw [writeString, wroteLength, ok_bind, wroteText, ok_bind, wroteNul, ok_bind, wroteLast]
  · rw [lastEq, thirdEq, secondEq, firstEq, encode_of_valid valid]
    simp only [append_assoc]
    rfl

variable {strs : List (List UInt16)}

theorem writeStrings_eq (stream : RawByteStream) {dataOff base : Nat}
    (valid : ∀ str ∈ strs, Valid str) (baseEq : stream.toByteArray.length = dataOff + base)
    (fits : stream.toByteArray.length + (strs.flatMap record).length < 2 ^ 31) :
    ∃ next, writeStrings dataOff strs stream = .ok ((offsets base strs).map Int.ofNat, next) ∧
      next.toByteArray = stream.toByteArray ++ strs.flatMap record := by
  induction strs generalizing stream base with
  | nil => exact ⟨stream, rfl, (append_nil _).symm⟩
  | cons str strs ih =>
    rw [flatMap_cons, length_append] at fits
    obtain ⟨next, wrote, contents⟩ := writeString_eq stream (valid str mem_cons_self) (by omega)
    have nextLength : next.toByteArray.length = dataOff + (base + (record str).length) := by
      rw [contents, length_append]
      omega
    obtain ⟨last, rest, all⟩ := ih next
      (fun other mem => valid other (mem_cons_of_mem _ mem)) nextLength (by omega)
    have off : i32 (stream.count - dataOff) = Int.ofNat base := by
      rw [← stream.length_toByteArray, i32_eq (by omega) (by omega)]
      change _ = (base : Int)
      omega
    refine ⟨last, ?_, ?_⟩
    · rw [writeStrings, off]
      rw [wrote, ok_bind, rest]
      rfl
    · rw [all, contents, flatMap_cons, append_assoc]

/-! ## Patching the buffer -/

theorem putInt_middle (left middle right : List UInt8) (value : Int) (posEq : pos = left.length)
    (four : middle.length = 4) :
    putInt (left ++ (middle ++ right)) pos value = .ok (left ++ (intBytes value ++ right)) := by
  have bounds : 0 ≤ pos ∧ pos + 4 ≤ ((left ++ (middle ++ right)).length : Int) := by
    rw [length_append, length_append]
    omega
  rw [putInt, if_pos bounds, poke_append_middle (by omega) (by rw [length_intBytes, four])]

theorem putInts_middle {left middle : List UInt8} (right : List UInt8) (posEq : pos = left.length)
    (words : middle.length = 4 * values.length) :
    putInts (left ++ (middle ++ right)) pos (values.map Int.ofNat) =
      .ok (left ++ (values.flatMap (leBytes 4) ++ right)) := by
  induction values generalizing left middle pos with
  | nil =>
    have empty : middle = [] := eq_nil_of_length_eq_zero words
    rw [empty]
    rfl
  | cons value values ih =>
    rw [length_cons] at words
    have regroup : left ++ (middle ++ right) =
        left ++ (middle.take 4 ++ (middle.drop 4 ++ right)) := by
      rw [← append_assoc (middle.take 4), take_append_drop]
    have four : (middle.take 4).length = 4 := length_take_of_le (by omega)
    have first := putInt_middle left (middle.take 4) (middle.drop 4 ++ right) (Int.ofNat value)
      posEq four
    have bytes : intBytes (Int.ofNat value) = leBytes 4 value := intBytes_natCast value
    have later : putInts (left ++ leBytes 4 value ++ (middle.drop 4 ++ right)) (pos + 4)
        (values.map Int.ofNat) = .ok _ :=
      ih (by rw [length_append, length_leBytes]; omega) (by rw [length_drop]; omega)
    rw [map_cons, putInts, regroup, first, ok_bind, bytes, ← append_assoc, later, flatMap_cons]
    simp only [append_assoc]

theorem patchStream_of_ok {bytes buf : List UInt8} {start : Int} {header : Header}
    {offList : List Int} (patched : patchSizes bytes start header offList stream = .ok buf) :
    ∃ inside, patchStream bytes start header offList stream = .ok ⟨buf, stream.count, inside⟩ := by
  unfold patchStream
  split
  · rename_i found same
    cases patched.symm.trans same
    exact ⟨length_patchSizes patched ▸ stream.inside, rfl⟩
  · rename_i exn same
    cases patched.symm.trans same

theorem length_table (values : List Nat) :
    (values.flatMap (leBytes 4)).length = 4 * values.length := by
  induction values with
  | nil => rfl
  | cons value values ih =>
    rw [flatMap_cons, length_append, length_leBytes, length_cons]
    omega

/-- The parts of the output up to the end of the pool's table. -/
structure Parts where
  kind : List UInt8
  total : List UInt8
  before : List UInt8
  type : List UInt8
  size : List UInt8
  fields : List UInt8
  table : List UInt8
  kindLength : kind.length = 4
  totalLength : total.length = 4
  typeLength : type.length = 4
  sizeLength : size.length = 4
  fieldsLength : fields.length = 20

namespace Parts

variable {total : Int}

/-- The parts one after another, and what follows them. -/
def joined (parts : Parts) (rest : List UInt8) : List UInt8 :=
  parts.kind ++ (parts.total ++ (parts.before ++ (parts.type ++ (parts.size ++ (parts.fields ++
    (parts.table ++ rest))))))

/-- The parts with another length of the file. -/
def withTotal (parts : Parts) (total : Int) : Parts :=
  { parts with total := intBytes total, totalLength := length_intBytes total }

/-- The parts with another length of the pool. -/
def withSize (parts : Parts) (size : Int) : Parts :=
  { parts with size := intBytes size, sizeLength := length_intBytes size }

/-- The parts with another table. -/
def withTable (parts : Parts) (values : List Nat) : Parts :=
  { parts with table := values.flatMap (leBytes 4) }

variable (parts : Parts) (rest : List UInt8)

theorem putInt_total (value : Int) :
    putInt (parts.joined rest) chunkSizeOff value = .ok ((parts.withTotal value).joined rest) :=
  putInt_middle parts.kind parts.total _ value (by rw [parts.kindLength]; rfl) parts.totalLength

variable {start : Int}

theorem putInt_size (startEq : start = 8 + parts.before.length) (value : Int) :
    putInt (parts.joined rest) (start + chunkSizeOff) value =
      .ok ((parts.withSize value).joined rest) := by
  have atSize : start + chunkSizeOff =
      (parts.kind ++ (parts.total ++ (parts.before ++ parts.type))).length := by
    simp only [length_append, parts.kindLength, parts.totalLength, parts.typeLength, chunkSizeOff]
    omega
  have put := putInt_middle _ parts.size (parts.fields ++ (parts.table ++ rest)) value atSize
    parts.sizeLength
  simpa only [joined, withSize, append_assoc] using put

theorem putInts_table (startEq : start = 8 + parts.before.length)
    (words : parts.table.length = 4 * values.length) :
    putInts (parts.joined rest) (start + stringIndicesOff) (values.map Int.ofNat) =
      .ok ((parts.withTable values).joined rest) := by
  have atTable : start + stringIndicesOff = (parts.kind ++ (parts.total ++ (parts.before ++
      (parts.type ++ (parts.size ++ parts.fields))))).length := by
    simp only [length_append, parts.kindLength, parts.totalLength, parts.typeLength,
      parts.sizeLength, parts.fieldsLength, stringIndicesOff]
    omega
  have put := putInts_middle rest atTable words
  simpa only [joined, withTable, append_assoc] using put

theorem length_joined :
    (parts.joined rest).length = 36 + parts.before.length + parts.table.length + rest.length := by
  simp only [joined, length_append, parts.kindLength, parts.totalLength, parts.typeLength,
    parts.sizeLength, parts.fieldsLength]
  omega

/-- The sizes and the table are replaced, everything else stays. -/
theorem patchSizes_eq (header : Header) {bytes : List UInt8}
    (buffer : stream.buf = parts.joined rest) (startEq : start = 8 + parts.before.length)
    (words : parts.table.length = 4 * values.length)
    (totalRead : getInt bytes chunkSizeOff = .ok total) :
    patchSizes bytes start header (values.map Int.ofNat) stream =
      .ok ((((parts.withTotal (i32 (total + sizeDiff stream start header))).withSize
        (i32 (header.size + sizeDiff stream start header))).withTable values).joined rest) := by
  generalize sized : (parts.withTotal (i32 (total + sizeDiff stream start header))).withSize
    (i32 (header.size + sizeDiff stream start header)) = result
  have sameBefore : result.before = parts.before := by rw [← sized]; rfl
  have sameTable : result.table = parts.table := by rw [← sized]; rfl
  have putSize := putInt_size (parts.withTotal (i32 (total + sizeDiff stream start header))) rest
    startEq (i32 (header.size + sizeDiff stream start header))
  have putTable := putInts_table result rest (sameBefore ▸ startEq) (sameTable ▸ words)
  have position : start + stringIndicesOff ≤ (result.joined rest).length := by
    rw [length_joined, sameBefore, stringIndicesOff]
    omega
  rw [sized] at putSize
  rw [patchSizes, totalRead, ok_bind, buffer, putInt_total, ok_bind, putSize, ok_bind,
    if_pos position, putTable]

theorem joined_append (slack : List UInt8) :
    parts.joined (rest ++ slack) = parts.joined rest ++ slack := by
  simp only [joined, append_assoc]

/-- Patching the stream keeps what follows the table. -/
theorem patchStream_eq (header : Header) {bytes : List UInt8}
    (contents : stream.toByteArray = parts.joined rest) (startEq : start = 8 + parts.before.length)
    (words : parts.table.length = 4 * values.length)
    (totalRead : getInt bytes chunkSizeOff = .ok total) :
    ∃ next, patchStream bytes start header (values.map Int.ofNat) stream = .ok next ∧
      next.toByteArray = (((parts.withTotal (i32 (total + sizeDiff stream start header))).withSize
        (i32 (header.size + sizeDiff stream start header))).withTable values).joined rest := by
  have buffer : stream.buf = parts.joined (rest ++ stream.buf.drop stream.count) := by
    rw [joined_append, ← contents]
    exact (take_append_drop _ _).symm
  have patched := patchSizes_eq parts _ header buffer startEq words totalRead
  rw [joined_append] at patched
  obtain ⟨inside, made⟩ := patchStream_of_ok patched
  refine ⟨_, made, ?_⟩
  have whole : stream.count = (parts.joined rest).length := by
    rw [← contents, stream.length_toByteArray]
  change List.take stream.count (_ ++ _) = _
  rw [whole]
  apply take_left'
  rw [length_joined, length_joined, words, ← length_table]
  rfl

end Parts

/-! ## The new pool -/

section Repacked

variable (start : Nat) (bytes : List UInt8) (strs : List (List UInt16))

/-- Where the new pool ends. -/
def poolEnd : Nat :=
  alignTo (start + stringsStart bytes + (strs.flatMap record).length) 4

/-- What follows the table: what was between it and the strings, the strings, and
the padding. -/
def poolRest : List UInt8 :=
  window bytes (28 + 4 * strs.length) (stringsStart bytes - (28 + 4 * strs.length)) ++
    (strs.flatMap record ++
      zeros (poolEnd start bytes strs -
        (start + stringsStart bytes + (strs.flatMap record).length)))

/-- The pool with the strings in place of its own. -/
def repacked : List UInt8 :=
  window bytes 0 4 ++ (leBytes 4 (poolEnd start bytes strs - start) ++ (window bytes 8 20 ++
    ((offsets 0 strs).flatMap (leBytes 4) ++ poolRest start bytes strs)))

end Repacked

theorem length_offsets (base : Nat) (strs : List (List UInt16)) :
    (offsets base strs).length = strs.length := by
  induction strs generalizing base with
  | nil => rfl
  | cons str strs ih => rw [offsets, length_cons, length_cons, ih]

section Fits

variable {pool : Chunk} {strings : List (List UInt16)} {start : Nat}

theorem le_poolEnd (start : Nat) (bytes : List UInt8) (strs : List (List UInt16)) :
    start + stringsStart bytes + (strs.flatMap record).length ≤ poolEnd start bytes strs :=
  le_alignTo (by decide)

theorem length_repacked (holds : Pool pool strings) {strs : List (List UInt16)}
    (same : strs.length = strings.length) :
    (repacked start pool.bytes strs).length = poolEnd start pool.bytes strs - start := by
  have table := holds.table
  have inside := holds.start
  have above := le_poolEnd start pool.bytes strs
  simp only [repacked, poolRest, length_append, length_leBytes, length_table, length_offsets,
    length_zeros]
  rw [length_window (by omega), length_window (by omega), length_window (by omega)]
  omega

/-- The front of the old pool in its parts. -/
theorem take_stringsStart (holds : Pool pool strings) : pool.bytes.take (stringsStart pool.bytes) =
      window pool.bytes 0 4 ++ (window pool.bytes 4 4 ++ (window pool.bytes 8 20 ++
        (window pool.bytes 28 (4 * strings.length) ++ window pool.bytes (28 + 4 * strings.length)
            (stringsStart pool.bytes - (28 + 4 * strings.length))))) := by
  have table := holds.table
  have joined := fun first second third => window_append_window pool.bytes first second third
  rw [joined 28, joined 8 20, joined 4 4, joined 0 4]
  congr 1
  omega

end Fits

/-! ## The new pool holds the new strings -/

theorem flatMap_split {α β : Type} (part : α → List β) {list : List α}
    (known : index < list.length) :
    list.flatMap part = (list.take index).flatMap part ++
      (part (list.get ⟨index, known⟩) ++ (list.drop (index + 1)).flatMap part) := by
  conv_lhs => rw [← take_append_drop index list, drop_eq_getElem_cons known]
  rw [flatMap_append]
  rfl

/-- The offset of a string is the length of the strings in front of it. -/
theorem getElem?_offsets (base : Nat) (known : index < strs.length) :
    (offsets base strs)[index]? = some (base + ((strs.take index).flatMap record).length) := by
  induction strs generalizing base index with
  | nil => exact absurd known (Nat.not_lt_zero _)
  | cons str strs ih =>
    cases index with
    | zero => rfl
    | succ index =>
      rw [offsets, getElem?_cons_succ, ih _ (Nat.lt_of_succ_lt_succ known),
        take_succ_cons, flatMap_cons, length_append, Nat.add_assoc]

/-- A written string is found where it was written. -/
theorem storedAt_record (left right : List UInt8) (short : str.length < 0x8000) :
    StoredAt (left ++ (record str ++ right)) left.length str := by
  have wide := length_record str
  constructor
  · simp only [length_append]
    omega
  · rw [window_append_right le_rfl, Nat.sub_self, window_append_left (by omega), record,
      window_append_left (by simp), window_zero, take_of_length_le (by simp),
      ofLe_leBytes_of_lt (by omega)]
  · rw [window_append_right (by omega), Nat.add_sub_cancel_left, window_append_left (by omega)]
    have text := window_append_middle (leBytes 2 str.length) (bytesOf str) [0, 0]
    rwa [length_bytesOf] at text

section NewPool

variable {pool : Chunk} {strings strs : List (List UInt16)} {start : Nat}

section

variable (holds : Pool pool strings)
include holds

/-- The part of the header between the size and the table is kept. -/
theorem window_repacked_fields {offset : Nat} (low : 8 ≤ offset) (high : offset + 4 ≤ 28) :
    window (repacked start pool.bytes strs) offset 4 = window pool.bytes offset 4 := by
  have table := holds.table
  have inside := holds.start
  have typeLength : (window pool.bytes 0 4).length = 4 := length_window (by omega)
  have fieldsLength : (window pool.bytes 8 20).length = 20 := length_window (by omega)
  rw [repacked, window_append_right (by omega),
    window_append_right (by rw [length_leBytes]; omega), length_leBytes,
    window_append_left (by omega), window_window (by omega)]
  congr 1
  omega

theorem stringsStart_repacked :
    stringsStart (repacked start pool.bytes strs) = stringsStart pool.bytes := by
  rw [stringsStart, window_repacked_fields holds (by decide) (by decide)]
  rfl

theorem window_repacked_type :
    window (repacked start pool.bytes strs) 0 4 = window pool.bytes 0 4 := by
  have table := holds.table
  have inside := holds.start
  have typeLength : (window pool.bytes 0 4).length = 4 := length_window (by omega)
  rw [repacked, window_append_left (by omega), window_window (by omega)]

theorem window_repacked_size :
    window (repacked start pool.bytes strs) 4 4 =
      leBytes 4 (poolEnd start pool.bytes strs - start) := by
  have table := holds.table
  have inside := holds.start
  have typeLength : (window pool.bytes 0 4).length = 4 := length_window (by omega)
  have size := window_append_middle (window pool.bytes 0 4)
    (leBytes 4 (poolEnd start pool.bytes strs - start))
    (window pool.bytes 8 20 ++ ((offsets 0 strs).flatMap (leBytes 4) ++
      poolRest start pool.bytes strs))
  rwa [typeLength] at size

/-- The table holds the offsets. -/
theorem window_repacked_table (known : index < strs.length) :
    window (repacked start pool.bytes strs) (28 + 4 * index) 4 =
      leBytes 4 ((strs.take index).flatMap record).length := by
  have table := holds.table
  have inside := holds.start
  have listed : index < (offsets 0 strs).length := by rwa [length_offsets]
  have value : (offsets 0 strs).get ⟨index, listed⟩ =
      ((strs.take index).flatMap record).length := by
    have found := getElem?_offsets 0 known
    rw [getElem?_eq_getElem listed, Option.some.injEq, Nat.zero_add] at found
    exact found
  have split : repacked start pool.bytes strs =
      (window pool.bytes 0 4 ++ (leBytes 4 (poolEnd start pool.bytes strs - start) ++
        (window pool.bytes 8 20 ++ ((offsets 0 strs).take index).flatMap (leBytes 4)))) ++
      (leBytes 4 ((strs.take index).flatMap record).length ++
        (((offsets 0 strs).drop (index + 1)).flatMap (leBytes 4) ++
          poolRest start pool.bytes strs)) := by
    rw [repacked, flatMap_split (leBytes 4) listed, value]
    simp only [append_assoc]
  have position : (window pool.bytes 0 4 ++ (leBytes 4 (poolEnd start pool.bytes strs - start) ++
      (window pool.bytes 8 20 ++ ((offsets 0 strs).take index).flatMap (leBytes 4)))).length =
      28 + 4 * index := by
    simp only [length_append, length_leBytes, length_table]
    rw [length_window (by omega), length_window (by omega), length_take_of_le (by omega)]
    omega
  have entry := window_append_middle
    (window pool.bytes 0 4 ++ (leBytes 4 (poolEnd start pool.bytes strs - start) ++
      (window pool.bytes 8 20 ++ ((offsets 0 strs).take index).flatMap (leBytes 4))))
    (leBytes 4 ((strs.take index).flatMap record).length)
    (((offsets 0 strs).drop (index + 1)).flatMap (leBytes 4) ++ poolRest start pool.bytes strs)
  rwa [position, ← split] at entry

/-- The strings stand where the table says. -/
theorem storedAt_repacked (same : strs.length = strings.length) (known : index < strs.length)
    (short : (strs.get ⟨index, known⟩).length < 0x8000) :
    StoredAt (repacked start pool.bytes strs)
      (stringsStart pool.bytes + ((strs.take index).flatMap record).length)
      (strs.get ⟨index, known⟩) := by
  have table := holds.table
  have inside := holds.start
  generalize leftEq : window pool.bytes 0 4 ++
    (leBytes 4 (poolEnd start pool.bytes strs - start) ++ (window pool.bytes 8 20 ++
      ((offsets 0 strs).flatMap (leBytes 4) ++ (window pool.bytes (28 + 4 * strs.length)
        (stringsStart pool.bytes - (28 + 4 * strs.length)) ++
          (strs.take index).flatMap record)))) = left
  have position : left.length =
      stringsStart pool.bytes + ((strs.take index).flatMap record).length := by
    rw [← leftEq]
    simp only [length_append, length_leBytes, length_table, length_offsets]
    rw [length_window (by omega), length_window (by omega), length_window (by omega)]
    omega
  have split : repacked start pool.bytes strs = left ++ (record (strs.get ⟨index, known⟩) ++
      ((strs.drop (index + 1)).flatMap record ++ zeros (poolEnd start pool.bytes strs -
        (start + stringsStart pool.bytes + (strs.flatMap record).length)))) := by
    rw [← leftEq, repacked, poolRest]
    conv_lhs =>
      enter [2, 2, 2, 2, 2, 1]
      rw [flatMap_split record known]
    simp only [append_assoc]
  rw [split, ← position]
  exact storedAt_record left _ short

end

/-- The new pool as a chunk. -/
def repackedChunk (holds : Pool pool strings) (same : strs.length = strings.length)
    (fits : poolEnd start pool.bytes strs < 2 ^ 31) : Chunk where
  bytes := repacked start pool.bytes strs
  long := by
    have table := holds.table
    have above := le_poolEnd start pool.bytes strs
    rw [length_repacked holds same]
    omega
  sized := by
    rw [window_repacked_size holds, length_repacked holds same, ofLe_leBytes_of_lt (by omega)]

/-- The new pool holds the new strings. -/
theorem pool_repackedChunk (holds : Pool pool strings) (same : strs.length = strings.length)
    (short : ∀ str ∈ strs, str.length < 0x8000)
    (fits : poolEnd start pool.bytes strs < 2 ^ 31) :
    Pool (repackedChunk holds same fits) strs := by
  have above := le_poolEnd start pool.bytes strs
  have field : ∀ offset, 8 ≤ offset → offset + 4 ≤ 28 →
      window (repacked start pool.bytes strs) offset 4 = window pool.bytes offset 4 :=
    fun offset low high => window_repacked_fields holds low high
  constructor
  · rw [Chunk.IsPool, repackedChunk, window_repacked_type holds]
    exact holds.isPool
  · rw [repackedChunk, field 8 (by decide) (by decide), holds.count, same]
  · rw [repackedChunk, field 12 (by decide) (by decide), holds.noStyles]
  · rw [repackedChunk, field 16 (by decide) (by decide), holds.utf16]
  · rw [repackedChunk, stringsStart_repacked holds, same]
    exact holds.table
  · rw [repackedChunk, stringsStart_repacked holds, length_repacked holds same]
    omega
  · intro index known
    have split := congrArg List.length (flatMap_split record known)
    simp only [length_append] at split
    rw [repackedChunk, stringsStart_repacked holds, window_repacked_table holds known,
      ofLe_leBytes_of_lt (by omega)]
    exact storedAt_repacked holds same known (short _ (get_mem _ _))

end NewPool

/-! ## Strings that do not fit -/

/-- Nothing is written beyond the longest array. -/
theorem length_of_write {stream next : RawByteStream} {bytes : List UInt8}
    (wrote : stream.write bytes = .ok next) :
    next.toByteArray.length = stream.toByteArray.length + bytes.length ∧
      next.toByteArray.length < 2 ^ 31 := by
  by_cases fits : stream.toByteArray.length + bytes.length < 2 ^ 31
  · obtain ⟨_, written, contents⟩ := stream.write_eq bytes fits
    cases wrote.symm.trans written
    rw [contents, length_append]
    exact ⟨rfl, fits⟩
  · rw [stream.length_toByteArray] at fits
    cases wrote.symm.trans (if_neg fits)

theorem length_of_writeString {stream next : RawByteStream} (valid : Valid str)
    (wrote : writeString stream str = .ok next) :
    next.toByteArray.length = stream.toByteArray.length + (record str).length ∧
      next.toByteArray.length < 2 ^ 31 := by
  obtain ⟨first, wroteLength, wrote⟩ := bind_eq_ok wrote
  obtain ⟨second, wroteText, wrote⟩ := bind_eq_ok wrote
  obtain ⟨third, wroteNul, wroteLast⟩ := bind_eq_ok wrote
  have lengths := length_of_write wroteLength
  have text := length_of_write wroteText
  have nul := length_of_write wroteNul
  have last := length_of_write wroteLast
  rw [length_leBytes] at lengths
  rw [encode_of_valid valid, length_bytesOf] at text
  rw [length_singleton] at nul last
  rw [length_record]
  omega

theorem length_of_writeStrings {stream : RawByteStream} {dataOff : Int}
    {result : List Int × RawByteStream} (valid : ∀ str ∈ strs, Valid str)
    (room : stream.toByteArray.length < 2 ^ 31)
    (wrote : writeStrings dataOff strs stream = .ok result) :
    stream.toByteArray.length + (strs.flatMap record).length < 2 ^ 31 := by
  induction strs generalizing stream result with
  | nil => exact room
  | cons str strs ih =>
    obtain ⟨strValid, others⟩ := forall_mem_cons.mp valid
    obtain ⟨next, wroteFirst, wrote⟩ := bind_eq_ok wrote
    obtain ⟨_, wroteRest, _⟩ := bind_eq_ok wrote
    obtain ⟨length, fits⟩ := length_of_writeString strValid wroteFirst
    have rest := ih others fits wroteRest
    rw [flatMap_cons, length_append]
    omega

end Magisk.App.Axml
