import Magisk.App.Axml.Repack

/-!
# Patching a manifest

The patch replaces the string pool of a file by one that holds the mapped strings
and keeps every other chunk.  A file is a byte array, so it has less than 2³¹
bytes; a patch that needs more throws and leaves the file as it was.
-/

namespace Magisk.App.Axml

open List Bytes Bytes.Utf16 Result

variable {pool : Chunk} {strings strs : List (List UInt16)} {kind : List UInt8}
  {total count start : Nat} {header : Header} {before after : List Chunk} {stream : RawByteStream}

/-! ## The whole patch -/

/-- Once the pool is read, the mapped strings are written. -/
theorem patchPool_of_pool (mapFn : List UInt16 → List UInt16) (front rest : List UInt8)
    (holds : Pool pool strings) (storable : ∀ str ∈ strings, Storable str)
    (small : front.length + pool.bytes.length < 2 ^ 31) :
    ∃ header : Header, header.size = pool.bytes.length ∧
      header.dataOff = (front.length + stringsStart pool.bytes : Nat) ∧
      patchPool mapFn (front ++ (pool.bytes ++ rest)) front.length =
        writePatched (front ++ (pool.bytes ++ rest)) front.length header (strings.map mapFn) := by
  obtain ⟨header, read, size, count, dataOff⟩ := readHeader_eq front rest holds small
  have listed : readStrings (front ++ (pool.bytes ++ rest))
      (front.length + stringsStart pool.bytes : Nat) strings.length
      (front.length + stringIndicesOff) = .ok strings :=
    readStrings_eq fun index known => readString_stored front rest holds small known
      (storable _ (get_mem _ _))
  have known : ¬ header.count < 0 := by omega
  have counted : header.count.toNat = strings.length := by omega
  refine ⟨header, size, dataOff, ?_⟩
  rw [patchPool, read, ok_bind, if_neg known, counted, dataOff, listed, ok_bind]

/-- The stream starts with everything in front of the string data. -/
theorem writeFront_eq (front rest : List UInt8) (holds : Pool pool strings)
    (small : front.length + pool.bytes.length < 2 ^ 31) :
    ∃ next, RawByteStream.new.writeRange (front ++ (pool.bytes ++ rest)) 0
        (front.length + stringsStart pool.bytes : Nat) = .ok next ∧
      next.toByteArray = front ++ pool.bytes.take (stringsStart pool.bytes) ∧
      next.toByteArray.length = front.length + stringsStart pool.bytes := by
  have start := holds.start
  have empty : RawByteStream.new.toByteArray = [] := rfl
  have inside : 0 + (front.length + stringsStart pool.bytes) ≤
      (front ++ (pool.bytes ++ rest)).length := by
    simp only [length_append]
    omega
  obtain ⟨next, wrote, contents⟩ := RawByteStream.new.writeRange_eq inside
    (by rw [empty, length_nil]; omega)
  have copied : window (front ++ (pool.bytes ++ rest)) 0 (front.length + stringsStart pool.bytes) =
      front ++ pool.bytes.take (stringsStart pool.bytes) := by
    rw [window_zero, take_length_add_append, take_append_of_le_length start]
  rw [empty, nil_append, copied] at contents
  refine ⟨next, wrote, contents, ?_⟩
  rw [contents, length_append, length_take_of_le start]

/-- The stream up to the end of the new pool, before it is patched. -/
theorem writePool_eq {front : List UInt8} {first : RawByteStream} (holds : Pool pool strings)
    (valid : ∀ str ∈ strs, Valid str) (fits : poolEnd front.length pool.bytes strs < 2 ^ 31)
    (contents : first.toByteArray = front ++ pool.bytes.take (stringsStart pool.bytes)) :
    ∃ second third, writeStrings (front.length + stringsStart pool.bytes : Nat) strs first =
        .ok ((offsets 0 strs).map Int.ofNat, second) ∧
      second.align = .ok third ∧ third.count = poolEnd front.length pool.bytes strs ∧
      third.toByteArray = front ++ (pool.bytes.take (stringsStart pool.bytes) ++
        (strs.flatMap record ++ zeros (poolEnd front.length pool.bytes strs -
          (front.length + stringsStart pool.bytes + (strs.flatMap record).length)))) := by
  have above := le_poolEnd front.length pool.bytes strs
  have firstLength : first.toByteArray.length = front.length + stringsStart pool.bytes + 0 := by
    rw [contents, length_append, length_take_of_le holds.start]
    rfl
  obtain ⟨second, wroteStrings, secondEq⟩ := writeStrings_eq first valid firstLength (by omega)
  have secondLength : second.toByteArray.length =
      front.length + stringsStart pool.bytes + (strs.flatMap record).length := by
    rw [secondEq, length_append, firstLength]
    rfl
  obtain ⟨third, aligned, thirdEq⟩ := second.align_eq (by rw [secondLength]; exact fits)
  have written : third.toByteArray = front ++ (pool.bytes.take (stringsStart pool.bytes) ++
      (strs.flatMap record ++ zeros (poolEnd front.length pool.bytes strs -
        (front.length + stringsStart pool.bytes + (strs.flatMap record).length)))) := by
    rw [thirdEq, secondLength, secondEq, contents]
    simp only [append_assoc]
    rfl
  refine ⟨second, third, wroteStrings, aligned, ?_, written⟩
  rw [← third.length_toByteArray, written]
  simp only [length_append, length_zeros, length_take_of_le holds.start]
  omega

/-- The chunks behind the pool are copied. -/
theorem writeRest_eq (stream : RawByteStream) (front rest : List UInt8)
    (size : header.size = pool.bytes.length)
    (small : (front ++ (pool.bytes ++ rest)).length < 2 ^ 31)
    (fits : stream.toByteArray.length + rest.length < 2 ^ 31) :
    ∃ next, stream.writeRange (front ++ (pool.bytes ++ rest)) (i32 (front.length + header.size))
        (i32 ((front ++ (pool.bytes ++ rest)).length - i32 (front.length + header.size))) =
        .ok next ∧
      next.toByteArray = stream.toByteArray ++ rest := by
  have inside : front.length + pool.bytes.length + rest.length ≤
      (front ++ (pool.bytes ++ rest)).length := by
    simp only [length_append]
    omega
  have nextOff : i32 (front.length + header.size) = (front.length + pool.bytes.length : Nat) := by
    rw [size, i32_eq (by omega) (by omega), Nat.cast_add]
  have left : i32 ((front ++ (pool.bytes ++ rest)).length -
      (front.length + pool.bytes.length : Nat)) = rest.length := by
    simp only [length_append]
    rw [i32_eq (by omega) (by omega)]
    omega
  have behind : window (front ++ (pool.bytes ++ rest)) (front.length + pool.bytes.length)
      rest.length = rest := by
    simpa using window_append_middle (front ++ pool.bytes) rest []
  obtain ⟨next, wrote, contents⟩ := stream.writeRange_eq inside fits
  rw [behind] at contents
  rw [nextOff, left]
  exact ⟨next, wrote, contents⟩

/-- The new lengths, when nothing overflows. -/
theorem sizeDiff_eq {size rest : Nat} (sizeEq : header.size = size)
    (totalEq : total = start + size + rest) (startLe : start ≤ stream.count)
    (small : total < 2 ^ 31) (fits : stream.count + rest < 2 ^ 31) :
    i32 (total + sizeDiff stream start header) = (stream.count + rest : Nat) ∧
      i32 (header.size + sizeDiff stream start header) = (stream.count - start : Nat) := by
  have diff : sizeDiff stream start header = stream.count - start - size := by
    have inner : i32 (stream.count - start) = stream.count - start := i32_eq (by omega) (by omega)
    rw [sizeDiff, sizeEq, inner, i32_eq (by omega) (by omega)]
  constructor
  · rw [i32_eq (by omega) (by omega)]
    omega
  · rw [i32_eq (by omega) (by omega)]
    omega

/-- The parts of a file with a pool. -/
def partsOf {kind : List UInt8} (kindLength : kind.length = 4) (total : Nat)
    (before : List UInt8) {pool : Chunk} {strings : List (List UInt16)}
    (holds : Pool pool strings) : Parts where
  kind := kind
  total := leBytes 4 total
  before := before
  type := window pool.bytes 0 4
  size := window pool.bytes 4 4
  fields := window pool.bytes 8 20
  table := window pool.bytes 28 (4 * strings.length)
  kindLength := kindLength
  totalLength := length_leBytes 4 total
  typeLength := length_window (by have := pool.long; omega)
  sizeLength := length_window pool.long
  fieldsLength := length_window (by have := holds.table; have := holds.start; omega)

/-- A file with one pool singled out. -/
theorem file_eq (kind : List UInt8) (before after : List Chunk) (pool : Chunk) :
    file kind (before ++ pool :: after) =
      (kind ++ (leBytes 4 (8 + (flat before).length + pool.bytes.length + (flat after).length) ++
        flat before)) ++ (pool.bytes ++ flat after) := by
  have split : flat (before ++ pool :: after) = flat before ++ (pool.bytes ++ flat after) := by
    rw [flat, flatMap_append]
    rfl
  rw [file, split]
  simp only [length_append, append_assoc, Nat.add_assoc]

theorem length_front (kindLength : kind.length = 4) (total : Nat) (before : List UInt8) :
    (kind ++ (leBytes 4 total ++ before)).length = 8 + before.length := by
  simp only [length_append, length_leBytes]
  omega

/-- The length of the file as it is read. -/
theorem getInt_total (kindLength : kind.length = 4) (rest : List UInt8) (small : total < 2 ^ 31) :
    getInt (kind ++ (leBytes 4 total ++ rest)) chunkSizeOff = .ok total := by
  have behind : chunkSizeOff = kind.length + (0 : Nat) := by
    rw [kindLength]
    rfl
  have whole : window (leBytes 4 total) 0 4 = leBytes 4 total := take_of_length_le (by simp)
  rw [getInt_append kind (leBytes 4 total) rest behind (by simp), whole,
    ofLe_leBytes_of_lt (by omega), i32_natCast small]

/-- The stream once the sizes and the table are patched. -/
theorem patchFront_eq {before rest : List UInt8} (kindLength : kind.length = 4)
    (holds : Pool pool strings) (same : strs.length = strings.length)
    (totalEq : total = 8 + before.length + pool.bytes.length + rest.length)
    (size : header.size = pool.bytes.length) (small : total < 2 ^ 31)
    (count : stream.count = poolEnd (8 + before.length) pool.bytes strs)
    (fits : stream.count + rest.length < 2 ^ 31)
    (contents : stream.toByteArray = kind ++ (leBytes 4 total ++ before) ++
      (pool.bytes.take (stringsStart pool.bytes) ++
        (strs.flatMap record ++ zeros (poolEnd (8 + before.length) pool.bytes strs -
          (8 + before.length + stringsStart pool.bytes + (strs.flatMap record).length))))) :
    ∃ next, patchStream (kind ++ (leBytes 4 total ++ before) ++ (pool.bytes ++ rest))
        (8 + before.length : Nat) header ((offsets 0 strs).map Int.ofNat) stream = .ok next ∧
      next.toByteArray = kind ++ (leBytes 4 (stream.count + rest.length) ++ (before ++
        repacked (8 + before.length) pool.bytes strs)) := by
  have table := holds.table
  have inside := holds.start
  have above := le_poolEnd (8 + before.length) pool.bytes strs
  have joined : stream.toByteArray = (partsOf kindLength total before holds).joined
      (poolRest (8 + before.length) pool.bytes strs) := by
    rw [contents, take_stringsStart holds]
    simp only [Parts.joined, partsOf, poolRest, same, append_assoc]
  have totalRead : getInt (kind ++ (leBytes 4 total ++ before) ++ (pool.bytes ++ rest))
      chunkSizeOff = .ok total := by
    simp only [append_assoc]
    exact getInt_total kindLength _ small
  have startEq : ((8 + before.length : Nat) : Int) =
      8 + (partsOf kindLength total before holds).before.length :=
    Nat.cast_add 8 before.length
  have words : (partsOf kindLength total before holds).table.length =
      4 * (offsets 0 strs).length := by
    rw [length_offsets, same]
    exact length_window (by omega)
  obtain ⟨next, patched, nextEq⟩ := Parts.patchStream_eq _ _ header joined startEq words totalRead
  have sizes : i32 (total + sizeDiff stream (8 + before.length : Nat) header) =
        (stream.count + rest.length : Nat) ∧
      i32 (header.size + sizeDiff stream (8 + before.length : Nat) header) =
        (stream.count - (8 + before.length) : Nat) :=
    sizeDiff_eq size totalEq (by omega) small fits
  refine ⟨next, patched, ?_⟩
  rw [nextEq, sizes.1, sizes.2, count]
  simp only [Parts.joined, Parts.withTable, Parts.withSize, Parts.withTotal, partsOf,
    intBytes_natCast, repacked]

/-- The file with the strings mapped and everything else in its place. -/
theorem patchPool_eq (mapFn : List UInt16 → List UInt16) (kindLength : kind.length = 4)
    (holds : Pool pool strings) (storable : ∀ str ∈ strings, Storable str)
    (mapped : ∀ str ∈ strings, Valid (mapFn str))
    (small : (file kind (before ++ pool :: after)).length < 2 ^ 31)
    (fits : poolEnd (8 + (flat before).length) pool.bytes (strings.map mapFn) +
      (flat after).length < 2 ^ 31) :
    patchPool mapFn (file kind (before ++ pool :: after)) (8 + (flat before).length : Nat) =
      .ok (kind ++ (leBytes 4 (poolEnd (8 + (flat before).length) pool.bytes (strings.map mapFn) +
        (flat after).length) ++ (flat before ++
          (repacked (8 + (flat before).length) pool.bytes (strings.map mapFn) ++
            flat after)))) := by
  have valid : ∀ str ∈ strings.map mapFn, Valid str := forall_mem_map.mpr mapped
  have same : (strings.map mapFn).length = strings.length := length_map _
  have above := le_poolEnd (8 + (flat before).length) pool.bytes (strings.map mapFn)
  rw [file_eq] at small ⊢
  generalize totalEq : 8 + (flat before).length + pool.bytes.length + (flat after).length = total
    at small ⊢
  have frontLength := length_front kindLength total (flat before)
  have sums := small
  rw [length_append, frontLength, length_append] at sums
  obtain ⟨header, size, dataOff, ran⟩ := patchPool_of_pool mapFn
    (kind ++ (leBytes 4 total ++ flat before)) (flat after) holds storable (by omega)
  obtain ⟨first, wroteFront, firstEq, _⟩ := writeFront_eq
    (kind ++ (leBytes 4 total ++ flat before)) (flat after) holds (by omega)
  obtain ⟨second, third, wroteStrings, aligned, count, contents⟩ :=
    writePool_eq holds valid (by rw [frontLength]; omega) firstEq
  rw [frontLength] at ran count contents wroteFront wroteStrings dataOff
  obtain ⟨fourth, patched, fourthEq⟩ := patchFront_eq kindLength holds same totalEq.symm size
    (by omega) count (by omega) contents
  have fourthLength : fourth.toByteArray.length = third.count := by
    rw [fourthEq]
    simp only [length_append, length_leBytes, length_repacked holds same]
    omega
  obtain ⟨last, wroteRest, lastEq⟩ := writeRest_eq fourth
    (kind ++ (leBytes 4 total ++ flat before)) (flat after) size small (by omega)
  rw [frontLength] at wroteRest
  rw [ran, writePatched, dataOff, wroteFront, ok_bind, wroteStrings, ok_bind]
  dsimp only
  rw [aligned, ok_bind, patched, ok_bind, wroteRest, ok_bind, lastEq, fourthEq, count]
  simp only [append_assoc]
  rfl

/-! ## The manifest -/

theorem length_le_flat (chunks : List Chunk) : chunks.length ≤ (flat chunks).length := by
  induction chunks with
  | nil => exact Nat.zero_le _
  | cons chunk chunks ih =>
    have long := chunk.long
    rw [flat_cons, length_cons, length_append]
    omega

/-- A file starts with its type and its length. -/
theorem ofLe_window_file {chunks : List Chunk} (kindLength : kind.length = 4)
    (small : (file kind chunks).length < 2 ^ 31) :
    ofLe (window (file kind chunks) 4 4) = (file kind chunks).length := by
  have length : (file kind chunks).length = 8 + (flat chunks).length := length_front kindLength _ _
  have field := window_append_middle kind (leBytes 4 (8 + (flat chunks).length)) (flat chunks)
  rw [kindLength, length_leBytes] at field
  rw [length] at small ⊢
  rw [file, field, ofLe_leBytes_of_lt (by omega)]

/-- The search finds the first pool of a file. -/
theorem findStringPool_file (kindLength : kind.length = 4)
    (first : ∀ chunk ∈ before, ¬ chunk.IsPool) (isPool : pool.IsPool)
    (small : (file kind (before ++ pool :: after)).length < 2 ^ 31) :
    findStringPool (file kind (before ++ pool :: after))
        ((file kind (before ++ pool :: after)).length + 1) 8 =
      .ok (8 + (flat before).length : Nat) := by
  have rounds := length_le_flat before
  rw [file_eq] at small ⊢
  generalize 8 + (flat before).length + pool.bytes.length + (flat after).length = total at small ⊢
  have regroup : (kind ++ (leBytes 4 total ++ flat before)) ++ (pool.bytes ++ flat after) =
      (kind ++ leBytes 4 total) ++ (flat before ++ (pool.bytes ++ flat after)) := by
    simp only [append_assoc]
  have eight : (kind ++ leBytes 4 total).length = 8 := by
    rw [length_append, kindLength, length_leBytes]
  rw [regroup] at small ⊢
  have enough : before.length <
      ((kind ++ leBytes 4 total) ++ (flat before ++ (pool.bytes ++ flat after))).length + 1 := by
    simp only [length_append]
    omega
  have found := findStringPool_chunks (flat after) enough first isPool small
  rwa [eight] at found

/-- Patching a manifest whose strings stay short replaces the pool by one that holds
the mapped strings, and keeps every other chunk. -/
theorem patchStrings_file (mapFn : List UInt16 → List UInt16) (kind : List UInt8)
    (before after : List Chunk) (pool : Chunk) (strings : List (List UInt16))
    (kindLength : kind.length = 4) (first : ∀ chunk ∈ before, ¬ chunk.IsPool)
    (holds : Pool pool strings) (storable : ∀ str ∈ strings, Storable str)
    (mapped : ∀ str ∈ strings, Storable (mapFn str))
    (small : (file kind (before ++ pool :: after)).length < 2 ^ 31)
    (fits : poolEnd (8 + (flat before).length) pool.bytes (strings.map mapFn) +
      (flat after).length < 2 ^ 31) :
    ∃ patched out, patchStrings mapFn (file kind (before ++ pool :: after)) = .ok (true, out) ∧
      out = file kind (before ++ patched :: after) ∧ Pool patched (strings.map mapFn) ∧
      ofLe (window out 4 4) = out.length := by
  have same : (strings.map mapFn).length = strings.length := length_map _
  have short : ∀ str ∈ strings.map mapFn, str.length < 0x8000 :=
    forall_mem_map.mpr fun str mem => (mapped str mem).2
  have above := le_poolEnd (8 + (flat before).length) pool.bytes (strings.map mapFn)
  have ends : poolEnd (8 + (flat before).length) pool.bytes (strings.map mapFn) < 2 ^ 31 := by
    omega
  have found := findStringPool_file kindLength first holds.isPool small
  have ran := patchPool_eq mapFn kindLength holds storable
    (fun str mem => (mapped str mem).1) small fits
  have length : (repacked (8 + (flat before).length) pool.bytes (strings.map mapFn)).length =
      poolEnd (8 + (flat before).length) pool.bytes (strings.map mapFn) -
        (8 + (flat before).length) :=
    length_repacked holds same
  have outEq : file kind (before ++ repackedChunk holds same ends :: after) =
      kind ++ (leBytes 4 (poolEnd (8 + (flat before).length) pool.bytes (strings.map mapFn) +
        (flat after).length) ++ (flat before ++
          (repacked (8 + (flat before).length) pool.bytes (strings.map mapFn) ++ flat after))) := by
    have total : 8 + (flat before).length + (repackedChunk holds same ends).bytes.length +
        (flat after).length =
        poolEnd (8 + (flat before).length) pool.bytes (strings.map mapFn) +
          (flat after).length := by
      change 8 + (flat before).length + (repacked _ _ _).length + _ = _
      omega
    rw [file_eq, total]
    simp only [append_assoc]
    rfl
  refine ⟨repackedChunk holds same ends, _, ?_, rfl, pool_repackedChunk holds same short ends, ?_⟩
  · rw [patchStrings, found, ok_bind, ran, outEq]
    rfl
  · apply ofLe_window_file kindLength
    rw [outEq]
    simp only [length_append, length_leBytes]
    omega

/-- Strings that make the pool longer than an array can be are not written. -/
theorem patchStrings_ne_ok (mapFn : List UInt16 → List UInt16) (kindLength : kind.length = 4)
    (first : ∀ chunk ∈ before, ¬ chunk.IsPool) (holds : Pool pool strings)
    (storable : ∀ str ∈ strings, Storable str) (mapped : ∀ str ∈ strings, Storable (mapFn str))
    (small : (file kind (before ++ pool :: after)).length < 2 ^ 31)
    (full : 2 ^ 31 ≤ 8 + (flat before).length + stringsStart pool.bytes +
      ((strings.map mapFn).flatMap record).length) :
    ¬ ∃ out, patchStrings mapFn (file kind (before ++ pool :: after)) = .ok (true, out) := by
  have valid : ∀ str ∈ strings.map mapFn, Valid str :=
    forall_mem_map.mpr fun str mem => (mapped str mem).1
  have start := holds.start
  have found := findStringPool_file kindLength first holds.isPool small
  rw [file_eq] at small found ⊢
  generalize 8 + (flat before).length + pool.bytes.length + (flat after).length = total
    at small found ⊢
  have frontLength := length_front kindLength total (flat before)
  rw [length_append, frontLength, length_append] at small
  obtain ⟨header, _, dataOff, ran⟩ := patchPool_of_pool mapFn
    (kind ++ (leBytes 4 total ++ flat before)) (flat after) holds storable (by omega)
  obtain ⟨next, wroteFront, _, length⟩ := writeFront_eq
    (kind ++ (leBytes 4 total ++ flat before)) (flat after) holds (by omega)
  rw [frontLength] at ran wroteFront dataOff length
  rintro ⟨out, wrote⟩
  rw [patchStrings, found, ok_bind, ran, writePatched, dataOff, wroteFront, ok_bind] at wrote
  obtain ⟨_, written, _⟩ := bind_eq_ok wrote
  obtain ⟨_, wroteStrings, _⟩ := bind_eq_ok written
  have fits := length_of_writeStrings valid (by omega) wroteStrings
  omega

/-! ## Sample files -/

/-- The header of a pool of empty strings that share their place. -/
def emptyHeader (count : Nat) : List UInt8 :=
  leBytes 4 0x1C0001 ++ (leBytes 4 (32 + 4 * count) ++ (leBytes 4 count ++ (leBytes 4 0 ++
    (leBytes 4 0 ++ (leBytes 4 (28 + 4 * count) ++ leBytes 4 0)))))

theorem window_zeros (inside : start + count ≤ total) :
    window (zeros total) start count = zeros count := by
  rw [window, zeros, drop_replicate, take_replicate, Nat.min_eq_left (by omega)]
  rfl

/-- A pool of empty strings. -/
def emptyPool (count : Nat) (small : count ≤ 65536) : Chunk where
  bytes := emptyHeader count ++ zeros (4 * count + 4)
  long := by
    simp only [emptyHeader, length_append, length_leBytes, length_zeros]
    omega
  sized := by
    have field : window (emptyHeader count ++ zeros (4 * count + 4)) 4 4 =
        leBytes 4 (32 + 4 * count) := rfl
    rw [field, ofLe_leBytes_of_lt (by omega)]
    simp only [emptyHeader, length_append, length_leBytes, length_zeros]
    omega

theorem pool_emptyPool (small : count ≤ 65536) :
    Pool (emptyPool count small) (replicate count []) := by
  have headerLength : (emptyHeader count).length = 28 := rfl
  have startEq : stringsStart (emptyHeader count ++ zeros (4 * count + 4)) = 28 + 4 * count := by
    have field : window (emptyHeader count ++ zeros (4 * count + 4)) 20 4 =
        leBytes 4 (28 + 4 * count) := rfl
    rw [stringsStart, field, ofLe_leBytes_of_lt (by omega)]
  have type : window (emptyPool count small).bytes 0 4 = leBytes 4 0x1C0001 := rfl
  have listed : window (emptyPool count small).bytes 8 4 = leBytes 4 count := rfl
  have styles : window (emptyPool count small).bytes 12 4 = leBytes 4 0 := rfl
  have flags : window (emptyPool count small).bytes 16 4 = leBytes 4 0 := rfl
  have zero : ofLe (leBytes 4 0) = 0 := by decide
  constructor
  · rw [Chunk.IsPool, type, ofLe_leBytes_of_lt (by decide)]
  · rw [listed, ofLe_leBytes_of_lt (by omega), length_replicate]
  · rw [styles, zero]
  · rw [flags, zero, Nat.zero_and]
  · rw [emptyPool, startEq, length_replicate]
  · rw [emptyPool, startEq, length_append, length_zeros]
    omega
  · intro index known
    rw [length_replicate] at known
    have entry : window (emptyHeader count ++ zeros (4 * count + 4)) (28 + 4 * index) 4 =
        zeros 4 := by
      rw [window_append_right (by omega), window_zeros (by omega)]
    have stored : StoredAt (emptyHeader count ++ zeros (4 * count + 4)) (28 + 4 * count) [] := by
      constructor
      · simp only [length_append, length_zeros, length_nil]
        omega
      · rw [window_append_right (by omega), window_zeros (by omega)]
        rfl
      · exact window_count_zero _ _
    rw [emptyPool, startEq, entry, get_eq_getElem, getElem_replicate]
    exact stored

/-- The type of a binary XML file. -/
def xmlKind : List UInt8 :=
  leBytes 4 0x80003

/-- A chunk that is no pool. -/
def plainChunk : Chunk where
  bytes := leBytes 4 0x80180 ++ leBytes 4 8
  long := by decide
  sized := by decide

theorem storable_nil : ∀ str ∈ replicate count ([] : List UInt16), Storable str := by
  intro str mem
  rw [eq_of_mem_replicate mem]
  exact ⟨trivial, by decide⟩

/-- One string becomes longer between two other chunks. -/
theorem patchStrings_file_one : ∃ patched out, patchStrings (fun str => str ++ [97])
        (file xmlKind ([plainChunk] ++ emptyPool 1 (by decide) :: [plainChunk])) = .ok (true, out) ∧
      out = file xmlKind ([plainChunk] ++ patched :: [plainChunk]) ∧
      Pool patched ((replicate 1 []).map fun str => str ++ [97]) ∧
      ofLe (window out 4 4) = out.length := by
  refine patchStrings_file (fun str => str ++ [97]) xmlKind [plainChunk] [plainChunk]
    (emptyPool 1 (by decide)) (replicate 1 []) (by decide) ?_
    (pool_emptyPool (by decide)) storable_nil ?_ (by decide) (by decide)
  · intro chunk mem
    rw [mem_singleton.mp mem]
    unfold Chunk.IsPool
    decide
  · intro str mem
    rw [eq_of_mem_replicate mem]
    exact ⟨by simp [Valid, isHigh, isLow], by decide⟩

theorem valid_replicate (count : Nat) : Valid (replicate count 97) := by
  have plain : isHigh 97 = false ∧ isLow 97 = false := by decide
  induction count with
  | zero => trivial
  | succ count ih =>
    cases count with
    | zero => exact plain
    | succ count =>
      exact ⟨plain.2, ih⟩

theorem length_flatMap_replicate (count : Nat) (str : List UInt16) :
    ((replicate count str).flatMap record).length = count * (record str).length := by
  rw [length_flatMap, map_replicate, sum_replicate, smul_eq_mul]

theorem length_file_emptyPool (small : count ≤ 65536) :
    (file xmlKind ([] ++ emptyPool count small :: [])).length = 40 + 4 * count := by
  have kindLength : xmlKind.length = 4 := rfl
  have poolLength : (emptyPool count small).bytes.length = 32 + 4 * count := by
    simp only [emptyPool, emptyHeader, length_append, length_leBytes, length_zeros]
    omega
  have flatLength : (flat []).length = 0 := rfl
  rw [file_eq]
  simp only [length_append, length_leBytes]
  omega

/-- The longest string a pool can hold. -/
def longText : List UInt16 :=
  replicate 0x7fff 97

theorem storable_longText : Storable longText := by
  refine ⟨valid_replicate 0x7fff, ?_⟩
  rw [longText, length_replicate]
  decide

/-- A pool of 65536 empty strings, each made as long as it may be, needs more than
2³¹ bytes: nothing is returned. -/
theorem not_patchStrings_emptyPool : Pool (emptyPool 65536 (by decide)) (replicate 65536 []) ∧
      (∀ str ∈ replicate 65536 ([] : List UInt16), Storable str) ∧
      Storable longText ∧
      ¬ ∃ out, patchStrings (fun _ => longText)
        (file xmlKind ([] ++ emptyPool 65536 (by decide) :: [])) = .ok (true, out) := by
  refine ⟨pool_emptyPool _, storable_nil, storable_longText, ?_⟩
  have small : (file xmlKind ([] ++ emptyPool 65536 (by decide) :: [])).length < 2 ^ 31 := by
    rw [length_file_emptyPool]
    decide
  have full : 2 ^ 31 ≤ 8 + (flat []).length + stringsStart (emptyPool 65536 (by decide)).bytes +
      (((replicate 65536 ([] : List UInt16)).map fun _ => longText).flatMap record).length := by
    rw [map_replicate, length_flatMap_replicate, length_record, longText, length_replicate]
    omega
  exact patchStrings_ne_ok (fun _ => longText) (by decide) (forall_mem_nil _)
    (pool_emptyPool (by decide)) storable_nil (fun _ _ => storable_longText) small full

end Magisk.App.Axml
