import Magisk.Boot.Lz4.Core

/-!
# Decoding what was encoded

Both sides are compared with a list of blocks: the encoder leaves the blocks of
its input behind a magic, and the decoder hands out the contents of the blocks
it reads, whatever the sizes of the reads on either side are.
-/

namespace Magisk.Boot

open List Magisk.Base Magisk.Bytes

/-- Blocks survive compression, and their compressed sizes fit the buffers. -/
def Lz4Block.Lossless (codec : Lz4Block) : Prop :=
  ∀ chunk : List UInt8, chunk ≠ [] → chunk.length ≤ Lz4.blockSize →
    ∃ packed, codec.compress chunk = some packed ∧ codec.decompress packed = some chunk ∧
      1 ≤ packed.length ∧ packed.length ≤ Lz4.compressBound

namespace Lz4

variable {chunk : List UInt8} {codec : Lz4Block}

/-! ## Blocks -/

/-- A block with its compressed form, possibly behind a magic. -/
structure Block where
  marked : Bool
  chunk : List UInt8
  packed : List UInt8

namespace Block

/-- The bytes of a block. -/
def bytes (block : Block) : List UInt8 :=
  (if block.marked then leBytes 4 magic else []) ++
    (leBytes 4 block.packed.length ++ block.packed)

/-- A block the decoder can read. -/
structure Readable (codec : Lz4Block) (block : Block) : Prop where
  nonempty : block.chunk ≠ []
  decompress : codec.decompress block.packed = some block.chunk
  positive : 1 ≤ block.packed.length
  fits : block.packed.length ≤ compressBound

end Block

/-- The bytes of a list of blocks. -/
def blockBytes (blocks : List Block) : List UInt8 :=
  blocks.flatMap Block.bytes

/-- The contents of a list of blocks. -/
def contents (blocks : List Block) : List UInt8 :=
  blocks.flatMap Block.chunk

/-! ## Decoding -/

variable {blocks : List Block} {block : Block}

namespace Decoder

variable {decoder : Decoder} {rest remaining packed : List UInt8} {size : Nat}

/-- The decoder has readable blocks in front of it, and `remaining` left to hand
out. -/
structure Holds (codec : Lz4Block) (decoder : Decoder) (blocks : List Block)
    (remaining : List UInt8) : Prop where
  data : decoder.read.data = blockBytes blocks
  steady : decoder.read.Steady
  readable : ∀ block ∈ blocks, block.Readable codec
  remaining : remaining = decoder.out ++ contents blocks

/-- The input buffer holds the block that was read last. -/
theorem decompress_fill (decompress : codec.decompress packed = some chunk) (decoder : Decoder) :
    (decoder.fill packed).decompress codec packed.length =
      (.ok true, { decoder.fill packed with out := chunk }) := by
  rw [Decoder.decompress, fill, take_left, decompress]

/-- Reading a block makes its contents available. -/
theorem readBlock_eq (decompress : codec.decompress packed = some chunk)
    (positive : 1 ≤ packed.length) (fits : packed.length ≤ compressBound)
    (data : decoder.read.data = packed ++ rest) (steady : decoder.read.Steady) :
    ∃ after, decoder.readBlock codec packed.length = (.ok true, after) ∧ after.out = chunk ∧
      after.read.data = rest ∧ after.read.Steady := by
  obtain ⟨count, next, readEq, nextData, countPositive, countLe, nextSteady⟩ :=
    steady.read_eq (Nat.lt_of_lt_of_le Nat.zero_lt_one positive)
  have first : decoder.read.data.take count = packed.take count := by
    rw [data, take_append_of_le_length countLe]
  have firstLength : (packed.take count).length = count := by
    rw [length_take, Nat.min_eq_left countLe]
  have remaining : next.data = packed.drop count ++ rest := by
    rw [nextData, data, drop_append_of_le_length countLe]
  rw [first] at readEq
  rw [readBlock, if_neg (Nat.not_lt.mpr fits), readEq]
  simp only [firstLength, if_neg (Nat.pos_iff_ne_zero.mp countPositive)]
  by_cases whole : count = packed.length
  · subst whole
    rw [if_neg (not_not.mpr rfl), take_length, decompress_fill decompress]
    refine ⟨_, rfl, rfl, ?_, nextSteady⟩
    rw [drop_length, nil_append] at remaining
    exact remaining
  · rw [if_pos whole]
    have enough : packed.length - count ≤ next.data.length := by
      rw [remaining, length_append, length_drop]
      exact Nat.le_add_right _ _
    obtain ⟨last, exactEq, lastData, lastSteady⟩ := nextSteady.readExact_eq enough
    have second : next.data.take (packed.length - count) = packed.drop count := by
      rw [remaining, ← length_drop, take_left]
    rw [second] at exactEq
    simp only [exactEq, take_append_drop]
    rw [decompress_fill decompress]
    refine ⟨_, rfl, rfl, ?_, lastSteady⟩
    change last.data = rest
    rw [lastData, remaining, ← length_drop, drop_left]

/-- A word that fits in 32 bits is read back. -/
theorem readExact_word {reader : Reader} (steady : reader.Steady) {value : Nat}
    (fits : value < 256 ^ 4) (data : reader.data = leBytes 4 value ++ rest) :
    ∃ word next, reader.readExact 4 = (word, none, next) ∧ ofLe word = value ∧
      next.data = rest ∧ next.Steady := by
  have enough : 4 ≤ reader.data.length := by
    rw [data, length_append, length_leBytes]
    exact Nat.le_add_right _ _
  obtain ⟨next, readEq, nextData, nextSteady⟩ := steady.readExact_eq enough
  have width := length_leBytes 4 value
  rw [data, take_left' width] at readEq
  rw [data, drop_left' width] at nextData
  exact ⟨leBytes 4 value, next, readEq, ofLe_leBytes_of_lt fits, nextData, nextSteady⟩

/-- The next block is made available, whether it is marked or not. -/
theorem refill_eq (readable : block.Readable codec) (data : decoder.read.data = block.bytes ++ rest)
    (steady : decoder.read.Steady) :
    ∃ after, decoder.refill codec = (.ok true, after) ∧ after.out = block.chunk ∧
      after.read.data = rest ∧ after.read.Steady := by
  have small : block.packed.length < magic := Nat.lt_of_le_of_lt readable.fits (by decide)
  have fits : block.packed.length < 256 ^ 4 := Nat.lt_trans small (by decide)
  have readBody : ∀ before : Decoder, before.read.data = block.packed ++ rest → before.read.Steady →
      ∃ after, before.readBlock codec block.packed.length = (.ok true, after) ∧
        after.out = block.chunk ∧ after.read.data = rest ∧ after.read.Steady :=
    fun _ bodyData bodySteady =>
      readBlock_eq readable.decompress readable.positive readable.fits bodyData bodySteady
  rw [Block.bytes] at data
  cases marked : block.marked with
  | false =>
    simp only [marked, Bool.false_eq_true, if_false, nil_append, append_assoc] at data
    obtain ⟨word, next, readEq, wordEq, nextData, nextSteady⟩ := readExact_word steady fits data
    simp only [refill, readEq, wordEq, if_neg (Nat.ne_of_lt small)]
    exact readBody { decoder with read := next } nextData nextSteady
  | true =>
    simp only [marked, if_true, append_assoc] at data
    obtain ⟨word, next, readEq, wordEq, nextData, nextSteady⟩ :=
      readExact_word steady (by decide) data
    obtain ⟨size, last, sizeEq, sizeIs, lastData, lastSteady⟩ :=
      readExact_word nextSteady fits nextData
    simp only [refill, readEq, if_pos wordEq, sizeEq, sizeIs]
    exact readBody { decoder with read := last } lastData lastSteady

/-- The decoder has readable blocks in front of it and something else behind them, and
`remaining` left to hand out. -/
structure Ahead (codec : Lz4Block) (decoder : Decoder) (blocks : List Block)
    (tail remaining : List UInt8) : Prop where
  data : decoder.read.data = blockBytes blocks ++ tail
  steady : decoder.read.Steady
  readable : ∀ block ∈ blocks, block.Readable codec
  remaining : remaining = decoder.out ++ contents blocks

/-- Handing out available bytes. -/
theorem Ahead.take (ahead : decoder.Ahead codec blocks rest remaining)
    (available : decoder.out ≠ []) (positive : 0 < size) :
    (decoder.take size).1 ≠ [] ∧ ∃ left, remaining = (decoder.take size).1 ++ left ∧
      (decoder.take size).2.Ahead codec blocks rest left := by
  constructor
  · intro nothing
    rcases take_eq_nil_iff.mp nothing with zero | empty
    · exact Nat.ne_of_gt positive zero
    · exact available empty
  · refine ⟨decoder.out.drop size ++ contents blocks, ?_, ahead.data, ahead.steady,
      ahead.readable, rfl⟩
    rw [ahead.remaining, Decoder.take, ← append_assoc, take_append_drop]

/-- One call of `read`: it hands out the next bytes, unless there are no more blocks. -/
theorem Ahead.readInto (ahead : decoder.Ahead codec blocks rest remaining) (positive : 0 < size) :
    (remaining = [] ∧ decoder.out = [] ∧ decoder.read.data = rest) ∨
      ∃ bytes after blocks' left, decoder.readInto codec size = (.ok bytes, after) ∧
        bytes ≠ [] ∧ remaining = bytes ++ left ∧ after.Ahead codec blocks' rest left := by
  by_cases available : decoder.out = []
  · rw [Decoder.readInto, if_pos available]
    cases blocks with
    | nil =>
      left
      refine ⟨?_, available, ahead.data⟩
      rw [ahead.remaining, available]
      rfl
    | cons block blocks =>
      right
      have readable := ahead.readable block mem_cons_self
      have data := ahead.data
      rw [blockBytes, flatMap_cons, append_assoc] at data
      obtain ⟨after, refillEq, out, afterData, afterSteady⟩ := refill_eq readable data ahead.steady
      have afterAhead : after.Ahead codec blocks rest remaining := by
        refine ⟨afterData, afterSteady, ?_, ?_⟩
        · intro other mem
          exact ahead.readable other (mem_cons_of_mem _ mem)
        · rw [ahead.remaining, available, out]
          rfl
      obtain ⟨nonempty, left, split, leftAhead⟩ :=
        afterAhead.take (out ▸ readable.nonempty) positive
      simp only [refillEq]
      exact ⟨_, _, blocks, left, rfl, nonempty, split, leftAhead⟩
  · right
    rw [Decoder.readInto, if_neg available]
    obtain ⟨nonempty, left, split, leftAhead⟩ := ahead.take available positive
    exact ⟨_, _, blocks, left, rfl, nonempty, split, leftAhead⟩

/-- Reading to the end hands out everything that remains, for any sizes of the
buffers, if the end is taken for one; each call but the last delivers at least one
byte. -/
theorem Ahead.readToEnd (ahead : decoder.Ahead codec blocks rest remaining) {sizes : Nat → Nat}
    (positive : ∀ call, 0 < sizes call) (error : Option IoError)
    (atEnd : ∀ last : Decoder, last.out = [] → last.read.data = rest → last.read.Steady →
      ∀ size, ∃ after, last.readInto codec size = (error.elim (.ok []) .error, after))
    {fuel : Nat} (enough : remaining.length < fuel) :
    decoder.readToEnd codec sizes fuel = if error = none then some remaining else none := by
  induction fuel generalizing decoder blocks remaining sizes with
  | zero => exact absurd enough (Nat.not_lt_zero _)
  | succ fuel ih =>
    rcases ahead.readInto (positive 0) with ⟨empty, noOut, data⟩ |
      ⟨bytes, after, blocks', left, readEq, nonempty, split, afterAhead⟩
    · obtain ⟨after, readEq⟩ := atEnd decoder noOut data ahead.steady (sizes 0)
      rw [Decoder.readToEnd, readEq, empty]
      cases error <;> rfl
    · have shorter : left.length < fuel := by
        have counted := length_pos_of_ne_nil nonempty
        rw [split, length_append] at enough
        omega
      have restEq := ih afterAhead (fun call => positive (call + 1)) shorter
      cases bytes with
      | nil => exact absurd rfl nonempty
      | cons byte bytes =>
        rw [Decoder.readToEnd, readEq]
        simp only [restEq, split]
        cases error <;> rfl

theorem Holds.readToEnd (holds : decoder.Holds codec blocks remaining) {sizes : Nat → Nat}
    (positive : ∀ call, 0 < sizes call) {fuel : Nat} (enough : remaining.length < fuel) :
    decoder.readToEnd codec sizes fuel = some remaining := by
  have ahead : decoder.Ahead codec blocks [] remaining :=
    ⟨by rw [holds.data, append_nil], holds.steady, holds.readable, holds.remaining⟩
  refine ahead.readToEnd positive none (fun last noOut data steady size => ?_) enough
  obtain ⟨next, atEnd⟩ := steady.readExact_of_nil (by decide : 0 < 4) data
  refine ⟨{ last with read := next }, ?_⟩
  rw [Decoder.readInto, if_pos noOut]
  simp only [refill, atEnd, Option.elim]

end Decoder

/-! ## Encoding -/

namespace Encoder

variable {encoder : Encoder} {content : List UInt8} {writes : List (List UInt8)}

/-- The encoder has been given `content`: the magic and full blocks are written,
and the chunker keeps the rest. -/
structure Wrote (codec : Lz4Block) (encoder : Encoder) (blocks : List Block)
    (content : List UInt8) : Prop where
  write : encoder.write = leBytes 4 magic ++ blockBytes blocks
  unmarked : ∀ block ∈ blocks, block.marked = false
  readable : ∀ block ∈ blocks, block.Readable codec
  chunkSize : encoder.chunker.chunkSize = blockSize
  content : content = contents blocks ++ encoder.chunker.chunk

/-- Encoding a chunk appends a readable block. -/
theorem encodeBlock_eq (lossless : codec.Lossless) (encoder : Encoder) (nonempty : chunk ≠ [])
    (fits : chunk.length ≤ blockSize) :
    ∃ block : Block, block.marked = false ∧ block.Readable codec ∧ block.chunk = chunk ∧
      encoder.encodeBlock codec chunk =
        some { encoder with write := encoder.write ++ block.bytes } := by
  obtain ⟨packed, compress, decompress, positive, bound⟩ := lossless chunk nonempty fits
  refine ⟨⟨false, chunk, packed⟩, rfl, ⟨nonempty, decompress, positive, bound⟩, rfl, ?_⟩
  rw [encodeBlock, compress, Option.map_some, writePod, Block.bytes]
  simp only [Bool.false_eq_true, if_false, nil_append, append_assoc]

/-- A written block joins the blocks before it. -/
theorem Wrote.append (wrote : encoder.Wrote codec blocks content) (unmarked : block.marked = false)
    (readable : block.Readable codec) {chunker : Chunker}
    (chunkSize : chunker.chunkSize = blockSize) :
    Wrote codec { encoder with write := encoder.write ++ block.bytes, chunker }
      (blocks ++ [block]) (contents blocks ++ (block.chunk ++ chunker.chunk)) := by
  constructor
  · simp [wrote.write, blockBytes]
  · intro other mem
    rcases mem_append.mp mem with old | new
    · exact wrote.unmarked other old
    · rw [mem_singleton.mp new]
      exact unmarked
  · intro other mem
    rcases mem_append.mp mem with old | new
    · exact wrote.readable other old
    · rw [mem_singleton.mp new]
      exact readable
  · exact chunkSize
  · simp [contents]

/-- One round of the loop of `write_all`. -/
theorem Wrote.encodeFull (lossless : codec.Lossless) (wrote : encoder.Wrote codec blocks content)
    (buf : List UInt8) :
    ∃ after blocks' content',
      ({ encoder with chunker := (encoder.chunker.addData buf).2.2 }).encodeFull codec
        (encoder.chunker.addData buf).2.1 = some after ∧
      after.Wrote codec blocks' content' ∧
      content ++ buf = content' ++ (encoder.chunker.addData buf).1 ∧
      after.total = encoder.total ∧ after.isLg = encoder.isLg := by
  have added := encoder.chunker.added_addData buf
  cases emitted : (encoder.chunker.addData buf).2.1 with
  | none =>
    refine ⟨_, blocks, contents blocks ++ (encoder.chunker.addData buf).2.2.chunk, rfl,
      ⟨wrote.write, wrote.unmarked, wrote.readable,
        added.sameSize.trans wrote.chunkSize, rfl⟩, ?_, rfl, rfl⟩
    have moved := added.content
    rw [emitted, Option.getD_none, nil_append] at moved
    rw [wrote.content, append_assoc, moved, append_assoc]
  | some chunk =>
    have full : chunk.length = blockSize := (added.full chunk emitted).trans wrote.chunkSize
    have nonempty : chunk ≠ [] := by
      intro empty
      rw [empty] at full
      cases full
    obtain ⟨block, unmarked, readable, chunkEq, encodeEq⟩ :=
      encodeBlock_eq lossless { encoder with chunker := (encoder.chunker.addData buf).2.2 }
        nonempty full.le
    refine ⟨_, _, _, encodeEq,
      wrote.append unmarked readable (added.sameSize.trans wrote.chunkSize), ?_, rfl, rfl⟩
    have moved := added.content
    rw [emitted, Option.getD_some] at moved
    rw [wrote.content, append_assoc, moved, chunkEq]
    simp only [append_assoc]

/-- The loop of `write_all` takes in the whole buffer. -/
theorem Wrote.writeLoop (lossless : codec.Lossless) (wrote : encoder.Wrote codec blocks content)
    (buf : List UInt8) :
    ∃ after blocks', encoder.writeLoop codec buf = some after ∧
      after.Wrote codec blocks' (content ++ buf) ∧
      after.total = encoder.total ∧ after.isLg = encoder.isLg := by
  fun_induction Encoder.writeLoop codec encoder buf generalizing blocks content with
  | case1 encoder =>
    refine ⟨encoder, blocks, rfl, ?_, rfl, rfl⟩
    rw [append_nil]
    exact wrote
  | case2 encoder buf nonempty failed =>
    obtain ⟨after, _, _, encodeEq, _⟩ := wrote.encodeFull lossless buf
    rw [encodeEq] at failed
    cases failed
  | case3 encoder buf nonempty next encoded ih =>
    obtain ⟨after, blocks', content', encodeEq, afterWrote, moved, total, isLg⟩ :=
      wrote.encodeFull lossless buf
    rw [encoded] at encodeEq
    cases encodeEq
    obtain ⟨last, lastBlocks, loopEq, lastWrote, lastTotal, lastLg⟩ := ih afterWrote
    rw [moved]
    exact ⟨last, lastBlocks, loopEq, lastWrote, lastTotal.trans total, lastLg.trans isLg⟩

/-- The encoder between two writes: nothing is written before the first one, and
the total tells whether there was one. -/
structure Took (codec : Lz4Block) (encoder : Encoder) (content : List UInt8) : Prop where
  total : encoder.total = UInt32.ofNat content.length
  isLg : encoder.isLg = false
  state : (content = [] ∧ encoder = Encoder.new false) ∨
    (content ≠ [] ∧ ∃ blocks, encoder.Wrote codec blocks content)

theorem took_new (codec : Lz4Block) : (Encoder.new false).Took codec [] :=
  ⟨rfl, rfl, Or.inl ⟨rfl, rfl⟩⟩

/-- The magic alone is an archive of nothing. -/
theorem wrote_magic (codec : Lz4Block) : ((Encoder.new false).writePod magic).Wrote codec [] [] := by
  refine ⟨rfl, ?_, ?_, rfl, rfl⟩
  · intro block mem
    exact absurd mem not_mem_nil
  · intro block mem
    exact absurd mem not_mem_nil

/-- The magic is behind the encoder once `write_all` has checked the total. -/
theorem Took.wrote_header (took : encoder.Took codec content) (fits : content.length < 2 ^ 32) :
    ∃ blocks, (if encoder.total = 0 then encoder.writePod magic else encoder).Wrote codec
      blocks content := by
  rcases took.state with ⟨empty, fresh⟩ | ⟨nonempty, blocks, wrote⟩
  · subst empty
    subst fresh
    exact ⟨[], wrote_magic codec⟩
  · have notZero : encoder.total ≠ 0 := by
      intro zero
      have lengthZero : (UInt32.ofNat content.length).toNat = 0 := by
        rw [← took.total, zero]
        rfl
      rw [UInt32.toNat_ofNat_of_lt' fits] at lengthZero
      exact nonempty (eq_nil_of_length_eq_zero lengthZero)
    rw [if_neg notZero]
    exact ⟨blocks, wrote⟩

/-- One write. -/
theorem Took.writeAll (lossless : codec.Lossless) {buf : List UInt8}
    (took : encoder.Took codec content) (nonempty : buf ≠ []) (fits : content.length < 2 ^ 32) :
    ∃ after, encoder.writeAll codec buf = some after ∧ after.Took codec (content ++ buf) := by
  obtain ⟨blocks, wrote⟩ := took.wrote_header fits
  have counted : Wrote codec
      { (if encoder.total = 0 then encoder.writePod magic else encoder) with
        total := (if encoder.total = 0 then encoder.writePod magic else encoder).total +
          UInt32.ofNat buf.length } blocks content :=
    ⟨wrote.write, wrote.unmarked, wrote.readable, wrote.chunkSize, wrote.content⟩
  obtain ⟨after, blocks', loopEq, afterWrote, total, isLg⟩ := counted.writeLoop lossless buf
  refine ⟨after, loopEq, ?_, ?_, Or.inr ⟨?_, blocks', afterWrote⟩⟩
  · rw [total, length_append, UInt32.ofNat_add, ← took.total]
    split <;> rfl
  · rw [isLg, ← took.isLg]
    split <;> rfl
  · exact append_ne_nil_of_right_ne_nil _ nonempty

/-- All writes. -/
theorem Took.foldlM_writeAll (lossless : codec.Lossless) (nonempty : ∀ buf ∈ writes, buf ≠ [])
    (took : encoder.Took codec content) (fits : (content ++ writes.flatten).length < 2 ^ 32) :
    ∃ after, writes.foldlM (Encoder.writeAll codec) encoder = some after ∧
      after.Took codec (content ++ writes.flatten) := by
  induction writes generalizing encoder content with
  | nil =>
    refine ⟨encoder, rfl, ?_⟩
    rw [flatten_nil, append_nil]
    exact took
  | cons buf writes ih =>
    rw [flatten_cons, ← append_assoc] at fits ⊢
    have contentFits : content.length < 2 ^ 32 := by
      simp only [length_append] at fits
      omega
    obtain ⟨next, writeEq, nextTook⟩ :=
      took.writeAll lossless (nonempty buf mem_cons_self) contentFits
    obtain ⟨after, foldEq, afterTook⟩ :=
      ih (fun other mem => nonempty other (mem_cons_of_mem _ mem)) nextTook fits
    refine ⟨after, ?_, afterTook⟩
    rw [foldlM_cons, writeEq]
    exact foldEq

/-- What is left in the chunker becomes the last block. -/
theorem Wrote.finish (lossless : codec.Lossless) (wrote : encoder.Wrote codec blocks content)
    (isLg : encoder.isLg = false) :
    ∃ blocks', encoder.finish codec = some (leBytes 4 magic ++ blockBytes blocks') ∧
      (∀ block ∈ blocks', block.marked = false) ∧
      (∀ block ∈ blocks', block.Readable codec) ∧ contents blocks' = content := by
  by_cases empty : encoder.chunker.chunk = []
  · refine ⟨blocks, ?_, wrote.unmarked, wrote.readable, ?_⟩
    · simp [Encoder.finish, Chunker.getAvailable, empty, isLg, wrote.write]
    · rw [wrote.content, empty, append_nil]
  · have fits : encoder.chunker.chunk.length ≤ blockSize :=
      wrote.chunkSize ▸ encoder.chunker.room.le
    obtain ⟨block, unmarked, readable, chunkEq, encodeEq⟩ :=
      encodeBlock_eq lossless { encoder with chunker := encoder.chunker.clear } empty fits
    have appended : Wrote codec { encoder with
        write := encoder.write ++ block.bytes, chunker := encoder.chunker.clear }
        (blocks ++ [block]) (contents blocks ++ (block.chunk ++ [])) :=
      wrote.append unmarked readable wrote.chunkSize
    refine ⟨blocks ++ [block], ?_, appended.unmarked, appended.readable, ?_⟩
    · rw [Encoder.finish, ← appended.write]
      simp only [Chunker.getAvailable, if_neg empty, encodeEq, Option.map_some]
      simp only [isLg, Bool.false_eq_true, if_false]
    · rw [wrote.content, contents, flatMap_append, flatMap_singleton, chunkEq]
      rfl

/-- The magic belongs to the first block. -/
theorem exists_marked (unmarked : ∀ block ∈ blocks, block.marked = false)
    (readable : ∀ block ∈ blocks, block.Readable codec) (nonempty : contents blocks ≠ []) :
    ∃ marked, blockBytes marked = leBytes 4 magic ++ blockBytes blocks ∧
      contents marked = contents blocks ∧ ∀ block ∈ marked, block.Readable codec := by
  cases blocks with
  | nil => exact absurd rfl nonempty
  | cons block rest =>
    have plain := unmarked block mem_cons_self
    have first := readable block mem_cons_self
    refine ⟨{ block with marked := true } :: rest, ?_, rfl, ?_⟩
    · simp [blockBytes, Block.bytes, plain]
    · intro other mem
      rcases mem_cons.mp mem with rfl | old
      · exact ⟨first.nonempty, first.decompress, first.positive, first.fits⟩
      · exact readable other (mem_cons_of_mem _ old)

/-- An archive is a list of readable blocks with the contents that were
written. -/
theorem encode_eq (lossless : codec.Lossless) (nonempty : ∀ buf ∈ writes, buf ≠ [])
    (positive : 1 ≤ writes.flatten.length) (fits : writes.flatten.length < 2 ^ 32) :
    ∃ blocks, encode codec false writes = some (blockBytes blocks) ∧
      contents blocks = writes.flatten ∧ ∀ block ∈ blocks, block.Readable codec := by
  obtain ⟨after, foldEq, took⟩ := (took_new codec).foldlM_writeAll lossless nonempty fits
  rw [nil_append] at took
  have some_content : writes.flatten ≠ [] := ne_nil_of_length_pos positive
  rcases took.state with ⟨empty, _⟩ | ⟨_, blocks, wrote⟩
  · exact absurd empty some_content
  · obtain ⟨blocks', finishEq, unmarked, readable, contentsEq⟩ := wrote.finish lossless took.isLg
    obtain ⟨marked, bytes, same, markedReadable⟩ :=
      exists_marked unmarked readable (contentsEq ▸ some_content)
    refine ⟨marked, ?_, same.trans contentsEq, markedReadable⟩
    rw [encode, foldEq, bytes]
    exact finishEq

end Encoder

/-! ## The round trip -/

/-- A content of at most `2 ^ 32 - 1` bytes, cut into non-empty writes. -/
structure Writes (writes : List (List UInt8)) : Prop where
  nonempty : ∀ buf ∈ writes, buf ≠ []
  positive : 1 ≤ writes.flatten.length
  fits : writes.flatten.length < 2 ^ 32

/-- The blocks in front of a new decoder. -/
theorem Decoder.holds_new (readable : ∀ block ∈ blocks, block.Readable codec)
    {events : List ReadEvent} (steady : ∀ event ∈ events, ∃ bound, event = .short bound) :
    (Decoder.new ⟨blockBytes blocks, events⟩).Holds codec blocks (contents blocks) :=
  ⟨rfl, steady, readable, rfl⟩

/-- Decoding an archive, or two archives one after the other, gives back what was
written, however the writes and the reads on both sides were cut. -/
theorem readToEnd_encode {codec : Lz4Block} (lossless : codec.Lossless)
    {writes writes' : List (List UInt8)} (cut : Writes writes) (cut' : Writes writes')
    {sizes : Nat → Nat} (positive : ∀ call, 0 < sizes call) {events : List ReadEvent}
    (steady : ∀ event ∈ events, ∃ bound, event = .short bound) :
    ∃ archive archive', Encoder.encode codec false writes = some archive ∧
      Encoder.encode codec false writes' = some archive' ∧
      (∀ fuel, writes.flatten.length < fuel →
        (Decoder.new ⟨archive, events⟩).readToEnd codec sizes fuel = some writes.flatten) ∧
      ∀ fuel, (writes.flatten ++ writes'.flatten).length < fuel →
        (Decoder.new ⟨archive ++ archive', events⟩).readToEnd codec sizes fuel =
          some (writes.flatten ++ writes'.flatten) := by
  obtain ⟨blocks, encodeEq, contentsEq, readable⟩ :=
    Encoder.encode_eq lossless cut.nonempty cut.positive cut.fits
  obtain ⟨blocks', encodeEq', contentsEq', readable'⟩ :=
    Encoder.encode_eq lossless cut'.nonempty cut'.positive cut'.fits
  refine ⟨_, _, encodeEq, encodeEq', ?_, ?_⟩
  · intro fuel enough
    rw [← contentsEq] at enough ⊢
    exact (Decoder.holds_new readable steady).readToEnd positive enough
  · intro fuel enough
    have both : ∀ block ∈ blocks ++ blocks', block.Readable codec := by
      intro block mem
      rcases mem_append.mp mem with first | second
      · exact readable block first
      · exact readable' block second
    have bytes : blockBytes blocks ++ blockBytes blocks' = blockBytes (blocks ++ blocks') :=
      flatMap_append.symm
    have joined : contents (blocks ++ blocks') = writes.flatten ++ writes'.flatten := by
      rw [← contentsEq, ← contentsEq']
      exact flatMap_append
    rw [← joined] at enough ⊢
    rw [bytes]
    exact (Decoder.holds_new both steady).readToEnd positive enough

/-- A coder that stores blocks as they are. -/
def storedBlock : Lz4Block :=
  ⟨some, some⟩

theorem lossless_storedBlock : storedBlock.Lossless := by
  intro chunk nonempty fits
  refine ⟨chunk, rfl, rfl, length_pos_of_ne_nil nonempty, le_trans fits ?_⟩
  exact Nat.le_add_right_of_le (Nat.le_add_right _ _)

/-- Two small archives, read one byte at a time. -/
theorem readToEnd_encode_storedBlock :
    ∃ archive archive', Encoder.encode storedBlock false [[1], [2, 3]] = some archive ∧
      Encoder.encode storedBlock false [[4]] = some archive' ∧
      (∀ fuel, 3 < fuel → (Decoder.new ⟨archive, [.short 0, .short 1]⟩).readToEnd storedBlock
        (fun _ => 1) fuel = some [1, 2, 3]) ∧
      ∀ fuel, 4 < fuel → (Decoder.new ⟨archive ++ archive', [.short 0, .short 1]⟩).readToEnd
        storedBlock (fun _ => 1) fuel = some [1, 2, 3, 4] :=
  readToEnd_encode lossless_storedBlock ⟨by decide, by decide, by decide⟩
    ⟨by decide, by decide, by decide⟩ (fun _ => Nat.zero_lt_one) (by simp)

end Lz4

end Magisk.Boot
