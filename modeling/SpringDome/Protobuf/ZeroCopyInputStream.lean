/-
SpringDome.Protobuf.ZeroCopyInputStream — `google/protobuf/io/zero_copy_stream.h`
and its implementations in `zero_copy_stream_impl_lite.cc` and
`zero_copy_stream_impl.cc`, the reading half.

A stream answers four calls. `ArrayInputStream` reads an array in blocks,
`CopyingInputStreamAdaptor` a source that copies, `LimitingInputStream` the front
of another stream and `ConcatenatingInputStream` one stream after another; the
last two read any stream through these four calls, so they are nested by way of
the instances.

This is the release build (`NDEBUG`): a `GOOGLE_CHECK` that fails is `none`, a
`GOOGLE_DCHECK` is not there, and `GOOGLE_LOG(DFATAL)` writes to the log and
goes on.
-/
import SpringDome.Lib.ByteStream

namespace SpringDome.Protobuf

/-! ## 1. The interface -/

class ZeroCopyInputStream (σ : Type) where
  /-- `Next`: a buffer, or false. -/
  next : σ → Option (List UInt8) × σ
  backUp : σ → Int → Option σ
  skip : σ → Int → Option (Bool × σ)
  byteCount : σ → Int

open ZeroCopyInputStream

/-! ## 2. `ArrayInputStream` -/

structure ArrayInputStream where
  data : List UInt8
  blockSize : Nat
  position : Nat
  lastReturnedSize : Nat
  deriving DecidableEq, Repr

namespace ArrayInputStream

def new (data : List UInt8) (blockSize : Int) : ArrayInputStream :=
  ⟨data, if 0 < blockSize then blockSize.toNat else data.length, 0, 0⟩

instance : ZeroCopyInputStream ArrayInputStream where
  next s :=
    if s.position < s.data.length then
      let size := min s.blockSize (s.data.length - s.position)
      (some ((s.data.drop s.position).take size),
        { s with position := s.position + size, lastReturnedSize := size })
    else (none, { s with lastReturnedSize := 0 })
  backUp s count :=
    if 0 < s.lastReturnedSize ∧ count ≤ s.lastReturnedSize ∧ 0 ≤ count then
      some { s with position := s.position - count.toNat, lastReturnedSize := 0 }
    else none
  skip s count :=
    if 0 ≤ count then
      if count > s.data.length - s.position then
        some (false, { s with position := s.data.length, lastReturnedSize := 0 })
      else
        some (true, { s with position := s.position + count.toNat, lastReturnedSize := 0 })
    else none
  byteCount s := s.position

end ArrayInputStream

/-! ## 3. `CopyingInputStreamAdaptor` -/

namespace CopyingInputStream

variable {τ : Type}

/-- The loop of `CopyingInputStream::Skip`, which reads 4096 bytes at a time:
how many were skipped. Each round skips one at least. -/
def skipLoop (read : τ → Nat → Option (List UInt8) × τ) : Nat → τ → Nat → Nat × τ
  | 0, t, _ => (0, t)
  | rounds + 1, t, count =>
      if 0 < count then
        match read t (min count 4096) with
        | (none, t) => (0, t)
        | (some [], t) => (0, t)
        | (some (b :: bytes), t) =>
            let (skipped, t) := skipLoop read rounds t (count - (b :: bytes).length)
            ((b :: bytes).length + skipped, t)
      else (0, t)

/-- `CopyingInputStream::Skip` where it is not overridden. -/
def defaultSkip (read : τ → Nat → Option (List UInt8) × τ) (t : τ) (count : Nat) : Nat × τ :=
  skipLoop read count t count

end CopyingInputStream

class CopyingInputStream (τ : Type) where
  /-- `Read`: the bytes copied, none of them at the end, or an error. -/
  read : τ → Nat → Option (List UInt8) × τ
  /-- `Skip`: how many bytes were skipped. -/
  skip : τ → Nat → Nat × τ := CopyingInputStream.defaultSkip read

/-- What `CopyingFileInputStream` reads: a descriptor of a file, which can seek,
or of a pipe, which cannot. -/
structure CopyingFileInputStream where
  content : List UInt8
  /-- Where the descriptor stands; behind the end after a seek that went there. -/
  offset : Nat
  seekable : Bool
  previousSeekFailed : Bool
  deriving DecidableEq, Repr

namespace CopyingFileInputStream

def read (t : CopyingFileInputStream) (size : Nat) : Option (List UInt8) × CopyingFileInputStream :=
  let bytes := (t.content.drop t.offset).take size
  (some bytes, { t with offset := t.offset + bytes.length })

instance : CopyingInputStream CopyingFileInputStream where
  read := read
  skip t count :=
    -- `lseek` does not look where the file ends
    if !t.previousSeekFailed && t.seekable then (count, { t with offset := t.offset + count })
    else CopyingInputStream.defaultSkip read { t with previousSeekFailed := true } count

end CopyingFileInputStream

structure CopyingInputStreamAdaptor (τ : Type) where
  copyingStream : τ
  failed : Bool
  position : Nat
  bufferSize : Nat
  /-- The used part of `buffer_`; null if it is freed. -/
  buffer : Option (List UInt8)
  backupBytes : Nat

namespace CopyingInputStreamAdaptor

variable {τ : Type}

def kDefaultBlockSize : Nat := 8192

def new (copyingStream : τ) (blockSize : Int) : CopyingInputStreamAdaptor τ :=
  ⟨copyingStream, false, 0, if 0 < blockSize then blockSize.toNat else kDefaultBlockSize, none, 0⟩

/-- The used part, which is empty behind `AllocateBufferIfNeeded`. -/
def used (s : CopyingInputStreamAdaptor τ) : List UInt8 := s.buffer.getD []

instance [CopyingInputStream τ] : ZeroCopyInputStream (CopyingInputStreamAdaptor τ) where
  next s :=
    if s.failed then (none, s)
    else if 0 < s.backupBytes then
      (some (s.used.drop (s.used.length - s.backupBytes)),
        { s with buffer := some s.used, backupBytes := 0 })
    else
      match CopyingInputStream.read s.copyingStream s.bufferSize with
      | (none, t) => (none, { s with copyingStream := t, failed := true, buffer := none })
      | (some [], t) => (none, { s with copyingStream := t, buffer := none })
      | (some (b :: bytes), t) =>
          (some (b :: bytes),
            { s with copyingStream := t, buffer := some (b :: bytes)
                     position := s.position + (b :: bytes).length })
  backUp s count :=
    if s.backupBytes = 0 ∧ s.buffer ≠ none ∧ count ≤ s.used.length ∧ 0 ≤ count then
      some { s with backupBytes := count.toNat }
    else none
  skip s count :=
    if 0 ≤ count then
      if s.failed then some (false, s)
      else if count ≤ s.backupBytes then
        some (true, { s with backupBytes := s.backupBytes - count.toNat })
      else
        let count := count.toNat - s.backupBytes
        let (skipped, t) := CopyingInputStream.skip s.copyingStream count
        some (skipped == count,
          { s with copyingStream := t, backupBytes := 0, position := s.position + skipped })
    else none
  byteCount s := s.position - s.backupBytes

end CopyingInputStreamAdaptor

/-! ## 4. `LimitingInputStream` -/

structure LimitingInputStream (σ : Type) where
  input : σ
  limit : Int
  priorBytesRead : Int

namespace LimitingInputStream

variable {σ : Type} [ZeroCopyInputStream σ]

def new (input : σ) (limit : Int) : LimitingInputStream σ := ⟨input, limit, byteCount input⟩

/-- The destructor: the stream that is left. -/
def close (s : LimitingInputStream σ) : Option σ :=
  if s.limit < 0 then backUp s.input (-s.limit) else some s.input

instance : ZeroCopyInputStream (LimitingInputStream σ) where
  next s :=
    if s.limit ≤ 0 then (none, s)
    else
      match next s.input with
      | (none, input) => (none, { s with input := input })
      | (some data, input) =>
          let limit := s.limit - data.length
          (some (if limit < 0 then data.take (data.length + limit).toNat else data),
            { s with input := input, limit := limit })
  backUp s count :=
    if s.limit < 0 then
      (backUp s.input (count - s.limit)).map fun input => { s with input := input, limit := count }
    else
      (backUp s.input count).map fun input =>
        { s with input := input, limit := s.limit + count }
  skip s count :=
    if count > s.limit then
      if s.limit < 0 then some (false, s)
      else (skip s.input s.limit).map fun out => (false, { s with input := out.2, limit := 0 })
    else
      (skip s.input count).map fun out =>
        if out.1 then (true, { s with input := out.2, limit := s.limit - count })
        else (false, { s with input := out.2 })
  byteCount s :=
    if s.limit < 0 then byteCount s.input + s.limit - s.priorBytesRead
    else byteCount s.input - s.priorBytesRead

end LimitingInputStream

/-! ## 5. `ConcatenatingInputStream` -/

structure ConcatenatingInputStream (σ : Type) where
  streams : List σ
  bytesRetired : Int

namespace ConcatenatingInputStream

variable {σ : Type} [ZeroCopyInputStream σ]

def new (streams : List σ) : ConcatenatingInputStream σ := ⟨streams, 0⟩

def nextLoop : List σ → Int → Option (List UInt8) × ConcatenatingInputStream σ
  | [], retired => (none, ⟨[], retired⟩)
  | s :: streams, retired =>
      match next s with
      | (some data, s) => (some data, ⟨s :: streams, retired⟩)
      | (none, s) => nextLoop streams (retired + byteCount s)

/-- `GOOGLE_DCHECK_LT(final_byte_count, target_byte_count)` would fail behind a
limited stream that has overshot its limit, which refuses to skip nothing. -/
def skipLoop : List σ → Int → Int → Option (Bool × ConcatenatingInputStream σ)
  | [], _, retired => some (false, ⟨[], retired⟩)
  | s :: streams, count, retired =>
      match skip s count with
      | none => none
      | some (true, s) => some (true, ⟨s :: streams, retired⟩)
      | some (false, s') =>
          skipLoop streams (byteCount s + count - byteCount s') (retired + byteCount s')

instance : ZeroCopyInputStream (ConcatenatingInputStream σ) where
  next s := nextLoop s.streams s.bytesRetired
  backUp s count :=
    match s.streams with
    | [] => some s
    | first :: streams => (backUp first count).map fun first => ⟨first :: streams, s.bytesRetired⟩
  skip s count := skipLoop s.streams count s.bytesRetired
  byteCount s :=
    match s.streams with
    | [] => s.bytesRetired
    | first :: _ => s.bytesRetired + byteCount first

end ConcatenatingInputStream

/-! ## 6. Streams of two kinds -/

instance {σ τ : Type} [ZeroCopyInputStream σ] [ZeroCopyInputStream τ] :
    ZeroCopyInputStream (σ ⊕ τ) where
  next
    | .inl s => (next s).map id .inl
    | .inr t => (next t).map id .inr
  backUp
    | .inl s, count => (backUp s count).map .inl
    | .inr t, count => (backUp t count).map .inr
  skip
    | .inl s, count => (skip s count).map (Prod.map id .inl)
    | .inr t, count => (skip t count).map (Prod.map id .inr)
  byteCount
    | .inl s => byteCount s
    | .inr t => byteCount t

end SpringDome.Protobuf
