/-
SpringDome.Protobuf.CodedOutputStream — `google/protobuf/io/coded_stream.h`
and `.cc`, the writing half, without aliasing.

The bytes go into buffers of any size that the underlying stream gives. The
fast paths write to the buffer without looking where it ends (`put`); a write
behind the end of a buffer, or of the local array of a slow path, is recorded
as `overrun`. `total_bytes_` is an `int` that adds up all buffers, used or not;
here it is the sum, and `overflow` records that the sum left the `int`s, behind
which the language promises nothing.
-/
import SpringDome.Lib.WireFormat

namespace SpringDome.Protobuf

open SpringDome.Lib.WireFormat

/-! ## 1. The state -/

structure CodedOutputStream where
  /-- What stands in the buffers so far, one after another. -/
  written : List UInt8
  /-- The `buffer_size_` bytes that are left of the buffer. -/
  bufferSize : Nat
  /-- The sizes of what `output_->Next()` has still to give. -/
  output : List Nat
  totalBytes : Nat
  hadError : Bool
  overrun : Bool
  overflow : Bool
  deriving DecidableEq, Repr

namespace CodedOutputStream

def refresh (s : CodedOutputStream) : Bool × CodedOutputStream :=
  match s.output with
  | [] => (false, { s with bufferSize := 0, hadError := true })
  | size :: output =>
      (true, { s with bufferSize := size, output := output, totalBytes := s.totalBytes + size
                      overflow := s.overflow || decide (2 ^ 31 ≤ s.totalBytes + size) })

/-- The constructor refreshes at once, and an error in that does not count. -/
def ofBuffers (output : List Nat) : CodedOutputStream :=
  { (refresh ⟨[], 0, output, 0, false, false, false⟩).2 with hadError := false }

def byteCount (s : CodedOutputStream) : Nat := s.totalBytes - s.bufferSize

/-! ## 2. Raw bytes -/

/-- Writes at `buffer_`, then `Advance`. -/
def put (s : CodedOutputStream) (bytes : List UInt8) : CodedOutputStream :=
  { s with written := s.written ++ bytes
           bufferSize := s.bufferSize - bytes.length
           overrun := s.overrun || decide (s.bufferSize < bytes.length) }

/-- The loop of `WriteRaw`. Each refresh takes a buffer. -/
def writeRawLoop : Nat → CodedOutputStream → List UInt8 → CodedOutputStream
  | 0, s, _ => s
  | fuel + 1, s, data =>
      if s.bufferSize < data.length then
        match refresh (s.put (data.take s.bufferSize)) with
        | (false, s') => s'
        | (true, s') => writeRawLoop fuel s' (data.drop s.bufferSize)
      else s.put data

def writeRaw (s : CodedOutputStream) (data : List UInt8) : CodedOutputStream :=
  writeRawLoop (s.output.length + 1) s data

/-- A write that goes to the buffer where there are `room` bytes left, and else
through a local array of so many. -/
def writeFastOrSlow (room : Nat) (bytes : List UInt8) (s : CodedOutputStream) :
    CodedOutputStream :=
  if room ≤ s.bufferSize then s.put bytes
  else writeRaw { s with overrun := s.overrun || decide (room < bytes.length) } bytes

/-! ## 3. Numbers -/

/-- `while (value >= 0x80)`. -/
def writeVarintToArray (value : Nat) : List UInt8 :=
  if 0x80 ≤ value then UInt8.ofNat (value ||| 0x80) :: writeVarintToArray (value >>> 7)
  else [UInt8.ofNat value]
termination_by value
decreasing_by
  rw [Nat.shiftRight_eq_div_pow]
  omega

def writeVarint32ToArray (value : UInt32) : List UInt8 := writeVarintToArray value.toNat

def writeVarint64ToArray (value : UInt64) : List UInt8 := writeVarintToArray value.toNat

def writeLittleEndian32ToArray (value : UInt32) : List UInt8 :=
  [value.toUInt8, (value >>> 8).toUInt8, (value >>> 16).toUInt8, (value >>> 24).toUInt8]

def writeLittleEndian64ToArray (value : UInt64) : List UInt8 :=
  writeLittleEndian32ToArray value.toUInt32 ++ writeLittleEndian32ToArray (value >>> 32).toUInt32

def writeVarint32 (s : CodedOutputStream) (value : UInt32) : CodedOutputStream :=
  s.writeFastOrSlow 5 (writeVarint32ToArray value)

def writeVarint64 (s : CodedOutputStream) (value : UInt64) : CodedOutputStream :=
  s.writeFastOrSlow 10 (writeVarint64ToArray value)

def writeLittleEndian32 (s : CodedOutputStream) (value : UInt32) : CodedOutputStream :=
  s.writeFastOrSlow 4 (writeLittleEndian32ToArray value)

def writeLittleEndian64 (s : CodedOutputStream) (value : UInt64) : CodedOutputStream :=
  s.writeFastOrSlow 8 (writeLittleEndian64ToArray value)

def varintSize32 (value : UInt32) : Nat := (Nat.log2 (value ||| 1).toNat * 9 + 73) / 64

def varintSize64 (value : UInt64) : Nat := (Nat.log2 (value ||| 1).toNat * 9 + 73) / 64

end CodedOutputStream

end SpringDome.Protobuf
