/-
SpringDome.Protobuf.CodedInputStream — `google/protobuf/io/coded_stream.h` and
`.cc`, the reading half.

The bytes come in buffers of any size from an underlying stream. A stream keeps
the rest of one buffer (`buffer`), what of it lies behind a limit
(`afterLimit`), and what lies behind the last position that an `int` can name
(`overflow`); `refresh` fetches the next. Limits are positions, and the nearer
of the two counts.

The readers have fast paths that look at the buffer as an array and do not ask
where it ends. Reading behind the end is `overrun` here, an outcome of its own.
-/
import SpringDome.Lib.WireFormat

namespace SpringDome.Protobuf

open SpringDome.Lib.WireFormat

/-! ## 1. The state -/

/-- `INT_MAX`. -/
def intMax : Nat := 2 ^ 31 - 1

def kMaxVarintBytes : Nat := 10

structure CodedInputStream where
  /-- From `buffer_` to `buffer_end_`. -/
  buffer : List UInt8
  /-- The `buffer_size_after_limit_` bytes behind. -/
  afterLimit : List UInt8
  /-- The `overflow_bytes_` bytes behind these. -/
  overflow : List UInt8
  /-- What `input_->Next()` has still to give. -/
  input : List (List UInt8)
  totalBytesRead : Nat
  lastTag : UInt32
  legitimateMessageEnd : Bool
  currentLimit : Nat
  totalBytesLimit : Nat
  recursionBudget : Int
  recursionLimit : Int
  deriving DecidableEq, Repr

/-- How a call ends. -/
inductive Outcome (α : Type) where
  | done (value : α)
  | failed
  | overrun
  deriving DecidableEq, Repr

/-- One call after another, as long as they succeed. -/
def andThen {α β : Type} {σ : Type} (result : Outcome α × σ) (next : α → σ → Outcome β × σ) :
    Outcome β × σ :=
  match result with
  | (.done a, s) => next a s
  | (.failed, s) => (.failed, s)
  | (.overrun, s) => (.overrun, s)

/-- `NextNonEmpty`. -/
def nextNonEmpty : List (List UInt8) → Option (List UInt8 × List (List UInt8))
  | [] => none
  | [] :: input => nextNonEmpty input
  | (b :: data) :: input => some (b :: data, input)

/-- `ZeroCopyInputStream::Skip`. -/
def skipInput : Nat → List (List UInt8) → Bool × List (List UInt8)
  | 0, input => (true, input)
  | _ + 1, [] => (false, [])
  | count + 1, data :: input =>
      if count + 1 ≤ data.length then (true, data.drop (count + 1) :: input)
      else skipInput (count + 1 - data.length) input

namespace CodedInputStream

def currentPosition (s : CodedInputStream) : Nat :=
  s.totalBytesRead - (s.buffer.length + s.afterLimit.length)

def closestLimit (s : CodedInputStream) : Nat := min s.currentLimit s.totalBytesLimit

def recomputeBufferLimits (s : CodedInputStream) : CodedInputStream :=
  let buffer := s.buffer ++ s.afterLimit
  if s.closestLimit < s.totalBytesRead then
    let n := s.totalBytesRead - s.closestLimit
    { s with buffer := buffer.take (buffer.length - n)
             afterLimit := buffer.drop (buffer.length - n) }
  else { s with buffer := buffer, afterLimit := [] }

def refresh (s : CodedInputStream) : Bool × CodedInputStream :=
  if s.afterLimit ≠ [] ∨ s.overflow ≠ [] ∨ s.totalBytesRead = s.currentLimit then (false, s)
  else
    match nextNonEmpty s.input with
    | none => (false, { s with buffer := [], input := [] })
    | some (data, input) =>
        if s.totalBytesRead ≤ intMax - data.length then
          (true, recomputeBufferLimits
            { s with buffer := data, input := input
                     totalBytesRead := s.totalBytesRead + data.length })
        else
          let overflowBytes := s.totalBytesRead - (intMax - data.length)
          (true, recomputeBufferLimits
            { s with buffer := data.take (data.length - overflowBytes), input := input
                     overflow := data.drop (data.length - overflowBytes)
                     totalBytesRead := intMax })

/-- `CodedInputStream(ZeroCopyInputStream*)`; the recursion limit is that of
`default_recursion_limit_`. -/
def ofStream (input : List (List UInt8)) : CodedInputStream :=
  (refresh ⟨[], [], [], input, 0, 0, false, intMax, intMax, 100, 100⟩).2

/-- `CodedInputStream(const uint8* buffer, int size)`. -/
def ofArray (buffer : List UInt8) : CodedInputStream :=
  ⟨buffer, [], [], [], buffer.length, 0, false, buffer.length, intMax, 100, 100⟩

/-! ## 2. Limits -/

/-- The old limit, and the stream under the new one. -/
def pushLimit (s : CodedInputStream) (byteLimit : Int) : Nat × CodedInputStream :=
  if 0 ≤ byteLimit ∧ byteLimit ≤ (intMax : Int) - s.currentPosition ∧
      byteLimit < (s.currentLimit : Int) - s.currentPosition then
    (s.currentLimit,
      recomputeBufferLimits { s with currentLimit := s.currentPosition + byteLimit.toNat })
  else (s.currentLimit, s)

def popLimit (s : CodedInputStream) (limit : Nat) : CodedInputStream :=
  { recomputeBufferLimits { s with currentLimit := limit } with legitimateMessageEnd := false }

def bytesUntilLimit (s : CodedInputStream) : Int :=
  if s.currentLimit = intMax then -1 else (s.currentLimit : Int) - s.currentPosition

def setTotalBytesLimit (s : CodedInputStream) (totalBytesLimit : Nat) : CodedInputStream :=
  recomputeBufferLimits { s with totalBytesLimit := max s.currentPosition totalBytesLimit }

def incrementRecursionDepth (s : CodedInputStream) : Bool × CodedInputStream :=
  (decide (0 ≤ s.recursionBudget - 1), { s with recursionBudget := s.recursionBudget - 1 })

def decrementRecursionDepth (s : CodedInputStream) : CodedInputStream :=
  if s.recursionBudget < s.recursionLimit then
    { s with recursionBudget := s.recursionBudget + 1 }
  else s

def lastTagWas (s : CodedInputStream) (expected : UInt32) : Bool := s.lastTag == expected

def consumedEntireMessage (s : CodedInputStream) : Bool := s.legitimateMessageEnd

/-! ## 3. Raw bytes -/

/-- The loop of `ReadRaw` and of `ReadStringFallback`, with what was copied so
far. Each refresh takes a buffer from the input. -/
def readRawLoop : Nat → CodedInputStream → Nat → List UInt8 →
    Outcome (List UInt8) × CodedInputStream
  | 0, s, _, _ => (.failed, s)
  | fuel + 1, s, size, copied =>
      if s.buffer.length < size then
        match refresh { s with buffer := [] } with
        | (false, s) => (.failed, s)
        | (true, s') =>
            readRawLoop fuel s' (size - s.buffer.length) (copied ++ s.buffer)
      else (.done (copied ++ s.buffer.take size), { s with buffer := s.buffer.drop size })

def readRaw (s : CodedInputStream) (size : Nat) : Outcome (List UInt8) × CodedInputStream :=
  readRawLoop (s.input.length + 1) s size []

def readString (s : CodedInputStream) (size : Int) : Outcome (List UInt8) × CodedInputStream :=
  if size < 0 then (.failed, s)
  else if size.toNat ≤ s.buffer.length then
    (.done (s.buffer.take size.toNat), { s with buffer := s.buffer.drop size.toNat })
  else readRawLoop (s.input.length + 1) s size.toNat []

def skipFallback (s : CodedInputStream) (count originalBufferSize : Nat) :
    Outcome Unit × CodedInputStream :=
  if s.afterLimit ≠ [] then
    (.failed, { s with buffer := s.buffer.drop originalBufferSize })
  else
    let count := count - originalBufferSize
    let s := { s with buffer := [] }
    let bytesUntilLimit := (s.closestLimit : Int) - s.totalBytesRead
    if bytesUntilLimit < count then
      if 0 < bytesUntilLimit then
        (.failed, { s with totalBytesRead := s.closestLimit
                           input := (skipInput bytesUntilLimit.toNat s.input).2 })
      else (.failed, s)
    else
      let (skipped, input) := skipInput count s.input
      (if skipped then .done () else .failed,
        { s with totalBytesRead := s.totalBytesRead + count, input := input })

def skip (s : CodedInputStream) (count : Int) : Outcome Unit × CodedInputStream :=
  if count < 0 then (.failed, s)
  else if count.toNat ≤ s.buffer.length then
    (.done (), { s with buffer := s.buffer.drop count.toNat })
  else s.skipFallback count.toNat s.buffer.length

def readLittleEndian32FromArray : List UInt8 → Outcome UInt32
  | b0 :: b1 :: b2 :: b3 :: _ =>
      .done (b0.toUInt32 ||| b1.toUInt32 <<< 8 ||| b2.toUInt32 <<< 16 ||| b3.toUInt32 <<< 24)
  | _ => .overrun

def readLittleEndian64FromArray (buffer : List UInt8) : Outcome UInt64 :=
  match readLittleEndian32FromArray buffer, readLittleEndian32FromArray (buffer.drop 4) with
  | .done part0, .done part1 => .done (part0.toUInt64 ||| part1.toUInt64 <<< 32)
  | _, _ => .overrun

/-- The two readers of fixed numbers, by the size and the array reader: from
the buffer when it is long enough, else from a copy. -/
def readFixed {α : Type} (fromArray : List UInt8 → Outcome α) (size : Nat) (s : CodedInputStream) :
    Outcome α × CodedInputStream :=
  if size ≤ s.buffer.length then
    (fromArray s.buffer, { s with buffer := s.buffer.drop size })
  else andThen (s.readRaw size) fun bytes s => (fromArray bytes, s)

def readLittleEndian32 (s : CodedInputStream) : Outcome UInt32 × CodedInputStream :=
  readFixed readLittleEndian32FromArray 4 s

def readLittleEndian64 (s : CodedInputStream) : Outcome UInt64 × CodedInputStream :=
  readFixed readLittleEndian64FromArray 8 s

end CodedInputStream

/-! ## 4. Varints in an array -/

inductive FromArray (α : Type) where
  | done (value : α) (ptr : List UInt8)
  | malformed
  | overrun
  deriving DecidableEq, Repr

/-- One line of the unrolled loops, `b = *(ptr++); result += b << shift; if (!(b
& 0x80)) goto done; result -= 0x80 << shift;`, and what comes after it. -/
def varintLine {α : Type} (shift : UInt32) (done next : UInt32 → List UInt8 → FromArray α)
    (result : UInt32) : List UInt8 → FromArray α
  | [] => .overrun
  | b :: ptr =>
      if b &&& 0x80 = 0 then done (result + b.toUInt32 <<< shift) ptr
      else next (result + b.toUInt32 <<< shift - 0x80 <<< shift) ptr

/-- The loop over the bytes that are too many for 32 bits. -/
def discardHighOrder : Nat → UInt32 → List UInt8 → FromArray UInt32
  | 0, _, _ => .malformed
  | _ + 1, _, [] => .overrun
  | n + 1, result, b :: ptr =>
      if b &&& 0x80 = 0 then .done result ptr else discardHighOrder n result ptr

def readVarint32FromArray (firstByte : UInt32) : List UInt8 → FromArray UInt32
  | [] => .overrun
  | _ :: ptr =>
      varintLine 7 .done (varintLine 14 .done (varintLine 21 .done (varintLine 28 .done
        (discardHighOrder 5)))) (firstByte - 0x80) ptr

/-- The four lines for one of the 28-bit pieces. -/
def varintPart {α : Type} (done next : UInt32 → List UInt8 → FromArray α) :
    List UInt8 → FromArray α :=
  varintLine 0 done (varintLine 7 done (varintLine 14 done (varintLine 21 done next))) 0

def varint64Done (part0 part1 part2 : UInt32) (ptr : List UInt8) : FromArray UInt64 :=
  .done (part0.toUInt64 ||| part1.toUInt64 <<< 28 ||| part2.toUInt64 <<< 56) ptr

def readVarint64FromArray : List UInt8 → FromArray UInt64 :=
  varintPart (fun part0 => varint64Done part0 0 0) fun part0 =>
    varintPart (fun part1 => varint64Done part0 part1 0) fun part1 =>
      varintLine 0 (fun part2 => varint64Done part0 part1 part2)
        (varintLine 7 (fun part2 => varint64Done part0 part1 part2) fun _ _ => .malformed) 0

namespace CodedInputStream

/-! ## 5. Varints in a stream -/

/-- The test before the fast paths: the buffer is long enough for any varint,
or ends with a byte that would terminate one. -/
def varintEndsInBuffer (s : CodedInputStream) : Bool :=
  decide (kMaxVarintBytes ≤ s.buffer.length) ||
    match s.buffer.getLast? with
    | none => false
    | some b => b &&& 0x80 == 0

/-- What a fast path makes of the array. -/
def takeFromArray {α : Type} (s : CodedInputStream) : FromArray α → Outcome α × CodedInputStream
  | .done value ptr => (.done value, { s with buffer := ptr })
  | .malformed => (.failed, s)
  | .overrun => (.overrun, s)

/-- `while (buffer_ == buffer_end_) { if (!Refresh()) return false; }`. -/
def refreshUntilBytes : Nat → CodedInputStream → Bool × CodedInputStream
  | 0, s => (false, s)
  | fuel + 1, s =>
      match s.buffer with
      | _ :: _ => (true, s)
      | [] =>
          match s.refresh with
          | (false, s) => (false, s)
          | (true, s) => refreshUntilBytes fuel s

/-- The loop of `ReadVarint64Slow`, with the bytes that may still come and the
number of those before. -/
def readVarint64Loop : Nat → UInt64 → UInt64 → CodedInputStream →
    Outcome UInt64 × CodedInputStream
  | 0, _, _, s => (.failed, s)
  | left + 1, count, result, s =>
      match refreshUntilBytes (s.input.length + 2) s with
      | (false, s) => (.failed, s)
      | (true, s) =>
          match s.buffer with
          | [] => (.failed, s)
          | b :: buffer =>
              let result := result ||| (b &&& 0x7F).toUInt64 <<< (7 * count)
              let s := { s with buffer := buffer }
              if b &&& 0x80 = 0 then (.done result, s)
              else readVarint64Loop left (count + 1) result s

def readVarint64Slow (s : CodedInputStream) : Outcome UInt64 × CodedInputStream :=
  readVarint64Loop kMaxVarintBytes 0 0 s

def readVarint64Fallback (s : CodedInputStream) : Outcome UInt64 × CodedInputStream :=
  if s.varintEndsInBuffer then s.takeFromArray (readVarint64FromArray s.buffer)
  else s.readVarint64Slow

def readVarint64 (s : CodedInputStream) : Outcome UInt64 × CodedInputStream :=
  match s.buffer with
  | b :: buffer =>
      if b < 0x80 then (.done b.toUInt64, { s with buffer := buffer }) else s.readVarint64Fallback
  | [] => s.readVarint64Fallback

def readVarint32Slow (s : CodedInputStream) : Outcome UInt32 × CodedInputStream :=
  andThen s.readVarint64Fallback fun value s => (.done value.toUInt32, s)

def readVarint32Fallback (s : CodedInputStream) (firstByteOrZero : UInt32) :
    Outcome UInt32 × CodedInputStream :=
  if s.varintEndsInBuffer then s.takeFromArray (readVarint32FromArray firstByteOrZero s.buffer)
  else s.readVarint32Slow

def readVarint32 (s : CodedInputStream) : Outcome UInt32 × CodedInputStream :=
  match s.buffer with
  | b :: buffer =>
      if b < 0x80 then (.done b.toUInt32, { s with buffer := buffer })
      else s.readVarint32Fallback b.toUInt32
  | [] => s.readVarint32Fallback 0

/-- A size that an `int` can hold. -/
def readVarintSizeAsIntFallback (s : CodedInputStream) : Outcome Nat × CodedInputStream :=
  if s.varintEndsInBuffer then
    match readVarint64FromArray s.buffer with
    | .done value ptr =>
        if intMax < value.toNat then (.failed, s)
        else (.done value.toNat, { s with buffer := ptr })
    | .malformed => (.failed, s)
    | .overrun => (.overrun, s)
  else
    andThen s.readVarint64Fallback fun value s =>
      (if intMax < value.toNat then .failed else .done value.toNat, s)

def readVarintSizeAsInt (s : CodedInputStream) : Outcome Nat × CodedInputStream :=
  match s.buffer with
  | b :: buffer =>
      if b < 0x80 then (.done b.toNat, { s with buffer := buffer })
      else s.readVarintSizeAsIntFallback
  | [] => s.readVarintSizeAsIntFallback

/-! ## 6. Tags -/

/-- A tag, or 0 when there is none. -/
def readTagSlow (s : CodedInputStream) : Outcome UInt32 × CodedInputStream :=
  let readRest (s : CodedInputStream) : Outcome UInt32 × CodedInputStream :=
    match s.readVarint64 with
    | (.done value, s) => (.done value.toUInt32, s)
    | (.failed, s) => (.done 0, s)
    | (.overrun, s) => (.overrun, s)
  match s.buffer with
  | _ :: _ => readRest s
  | [] =>
      match s.refresh with
      | (true, s) => readRest s
      | (false, s) =>
          let currentPosition := s.totalBytesRead - s.afterLimit.length
          (.done 0, { s with legitimateMessageEnd :=
            if s.totalBytesLimit ≤ currentPosition then s.currentLimit == s.totalBytesLimit
            else true })

def readTagFallback (s : CodedInputStream) (firstByteOrZero : UInt32) :
    Outcome UInt32 × CodedInputStream :=
  if s.varintEndsInBuffer then
    if firstByteOrZero = 0 then (.done 0, { s with buffer := s.buffer.drop 1 })
    else
      match readVarint32FromArray firstByteOrZero s.buffer with
      | .done tag ptr => (.done tag, { s with buffer := ptr })
      | .malformed => (.done 0, s)
      | .overrun => (.overrun, s)
  else if s.buffer = [] ∧ (s.afterLimit ≠ [] ∨ s.totalBytesRead = s.currentLimit) ∧
      s.totalBytesRead - s.afterLimit.length < s.totalBytesLimit then
    (.done 0, { s with legitimateMessageEnd := true })
  else s.readTagSlow

def readTagNoLastTag (s : CodedInputStream) : Outcome UInt32 × CodedInputStream :=
  match s.buffer with
  | b :: buffer =>
      if b < 0x80 then (.done b.toUInt32, { s with buffer := buffer })
      else s.readTagFallback b.toUInt32
  | [] => s.readTagFallback 0

def readTag (s : CodedInputStream) : Outcome UInt32 × CodedInputStream :=
  andThen s.readTagNoLastTag fun tag s => (.done tag, { s with lastTag := tag })

/-- The tag, and whether it is at or below the cutoff. -/
def readTagWithCutoffNoLastTag (s : CodedInputStream) (cutoff : UInt32) :
    Outcome (UInt32 × Bool) × CodedInputStream :=
  let slow (firstByteOrZero : UInt32) : Outcome (UInt32 × Bool) × CodedInputStream :=
    andThen (s.readTagFallback firstByteOrZero) fun tag s =>
      (.done (tag, decide (tag - 1 < cutoff)), s)
  match s.buffer with
  | [] => slow 0
  | b0 :: buffer =>
      if 0 < b0 ∧ b0 < 0x80 then
        let tag := b0.toUInt32
        (.done (tag, decide (0x7f ≤ cutoff) || decide (tag ≤ cutoff)), { s with buffer := buffer })
      else
        match buffer with
        | [] => slow b0.toUInt32
        | b1 :: buffer' =>
            if 0x80 ≤ cutoff ∧ 0x80 ≤ b0 &&& ~~~b1 then
              let tag := 0x80 * b1.toUInt32 + (b0.toUInt32 - 0x80)
              (.done (tag, decide (0x3fff ≤ cutoff) || decide (tag ≤ cutoff)),
                { s with buffer := buffer' })
            else slow b0.toUInt32

def readTagWithCutoff (s : CodedInputStream) (cutoff : UInt32) :
    Outcome (UInt32 × Bool) × CodedInputStream :=
  andThen (s.readTagWithCutoffNoLastTag cutoff) fun result s =>
    (.done result, { s with lastTag := result.1 })

end CodedInputStream

end SpringDome.Protobuf
