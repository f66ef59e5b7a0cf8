/-
SpringDome.Protobuf.UserProto — `UserProto.java`: the message `Response` and
its builder, as the protocol compiler wrote them. `user_Proto.java` is the same
file under another name.

A message keeps `info` as a string or as the bytes it came in, and turns the
one into the other when it is asked for the other; it also remembers its size
and whether it is complete. So the accessors of a message return the message
as it is afterwards.

`Runtime` is what the generated code takes from the protobuf library and does
not fix: the set of unknown fields, and how many bytes of a text that is not
UTF-8 are one mistake. What the library does with the bytes of a stream is
`Lib.WireFormat`.
-/
import SpringDome.Lib.WireFormat
import SpringDome.Lib.Charset

namespace SpringDome.Protobuf

open SpringDome.Lib.WireFormat
open SpringDome.Lib.Charset

/-! ## 1. The library -/

structure Runtime (U : Type) where
  /-- `UnknownFieldSet.getDefaultInstance()`. -/
  defaultInstance : U
  /-- `getFieldBuilder(number).addVarint(value)` and its siblings. -/
  addField : U → Nat → Payload → U
  /-- `getFieldBuilder(number).addGroup(group)`. -/
  addGroup : U → Nat → U → U
  /-- `UnknownFieldSet.Builder.mergeFrom(other)`. -/
  mergeFrom : U → U → U
  /-- The fields that `UnknownFieldSet.writeTo` writes. -/
  asFields : U → Fields
  malformedLength : List UInt8 → Nat

/-- Why a method does not return. -/
inductive Thrown where
  | nullPointer
  | negativeArraySize
  | outOfSpace
  | spaceLeft
  | uninitializedMessage
  | invalidProtocolBuffer (failure : Failure)
  /-- `UninitializedMessageException.asInvalidProtocolBufferException()`. -/
  | missingFields
  deriving DecidableEq, Repr

variable {U : Type}

/-- `UnknownFieldSet.Builder.mergeFieldFrom` on field after field. -/
def Runtime.addFields (rt : Runtime U) : U → Fields → U
  | u, .nil => u
  | u, .leaf number payload rest => rt.addFields (rt.addField u number payload) rest
  | u, .group number inside rest =>
      rt.addFields (rt.addGroup u number (rt.addFields rt.defaultInstance inside)) rest

/-- What the library's documentation says of unknown fields: they are kept, in
an order of its own; a set added to another is added field by field. -/
structure Runtime.Lawful (rt : Runtime U) : Prop where
  mergeFrom_addFields : ∀ u fs, rt.mergeFrom u (rt.addFields rt.defaultInstance fs) =
    rt.addFields u fs
  addFields_asFields : ∀ u fs, rt.addFields u (rt.asFields (rt.addFields rt.defaultInstance fs)) =
    rt.addFields u fs
  wellFormed_asFields : ∀ fs : Fields, fs.WellFormed →
    (rt.asFields (rt.addFields rt.defaultInstance fs)).WellFormed
  depth_asFields : ∀ fs : Fields,
    (rt.asFields (rt.addFields rt.defaultInstance fs)).depth ≤ fs.depth
  tags_asFields : ∀ fs : Fields,
    ∀ tag ∈ (rt.asFields (rt.addFields rt.defaultInstance fs)).tags, tag ∈ fs.tags

/-- Unknown fields in the order they came in, as the C++ library keeps them. -/
def vectorRuntime (malformedLength : List UInt8 → Nat) : Runtime Fields where
  defaultInstance := .nil
  addField := fun u number payload => u.append (.leaf number payload .nil)
  addGroup := fun u number inside => u.append (.group number inside .nil)
  mergeFrom := Fields.append
  asFields := fun u => u
  malformedLength := malformedLength

/-- `ByteString.copyFromUtf8`. -/
def copyFromUtf8 (s : String) : List UInt8 := encodeUtf8 s.toList

/-- `ByteString.toStringUtf8`. -/
def Runtime.toStringUtf8 (rt : Runtime U) (bs : List UInt8) : String :=
  String.ofList (((Decoder.mk .replace rt.malformedLength).decode bs).getD [])

/-- `Internal.isValidUtf8`. -/
def Runtime.isValidUtf8 (rt : Runtime U) (bs : List UInt8) : Bool :=
  ((Decoder.mk .report rt.malformedLength).decode bs).isSome

/-- A negative number is written with all its 64 bits. -/
def int32Payload (value : Int32) : Payload := .varint value.toInt64.toUInt64

/-- `CodedOutputStream.writeInt32`. -/
def writeInt32 (number : Nat) (value : Int32) : List UInt8 :=
  varint (makeTag number 0) ++ (int32Payload value).write

/-- `CodedOutputStream.writeBytes`. -/
def writeBytes (number : Nat) (value : List UInt8) : List UInt8 :=
  varint (makeTag number 2) ++ (Payload.lengthDelimited value).write

def computeInt32Size (number : Nat) (value : Int32) : Int32 :=
  Int32.ofNat (writeInt32 number value).length

def computeBytesSize (number : Nat) (value : List UInt8) : Int32 :=
  Int32.ofNat (writeBytes number value).length

/-- `CodedInputStream.readInt32`. -/
def readInt32 (bytes : List UInt8) : Except Failure (Int32 × List UInt8) :=
  (Varint.decode 10 bytes).map fun (n, rest) => ((UInt32.ofNat n).toInt32, rest)

/-- The groups a reader goes into. -/
def recursionLimit : Nat := 64

/-! ## 2. The message -/

/-- `java.lang.Object info_`. A `String` here has no unpaired surrogates; for one
`ByteString.copyFromUtf8` writes a question mark, so that a string with one would
not come back from its bytes. -/
inductive Info where
  | string (s : String)
  | byteString (bs : List UInt8)
  deriving DecidableEq, Repr

structure Response (U : Type) where
  bitField0 : BitVec 32
  id : Int32
  result : Int32
  info : Info
  unknownFields : U
  memoizedIsInitialized : Int8
  memoizedSerializedSize : Int32

namespace Response

def hasId (m : Response U) : Bool := m.bitField0 &&& 0x00000001#32 == 0x00000001#32

def hasResult (m : Response U) : Bool := m.bitField0 &&& 0x00000002#32 == 0x00000002#32

def hasInfo (m : Response U) : Bool := m.bitField0 &&& 0x00000004#32 == 0x00000004#32

def getId (m : Response U) : Int32 := m.id

def getResult (m : Response U) : Int32 := m.result

def getInfo (rt : Runtime U) (m : Response U) : String × Response U :=
  match m.info with
  | .string s => (s, m)
  | .byteString bs =>
      if rt.isValidUtf8 bs then
        (rt.toStringUtf8 bs, { m with info := .string (rt.toStringUtf8 bs) })
      else (rt.toStringUtf8 bs, m)

def getInfoBytes (m : Response U) : List UInt8 × Response U :=
  match m.info with
  | .string s => (copyFromUtf8 s, { m with info := .byteString (copyFromUtf8 s) })
  | .byteString bs => (bs, m)

def isInitialized (m : Response U) : Bool × Response U :=
  if m.memoizedIsInitialized ≠ -1 then (m.memoizedIsInitialized == 1, m)
  else if !m.hasId then (false, { m with memoizedIsInitialized := 0 })
  else (true, { m with memoizedIsInitialized := 1 })

def getSerializedSize (rt : Runtime U) (m : Response U) : Int32 × Response U :=
  if m.memoizedSerializedSize ≠ -1 then (m.memoizedSerializedSize, m)
  else
    let size : Int32 := 0
    let size := if m.hasId then size + computeInt32Size 1 m.id else size
    let size := if m.hasResult then size + computeInt32Size 2 m.result else size
    let (size, m) :=
      if m.hasInfo then (size + computeBytesSize 3 m.getInfoBytes.1, m.getInfoBytes.2)
      else (size, m)
    let size := size + Int32.ofNat (rt.asFields m.unknownFields).write.length
    (size, { m with memoizedSerializedSize := size })

def writeTo (rt : Runtime U) (m : Response U) : List UInt8 × Response U :=
  let m := (m.getSerializedSize rt).2
  let output := if m.hasId then writeInt32 1 m.id else []
  let output := if m.hasResult then output ++ writeInt32 2 m.result else output
  let (output, m) :=
    if m.hasInfo then (output ++ writeBytes 3 m.getInfoBytes.1, m.getInfoBytes.2)
    else (output, m)
  (output ++ (rt.asFields m.unknownFields).write, m)

/-- `AbstractMessageLite.toByteArray`: an array of the size that the message
says it has, filled by `writeTo`. -/
def toByteArray (rt : Runtime U) (m : Response U) : Except Thrown (List UInt8) × Response U :=
  let (size, m) := m.getSerializedSize rt
  if size < 0 then (.error .negativeArraySize, m)
  else
    let (output, m) := m.writeTo rt
    if size.toInt < output.length then (.error .outOfSpace, m)
    else if output.length < size.toInt then (.error .spaceLeft, m)
    else (.ok output, m)

end Response

/-- `new Response(true)` after `initFields()`. -/
def getDefaultInstance (rt : Runtime U) : Response U :=
  ⟨0#32, 0, 0, .string "", rt.defaultInstance, -1, -1⟩

/-! ## 3. The builder -/

structure Builder (U : Type) where
  bitField0 : BitVec 32
  id : Int32
  result : Int32
  info : Info
  unknownFields : U

namespace Builder

/-- `newBuilder()`. -/
def create (rt : Runtime U) : Builder U := ⟨0#32, 0, 0, .string "", rt.defaultInstance⟩

def clear (rt : Runtime U) (_ : Builder U) : Builder U := create rt

def hasId (b : Builder U) : Bool := b.bitField0 &&& 0x00000001#32 == 0x00000001#32

def hasResult (b : Builder U) : Bool := b.bitField0 &&& 0x00000002#32 == 0x00000002#32

def hasInfo (b : Builder U) : Bool := b.bitField0 &&& 0x00000004#32 == 0x00000004#32

def setId (b : Builder U) (value : Int32) : Builder U :=
  { b with bitField0 := b.bitField0 ||| 0x00000001#32, id := value }

def clearId (b : Builder U) : Builder U :=
  { b with bitField0 := b.bitField0 &&& ~~~0x00000001#32, id := 0 }

def setResult (b : Builder U) (value : Int32) : Builder U :=
  { b with bitField0 := b.bitField0 ||| 0x00000002#32, result := value }

def clearResult (b : Builder U) : Builder U :=
  { b with bitField0 := b.bitField0 &&& ~~~0x00000002#32, result := 0 }

/-- Unlike the message, the builder keeps the string it made, whatever the
bytes were. -/
def getInfo (rt : Runtime U) (b : Builder U) : String × Builder U :=
  match b.info with
  | .string s => (s, b)
  | .byteString bs => (rt.toStringUtf8 bs, { b with info := .string (rt.toStringUtf8 bs) })

def setInfoString (b : Builder U) (value : String) : Builder U :=
  { b with bitField0 := b.bitField0 ||| 0x00000004#32, info := .string value }

/-- `setInfo(String)`, null included. -/
def setInfo (b : Builder U) : Option String → Except Thrown (Builder U)
  | none => .error .nullPointer
  | some value => .ok (b.setInfoString value)

/-- `setInfo(ByteString)`. -/
def setInfoBytes (b : Builder U) (value : List UInt8) : Builder U :=
  { b with bitField0 := b.bitField0 ||| 0x00000004#32, info := .byteString value }

def clearInfo (rt : Runtime U) (b : Builder U) : Builder U :=
  { b with bitField0 := b.bitField0 &&& ~~~0x00000004#32
           info := .string ((getDefaultInstance rt).getInfo rt).1 }

def setUnknownFields (b : Builder U) (unknownFields : U) : Builder U :=
  { b with unknownFields := unknownFields }

def mergeUnknownFields (rt : Runtime U) (b : Builder U) (unknownFields : U) : Builder U :=
  b.setUnknownFields (rt.mergeFrom b.unknownFields unknownFields)

def isInitialized (b : Builder U) : Bool := b.hasId

def buildPartial (b : Builder U) : Response U :=
  let bits := 0#32
  let bits := if b.hasId then bits ||| 0x00000001#32 else bits
  let bits := if b.hasResult then bits ||| 0x00000002#32 else bits
  let bits := if b.hasInfo then bits ||| 0x00000004#32 else bits
  ⟨bits, b.id, b.result, b.info, b.unknownFields, -1, -1⟩

def build (b : Builder U) : Except Thrown (Response U) :=
  let (initialized, result) := b.buildPartial.isInitialized
  if initialized then .ok result else .error .uninitializedMessage

def buildParsed (b : Builder U) : Except Thrown (Response U) :=
  let (initialized, result) := b.buildPartial.isInitialized
  if initialized then .ok result else .error .missingFields

/-- `mergeFrom(Response)`, and the other message afterwards. -/
def mergeFrom (rt : Runtime U) (b : Builder U) (other : Response U) : Builder U × Response U :=
  let b := if other.hasId then b.setId other.getId else b
  let b := if other.hasResult then b.setResult other.getResult else b
  let (b, other) :=
    if other.hasInfo then (b.setInfoString (other.getInfo rt).1, (other.getInfo rt).2)
    else (b, other)
  (b.mergeUnknownFields rt other.unknownFields, other)

/-- The loop of `mergeFrom(CodedInputStream)`, with the builder of the unknown
fields: the builder, the tag that ended it, and the bytes behind. Each tag
takes a byte, so one more step than there are bytes is enough. -/
def mergeFromLoop (rt : Runtime U) :
    Nat → Builder U → U → List UInt8 → Except Failure (Builder U × Nat × List UInt8)
  | 0, _, _, _ => .error .truncated
  | fuel + 1, b, unknownFields, bytes =>
      match readTag bytes with
      | .error failure => .error failure
      | .ok (0, bytes) => .ok (b.setUnknownFields unknownFields, 0, bytes)
      | .ok (8, bytes) =>
          match readInt32 bytes with
          | .error failure => .error failure
          | .ok (value, bytes) => mergeFromLoop rt fuel (b.setId value) unknownFields bytes
      | .ok (16, bytes) =>
          match readInt32 bytes with
          | .error failure => .error failure
          | .ok (value, bytes) => mergeFromLoop rt fuel (b.setResult value) unknownFields bytes
      | .ok (26, bytes) =>
          match readLengthDelimited bytes with
          | .error failure => .error failure
          | .ok (value, bytes) => mergeFromLoop rt fuel (b.setInfoBytes value) unknownFields bytes
      | .ok (tag, bytes) =>
          -- `parseUnknownField`
          if tag % 8 = 4 then .ok (b.setUnknownFields unknownFields, tag, bytes)
          else if tag % 8 = 3 then
            match read (recursionLimit - 1) bytes with
            | .error failure => .error failure
            | .ok (inside, last, bytes) =>
                if last = makeTag (tag / 8) 4 then
                  mergeFromLoop rt fuel b (rt.addGroup unknownFields (tag / 8)
                    (rt.addFields rt.defaultInstance inside)) bytes
                else .error .invalidEndTag
          else
            match Payload.read (tag % 8) bytes with
            | .error failure => .error failure
            | .ok (payload, bytes) =>
                mergeFromLoop rt fuel b (rt.addField unknownFields (tag / 8) payload) bytes

def mergeFromInput (rt : Runtime U) (b : Builder U) (bytes : List UInt8) :
    Except Failure (Builder U × Nat × List UInt8) :=
  mergeFromLoop rt (bytes.length + 1) b b.unknownFields bytes

/-- `mergeFrom(byte[])`: `checkLastTagWas(0)` after the loop. -/
def mergeFromBytes (rt : Runtime U) (b : Builder U) (data : List UInt8) :
    Except Thrown (Builder U) :=
  match b.mergeFromInput rt data with
  | .error failure => .error (.invalidProtocolBuffer failure)
  | .ok (b, last, _) =>
      if last = 0 then .ok b else .error (.invalidProtocolBuffer .invalidEndTag)

def clone (rt : Runtime U) (b : Builder U) : Builder U := ((create rt).mergeFrom rt b.buildPartial).1

end Builder

namespace Response

def toBuilder (rt : Runtime U) (m : Response U) : Builder U × Response U :=
  (Builder.create rt).mergeFrom rt m

/-- `parseFrom(byte[])`. -/
def parseFrom (rt : Runtime U) (data : List UInt8) : Except Thrown (Response U) :=
  match (Builder.create rt).mergeFromBytes rt data with
  | .error thrown => .error thrown
  | .ok b => b.buildParsed

end Response

end SpringDome.Protobuf
