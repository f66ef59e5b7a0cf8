/-
SpringDome.Protobuf.UnknownFieldSet — `google/protobuf/unknown_field_set.cc`
and the functions of `wire_format.cc` that read and write such sets.

A set is `Fields`, in the order of its vector. `SkipMessage` reads from a coded
stream, into a set or (for `NULL`) nowhere; `SerializeUnknownFields` writes to
a coded stream, `SerializeUnknownFieldsToArray` to memory.
-/
import SpringDome.Protobuf.CodedInputStream
import SpringDome.Protobuf.CodedOutputStream

namespace SpringDome.Protobuf

open SpringDome.Lib.WireFormat (Payload Fields)

/-! ## 1. Tags -/

namespace WireFormatLite

def getTagFieldNumber (tag : UInt32) : Nat := (tag >>> 3).toNat

def getTagWireType (tag : UInt32) : Nat := (tag &&& 7).toNat

def makeTag (fieldNumber wireType : Nat) : UInt32 :=
  UInt32.ofNat fieldNumber <<< 3 ||| UInt32.ofNat wireType

end WireFormatLite

open WireFormatLite

/-! ## 2. Reading -/

namespace WireFormat

/-- `AddVarint` and its siblings, where there is a set. -/
def addField (number : Nat) (payload : Payload) (unknownFields : Option Fields) : Option Fields :=
  unknownFields.map fun fields => fields.append (.leaf number payload .nil)

/-- `AddGroup`, with what was read into the group. -/
def addGroup (number : Nat) : Option Fields → Option Fields → Option Fields
  | some inside, some fields => some (fields.append (.group number inside .nil))
  | _, unknownFields => unknownFields

def skipField
    (skipMessage : CodedInputStream → Option Fields → Outcome (Option Fields) × CodedInputStream)
    (input : CodedInputStream) (tag : UInt32) (unknownFields : Option Fields) :
    Outcome (Option Fields) × CodedInputStream :=
  let number := getTagFieldNumber tag
  if number = 0 then (.failed, input)
  else
    match getTagWireType tag with
    | 0 =>
        andThen input.readVarint64 fun value input =>
          (.done (addField number (.varint value) unknownFields), input)
    | 1 =>
        andThen input.readLittleEndian64 fun value input =>
          (.done (addField number (.fixed64 value) unknownFields), input)
    | 2 =>
        andThen input.readVarint32 fun length input =>
          match unknownFields with
          | none =>
              andThen (input.skip length.toBitVec.toInt) fun _ input => (.done unknownFields, input)
          | some _ =>
              andThen (input.readString length.toBitVec.toInt) fun value input =>
                (.done (addField number (.lengthDelimited value) unknownFields), input)
    | 3 =>
        match input.incrementRecursionDepth with
        | (false, input) => (.failed, input)
        | (true, input) =>
            andThen (skipMessage input (unknownFields.map fun _ => .nil)) fun inside input =>
              let input := input.decrementRecursionDepth
              if input.lastTagWas (makeTag (getTagFieldNumber tag) 4) then
                (.done (addGroup number inside unknownFields), input)
              else (.failed, input)
    | 5 =>
        andThen input.readLittleEndian32 fun value input =>
          (.done (addField number (.fixed32 value) unknownFields), input)
    | _ => (.failed, input)

/-- Every round takes a byte at least, which bounds them. -/
def skipMessage : Nat → CodedInputStream → Option Fields →
    Outcome (Option Fields) × CodedInputStream
  | 0, input, _ => (.failed, input)
  | fuel + 1, input, unknownFields =>
      andThen input.readTag fun tag input =>
        if tag = 0 then (.done unknownFields, input)
        else if getTagWireType tag = 4 then (.done unknownFields, input)
        else
          andThen (skipField (skipMessage fuel) input tag unknownFields) fun unknownFields input =>
            skipMessage fuel input unknownFields

end WireFormat

namespace UnknownFieldSet

/-- As many rounds as there are bytes, and the last. -/
def rounds (input : CodedInputStream) : Nat :=
  (input.buffer ++ input.afterLimit ++ input.overflow ++ input.input.flatten).length + 1

/-- The set after a merge; one that fails leaves it as it was. -/
def mergeFromCodedStream (fields : Fields) (input : CodedInputStream) :
    Outcome Fields × CodedInputStream :=
  andThen (WireFormat.skipMessage (rounds input) input (some .nil)) fun other input =>
    match other with
    | none => (.failed, input)
    | some other =>
        if input.consumedEntireMessage then (.done (fields.append other), input)
        else (.failed, input)

def parseFromCodedStream (input : CodedInputStream) : Outcome Fields × CodedInputStream :=
  mergeFromCodedStream .nil input

def parseFromZeroCopyStream (input : List (List UInt8)) : Outcome Fields :=
  (andThen (parseFromCodedStream (.ofStream input)) fun fields input =>
    if input.consumedEntireMessage then (.done fields, input) else (.failed, input)).1

end UnknownFieldSet

/-! ## 3. Writing -/

namespace WireFormat

def serializePayload (payload : Payload) (output : CodedOutputStream) : CodedOutputStream :=
  match payload with
  | .varint value => output.writeVarint64 value
  | .fixed64 value => output.writeLittleEndian64 value
  | .lengthDelimited value =>
      (output.writeVarint32 (UInt32.ofNat value.length)).writeRaw value
  | .fixed32 value => output.writeLittleEndian32 value

def serializeUnknownFields : Fields → CodedOutputStream → CodedOutputStream
  | .nil, output => output
  | .leaf number payload rest, output =>
      let output := output.writeVarint32 (makeTag number payload.wireType)
      serializeUnknownFields rest (serializePayload payload output)
  | .group number inside rest, output =>
      let output := output.writeVarint32 (makeTag number 3)
      let output := serializeUnknownFields inside output
      serializeUnknownFields rest (output.writeVarint32 (makeTag number 4))

open CodedOutputStream

def payloadSize : Payload → Nat
  | .varint value => varintSize64 value
  | .fixed64 _ => 8
  | .lengthDelimited value => varintSize32 (UInt32.ofNat value.length) + value.length
  | .fixed32 _ => 4

def computeUnknownFieldsSize : Fields → Nat
  | .nil => 0
  | .leaf number payload rest =>
      varintSize32 (makeTag number payload.wireType) + payloadSize payload +
        computeUnknownFieldsSize rest
  | .group number inside rest =>
      varintSize32 (makeTag number 3) + computeUnknownFieldsSize inside +
        varintSize32 (makeTag number 4) + computeUnknownFieldsSize rest

end WireFormat

end SpringDome.Protobuf
