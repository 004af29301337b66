import HiSysEvent.Def
import HiSysEvent.Queue

/-!
# Parcels

A parcel is a queue of typed fields. A read that meets a field of another kind, or none, fails.
An object is written as a mark and its fields (`writeParcelable`), and read in the same order.

`Parcelable.Canonical` says of a class that its two methods agree : an object is read off
exactly the fields it is written as.
-/

namespace HiSysEvent

open Queue

/-- A vector in a parcel, whose count is an `int32_t`. -/
structure UInt32Vector where
  data : List UInt32
  length_lt : data.length < 2 ^ 31

/-- A region of shared memory, whose size is an `int32_t`. It can be used once it is mapped. -/
structure Ashmem where
  bytes : Bytes
  size_lt : bytes.length < 2 ^ 31
  mapped : Bool

/-- The fields of a parcel. An object begins with a mark. -/
inductive Field
  | int32 (val : BitVec 32)
  | uint32 (val : UInt32)
  | string (val : Bytes)
  | stringVector (val : List Bytes)
  | object
  | uint32Vector (val : UInt32Vector)
  | ashmem (val : Ashmem)

/-- What is written and not yet read. -/
abbrev Parcel := List Field

namespace Parcel

/-! ## Fields -/

/-- `WriteInt32`. -/
def writeInt32 (val : BitVec 32) : Program Field Unit :=
  push (.int32 val)

/-- `WriteUint32`. -/
def writeUint32 (val : UInt32) : Program Field Unit :=
  push (.uint32 val)

/-- `WriteString`. -/
def writeString (val : Bytes) : Program Field Unit :=
  push (.string val)

/-- `WriteStringVector`. -/
def writeStringVector (val : List Bytes) : Program Field Unit :=
  push (.stringVector val)

/-- A vector with more elements than an `int32_t` counts is not written. -/
def writeUInt32Vector (val : List UInt32) : Program Field Unit :=
  if h : val.length < 2 ^ 31 then push (.uint32Vector ⟨val, h⟩) else failure

/-- `WriteAshmem`. -/
def writeAshmem (val : Ashmem) : Program Field Unit :=
  push (.ashmem val)

/-- `ReadInt32`. -/
def readInt32 : Program Field (BitVec 32) :=
  pop fun
    | .int32 val => some val
    | _ => none

/-- `ReadUint32`. -/
def readUint32 : Program Field UInt32 :=
  pop fun
    | .uint32 val => some val
    | _ => none

/-- `ReadString`. -/
def readString : Program Field Bytes :=
  pop fun
    | .string val => some val
    | _ => none

/-- `ReadStringVector`. -/
def readStringVector : Program Field (List Bytes) :=
  pop fun
    | .stringVector val => some val
    | _ => none

/-- `ReadUInt32Vector`. -/
def readUInt32Vector : Program Field UInt32Vector :=
  pop fun
    | .uint32Vector val => some val
    | _ => none

/-- The region of the sender, which is not mapped yet. -/
def readAshmem : Program Field Ashmem :=
  pop fun
    | .ashmem val => some { val with mapped := false }
    | _ => none

/-- The header in front of a parcelable. -/
def writeObject : Program Field Unit :=
  push .object

/-- The header read back. -/
def readObject : Program Field Unit :=
  pop fun
    | .object => some ()
    | _ => none

theorem reads_readInt32 : Reads readInt32 fun val => [Field.int32 val] :=
  Reads.pop fun f val => by cases f <;> simp

theorem exec_readInt32 (val : BitVec 32) (q : Parcel) :
    exec readInt32 (.int32 val :: q) = (some val, q) :=
  rfl

theorem reads_readUint32 : Reads readUint32 fun val => [Field.uint32 val] :=
  Reads.pop fun f val => by cases f <;> simp

theorem reads_readString : Reads readString fun val => [Field.string val] :=
  Reads.pop fun f val => by cases f <;> simp

theorem reads_readStringVector : Reads readStringVector fun val => [Field.stringVector val] :=
  Reads.pop fun f val => by cases f <;> simp

theorem reads_readObject : Reads readObject fun _ => [Field.object] :=
  Reads.pop fun f val => by cases f <;> simp

end Parcel

/-! ## Objects -/

/-- A class with its methods. -/
class Parcelable (T : Type) where
  marshalling : T → Program Field Unit
  unmarshalling : Program Field T

namespace Parcelable

variable {T : Type} [Parcelable T]

/-- `WriteParcelable`: the header, then the object. -/
def writeParcelable (object : T) : Program Field Unit := do
  Parcel.writeObject
  marshalling object

/-- `ReadParcelable`. -/
def readParcelable : Program Field T := do
  Parcel.readObject
  unmarshalling

/-- The methods agree on the fields of an object. -/
structure Canonical (fields : T → Parcel) : Prop where
  writes : ∀ object, Writes (marshalling object) (fields object)
  reads : Reads unmarshalling fields

variable {fields : T → Parcel}

theorem Canonical.writeParcelable (h : Canonical fields) (object : T) :
    Writes (writeParcelable object) (.object :: fields object) :=
  (Writes.push Field.object).seq (h.writes object)

theorem Canonical.readParcelable (h : Canonical fields) :
    Reads readParcelable fun object => .object :: fields object := by
  intro q object rest
  rw [Parcelable.readParcelable, Parcel.reads_readObject.bind]
  constructor
  · rintro ⟨-, q', rfl, hread⟩
    rw [(h.reads q' object rest).1 hread]
    rfl
  · rintro rfl
    exact ⟨(), _, rfl, (h.reads _ object rest).2 rfl⟩

end Parcelable

end HiSysEvent
