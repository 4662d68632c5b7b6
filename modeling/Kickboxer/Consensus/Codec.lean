import Kickboxer.Consensus.Message
import Kickboxer.Store.Codec

/-! The encodings of instances and consensus messages (`consensus/instance.go`,
`consensus/message.go`).

An instance is written as its ids, counted successors, instruction, counted
dependencies, status, ballot and three flag bytes; the component it recorded
(`StronglyConnected`) is not written, and a read instance has none
(`Instance.wire`). A message is its fields in order, a list of instances after
their count, and an optional instance after a byte that is `0xff` for nil.
Every reader reads back its message, with each instance as `wire` makes it, as
long as every count and field fits its `uint32` prefix and every timestamp is a
`time.Time` (`Fits`); every `NumBytes` is the length of what `Serialize`
writes. -/
namespace Kickboxer.Consensus
open Kickboxer.Types Store Library Serializer

def MESSAGE_PREACCEPT_REQUEST : UInt32 := 1001
def MESSAGE_PREACCEPT_RESPONSE : UInt32 := 1002
def MESSAGE_ACCEPT_REQUEST : UInt32 := 1003
def MESSAGE_ACCEPT_RESPONSE : UInt32 := 1004
def MESSAGE_COMMIT_REQUEST : UInt32 := 1005
def MESSAGE_COMMIT_RESPONSE : UInt32 := 1006
def MESSAGE_PREPARE_REQUEST : UInt32 := 1007
def MESSAGE_PREPARE_RESPONSE : UInt32 := 1008
def MESSAGE_PREPARE_SUCCESSOR_REQUEST : UInt32 := 1009
def MESSAGE_PREPARE_SUCCESSOR_RESPONSE : UInt32 := 1010
def MESSAGE_INSTANCE_REQUEST : UInt32 := 1011
def MESSAGE_INSTANCE_RESPONSE : UInt32 := 1012

variable (gob : GobTime)

/-- `InstanceID.ReadBuffer`, the embedded `UUID`'s. -/
def InstanceID.ReadBuffer : Decoder InstanceID := do
  let u ← UUID.ReadBuffer
  pure ⟨u⟩

theorem reads_instanceID (iid : InstanceID) : Reads InstanceID.ReadBuffer iid.WriteBuffer iid :=
  (reads_uuid iid.toUUID).map InstanceID.mk

/-! ### Instances -/

namespace Instance

/-- What an instance's encoding carries: everything but its recorded
component. -/
def wire (i : Instance) : Instance := { i with StronglyConnected := [] }

/-- `Instance.NumBytesLimitedUnsafe`. -/
def NumBytesLimitedUnsafe (i : Instance) : Nat :=
  UUID_NUM_BYTES + UUID_NUM_BYTES + 4 + UUID_NUM_BYTES * i.Successors.length + i.Command.NumBytes +
    4 + UUID_NUM_BYTES * i.Dependencies.length + 1 + 4 + 1 + 1 + 1

/-- `Instance.SerializeLimitedUnsafe`. -/
def SerializeLimitedUnsafe (i : Instance) : List UInt8 :=
  i.InstanceID.WriteBuffer ++ i.LeaderID.WriteBuffer ++ putCount i.Successors.length ++
    i.Successors.flatMap (·.WriteBuffer) ++ i.Command.Serialize gob ++
    putCount i.Dependencies.length ++ i.Dependencies.flatMap (·.WriteBuffer) ++ [i.Status] ++
    putUint32 i.MaxBallot ++ [flagByte i.Noop, flagByte i.DependencyMatch, flagByte i.ReadOnly]

/-- `Instance.DeserializeLimited`, into a fresh instance. -/
def DeserializeLimited : Decoder Instance := do
  let iid ← InstanceID.ReadBuffer
  let leader ← NodeId.ReadBuffer
  let successors ← readCounted NodeId.ReadBuffer
  let command ← Instruction.Deserialize gob
  let deps ← readCounted InstanceID.ReadBuffer
  let status ← readByte
  let ballot ← readUint32
  let noop ← readFlag
  let dependencyMatch ← readFlag
  let readOnly ← readFlag
  pure ⟨iid, leader, successors, command, deps, status, ballot, noop, dependencyMatch, readOnly, []⟩

/-- Every count and field of `i` fits its prefix, and its timestamp is a
`time.Time`. -/
def Fits (i : Instance) : Prop :=
  i.Successors.length < 2 ^ 32 ∧ i.Command.Fits gob ∧ i.Dependencies.length < 2 ^ 32

theorem reads_limited {i : Instance} (h : i.Fits gob) :
    Reads (DeserializeLimited gob) (i.SerializeLimitedUnsafe gob) i.wire := by
  obtain ⟨hs, hc, hd⟩ := h
  have hsucc := reads_counted_self i.Successors hs fun n _ => reads_nodeId n
  have hdeps := reads_counted_self i.Dependencies hd fun d _ => reads_instanceID d
  refine Reads.of_eq ?_ ((reads_instanceID _).bind ((reads_nodeId _).bind (hsucc.bind
    ((Instruction.reads_instruction gob hc).bind (hdeps.bind ((reads_byte _).bind
    ((reads_uint32 _).bind ((reads_flag _).bind ((reads_flag _).bind
    ((reads_flag _).map _))))))))))
  simp [SerializeLimitedUnsafe]

theorem length_serializeLimited (i : Instance) :
    (i.SerializeLimitedUnsafe gob).length = i.NumBytesLimitedUnsafe := by
  simp only [SerializeLimitedUnsafe, NumBytesLimitedUnsafe, List.length_append, List.length_flatMap,
    UUID.length_WriteBuffer, Instruction.length_Serialize, length_putCount, List.length_cons,
    List.length_nil, List.map_const', List.sum_replicate_nat]
  simp only [UUID_NUM_BYTES, putUint32, List.length_cons, List.length_nil]
  omega

/-! ### Copies on the wire -/

/-- A copy is the instance with its read-only flag cleared, as far as its
encoding carries: `Copy` does not list `ReadOnly`. -/
theorem copy_wire (i : Instance) : i.Copy.wire = { i.wire with ReadOnly := false } := by
  simp [Copy, wire, Instruction.copy_eq]

/-- A copy encodes as the instance it was made from exactly when that instance
is not read-only. -/
theorem serializeLimited_copy_iff (i : Instance) :
    i.Copy.SerializeLimitedUnsafe gob = i.SerializeLimitedUnsafe gob ↔ i.ReadOnly = false := by
  -- the two encodings share everything before the last byte, the read-only flag
  simp only [SerializeLimitedUnsafe, Copy, Instruction.copy_eq, List.append_cancel_left_eq,
    List.cons.injEq, true_and, and_true]
  cases i.ReadOnly <;> decide

/-- A replica reads a copy as the instance it was made from, with the read-only
flag cleared. -/
theorem reads_copy {i : Instance} (h : i.Fits gob) :
    Reads (DeserializeLimited gob) (i.Copy.SerializeLimitedUnsafe gob) { i.wire with ReadOnly := false } := by
  have hc : i.Copy.Fits gob := by simpa [Fits, Copy, Instruction.copy_eq] using h
  rw [← copy_wire]
  exact reads_limited gob hc

/-- A read-only GET, as a replica holds it after reading an instance whose
read-only byte is set. -/
def readOnlyGet : Instance :=
  { bare (InstanceID.ofNat 1) (NodeId.ofNat 1) ⟨"GET", "k", [], ⟨1⟩⟩ with ReadOnly := true }

theorem copy_of_readOnly_reads_as_write :
    readOnlyGet.Copy.SerializeLimitedUnsafe goTime ≠ readOnlyGet.SerializeLimitedUnsafe goTime ∧
      Reads (DeserializeLimited goTime) (readOnlyGet.Copy.SerializeLimitedUnsafe goTime)
        { readOnlyGet.wire with ReadOnly := false } := by
  have htime : SecondsFit ⟨1⟩ := by decide
  have hfits : readOnlyGet.Fits goTime :=
    ⟨by decide, ⟨by decide, by decide, by decide, fun a ha => by simp [readOnlyGet, bare] at ha, htime⟩,
      by decide⟩
  refine ⟨fun h => ?_, reads_copy goTime hfits⟩
  have hro : readOnlyGet.ReadOnly = false := (serializeLimited_copy_iff goTime readOnlyGet).mp h
  exact absurd hro (by decide)

end Instance

/-! ### Lists and optional instances -/

/-- A list of instances after its count. -/
def serializeInstances (l : List Instance) : List UInt8 :=
  putCount l.length ++ l.flatMap (Instance.SerializeLimitedUnsafe gob)

def numInstancesBytes (l : List Instance) : Nat :=
  4 + (l.map Instance.NumBytesLimitedUnsafe).sum

/-- A count, then that many instances. -/
def deserializeInstances : Decoder (List Instance) := readCounted (Instance.DeserializeLimited gob)

/-- The count fits, and so does every instance. -/
def FitsInstances (l : List Instance) : Prop := l.length < 2 ^ 32 ∧ ∀ i ∈ l, i.Fits gob

theorem reads_instances {l : List Instance} (h : FitsInstances gob l) :
    Reads (deserializeInstances gob) (serializeInstances gob l) (l.map Instance.wire) :=
  reads_counted l h.1 fun i hi => Instance.reads_limited gob (h.2 i hi)

theorem length_serializeInstances (l : List Instance) :
    (serializeInstances gob l).length = numInstancesBytes l := by
  simp only [serializeInstances, numInstancesBytes, List.length_append, length_putCount,
    List.length_flatMap, Instance.length_serializeLimited]

/-- An optional instance after its nil byte, `0xff` for none. -/
def serializeOption : Option Instance → List UInt8
  | none => [0xff]
  | some i => 0 :: i.SerializeLimitedUnsafe gob

def numOptionBytes : Option Instance → Nat
  | none => 1
  | some i => 1 + i.NumBytesLimitedUnsafe

/-- The nil byte, then the instance if the byte is `0`. -/
def deserializeOption : Decoder (Option Instance) := do
  let isNil ← readByte
  if isNil = 0 then
    let i ← Instance.DeserializeLimited gob
    pure (some i)
  else pure none

def FitsOption : Option Instance → Prop
  | none => True
  | some i => i.Fits gob

theorem reads_option {o : Option Instance} (h : FitsOption gob o) :
    Reads (deserializeOption gob) (serializeOption gob o) (o.map Instance.wire) := by
  cases o with
  | none => exact (reads_byte _).bind (reads_pure none)
  | some i =>
    have hi : Reads (if (0 : UInt8) = 0 then (do
        let i ← Instance.DeserializeLimited gob
        pure (some i)) else pure none) (i.SerializeLimitedUnsafe gob) (some i.wire) := by
      rw [if_pos rfl]
      exact (Instance.reads_limited gob h).map some
    exact (reads_byte 0).bind hi

theorem length_serializeOption (o : Option Instance) :
    (serializeOption gob o).length = numOptionBytes o := by
  cases o with
  | none => rfl
  | some i =>
    simp only [serializeOption, numOptionBytes, List.length_cons, Instance.length_serializeLimited]
    omega

/-! ### Messages -/

namespace PreAcceptRequest

def NumBytes (m : PreAcceptRequest) : Nat := m.Instance.NumBytesLimitedUnsafe

def Serialize (m : PreAcceptRequest) : List UInt8 := m.Instance.SerializeLimitedUnsafe gob

def Deserialize : Decoder PreAcceptRequest := do
  let i ← Instance.DeserializeLimited gob
  pure ⟨i⟩

def Fits (m : PreAcceptRequest) : Prop := m.Instance.Fits gob

def wire (m : PreAcceptRequest) : PreAcceptRequest := ⟨m.Instance.wire⟩

theorem reads {m : PreAcceptRequest} (h : m.Fits gob) : Reads (Deserialize gob) (m.Serialize gob) m.wire :=
  (Instance.reads_limited gob h).map _

theorem length_Serialize (m : PreAcceptRequest) : (m.Serialize gob).length = m.NumBytes :=
  Instance.length_serializeLimited gob m.Instance

end PreAcceptRequest

namespace PreAcceptResponse

def NumBytes (m : PreAcceptResponse) : Nat :=
  1 + 4 + m.Instance.NumBytesLimitedUnsafe + numInstancesBytes m.MissingInstances

def Serialize (m : PreAcceptResponse) : List UInt8 :=
  [flagByte m.Accepted] ++ putUint32 m.MaxBallot ++ m.Instance.SerializeLimitedUnsafe gob ++
    serializeInstances gob m.MissingInstances

def Deserialize : Decoder PreAcceptResponse := do
  let accepted ← readFlag
  let maxBallot ← readUint32
  let i ← Instance.DeserializeLimited gob
  let missing ← deserializeInstances gob
  pure ⟨accepted, maxBallot, i, missing⟩

def Fits (m : PreAcceptResponse) : Prop := m.Instance.Fits gob ∧ FitsInstances gob m.MissingInstances

def wire (m : PreAcceptResponse) : PreAcceptResponse :=
  ⟨m.Accepted, m.MaxBallot, m.Instance.wire, m.MissingInstances.map Instance.wire⟩

theorem reads {m : PreAcceptResponse} (h : m.Fits gob) :
    Reads (Deserialize gob) (m.Serialize gob) m.wire := by
  refine Reads.of_eq ?_ ((reads_flag _).bind ((reads_uint32 _).bind
    ((Instance.reads_limited gob h.1).bind ((reads_instances gob h.2).map _))))
  simp [Serialize]

theorem length_Serialize (m : PreAcceptResponse) : (m.Serialize gob).length = m.NumBytes := by
  simp only [Serialize, NumBytes, List.length_append, Instance.length_serializeLimited, length_serializeInstances, putUint32, List.length_cons,
    List.length_nil]

end PreAcceptResponse

namespace AcceptRequest

def NumBytes (m : AcceptRequest) : Nat :=
  m.Instance.NumBytesLimitedUnsafe + numInstancesBytes m.MissingInstances

def Serialize (m : AcceptRequest) : List UInt8 :=
  m.Instance.SerializeLimitedUnsafe gob ++ serializeInstances gob m.MissingInstances

def Deserialize : Decoder AcceptRequest := do
  let i ← Instance.DeserializeLimited gob
  let missing ← deserializeInstances gob
  pure ⟨i, missing⟩

def Fits (m : AcceptRequest) : Prop := m.Instance.Fits gob ∧ FitsInstances gob m.MissingInstances

def wire (m : AcceptRequest) : AcceptRequest :=
  ⟨m.Instance.wire, m.MissingInstances.map Instance.wire⟩

theorem reads {m : AcceptRequest} (h : m.Fits gob) : Reads (Deserialize gob) (m.Serialize gob) m.wire :=
  (Instance.reads_limited gob h.1).bind ((reads_instances gob h.2).map _)

theorem length_Serialize (m : AcceptRequest) : (m.Serialize gob).length = m.NumBytes := by
  simp only [Serialize, NumBytes, List.length_append, Instance.length_serializeLimited,
    length_serializeInstances]

end AcceptRequest

namespace AcceptResponse

def NumBytes (_m : AcceptResponse) : Nat := 1 + 4

def Serialize (m : AcceptResponse) : List UInt8 := [flagByte m.Accepted] ++ putUint32 m.MaxBallot

def Deserialize : Decoder AcceptResponse := do
  let accepted ← readFlag
  let maxBallot ← readUint32
  pure ⟨accepted, maxBallot⟩

theorem reads (m : AcceptResponse) : Reads Deserialize m.Serialize m :=
  (reads_flag _).bind ((reads_uint32 _).map _)

theorem length_Serialize (m : AcceptResponse) : m.Serialize.length = m.NumBytes := rfl

end AcceptResponse

namespace CommitRequest

def NumBytes (m : CommitRequest) : Nat := m.Instance.NumBytesLimitedUnsafe

def Serialize (m : CommitRequest) : List UInt8 := m.Instance.SerializeLimitedUnsafe gob

def Deserialize : Decoder CommitRequest := do
  let i ← Instance.DeserializeLimited gob
  pure ⟨i⟩

def Fits (m : CommitRequest) : Prop := m.Instance.Fits gob

def wire (m : CommitRequest) : CommitRequest := ⟨m.Instance.wire⟩

theorem reads {m : CommitRequest} (h : m.Fits gob) : Reads (Deserialize gob) (m.Serialize gob) m.wire :=
  (Instance.reads_limited gob h).map _

theorem length_Serialize (m : CommitRequest) : (m.Serialize gob).length = m.NumBytes :=
  Instance.length_serializeLimited gob m.Instance

end CommitRequest

namespace PrepareRequest

def NumBytes (_m : PrepareRequest) : Nat := 4 + UUID_NUM_BYTES

def Serialize (m : PrepareRequest) : List UInt8 := putUint32 m.Ballot ++ m.InstanceID.WriteBuffer

def Deserialize : Decoder PrepareRequest := do
  let ballot ← readUint32
  let iid ← InstanceID.ReadBuffer
  pure ⟨ballot, iid⟩

theorem reads (m : PrepareRequest) : Reads Deserialize m.Serialize m :=
  (reads_uint32 _).bind ((reads_instanceID _).map _)

theorem length_Serialize (m : PrepareRequest) : m.Serialize.length = m.NumBytes := by
  rw [Serialize, List.length_append, UUID.length_WriteBuffer]
  rfl

end PrepareRequest

namespace PrepareResponse

def NumBytes (m : PrepareResponse) : Nat := 1 + numOptionBytes m.Instance

def Serialize (m : PrepareResponse) : List UInt8 := [flagByte m.Accepted] ++ serializeOption gob m.Instance

def Deserialize : Decoder PrepareResponse := do
  let accepted ← readFlag
  let i ← deserializeOption gob
  pure ⟨accepted, i⟩

def Fits (m : PrepareResponse) : Prop := FitsOption gob m.Instance

def wire (m : PrepareResponse) : PrepareResponse := ⟨m.Accepted, m.Instance.map Instance.wire⟩

theorem reads {m : PrepareResponse} (h : m.Fits gob) : Reads (Deserialize gob) (m.Serialize gob) m.wire :=
  (reads_flag _).bind ((reads_option gob h).map _)

theorem length_Serialize (m : PrepareResponse) : (m.Serialize gob).length = m.NumBytes := by
  rw [Serialize, List.length_append, length_serializeOption]
  rfl

end PrepareResponse

namespace PrepareSuccessorRequest

def NumBytes (_m : PrepareSuccessorRequest) : Nat := UUID_NUM_BYTES

def Serialize (m : PrepareSuccessorRequest) : List UInt8 := m.InstanceID.WriteBuffer

def Deserialize : Decoder PrepareSuccessorRequest := do
  let iid ← InstanceID.ReadBuffer
  pure ⟨iid⟩

theorem reads (m : PrepareSuccessorRequest) : Reads Deserialize m.Serialize m :=
  (reads_instanceID _).map _

theorem length_Serialize (m : PrepareSuccessorRequest) : m.Serialize.length = m.NumBytes :=
  UUID.length_WriteBuffer _

end PrepareSuccessorRequest

namespace PrepareSuccessorResponse

def NumBytes (m : PrepareSuccessorResponse) : Nat := numOptionBytes m.Instance

def Serialize (m : PrepareSuccessorResponse) : List UInt8 := serializeOption gob m.Instance

def Deserialize : Decoder PrepareSuccessorResponse := do
  let i ← deserializeOption gob
  pure ⟨i⟩

def Fits (m : PrepareSuccessorResponse) : Prop := FitsOption gob m.Instance

def wire (m : PrepareSuccessorResponse) : PrepareSuccessorResponse := ⟨m.Instance.map Instance.wire⟩

theorem reads {m : PrepareSuccessorResponse} (h : m.Fits gob) :
    Reads (Deserialize gob) (m.Serialize gob) m.wire :=
  (reads_option gob h).map _

theorem length_Serialize (m : PrepareSuccessorResponse) : (m.Serialize gob).length = m.NumBytes :=
  length_serializeOption gob m.Instance

end PrepareSuccessorResponse

namespace InstanceRequest

def NumBytes (m : InstanceRequest) : Nat := 4 + UUID_NUM_BYTES * m.InstanceIDs.length

def Serialize (m : InstanceRequest) : List UInt8 :=
  putCount m.InstanceIDs.length ++ m.InstanceIDs.flatMap (·.WriteBuffer)

def Deserialize : Decoder InstanceRequest := do
  let iids ← readCounted InstanceID.ReadBuffer
  pure ⟨iids⟩

def Fits (m : InstanceRequest) : Prop := m.InstanceIDs.length < 2 ^ 32

theorem reads {m : InstanceRequest} (h : m.Fits) : Reads Deserialize m.Serialize m :=
  (reads_counted_self m.InstanceIDs h fun d _ => reads_instanceID d).map _

theorem length_Serialize (m : InstanceRequest) : m.Serialize.length = m.NumBytes := by
  simp only [Serialize, NumBytes, List.length_append, length_putCount, List.length_flatMap,
    UUID.length_WriteBuffer, List.map_const', List.sum_replicate_nat]
  rw [Nat.mul_comm]

end InstanceRequest

namespace InstanceResponse

def NumBytes (m : InstanceResponse) : Nat := numInstancesBytes m.Instances

def Serialize (m : InstanceResponse) : List UInt8 := serializeInstances gob m.Instances

def Deserialize : Decoder InstanceResponse := do
  let instances ← deserializeInstances gob
  pure ⟨instances⟩

def Fits (m : InstanceResponse) : Prop := FitsInstances gob m.Instances

def wire (m : InstanceResponse) : InstanceResponse := ⟨m.Instances.map Instance.wire⟩

theorem reads {m : InstanceResponse} (h : m.Fits gob) : Reads (Deserialize gob) (m.Serialize gob) m.wire :=
  (reads_instances gob h).map _

theorem length_Serialize (m : InstanceResponse) : (m.Serialize gob).length = m.NumBytes :=
  length_serializeInstances gob m.Instances

end InstanceResponse

end Kickboxer.Consensus
