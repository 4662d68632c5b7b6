import Kickboxer.Serializer.Fields

/-! Sixteen-byte identifiers (`types/b16.go`, `types/uuid.go`, `node/node.go`).

A `B16` is two 64-bit halves; a `UUID` wraps one, and node and instance ids wrap a
`UUID`. Everything that compares ids compares the two halves. On the wire an id
is its sixteen bytes. `UnmarshalBinary` ors the bytes into the value it is
called on (`B16.UnmarshalBinary_receiver`), so it reads back what `MarshalBinary`
wrote, and `MarshalBinary` writes back what it read, only from a zero value
(`B16.UnmarshalBinary_MarshalBinary`, `B16.MarshalBinary_UnmarshalBinary`); every
reader calls it on the fresh, zero value of the message it fills (`reads_uuid`). -/
namespace Kickboxer.Types
open Library

/-- `types.B16`: 16 bytes kept as two big-endian halves. -/
structure B16 where
  b0 : UInt64
  b1 : UInt64
  deriving DecidableEq, Inhabited, Repr

/-- `B16.MarshalBinary`: the sixteen bytes, the first half first, each half
big-endian. -/
def B16.MarshalBinary (b : B16) : List UInt8 :=
  (List.range 16).map fun i =>
    let src := if i < 8 then b.b0 else b.b1
    let offset := if i < 8 then i else i - 8
    ((src >>> ((7 - offset) * 8).toUInt64) &&& 0xff).toUInt8

/-- The body of the loop of `B16.UnmarshalBinary`: byte `i` or-ed into its half. -/
def B16.orByte (b : B16) (e : UInt8 × Nat) : B16 :=
  let offset := if e.2 < 8 then e.2 else e.2 - 8
  let v := e.1.toUInt64 <<< ((7 - offset) * 8).toUInt64
  if e.2 < 8 then { b with b0 := b.b0 ||| v } else { b with b1 := b.b1 ||| v }

/-- `B16.UnmarshalBinary` on the receiver `b`: each of the sixteen bytes or-ed
into its place in `b`; any other length is refused before `b` is touched. -/
def B16.UnmarshalBinary (b : B16) (bs : List UInt8) : B16 × Except String Unit :=
  if bs.length ≠ 16 then
    (b, .error ("Exactly 16 bytes required for unmarshal, got " ++ toString bs.length))
  else
    (bs.zipIdx.foldl B16.orByte b, .ok ())

instance : OrOp B16 := ⟨fun a b => ⟨a.b0 ||| b.b0, a.b1 ||| b.b1⟩⟩

theorem B16.UnmarshalBinary_MarshalBinary (b : B16) :
    B16.UnmarshalBinary ⟨0, 0⟩ b.MarshalBinary = (b, .ok ()) := by
  have h : B16.UnmarshalBinary ⟨0, 0⟩ b.MarshalBinary = (⟨orBytes64 b.b0, orBytes64 b.b1⟩, .ok ()) := rfl
  rw [h, uint64_of_bytes, uint64_of_bytes]

theorem B16.length_MarshalBinary (b : B16) : b.MarshalBinary.length = 16 := by
  simp [B16.MarshalBinary]

/-! ### The receiver -/

/-- The bytes from index `k` of the first half land in `b0`. -/
theorem B16.foldl_orByte_high (b : B16) (l : List UInt8) (k : Nat) (h : l.length + k = 8) :
    (l.zipIdx k).foldl B16.orByte b = ⟨orBE b.b0 l, b.b1⟩ := by
  induction l generalizing b k with
  | nil => rfl
  | cons a l ih =>
    have hl : l.length + (k + 1) = 8 := by simp at h; omega
    have hk : k < 8 := by omega
    rw [List.zipIdx_cons, List.foldl_cons, ih _ (k + 1) hl]
    simp only [B16.orByte, hk, if_true, orBE, show 7 - k = l.length by omega]

/-- The bytes from index `k` of the second half land in `b1`. -/
theorem B16.foldl_orByte_low (b : B16) (l : List UInt8) (k : Nat) (hk : 8 ≤ k)
    (h : l.length + k = 16) : (l.zipIdx k).foldl B16.orByte b = ⟨b.b0, orBE b.b1 l⟩ := by
  induction l generalizing b k with
  | nil => rfl
  | cons a l ih =>
    have hl : l.length + (k + 1) = 16 := by simp at h; omega
    rw [List.zipIdx_cons, List.foldl_cons, ih _ (k + 1) (by omega) hl]
    simp only [B16.orByte, show ¬k < 8 by omega, if_false, orBE,
      show 7 - (k - 8) = l.length by omega]

theorem B16.UnmarshalBinary_append (b : B16) {l1 l2 : List UInt8} (h1 : l1.length = 8)
    (h2 : l2.length = 8) : b.UnmarshalBinary (l1 ++ l2) = (⟨orBE b.b0 l1, orBE b.b1 l2⟩, .ok ()) := by
  have hlen : (l1 ++ l2).length = 16 := by simp [h1, h2]
  rw [B16.UnmarshalBinary, if_neg (by omega), List.zipIdx_append, List.foldl_append,
    B16.foldl_orByte_high b l1 0 (by omega), h1, B16.foldl_orByte_low _ l2 (0 + 8) (by omega) (by omega)]

theorem B16.UnmarshalBinary_of_length (b : B16) {bs : List UInt8} (h : bs.length = 16) :
    b.UnmarshalBinary bs = (⟨orBE b.b0 (bs.take 8), orBE b.b1 (bs.drop 8)⟩, .ok ()) := by
  have h1 : (bs.take 8).length = 8 := by simp [h]
  have h2 : (bs.drop 8).length = 8 := by simp [h]
  have hbs := B16.UnmarshalBinary_append b h1 h2
  rwa [List.take_append_drop] at hbs

/-- What `UnmarshalBinary` leaves in its receiver: the receiver or-ed with what a
zero value reads, for sixteen bytes, and the receiver as it was otherwise. -/
theorem B16.UnmarshalBinary_receiver (b : B16) (bs : List UInt8) :
    (b.UnmarshalBinary bs).1 = if bs.length = 16 then b ||| (B16.UnmarshalBinary ⟨0, 0⟩ bs).1 else b := by
  by_cases h : bs.length = 16
  · have ht : (bs.take 8).length ≤ 8 := List.length_take_le _ _
    have hd : (bs.drop 8).length ≤ 8 := by simp [h]
    rw [if_pos h, B16.UnmarshalBinary_of_length b h, B16.UnmarshalBinary_of_length _ h,
      orBE_eq_or _ _ ht, orBE_eq_or b.b1 _ hd]
    rfl
  · simp [B16.UnmarshalBinary, h]

/-- The bytes `MarshalBinary` writes: each half big-endian. -/
theorem B16.MarshalBinary_eq (b : B16) :
    b.MarshalBinary = beBytes 8 b.b0.toNat ++ beBytes 8 b.b1.toNat := by
  apply List.ext_getElem (by simp [B16.length_MarshalBinary])
  intro i h1 h2
  have hi : i < 16 := by simpa [B16.length_MarshalBinary] using h1
  simp only [B16.MarshalBinary, List.getElem_map, List.getElem_range, List.getElem_append,
    length_beBytes]
  have hpow : ∀ j, 2 ^ ((7 - j) * 8) = 256 ^ (8 - 1 - j) := fun j => by
    rw [pow_mul', show 8 - 1 - j = 7 - j by omega]
    norm_num
  -- byte `i` is byte `i` of the first half, or byte `i - 8` of the second
  by_cases h8 : i < 8
  · rw [dif_pos h8, getElem_beBytes, if_pos h8, if_pos h8, toUInt8_shiftRight _ (by omega), hpow]
  · rw [dif_neg h8, getElem_beBytes, if_neg h8, if_neg h8, toUInt8_shiftRight _ (by omega), hpow]

/-- From a zero value, sixteen bytes come back. -/
theorem B16.MarshalBinary_UnmarshalBinary {bs : List UInt8} (h : bs.length = 16) :
    (B16.UnmarshalBinary ⟨0, 0⟩ bs).1.MarshalBinary = bs := by
  have ht := beBytes_beNat (bs.take 8)
  have hd := beBytes_beNat (bs.drop 8)
  rw [List.length_take_of_le (by omega)] at ht
  rw [List.length_drop, h] at hd
  rw [B16.UnmarshalBinary_of_length _ h, B16.MarshalBinary_eq]
  simp only [toNat_orBE 0 _ (List.length_take_le _ _), toNat_orBE 0 (bs.drop 8) (by simp [h]),
    UInt64.toNat_zero, Nat.zero_or]
  rw [ht, hd, List.take_append_drop]

/-- A receiver that holds bits keeps them: the sixteen zero bytes of `⟨0, 0⟩`
are accepted into `⟨0, 1⟩`, which stays as it was and so marshals to other
bytes. -/
theorem B16.UnmarshalBinary_keeps_receiver :
    B16.UnmarshalBinary ⟨0, 1⟩ (B16.MarshalBinary ⟨0, 0⟩) = (⟨0, 1⟩, .ok ()) ∧
      B16.MarshalBinary ⟨0, 1⟩ ≠ B16.MarshalBinary ⟨0, 0⟩ := by
  decide

/-- `types.UUID`. -/
structure UUID extends B16
  deriving DecidableEq, Inhabited, Repr

/-- `UUID.Bytes`. -/
def UUID.Bytes (u : UUID) : List UInt8 := u.toB16.MarshalBinary

/-- Two lowercase hexadecimal digits for each byte. -/
def hexBytes (bs : List UInt8) : String :=
  String.join (bs.map fun b => String.ofList [Nat.digitChar (b.toNat / 16), Nat.digitChar (b.toNat % 16)])

/-- `UUID.String`, as the `go-uuid` library prints the bytes: hexadecimal in
groups of four, two, two, two and six bytes. -/
def UUID.String (u : UUID) : String :=
  let bs := u.Bytes
  hexBytes (bs.take 4) ++ "-" ++ hexBytes ((bs.drop 4).take 2) ++ "-" ++
    hexBytes ((bs.drop 6).take 2) ++ "-" ++ hexBytes ((bs.drop 8).take 2) ++ "-" ++
    hexBytes (bs.drop 10)

def UUID_NUM_BYTES : Nat := 16

/-- `UUID.WriteBuffer`. -/
def UUID.WriteBuffer (u : UUID) : List UInt8 := u.Bytes

/-- `UUID.ReadBuffer`, on the fresh, zero value of the message it fills. -/
def UUID.ReadBuffer : Decoder UUID := do
  let bs ← Serializer.ReadBytes 16
  match B16.UnmarshalBinary ⟨0, 0⟩ bs with
  | (b, .ok ()) => pure ⟨b⟩
  | (_, .error e) => Decoder.fail e

theorem UUID.length_WriteBuffer (u : UUID) : u.WriteBuffer.length = UUID_NUM_BYTES :=
  B16.length_MarshalBinary u.toB16

theorem reads_uuidBytes (u : UUID) : Reads (Serializer.ReadBytes 16) u.WriteBuffer u.WriteBuffer := by
  have h := Serializer.reads_bytes u.WriteBuffer
  rwa [UUID.length_WriteBuffer] at h

theorem reads_uuid (u : UUID) : Reads UUID.ReadBuffer u.WriteBuffer u := by
  refine ((reads_uuidBytes u).bind ?_).of_eq (List.append_nil _)
  rw [UUID.WriteBuffer, UUID.Bytes, B16.UnmarshalBinary_MarshalBinary]
  exact reads_pure u

/-- `node.NodeId`. -/
structure NodeId extends UUID
  deriving DecidableEq, Inhabited, Repr

/-- `NodeId.ReadBuffer`, the embedded `UUID`'s. -/
def NodeId.ReadBuffer : Decoder NodeId := do
  let u ← UUID.ReadBuffer
  pure ⟨u⟩

theorem reads_nodeId (n : NodeId) : Reads NodeId.ReadBuffer n.WriteBuffer n :=
  (reads_uuid n.toUUID).map NodeId.mk

/-- An id cut short is refused. -/
theorem refusesCuts_uuid (u : UUID) : RefusesCuts UUID.ReadBuffer u.WriteBuffer := by
  have hcut : RefusesCuts (Serializer.ReadBytes 16) u.WriteBuffer := by
    have h := Serializer.refusesCuts_bytes u.WriteBuffer
    rwa [UUID.length_WriteBuffer] at h
  exact (RefusesCuts.bind (reads_uuidBytes u) hcut (refusesCuts_nil _)).of_eq (List.append_nil _)

theorem refusesCuts_nodeId (n : NodeId) : RefusesCuts NodeId.ReadBuffer n.WriteBuffer :=
  RefusesCuts.map NodeId.mk (reads_uuid n.toUUID) (refusesCuts_uuid n.toUUID)

/-- The id whose low half is `n`, for writing small examples. -/
def NodeId.ofNat (n : Nat) : NodeId := ⟨⟨⟨0, n.toUInt64⟩⟩⟩

end Kickboxer.Types
