import Kickboxer.Library.Bytes
import Kickboxer.Store.Instruction

/-! The field encodings of the `serializer` package (`serializer/serializer.go`).

A field is its length as a little-endian `uint32`, then its bytes; a string is
the field of its UTF-8 bytes, and a time is the field of its `GobEncode` bytes.
Each reader reads back what its writer wrote, as long as the length fits its
`uint32` (`reads_fieldBytes`, `reads_fieldString`, `reads_time`), and each
`Num...Bytes` is the length of what is written.

What the encodings need of `time.Time` is taken as given (`GobTime`): its
`GobEncode` writes an instant in fifteen bytes and `GobDecode` reads it back,
for the instants a `time.Time` holds (`Valid`). A Go string may hold any bytes,
while a Lean string holds UTF-8 only: `string(b)` is modelled as refusing bytes
that are not UTF-8, which no writer here produces. -/
namespace Kickboxer.Serializer
open Library Store

/-! ### Strings as bytes -/

/-- `[]byte(s)`. -/
def stringBytes (s : String) : List UInt8 := s.toUTF8.data.toList

/-- `string(b)`, for bytes that are UTF-8. -/
def bytesString (b : List UInt8) : Option String := String.fromUTF8? ⟨⟨b⟩⟩

theorem bytesString_stringBytes (s : String) : bytesString (stringBytes s) = some s := by
  simp only [bytesString, stringBytes, String.fromUTF8?, String.toUTF8_eq_toByteArray]
  rw [dif_pos s.isValidUTF8]
  rfl

theorem length_stringBytes (s : String) : (stringBytes s).length = s.utf8ByteSize := rfl

/-- A field whose length fits its `uint32` length prefix. -/
def FitsField (s : String) : Prop := s.utf8ByteSize < 2 ^ 32

instance (s : String) : Decidable (FitsField s) := inferInstanceAs (Decidable (_ < _))

/-! ### Fields -/

/-- `WriteFieldBytes`. -/
def WriteFieldBytes (bytes : List UInt8) : List UInt8 := putCount bytes.length ++ bytes

/-- `ReadBytes`: `size` bytes, or `EOF` if the stream ends first. -/
def ReadBytes (size : Nat) : Decoder (List UInt8) := fun bs =>
  if size ≤ bs.length then .ok (bs.take size, bs.drop size) else .error "EOF"

/-- `ReadFieldBytes`. -/
def ReadFieldBytes : Decoder (List UInt8) := do
  let size ← readUint32
  let bytesRead ← ReadBytes size.toNat
  if bytesRead.length ≠ size.toNat then
    Decoder.fail ("unexpected num bytes read. Expected " ++ toString size ++ ", got " ++
      toString bytesRead.length)
  else pure bytesRead

/-- `WriteFieldString`. -/
def WriteFieldString (str : String) : List UInt8 := WriteFieldBytes (stringBytes str)

/-- `string(b)` in a reader. -/
def stringOf (b : List UInt8) : Decoder String :=
  match bytesString b with
  | some s => pure s
  | none => Decoder.fail "invalid UTF-8"

/-- `ReadFieldString`. -/
def ReadFieldString : Decoder String := do
  let bytes ← ReadFieldBytes
  stringOf bytes

def NumStringBytes (s : String) : Nat := 4 + s.utf8ByteSize

def NumSliceBytes (b : List UInt8) : Nat := 4 + b.length

/-- `NumTimeBytes`: the length header and the fifteen bytes of `GobEncode`. -/
def NumTimeBytes : Nat := 4 + 15

theorem reads_bytes (bs : List UInt8) : Reads (ReadBytes bs.length) bs bs := by
  intro rest
  simp [ReadBytes]

/-- The bytes a field's count announces, for a count that fits. -/
theorem reads_countedBytes {bs : List UInt8} (h : bs.length < 2 ^ 32) :
    Reads (ReadBytes bs.length.toUInt32.toNat) bs bs := by
  rw [toNat_toUInt32 h]
  exact reads_bytes bs

theorem reads_fieldBytes (bs : List UInt8) (h : bs.length < 2 ^ 32) :
    Reads ReadFieldBytes (WriteFieldBytes bs) bs := by
  have hn : bs.length.toUInt32.toNat = bs.length := toNat_toUInt32 h
  have hcheck : Reads (if bs.length ≠ bs.length.toUInt32.toNat then
      Decoder.fail ("unexpected num bytes read. Expected " ++ toString bs.length.toUInt32 ++
        ", got " ++ toString bs.length)
      else pure bs) [] bs := by
    rw [if_neg (by rw [hn]; exact not_not_intro rfl)]
    exact reads_pure bs
  exact (reads_uint32 _).bind (((reads_countedBytes h).bind hcheck).of_eq (List.append_nil bs))

theorem refusesCuts_bytes (bs : List UInt8) : RefusesCuts (ReadBytes bs.length) bs := by
  intro j hj
  have hlen : (bs.take j).length < bs.length := by
    rw [List.length_take_of_le (by omega)]
    exact hj
  refine ⟨"EOF", ?_⟩
  simp only [ReadBytes]
  rw [if_neg (by omega)]

/-- A field cut inside its count or its bytes is refused. -/
theorem refusesCuts_fieldBytes (bs : List UInt8) (h : bs.length < 2 ^ 32) :
    RefusesCuts ReadFieldBytes (WriteFieldBytes bs) := by
  have hcut : RefusesCuts (ReadBytes bs.length.toUInt32.toNat) bs := by
    rw [toNat_toUInt32 h]
    exact refusesCuts_bytes bs
  exact RefusesCuts.bind (reads_uint32 _) (refusesCuts_uint32 _)
    ((RefusesCuts.bind (reads_countedBytes h) hcut (refusesCuts_nil _)).of_eq (List.append_nil bs))

theorem reads_stringOf (s : String) : Reads (stringOf (stringBytes s)) [] s := by
  rw [stringOf, bytesString_stringBytes]
  exact reads_pure s

theorem reads_fieldString (s : String) (h : FitsField s) :
    Reads ReadFieldString (WriteFieldString s) s :=
  ((reads_fieldBytes (stringBytes s) h).bind (reads_stringOf s)).of_eq (List.append_nil _)

theorem refusesCuts_fieldString (s : String) (h : FitsField s) :
    RefusesCuts ReadFieldString (WriteFieldString s) :=
  (RefusesCuts.bind (reads_fieldBytes (stringBytes s) h) (refusesCuts_fieldBytes _ h)
    (refusesCuts_nil _)).of_eq (List.append_nil _)

theorem length_writeFieldBytes (bs : List UInt8) :
    (WriteFieldBytes bs).length = NumSliceBytes bs := by
  rw [WriteFieldBytes, List.length_append, length_putCount, NumSliceBytes]

theorem length_writeFieldString (s : String) :
    (WriteFieldString s).length = NumStringBytes s := by
  rw [WriteFieldString, length_writeFieldBytes, NumSliceBytes, length_stringBytes]
  rfl

/-! ### Times -/

/-- What the encodings take from the Go library: `time.Time.GobEncode` writes
an instant that a `time.Time` holds in fifteen bytes, and `GobDecode` reads it
back. -/
structure GobTime where
  GobEncode : Time → List UInt8
  GobDecode : List UInt8 → Except String Time
  Valid : Time → Prop
  length_GobEncode : ∀ t, (GobEncode t).length = 15
  GobDecode_GobEncode : ∀ t, Valid t → GobDecode (GobEncode t) = .ok t

section Times
variable (gob : GobTime)

/-- `WriteTime`. -/
def WriteTime (t : Time) : List UInt8 := WriteFieldBytes (gob.GobEncode t)

/-- `ReadTime`. -/
def ReadTime : Decoder Time := do
  let timeBytes ← ReadFieldBytes
  match gob.GobDecode timeBytes with
  | .ok t => pure t
  | .error e => Decoder.fail e

theorem reads_time {t : Time} (h : gob.Valid t) : Reads (ReadTime gob) (WriteTime gob t) t := by
  have hlen : (gob.GobEncode t).length < 2 ^ 32 := by
    rw [gob.length_GobEncode]
    decide
  have hdec : Reads (match gob.GobDecode (gob.GobEncode t) with
      | .ok t => pure t
      | .error e => Decoder.fail e) [] t := by
    rw [gob.GobDecode_GobEncode t h]
    exact reads_pure t
  exact ((reads_fieldBytes _ hlen).bind hdec).of_eq (List.append_nil _)

theorem length_writeTime (t : Time) : (WriteTime gob t).length = NumTimeBytes := by
  rw [WriteTime, length_writeFieldBytes, NumSliceBytes, gob.length_GobEncode]
  rfl

end Times

/-! ### Go's encoding of a time -/

/-- The integer a `w`-bit two's-complement word holds. -/
def toSigned (w n : Nat) : Int := if n < 2 ^ (w - 1) then n else n - 2 ^ w

/-- The seconds of an instant counted in nanoseconds, as the bits of an `int64`. -/
def secBits (t : Time) : Nat := (t.instant / 1000000000 % 2 ^ 64).toNat

/-- The nanoseconds within the second. -/
def nsecOf (t : Time) : Nat := (t.instant % 1000000000).toNat

/-- `time.Time.MarshalBinary`, version 1, of a UTC time whose instant counts
nanoseconds from the zero time: the version, the seconds as an `int64`, the
nanoseconds as an `int32`, and the zone offset `-1` of UTC. -/
def MarshalBinary (t : Time) : List UInt8 :=
  [1] ++ beBytes 8 (secBits t) ++ beBytes 4 (nsecOf t) ++ [0xff, 0xff]

/-- `time.Time.UnmarshalBinary`, version 1: the zone offset names a location,
which an instant does not keep. -/
def UnmarshalBinary : List UInt8 → Except String Time
  | [] => .error "Time.UnmarshalBinary: no data"
  | version :: buf =>
    if version ≠ 1 then .error "Time.UnmarshalBinary: unsupported version"
    else if buf.length ≠ 1 + 8 + 4 + 2 - 1 then .error "Time.UnmarshalBinary: invalid length"
    else .ok ⟨toSigned 64 (beNat (buf.take 8)) * 1000000000 + toSigned 32 (beNat ((buf.drop 8).take 4))⟩

/-- The instants whose seconds an `int64` holds. -/
def SecondsFit (t : Time) : Prop :=
  -2 ^ 63 ≤ t.instant / 1000000000 ∧ t.instant / 1000000000 < 2 ^ 63

instance : DecidablePred SecondsFit := fun _ => inferInstanceAs (Decidable (_ ∧ _))

theorem length_marshalBinary (t : Time) : (MarshalBinary t).length = 15 := by
  simp [MarshalBinary]

theorem unmarshalBinary_marshalBinary {t : Time} (h : SecondsFit t) :
    UnmarshalBinary (MarshalBinary t) = .ok t := by
  have hsec : secBits t < 2 ^ 64 := by
    rw [secBits]
    omega
  have hnsec : nsecOf t < 2 ^ 31 := by
    rw [nsecOf]
    omega
  have hbuf : MarshalBinary t =
      1 :: (beBytes 8 (secBits t) ++ (beBytes 4 (nsecOf t) ++ [0xff, 0xff])) := by
    simp [MarshalBinary]
  rw [hbuf, UnmarshalBinary, if_neg (by decide), if_neg (by simp),
    List.take_left' (length_beBytes 8 _), List.drop_left' (length_beBytes 8 _),
    List.take_left' (length_beBytes 4 _), beNat_beBytes, beNat_beBytes]
  obtain ⟨h1, h2⟩ := h
  obtain ⟨i⟩ := t
  simp only [toSigned, secBits, nsecOf, Nat.reducePow, Nat.reduceSub] at hsec hnsec h1 h2 ⊢
  congr 2
  split_ifs <;> omega

/-- `time.Time.GobEncode` and `GobDecode`, which are `MarshalBinary` and
`UnmarshalBinary`, on the instants whose seconds fit. -/
def goTime : GobTime where
  GobEncode := MarshalBinary
  GobDecode := UnmarshalBinary
  Valid := SecondsFit
  length_GobEncode := length_marshalBinary
  GobDecode_GobEncode _ h := unmarshalBinary_marshalBinary h

end Kickboxer.Serializer
