import Kickboxer.Kvstore.Store
import Kickboxer.Serializer.Fields

/-! The encoding of store values (`kvstore/values.go`, `val_string.go`,
`val_tombstone.go`, `val_bool.go`, `KVStore.SerializeValue`).

A value is written as the name of its type, as a field, then its own fields:
a string and its timestamp, a timestamp, or a byte that is `0xff` for true and
its timestamp. `ReadValue` reads the name and picks the reader for it; a name
it does not know is an error. Every value whose string fits its prefix and
whose timestamp is a `time.Time` reads back with its type
(`deserializeValue_serializeValue`). -/
namespace Kickboxer.Kvstore
open Library Serializer Store

/-- The `store.ValueType` strings. -/
def ValueType.toString : ValueType → String
  | .STRING_VALUE => "STRING"
  | .TOMBSTONE_VALUE => "TOMBSTONE"
  | .BOOL_VALUE => "BOOL"

variable (gob : GobTime)

namespace Value

/-- The `Serialize` method of each value type. -/
def Serialize : Value → List UInt8
  | string v t => WriteFieldString v ++ WriteTime gob t
  | tombstone t => WriteTime gob t
  | boolean v t => (if v then 0xff else 0) :: WriteTime gob t

/-- The `Deserialize` method of the value type `ReadValue` picked. -/
def Deserialize : ValueType → Decoder Value
  | .STRING_VALUE => do
    let val ← ReadFieldString
    let t ← ReadTime gob
    pure (string val t)
  | .TOMBSTONE_VALUE => do
    let t ← ReadTime gob
    pure (tombstone t)
  | .BOOL_VALUE => do
    let b ← readByte
    let t ← ReadTime gob
    pure (boolean (b != 0x00) t)

def Fits : Value → Prop
  | string v t => FitsField v ∧ gob.Valid t
  | tombstone t => gob.Valid t
  | boolean _ t => gob.Valid t

theorem reads {v : Value} (h : v.Fits gob) : Reads (Deserialize gob v.GetValueType) (v.Serialize gob) v := by
  cases v with
  | string val t => exact (reads_fieldString val h.1).bind ((reads_time gob h.2).map _)
  | tombstone t => exact (reads_time gob h).map _
  | boolean val t =>
    have hval : ((if val then 0xff else 0 : UInt8) != 0x00) = val := by cases val <;> rfl
    have ht : Reads (do
        let t ← ReadTime gob
        pure (boolean ((if val then 0xff else 0 : UInt8) != 0x00) t)) (WriteTime gob t) (boolean val t) := by
      rw [hval]
      exact (reads_time gob h).map _
    exact (reads_byte _).bind ht

end Value

end Kickboxer.Kvstore
