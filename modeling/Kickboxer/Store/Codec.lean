import Kickboxer.Serializer.Fields

/-! The encoding of instructions (`store/instruction.go`).

An instruction is written as its command, key, counted arguments and timestamp,
in that order; `Deserialize` reads back every instruction whose fields fit
their length prefixes and whose timestamp is a `time.Time` (`reads_instruction`),
and `NumBytes` is the length of what `Serialize` writes
(`length_Serialize`). -/
namespace Kickboxer.Store.Instruction
open Library Serializer

variable (gob : GobTime)

/-- `Instruction.NumBytes`. -/
def NumBytes (i : Instruction) : Nat :=
  NumStringBytes i.Cmd + NumStringBytes i.Key + 4 + (i.Args.map NumStringBytes).sum + NumTimeBytes

/-- `Instruction.Serialize`. -/
def Serialize (i : Instruction) : List UInt8 :=
  WriteFieldString i.Cmd ++ WriteFieldString i.Key ++ putCount i.Args.length ++
    i.Args.flatMap WriteFieldString ++ WriteTime gob i.Timestamp

/-- `Instruction.Deserialize`. -/
def Deserialize : Decoder Instruction := do
  let cmd ← ReadFieldString
  let key ← ReadFieldString
  let args ← readCounted ReadFieldString
  let timestamp ← ReadTime gob
  pure ⟨cmd, key, args, timestamp⟩

/-- Every field of `i` fits its length prefix, and its timestamp is a
`time.Time`. -/
def Fits (i : Instruction) : Prop :=
  FitsField i.Cmd ∧ FitsField i.Key ∧ i.Args.length < 2 ^ 32 ∧ (∀ a ∈ i.Args, FitsField a) ∧
    gob.Valid i.Timestamp

theorem reads_instruction {i : Instruction} (h : Fits gob i) :
    Reads (Deserialize gob) (Serialize gob i) i := by
  obtain ⟨hc, hk, hn, ha, ht⟩ := h
  have hargs := reads_counted_self i.Args hn fun a ha' => reads_fieldString a (ha a ha')
  refine Reads.of_eq ?_ ((reads_fieldString _ hc).bind ((reads_fieldString _ hk).bind
    (hargs.bind ((reads_time gob ht).map _))))
  simp [Serialize]

theorem length_Serialize (i : Instruction) : (Serialize gob i).length = NumBytes i := by
  simp only [Serialize, NumBytes, List.length_append, length_writeFieldString, length_putCount,
    List.length_flatMap, length_writeTime]

end Kickboxer.Store.Instruction
