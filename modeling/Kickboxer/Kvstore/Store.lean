import Kickboxer.Store.Instruction

/-! The key/value store (`kvstore/store.go`, `cmd_get.go`, `cmd_set.go`,
`cmd_del.go`, `values.go` and the value types).

A store maps keys to values; a value is a string, a tombstone or a boolean, each
with its timestamp. `ExecuteInstruction` validates an instruction and runs its
command: `GET` reads the key, `SET` writes a string unless the key holds a value
with a later timestamp, and `DEL` turns a present key into a tombstone, whatever
its timestamp. A rejected instruction leaves the store as it was
(`executeInstruction_error_state`). -/
namespace Kickboxer.Kvstore
open Store

/-- `store.ValueType` of the three value kinds. -/
inductive ValueType where
  | STRING_VALUE
  | TOMBSTONE_VALUE
  | BOOL_VALUE
  deriving DecidableEq, Repr

/-- The values the store holds: `*String`, `*Tombstone` and `*Boolean`. -/
inductive Value where
  | string (value : String) (time : Time)
  | tombstone (time : Time)
  | boolean (value : Bool) (time : Time)
  deriving DecidableEq, Repr

namespace Value

def GetTimestamp : Value → Time
  | string _ t => t
  | tombstone t => t
  | boolean _ t => t

def GetValueType : Value → ValueType
  | string .. => .STRING_VALUE
  | tombstone .. => .TOMBSTONE_VALUE
  | boolean .. => .BOOL_VALUE

@[simp] theorem getTimestamp_string (v : String) (t : Time) : (string v t).GetTimestamp = t := rfl
@[simp] theorem getTimestamp_tombstone (t : Time) : (tombstone t).GetTimestamp = t := rfl

end Value

/-- The store's data map. -/
structure KVStore where
  data : String → Option Value

namespace KVStore

/-- `NewKVStore`. -/
def NewKVStore : KVStore := ⟨fun _ => none⟩

/-- The store with `key` set to `v`. -/
def write (s : KVStore) (key : String) (v : Value) : KVStore :=
  ⟨fun k => if k = key then some v else s.data k⟩

@[simp] theorem write_data_self (s : KVStore) (key : String) (v : Value) :
    (s.write key v).data key = some v := by
  simp [write]

@[simp] theorem write_data_ne (s : KVStore) {key k : String} (v : Value) (h : k ≠ key) :
    (s.write key v).data k = s.data k := by
  simp [write, h]

def validateGet (_key : String) (args : List String) : Except String Unit :=
  if args.length ≠ 0 then .error "too many args for GET" else .ok ()

def validateSet (_key : String) (args : List String) (timestamp : Time) : Except String Unit :=
  if args.length ≠ 1 then
    .error ("incorrect number of args for SET. Expected 1, got " ++ toString args.length)
  -- the source's message names DEL here
  else if timestamp.IsZero then .error "DEL Got zero timestamp"
  else .ok ()

def validateDel (_key : String) (args : List String) (timestamp : Time) : Except String Unit :=
  if args.length ≠ 0 then .error ("DEL takes 0 args, " ++ toString args.length ++ " found")
  else if timestamp.IsZero then .error "DEL Got zero timestamp"
  else .ok ()

/-- `KVStore.get`: whatever the key holds, possibly nothing. -/
def get (s : KVStore) (key : String) : Option Value := s.data key

/-- `KVStore.set`: an existing value with a strictly later timestamp is kept and
returned; otherwise the key gets the new string. -/
def set (s : KVStore) (key val : String) (ts : Time) : KVStore × Value :=
  match s.data key with
  | some existing =>
    if ts.Before existing.GetTimestamp then (s, existing)
    else (s.write key (.string val ts), .string val ts)
  | none => (s.write key (.string val ts), .string val ts)

/-- `KVStore.del`: a present key becomes a tombstone at `ts`, and the reply says
so with the old value's timestamp; an absent key is left alone. -/
def del (s : KVStore) (key : String) (ts : Time) : KVStore × Value :=
  match s.data key with
  | some val => (s.write key (.tombstone ts), .boolean true val.GetTimestamp)
  | none => (s, .boolean false Time.zero)

/-- `KVStore.ExecuteInstruction`: the new store and the reply (`nil` for a `GET`
of an absent key), or the validation error with the store unchanged. -/
def ExecuteInstruction (s : KVStore) (instruction : Instruction) :
    KVStore × Except String (Option Value) :=
  let key := instruction.Key
  let args := instruction.Args
  let timestamp := instruction.Timestamp
  if instruction.Cmd = "GET" then
    match validateGet key args with
    | .error e => (s, .error e)
    | .ok () => (s, .ok (s.get key))
  else if instruction.Cmd = "SET" then
    match validateSet key args timestamp with
    | .error e => (s, .error e)
    | .ok () =>
      let r := s.set key (args.headD "") timestamp
      (r.1, .ok (some r.2))
  else if instruction.Cmd = "DEL" then
    match validateDel key args timestamp with
    | .error e => (s, .error e)
    | .ok () =>
      let r := s.del key timestamp
      (r.1, .ok (some r.2))
  else (s, .error ("Unrecognized write command: " ++ instruction.Cmd))

/-- `KVStore.InterferingKeys`: an instruction interferes through its key alone. -/
def InterferingKeys (instruction : Instruction) : List String := [instruction.Key]

/-- `KVStore.IsReadOnly`. -/
def IsReadOnly (instruction : Instruction) : Bool := instruction.Cmd.toUpper == "GET"

/-- A rejected instruction leaves the store as it was. -/
theorem executeInstruction_error_state (s : KVStore) (instruction : Instruction) (e : String)
    (h : (s.ExecuteInstruction instruction).2 = .error e) :
    (s.ExecuteInstruction instruction).1 = s := by
  unfold ExecuteInstruction at h ⊢
  repeat' split at h
  all_goals first | rfl | simp_all
  all_goals split <;> simp_all

/-- A valid `SET` runs `set`. -/
theorem executeInstruction_set (s : KVStore) (instruction : Instruction)
    (hc : instruction.Cmd = "SET") (ha : instruction.Args.length = 1)
    (ht : instruction.Timestamp.instant ≠ 0) :
    s.ExecuteInstruction instruction =
      ((s.set instruction.Key (instruction.Args.headD "") instruction.Timestamp).1,
        .ok (some (s.set instruction.Key (instruction.Args.headD "") instruction.Timestamp).2)) := by
  have hv : validateSet instruction.Key instruction.Args instruction.Timestamp = .ok () := by
    simp [validateSet, ha, ht]
  simp [ExecuteInstruction, hc, hv]

end KVStore

end Kickboxer.Kvstore
