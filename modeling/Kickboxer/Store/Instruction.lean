import Mathlib.Data.List.Basic

/-! Instructions against the store (`store/instruction.go`).

An instruction is a command, the key it works on, its arguments and a timestamp.
The timestamp is a `time.Time`; what the store does with it is compare instants
(`Before`, `After`) and test for the zero time (`IsZero`), so an instant is kept
as an integer count from the zero time, and the zero time is `0`. -/
namespace Kickboxer.Store

/-- A `time.Time`, as the instant it names: a signed count from the zero time. -/
structure Time where
  instant : Int
  deriving DecidableEq, Inhabited, Repr

namespace Time

/-- `time.Time{}`. -/
def zero : Time := ⟨0⟩

def IsZero (t : Time) : Bool := t.instant == 0

def Before (t u : Time) : Bool := decide (t.instant < u.instant)

def After (t u : Time) : Bool := decide (u.instant < t.instant)

@[simp] theorem isZero_iff (t : Time) : t.IsZero = true ↔ t.instant = 0 := by
  simp [IsZero]

@[simp] theorem before_iff (t u : Time) : t.Before u = true ↔ t.instant < u.instant := by
  simp [Before]

@[simp] theorem after_iff (t u : Time) : t.After u = true ↔ u.instant < t.instant := by
  simp [After]

end Time

/-- `store.Instruction`. -/
structure Instruction where
  Cmd : String
  Key : String
  Args : List String
  Timestamp : Time
  deriving DecidableEq, Inhabited, Repr

namespace Instruction

/-- `NewInstruction`. -/
def NewInstruction (cmd key : String) (args : List String) (timestamp : Time) : Instruction :=
  ⟨cmd, key, args, timestamp⟩

/-- `Instruction.Copy`: a new argument slice with the same strings. -/
def Copy (i : Instruction) : Instruction :=
  ⟨i.Cmd, i.Key, i.Args.map id, i.Timestamp⟩

theorem copy_eq (i : Instruction) : i.Copy = i := by
  simp [Copy]

end Instruction

end Kickboxer.Store
