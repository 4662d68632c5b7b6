import Kickboxer.Library.ListSet
import Kickboxer.Store.Instruction
import Kickboxer.Types.UUID

/-! EPaxos instances (`consensus/instance.go`, `instance_containers.go`,
`errors.go`).

An instance carries one instruction through the protocol: its id, its leader,
the order in which other replicas take over (`Successors`), the instances it
depends on, its status and the highest ballot seen for it. The status is a byte,
`0` until the instance is first preaccepted, then `INSTANCE_PREACCEPTED` up to
`INSTANCE_EXECUTED`.

The state changes `accept` and `commit` share one body (`advanceTo`): they refuse
an instance already past their status and otherwise move it there, taking the
dependencies, noop flag and any higher ballot of the copy they are given. That
copy is `none` when the source passes the instance itself (`inst == i`). An
instance's result listeners, debug log, commit timeout, locks and commit event
are not modelled: nothing the protocol decides reads them. -/
namespace Kickboxer.Consensus
open Kickboxer.Types Store Library

/-- `InstanceStatus`, a byte. -/
abbrev InstanceStatus := UInt8

def INSTANCE_PREACCEPTED : InstanceStatus := 1
def INSTANCE_ACCEPTED : InstanceStatus := 2
def INSTANCE_COMMITTED : InstanceStatus := 3
def INSTANCE_EXECUTED : InstanceStatus := 4

/-- `InstanceStatus.String`. -/
def InstanceStatus.String (s : InstanceStatus) : String :=
  if s = INSTANCE_PREACCEPTED then "INSTANCE_PREACCEPTED"
  else if s = INSTANCE_ACCEPTED then "INSTANCE_ACCEPTED"
  else if s = INSTANCE_COMMITTED then "INSTANCE_COMMITTED"
  else if s = INSTANCE_EXECUTED then "INSTANCE_EXECUTED"
  else "Unknown InstanceStatus: " ++ toString s.toNat

/-- `InstanceID`. -/
structure InstanceID extends UUID
  deriving DecidableEq, Inhabited, Repr

/-- The id whose low half is `n`, for writing small examples. -/
def InstanceID.ofNat (n : Nat) : InstanceID := ⟨⟨⟨0, n.toUInt64⟩⟩⟩

/-- `Instance`, with the fields the protocol reads. -/
structure Instance where
  InstanceID : InstanceID
  LeaderID : NodeId
  Successors : List NodeId
  Command : Instruction
  Dependencies : List Consensus.InstanceID
  Status : InstanceStatus
  MaxBallot : UInt32
  Noop : Bool
  DependencyMatch : Bool
  ReadOnly : Bool
  StronglyConnected : List Consensus.InstanceID
  deriving DecidableEq, Repr

/-- The errors the protocol tells apart: `TimeoutError`, `BallotError`,
`InvalidStatusUpdateError`, and the plain errors of `fmt.Errorf`. -/
inductive Error where
  | TimeoutError (message : String)
  | BallotError (message : String)
  | InvalidStatusUpdateError (InstanceID : InstanceID) (CurrentStatus ProposedStatus : InstanceStatus)
  | other (message : String)
  deriving DecidableEq, Repr

/-- The test `err.(InvalidStatusUpdateError)` that callers use to carry on. -/
def Error.isInvalidStatusUpdate : Error → Bool
  | .InvalidStatusUpdateError .. => true
  | _ => false

namespace Instance

/-- The instance `makeInstance` starts from, before its successors are chosen:
an id, a leader and a command, everything else zero. -/
def bare (iid : Consensus.InstanceID) (leader : NodeId) (command : Instruction) : Instance :=
  ⟨iid, leader, [], command, [], 0, 0, false, false, false, []⟩

/-- `NewInvalidStatusUpdateError`. -/
def NewInvalidStatusUpdateError (i : Instance) (update : InstanceStatus) : Error :=
  .InvalidStatusUpdateError i.InstanceID i.Status update

/-- `incrementBallot`: the ballot goes up by one, wrapping as a `uint32`. -/
def incrementBallot (i : Instance) : Instance × UInt32 :=
  ({ i with MaxBallot := i.MaxBallot + 1 }, i.MaxBallot + 1)

/-- `updateBallot`: a higher ballot replaces the instance's. -/
def updateBallot (i : Instance) (ballot : UInt32) : Instance × Bool :=
  if ballot > i.MaxBallot then ({ i with MaxBallot := ballot }, true) else (i, false)

/-- `Instance.Copy`: the fields it lists; `ReadOnly` and `StronglyConnected` are
not among them. -/
def Copy (i : Instance) : Instance where
  InstanceID := i.InstanceID
  LeaderID := i.LeaderID
  Successors := i.Successors
  Command := i.Command.Copy
  Dependencies := i.Dependencies
  Status := i.Status
  MaxBallot := i.MaxBallot
  Noop := i.Noop
  DependencyMatch := i.DependencyMatch
  ReadOnly := false
  StronglyConnected := []

/-- `mergeAttributes`: a preaccepted instance takes the union of its
dependencies and `deps`, and says whether that changed them. -/
def mergeAttributes (i : Instance) (deps : List Consensus.InstanceID) : Except Error (Instance × Bool) :=
  if i.Status ≠ INSTANCE_PREACCEPTED then
    .error (.other ("attributes can only be merged on instances with preaccepted status, " ++
      i.Status.String))
  else
    let iSet := ListSet.ofList i.Dependencies
    let oSet := ListSet.ofList deps
    if !ListSet.equal iSet oSet then .ok ({ i with Dependencies := ListSet.union iSet oSet }, true)
    else .ok (i, false)

/-- The larger of two ballots, as `if inst.MaxBallot > i.MaxBallot` assigns it. -/
def maxBallot (mine theirs : UInt32) : UInt32 := if theirs > mine then theirs else mine

/-- The shared body of `accept` and `commit`. -/
def advanceTo (status : InstanceStatus) (i : Instance) (inst : Option Instance)
    (incrementBallot : Bool) : Except Error Instance :=
  if i.Status > status then .error (i.NewInvalidStatusUpdateError status)
  else
    -- another copy of the instance brings its attributes; the instance itself brings none
    let i := match inst with
      | some inst =>
        { i with Dependencies := inst.Dependencies, Noop := inst.Noop,
                 MaxBallot := maxBallot i.MaxBallot inst.MaxBallot }
      | none => i
    let i := { i with Status := status }
    .ok (if incrementBallot then { i with MaxBallot := i.MaxBallot + 1 } else i)

/-- `accept`. -/
def accept (i : Instance) (inst : Option Instance) (incrementBallot : Bool) :
    Except Error Instance :=
  advanceTo INSTANCE_ACCEPTED i inst incrementBallot

/-- `commit`; with `PAXOS_DEBUG` off, re-committing a committed instance is
not checked against its old dependencies. -/
def commit (i : Instance) (inst : Option Instance) (incrementBallot : Bool) :
    Except Error Instance :=
  advanceTo INSTANCE_COMMITTED i inst incrementBallot

/-- `setNoop`. -/
def setNoop (i : Instance) : Instance := { i with Noop := true }

/-! ### What the state changes do -/

theorem maxBallot_ge_left (mine theirs : UInt32) : mine ≤ maxBallot mine theirs := by
  unfold maxBallot
  split
  · exact UInt32.le_of_lt ‹_›
  · exact UInt32.le_refl mine

theorem maxBallot_ge_right (mine theirs : UInt32) : theirs ≤ maxBallot mine theirs := by
  unfold maxBallot
  split
  · exact UInt32.le_refl theirs
  · exact UInt32.not_lt.mp ‹_›

theorem advanceTo_eq_ok {status : InstanceStatus} {i i' : Instance} {inst : Option Instance}
    {incr : Bool} (h : advanceTo status i inst incr = .ok i') :
    ¬ i.Status > status ∧ i'.Status = status ∧ i'.InstanceID = i.InstanceID ∧
      i'.Command = i.Command ∧
      i'.Dependencies = (inst.map Instance.Dependencies).getD i.Dependencies ∧
      i'.Noop = (inst.map Instance.Noop).getD i.Noop ∧
      i'.MaxBallot = (if incr then (· + 1) else id)
        ((inst.map fun o => maxBallot i.MaxBallot o.MaxBallot).getD i.MaxBallot) := by
  unfold advanceTo at h
  split at h
  · cases h
  · rename_i hs
    cases inst <;> cases incr <;> (cases h; simp [hs])

theorem advanceTo_eq_error {status : InstanceStatus} {i : Instance} {inst : Option Instance}
    {incr : Bool} {e : Error} (h : advanceTo status i inst incr = .error e) :
    i.Status > status ∧ e = i.NewInvalidStatusUpdateError status := by
  unfold advanceTo at h
  split at h
  · cases h
    exact ⟨‹_›, rfl⟩
  · cases inst <;> cases incr <;> cases h

/-- A state change never lowers the status. -/
theorem advanceTo_status_le {status : InstanceStatus} {i i' : Instance} {inst : Option Instance}
    {incr : Bool} (h : advanceTo status i inst incr = .ok i') : i.Status ≤ i'.Status := by
  obtain ⟨hs, hst, -⟩ := advanceTo_eq_ok h
  rw [hst]
  exact UInt8.not_lt.mp hs

end Instance

end Kickboxer.Consensus
