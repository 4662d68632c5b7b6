import Kickboxer.Consensus.Dependencies
import Kickboxer.Consensus.Message
import Kickboxer.Kvstore.Store

/-! A replica's consensus manager (`consensus/manager.go` and the instance
operations of `manager_preaccept.go`, `manager_accept.go`,
`manager_commit.go`).

A manager holds the replica's instances by id, the ids it has executed in
order, its dependency tree and its store. Every operation is a function from a
manager to the new manager and the operation's result; where the source returns
an error after it has changed something, the change is kept.

The source passes instances by pointer, and what an operation copies depends on
whether it is handed the map's own object: `Src.local` is that object,
`Src.other` any other copy of the instance (a request's, a reply's, or a new
instance not yet in the map). `getOrSetSrc` turns the two into the map's object
and, for a copy that found an existing instance, the copy to take attributes
from; a copy that was not there becomes the map's object itself, as `GetOrSet`
stores the pointer it is given.

Two fields are ghost state, read by the statements and never by the code:
`commitLog`, the instance as every successful `commit` left it, and `applied`,
every instruction handed to the store. The store is the key/value store, whose
interfering keys are the instruction's key alone. -/
namespace Kickboxer.Consensus
open Kickboxer.Types Store Kvstore Library

/-- `Manager`, with the topology as the replicas of each key in the local
datacenter. -/
structure Manager where
  nodeID : NodeId
  topology : String → List NodeId
  instances : List Instance
  executed : List InstanceID
  depsMngr : DependencyMap
  store : KVStore
  commitLog : List Instance
  applied : List Instruction

/-- The instance a manager operation is handed. -/
inductive Src where
  | local (i : Instance)
  | other (i : Instance)
  deriving DecidableEq, Repr

def Src.inst : Src → Instance
  | .local i => i
  | .other i => i

namespace Manager

/-- `NewManager`. -/
def NewManager (nodeID : NodeId) (topology : String → List NodeId) : Manager :=
  ⟨nodeID, topology, [], [], DependencyMap.newDependencyMap, KVStore.NewKVStore, [], []⟩

/-- `getInstance` (`InstanceMap.Get`). -/
def getInstance (m : Manager) (iid : InstanceID) : Option Instance :=
  m.instances.find? (·.InstanceID == iid)

/-- Write back the map's object for `i`'s id after a change under its lock. -/
def putInstance (m : Manager) (i : Instance) : Manager :=
  { m with instances := m.instances.map fun j => if j.InstanceID == i.InstanceID then i else j }

/-- `getInstanceReplicas`: the key's replicas other than this node. -/
def getInstanceReplicas (m : Manager) (i : Instance) : List NodeId :=
  (m.topology i.Command.Key).filter (· ≠ m.nodeID)

/-! ### The dependency manager

Each entry point of `dependencyManager` runs on the instance's interfering keys,
`KVStore.InterferingKeys`. -/

def withDeps {α : Type} (m : Manager)
    (f : DependencyMap → List String → Instance → DependencyMap × α) (i : Instance) :
    Manager × α :=
  let r := f m.depsMngr (KVStore.InterferingKeys i.Command) i
  ({ m with depsMngr := r.1 }, r.2)

/-- `getInstanceDeps`. -/
def getInstanceDeps (m : Manager) (i : Instance) : Manager × Except Error (List InstanceID) :=
  m.withDeps DependencyMap.GetAndSetDeps i

def AddDependency (m : Manager) (i : Instance) : Manager × Except Error Unit :=
  m.withDeps DependencyMap.AddDependency i

def ReportAcknowledged (m : Manager) (i : Instance) : Manager × Except Error Unit :=
  m.withDeps DependencyMap.ReportAcknowledged i

def ReportExecuted (m : Manager) (i : Instance) : Manager × Except Error Unit :=
  m.withDeps DependencyMap.ReportExecuted i

/-! ### Instances -/

/-- `getOrSetInstance`: the existing instance, or `inst` stored as new, its
status lowered from executed to committed, and registered with the dependency
manager if it is past preaccepted. The flag says whether it existed. -/
def getOrSetInstance (m : Manager) (inst : Instance) : Manager × Instance × Bool :=
  match m.getInstance inst.InstanceID with
  | some i => (m, i, true)
  | none =>
    let i :=
      if inst.Status > INSTANCE_COMMITTED then { inst with Status := INSTANCE_COMMITTED } else inst
    let m := { m with instances := m.instances ++ [i] }
    let m := if i.Status > INSTANCE_PREACCEPTED then (m.AddDependency i).1 else m
    (m, i, false)

/-- The map's object for the instance handed over, and the copy it is to take
attributes from (`inst != i`). -/
def getOrSetSrc (m : Manager) : Src → Manager × Instance × Option Instance
  | .local inst =>
    let r := m.getOrSetInstance inst
    (r.1, r.2.1, none)
  | .other inst =>
    let r := m.getOrSetInstance inst
    (r.1, r.2.1, if r.2.2 then some inst else none)

/-- `Instance.preaccept`: refuse an instance past preaccepted; otherwise take
the copy's noop flag and any higher ballot, move to preaccepted and take the
dependencies the tree gives, then bump the ballot if asked. -/
def preaccept (m : Manager) (i : Instance) (inst : Option Instance) (incrementBallot : Bool) :
    Manager × Except Error Unit :=
  if i.Status > INSTANCE_PREACCEPTED then (m, .error (i.NewInvalidStatusUpdateError INSTANCE_PREACCEPTED))
  else
    let i := match inst with
      | some inst => { i with Noop := inst.Noop, MaxBallot := Instance.maxBallot i.MaxBallot inst.MaxBallot }
      | none => i
    let i := { i with Status := INSTANCE_PREACCEPTED }
    match m.getInstanceDeps i with
    | (m, .error e) => (m.putInstance i, .error e)
    | (m, .ok deps) =>
      let i := { i with Dependencies := deps }
      (m.putInstance (if incrementBallot then { i with MaxBallot := i.MaxBallot + 1 } else i), .ok ())

/-- `preAcceptInstance`. -/
def preAcceptInstance (m : Manager) (inst : Src) (incrementBallot : Bool) :
    Manager × Except Error Unit :=
  let r := m.getOrSetSrc inst
  r.1.preaccept r.2.1 r.2.2 incrementBallot

/-- `acceptInstance`. -/
def acceptInstance (m : Manager) (inst : Src) (incrementBallot : Bool) :
    Manager × Except Error Unit :=
  let r := m.getOrSetSrc inst
  match r.2.1.accept r.2.2 incrementBallot with
  | .error e => (r.1, .error e)
  | .ok i => (r.1.putInstance i).ReportAcknowledged i

/-- `commitInstance`; a successful commit is logged in the ghost `commitLog`. -/
def commitInstance (m : Manager) (inst : Src) (incrementBallot : Bool) :
    Manager × Except Error Unit :=
  let r := m.getOrSetSrc inst
  match r.2.1.commit r.2.2 incrementBallot with
  | .error e => (r.1, .error e)
  | .ok i =>
    let m := r.1.putInstance i
    { m with commitLog := m.commitLog ++ [i] }.ReportAcknowledged i

/-- `addMissingInstancesUnsafe`: each instance this replica did not know is
stored, a committed or executed one as committed, and registered. The source
panics on any other status; here that is an error. -/
def addMissingInstancesUnsafe (m : Manager) : List Instance → Manager × Except Error Unit
  | [] => (m, .ok ())
  | inst :: rest =>
    let r := m.getOrSetInstance inst
    if r.2.2 then r.1.addMissingInstancesUnsafe rest
    else
      let i := r.2.1
      let s := i.Status
      if s = INSTANCE_PREACCEPTED ∨ s = INSTANCE_ACCEPTED ∨ s = INSTANCE_COMMITTED ∨
          s = INSTANCE_EXECUTED then
        let i :=
          if s = INSTANCE_COMMITTED ∨ s = INSTANCE_EXECUTED then
            { i with Status := INSTANCE_COMMITTED }
          else i
        match (r.1.putInstance i).AddDependency i with
        | (m, .error e) => (m, .error e)
        | (m, .ok ()) => m.addMissingInstancesUnsafe rest
      else (r.1, .error (.other ("Unknown status: " ++ s.String)))

/-- The highest of some ballots, from zero. -/
def maxOfBallots (ballots : List UInt32) : UInt32 :=
  ballots.foldl Instance.maxBallot 0

/-- `updateInstanceBallotFromResponses`: the local instance takes the highest
ballot of the responses if it is higher. -/
def updateInstanceBallotFromResponses (m : Manager) (iid : InstanceID) (ballots : List UInt32) :
    Manager :=
  match m.getInstance iid with
  | some i => m.putInstance (i.updateBallot (maxOfBallots ballots)).1
  | none => m

/-- `mergePreAcceptAttributes`: the local instance takes the union of its
dependencies with those of each response; the flag says whether any changed
them, and on an error it is the flag so far. -/
def mergePreAcceptAttributes (m : Manager) (iid : InstanceID) :
    List PreAcceptResponse → Bool → Manager × Bool × Except Error Unit
  | [], changes => (m, changes, .ok ())
  | response :: rest, changes =>
    match m.getInstance iid with
    | none => (m, changes, .ok ())
    | some i =>
      match i.mergeAttributes response.Instance.Dependencies with
      | .error e => (m, changes, .error e)
      | .ok (i, mergeChanges) =>
        (m.putInstance i).mergePreAcceptAttributes iid rest (changes || mergeChanges)

end Manager

end Kickboxer.Consensus
