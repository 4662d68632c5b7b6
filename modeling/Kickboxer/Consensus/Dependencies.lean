import Kickboxer.Consensus.Instance

/-! The dependency tree (`consensus/manager_depedencies.go`).

A replica finds an instance's dependencies in a tree indexed by the instance's
interfering keys, from general to specific. Each node holds the writes and reads
registered at its key path, and which of them were executed and acknowledged.
`GetAndSetDeps` descends the path collecting the writes (and, for a write, the
reads) of every node on the way and of every node below the last one, then
registers the instance at the last node. `AddDependency` registers an instance
learnt from another replica, `ReportAcknowledged` marks an instance's
dependencies acknowledged, and `ReportExecuted` marks the instance executed; an
instance both executed and acknowledged is dropped at the next registration
there.

The tree is kept as the list of its nodes, each under its full key path:
`subDependencies.get` creates the node at a path, and the recursion of
`getChildDeps` over every subtree is the fold over every node below a path.

On paths of two keys or more, `AddDependency` and `ReportExecuted` descend by
calling `ReportAcknowledged` for the next key instead of themselves, so the
instance is never registered, or never marked executed, at its node.
`addDependency_deep_unregistered` shows the instance missing from a later
`GetAndSetDeps` on the very same path. -/
namespace Kickboxer.Consensus
open Library

/-- `dependencies`: one node's sets. -/
structure Dependencies where
  writes : List InstanceID
  reads : List InstanceID
  executed : List InstanceID
  acknowledged : List InstanceID
  deriving DecidableEq, Repr

/-- `newDependencies`. -/
def newDependencies : Dependencies := ⟨[], [], [], []⟩

/-- A `dependencyMap` and all the maps below it: each created node under its key
path. -/
structure DependencyMap where
  nodes : List (List String × Dependencies)
  deriving DecidableEq, Repr

namespace DependencyMap

/-- `newDependencyMap`. -/
def newDependencyMap : DependencyMap := ⟨[]⟩

/-- The node at `path`, or an empty one where none was created. -/
def node (dm : DependencyMap) (path : List String) : Dependencies :=
  ((dm.nodes.find? (·.1 == path)).map (·.2)).getD newDependencies

/-- `dependencyMap.get`: create the node at `path` if it is missing. -/
def get (dm : DependencyMap) (path : List String) : DependencyMap :=
  if dm.nodes.any (·.1 == path) then dm else ⟨dm.nodes ++ [(path, newDependencies)]⟩

/-- Replace the node at `path`. -/
def setNode (dm : DependencyMap) (path : List String) (d : Dependencies) : DependencyMap :=
  ⟨dm.nodes.map fun e => if e.1 == path then (path, d) else e⟩

end DependencyMap

namespace Dependencies

/-- `getLocalDeps`: the node's writes, and for a write its reads too. -/
def getLocalDeps (d : Dependencies) (inst : Instance) : List InstanceID :=
  if !inst.ReadOnly then ListSet.union d.writes d.reads else d.writes

/-- Register `inst` as a read or a write. -/
def register (d : Dependencies) (inst : Instance) : Dependencies :=
  if inst.ReadOnly then { d with reads := ListSet.add d.reads inst.InstanceID }
  else { d with writes := ListSet.add d.writes inst.InstanceID }

/-- The clean-up at the end of `GetAndSetDeps`: what is both executed and
acknowledged leaves all four sets. -/
def removeExAcked (d : Dependencies) : Dependencies :=
  let exAcked := ListSet.inter d.executed d.acknowledged
  ⟨ListSet.diff d.writes exAcked, ListSet.diff d.reads exAcked,
    ListSet.diff d.executed exAcked, ListSet.diff d.acknowledged exAcked⟩

/-- The last-key branch of `ReportAcknowledged`: the instance's dependencies are
acknowledged, the instance itself only if it already was. -/
def acknowledge (d : Dependencies) (inst : Instance) : Dependencies :=
  let containsInstance := inst.InstanceID ∈ d.acknowledged
  let acked := inst.Dependencies.foldl ListSet.add d.acknowledged
  { d with acknowledged :=
      if !containsInstance then acked.filter (· ≠ inst.InstanceID) else acked }

end Dependencies

namespace DependencyMap

/-- What the last node of `GetAndSetDeps` gathers from its subtrees, each
subtree's `getChildDeps`: the local dependencies of every node strictly below
`path`. -/
def subtreeDeps (dm : DependencyMap) (path : List String) (inst : Instance) :
    List InstanceID :=
  (dm.nodes.filter fun e => path.isPrefixOf e.1 && e.1 != path).foldl
    (fun deps e => ListSet.union deps (e.2.getLocalDeps inst)) []

/-- `dependencies.GetAndSetDeps` at the node `path`, whose own key heads `keys`. -/
def getAndSetDepsAt (inst : Instance) :
    DependencyMap → List String → List String → DependencyMap × List InstanceID
  | dm, path, [_] =>
    let d := dm.node path
    -- the node's own dependencies, then those of every node below it
    let deps := ListSet.union (d.getLocalDeps inst) (dm.subtreeDeps path inst)
    let dm := dm.setNode path (d.register inst).removeExAcked
    (dm, deps.filter (· ≠ inst.InstanceID))
  | dm, path, _ :: k :: ks =>
    let deps := (dm.node path).getLocalDeps inst
    let dm := dm.get (path ++ [k])
    let r := getAndSetDepsAt inst dm (path ++ [k]) (k :: ks)
    (r.1, (ListSet.union deps r.2).filter (· ≠ inst.InstanceID))
  | dm, _, [] => (dm, [])

/-- `dependencies.ReportAcknowledged` at the node `path`. -/
def reportAcknowledgedAt (inst : Instance) :
    DependencyMap → List String → List String → DependencyMap
  | dm, path, [_] => dm.setNode path ((dm.node path).acknowledge inst)
  | dm, path, _ :: k :: ks => reportAcknowledgedAt inst (dm.get (path ++ [k])) (path ++ [k]) (k :: ks)
  | dm, _, [] => dm

/-- `dependencies.ReportExecuted` at the node `path`: below the first key it
hands over to `ReportAcknowledged`, as the source does. -/
def reportExecutedAt (inst : Instance) (dm : DependencyMap) (path : List String) :
    List String → DependencyMap
  | [_] =>
    let d := dm.node path
    dm.setNode path { d with executed := ListSet.add d.executed inst.InstanceID }
  | _ :: k :: ks => reportAcknowledgedAt inst (dm.get (path ++ [k])) (path ++ [k]) (k :: ks)
  | [] => dm

/-- `dependencies.AddDependency` at the node `path`: below the first key it
hands over to `ReportAcknowledged`, as the source does. -/
def addDependencyAt (inst : Instance) (dm : DependencyMap) (path : List String) :
    List String → DependencyMap
  | [_] => dm.setNode path ((dm.node path).register inst)
  | _ :: k :: ks => reportAcknowledgedAt inst (dm.get (path ++ [k])) (path ++ [k]) (k :: ks)
  | [] => dm

/-! ### The `dependencyManager` entry points

Each takes the instance's interfering keys, refuses an empty list, creates the
node of the first key and runs the node method there. -/

def noKeysError : Error := .other "at least one interfering key required, none found"

/-- `dependencyManager.GetAndSetDeps`. -/
def GetAndSetDeps (dm : DependencyMap) (keys : List String) (inst : Instance) :
    DependencyMap × Except Error (List InstanceID) :=
  match keys with
  | [] => (dm, .error noKeysError)
  | k :: ks =>
    let r := getAndSetDepsAt inst (dm.get [k]) [k] (k :: ks)
    (r.1, .ok r.2)

/-- `dependencyManager.ReportAcknowledged`. -/
def ReportAcknowledged (dm : DependencyMap) (keys : List String) (inst : Instance) :
    DependencyMap × Except Error Unit :=
  match keys with
  | [] => (dm, .error noKeysError)
  | k :: ks => (reportAcknowledgedAt inst (dm.get [k]) [k] (k :: ks), .ok ())

/-- `dependencyManager.ReportExecuted`. -/
def ReportExecuted (dm : DependencyMap) (keys : List String) (inst : Instance) :
    DependencyMap × Except Error Unit :=
  match keys with
  | [] => (dm, .error noKeysError)
  | k :: ks => (reportExecutedAt inst (dm.get [k]) [k] (k :: ks), .ok ())

/-- `dependencyManager.AddDependency`. -/
def AddDependency (dm : DependencyMap) (keys : List String) (inst : Instance) :
    DependencyMap × Except Error Unit :=
  match keys with
  | [] => (dm, .error noKeysError)
  | k :: ks => (addDependencyAt inst (dm.get [k]) [k] (k :: ks), .ok ())

/-! ### Registration below the first key -/

/-- Two writes, `A` and `B`, on no particular command. -/
def instanceA : Instance := Instance.bare (InstanceID.ofNat 1) (Types.NodeId.ofNat 1) default

def instanceB : Instance := Instance.bare (InstanceID.ofNat 2) (Types.NodeId.ofNat 1) default

/-- `A` is added at the path `a.b`, and `B` then asks for its dependencies on
the same path: it gets none, for `A` was never registered. -/
theorem addDependency_deep_unregistered :
    ((newDependencyMap.AddDependency ["a", "b"] instanceA).1.GetAndSetDeps ["a", "b"]
      instanceB).2 = .ok [] := by
  decide

end DependencyMap

end Kickboxer.Consensus
