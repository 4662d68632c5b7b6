import Kickboxer.Consensus.Handlers
import Kickboxer.Topology.Ring
import Mathlib.Data.List.Sort

/-! Execution (`consensus/algorithms.go`, `consensus/manager_execute.go`).

To execute an instance a replica builds the graph of its dependencies,
closed under dependencies (`getExecutionOrder`), cuts it into strongly connected
components with Tarjan's algorithm (`tarjanConnect`), which lists the components
dependencies first, sorts each component by id (`iidSorter`), and applies the
instances in that order up to the target (`executeDependencyChain`).

Executed instances are left out of the graph unless they are a dependency of
the target or still connected to it: one of their dependencies is in the graph
already, not executed, a dependency of the target, or they belong to a
component recorded earlier (`StronglyConnected`). Components are recorded on
their members when the graph has no uncommitted instance. That test reads the
status of each dependency of the instance, so a dependency the replica does not
hold is dereferenced as a nil pointer before the check for unknown ids is
reached (`addInstance_executed_missing`, `executionOrder_dereferences_missing`).

Go visits maps in an unspecified order; the graph here is kept in the order
its vertices are added, which is one such order. The time of a version-1 id is
read by the `go-uuid` library, outside the repository: it is the parameter
`uuidTime`. `sort.Sort` is not stable, but ids are distinct, so any sort of a
component gives the one ascending order, computed here by insertion sort.
Recursions run on fuel: a search is never deeper than the graph is large. -/
namespace Kickboxer.Consensus
open Kickboxer.Types Store Kvstore Library

/-! ### Tarjan's algorithm -/

/-- The bookkeeping of `tarjanConnect`: the last index handed out, each visited
vertex with its index, low link and whether it is on the stack, the stack (its
top last) and the components found. -/
structure TarjanState (α : Type) where
  index : Nat
  vertices : List (α × Nat × Nat × Bool)
  stack : List α
  output : List (List α)

section Tarjan
variable {α : Type} [DecidableEq α]

namespace TarjanState

/-- A visited vertex's index, low link and stack flag. -/
def find (st : TarjanState α) (v : α) : Option (Nat × Nat × Bool) :=
  (st.vertices.find? (·.1 == v)).map (·.2)

def lowlink (st : TarjanState α) (v : α) : Nat := ((st.find v).map (·.2.1)).getD 0

def setLowlink (st : TarjanState α) (v : α) (low : Nat) : TarjanState α :=
  { st with vertices := st.vertices.map fun e => if e.1 == v then (v, e.2.1, low, e.2.2.2) else e }

end TarjanState

/-- The out-edges of `v`, if it is a vertex of the graph. -/
def graphOut (graph : List (α × List α)) (v : α) : Option (List α) :=
  (graph.find? (·.1 == v)).map (·.2)

/-- `strongConnect`. -/
def strongConnect (graph : List (α × List α)) : Nat → α → TarjanState α → TarjanState α
  | 0, _, st => st
  | fuel + 1, v, st =>
    let index := st.index + 1
    let initialStackSize := st.stack.length
    let st := { st with index := index, vertices := st.vertices ++ [(v, index, index, true)],
                        stack := st.stack ++ [v] }
    let st := ((graphOut graph v).getD []).foldl (fun st w =>
      match graphOut graph w, st.find w with
      | none, _ => st
      | some _, none =>
        let st := strongConnect graph fuel w st
        if st.lowlink w < st.lowlink v then st.setLowlink v (st.lowlink w) else st
      | some _, some (wIndex, _, stacked) =>
        if stacked ∧ wIndex < st.lowlink v then st.setLowlink v wIndex else st) st
    if index = st.lowlink v then
      -- `v` roots a component: everything pushed since `v`, popped top first
      let component := (st.stack.drop initialStackSize).reverse
      { st with stack := st.stack.take initialStackSize,
                vertices := st.vertices.map fun e =>
                  if e.1 ∈ component then (e.1, e.2.1, e.2.2.1, false) else e,
                output := st.output ++ [component] }
    else st

/-- `tarjanConnect`: the strongly connected components, each listed after every
component it reaches. -/
def tarjanConnect (graph : List (α × List α)) : List (List α) :=
  (graph.foldl (fun st e =>
    if (st.find e.1).isSome then st else strongConnect graph graph.length e.1 st)
    (⟨0, [], [], []⟩ : TarjanState α)).output

end Tarjan

/-! ### The execution order -/

section Order
variable (uuidTime : UUID → Int)

/-- `iidSorter.Less`: the earlier embedded time first, then the smaller bytes. -/
def iidLess (a b : InstanceID) : Bool :=
  let t0 := uuidTime a.toUUID
  let t1 := uuidTime b.toUUID
  if t0 ≠ t1 then decide (t0 < t1)
  else Topology.bytesCompare a.toUUID.Bytes b.toUUID.Bytes == -1

/-- What `sort.Sort` with `iidSorter` makes of a component. -/
def sortIids (ids : List InstanceID) : List InstanceID :=
  ids.insertionSort fun a b => iidLess uuidTime b a = false

/-- The graph `getExecutionOrder` builds, the uncommitted instances in it, and
the recorded components of the instances it took. -/
structure ExecState where
  depGraph : List (InstanceID × List InstanceID)
  uncommitted : List InstanceID
  required : List InstanceID

/-- The error of a method called on a nil `*Instance`: the source panics. -/
def nilInstanceError : Error := .other "runtime error: invalid memory address or nil pointer dereference"

def unknownInstanceError (iid : InstanceID) : Error :=
  .other ("getExecutionOrder: Unknown instance id: " ++ iid.toUUID.String)

namespace Manager

/-- The test that keeps an executed instance that is not a dependency of the
target: one of its dependencies is in the graph, not executed, or a dependency
of the target, or the instance itself belongs to a recorded component. The
status of an unknown dependency is read through a nil pointer. -/
def connected (m : Manager) (targetDeps : List InstanceID) (st : ExecState) (inst : Instance) :
    Except Error Bool :=
  inst.Dependencies.foldlM (fun connected dep =>
    match m.getInstance dep with
    | none => .error nilInstanceError
    | some d =>
      let isInGraph := st.depGraph.any (·.1 == dep)
      let notExecuted := decide (d.Status < INSTANCE_EXECUTED)
      let targetDep := decide (dep ∈ targetDeps)
      let required := decide (inst.InstanceID ∈ st.required)
      .ok (connected || isInGraph || notExecuted || targetDep || required)) false

/-- `addInstance` of `getExecutionOrder`. -/
def addInstance (m : Manager) (targetDeps : List InstanceID) :
    Nat → Instance → ExecState → Except Error ExecState
  | 0, _, st => .ok st
  | fuel + 1, inst, st =>
    let deps := inst.Dependencies
    let add (st : ExecState) : Except Error ExecState :=
      let st := { st with required := ListSet.union st.required inst.StronglyConnected,
                          depGraph := st.depGraph ++ [(inst.InstanceID, deps)] }
      deps.foldlM (fun st iid =>
        if st.depGraph.any (·.1 == iid) then .ok st
        else match m.getInstance iid with
          | none => .error (unknownInstanceError iid)
          | some dep => addInstance m targetDeps fuel dep st) st
    if inst.Status = INSTANCE_EXECUTED then
      if inst.InstanceID ∉ targetDeps then
        match m.connected targetDeps st inst with
        | .error e => .error e
        | .ok false => .ok st
        | .ok true => add st
      else add st
    else if inst.Status < INSTANCE_COMMITTED then
      add { st with uncommitted := ListSet.add st.uncommitted inst.InstanceID }
    else add st

/-- `recordSCC`: a member of a component remembers the whole component. -/
def recordSCC (m : Manager) (scc : List InstanceID) (iid : InstanceID) : Manager :=
  match m.getInstance iid with
  | some i => m.putInstance { i with StronglyConnected := ListSet.ofList scc }
  | none => m

/-- `getExecutionOrder`: the instances to apply, in order, and the uncommitted
ones among them. -/
def getExecutionOrder (m : Manager) (target : Instance) :
    Manager × Except Error (List InstanceID × List InstanceID) :=
  let targetDeps := ListSet.ofList target.Dependencies
  match m.addInstance targetDeps (m.instances.length + 1) target ⟨[], [], []⟩ with
  | .error e => (m, .error e)
  | .ok st =>
    let hasUncommitted := !st.uncommitted.isEmpty
    let r := (tarjanConnect st.depGraph).foldl (fun (r : Manager × List InstanceID) scc =>
      -- components are recorded only if there is more than one member and
      -- no uncommitted dependency
      let m := if scc.length > 1 && !hasUncommitted then scc.foldl (recordSCC · scc) r.1 else r.1
      (m, r.2 ++ sortIids uuidTime scc)) (m, [])
    match r.2.find? fun iid => (r.1.getInstance iid).isNone with
    | some iid => (r.1, .error (unknownInstanceError iid))
    | none => (r.1, .ok (r.2, st.uncommitted))

/-! ### Missing instances -/

/-- The test of an executed instance fails on a dependency the replica does not
hold, wherever in the list it stands. -/
theorem connected_error {m : Manager} {targetDeps : List InstanceID} {st : ExecState}
    {inst : Instance} {d : InstanceID} (hd : d ∈ inst.Dependencies) (hm : m.getInstance d = none) :
    m.connected targetDeps st inst = .error nilInstanceError := by
  unfold connected
  generalize false = acc
  generalize inst.Dependencies = l at hd ⊢
  -- each known dependency carries on, and the missing one is still ahead
  induction l generalizing acc with
  | nil => simp at hd
  | cons x xs ih =>
    rw [List.foldlM_cons]
    cases hx : m.getInstance x with
    | none => rfl
    | some i =>
      have hd' : d ∈ xs := by
        rcases List.mem_cons.mp hd with rfl | h
        · simp [hm] at hx
        · exact h
      exact ih _ hd'

/-- So does `addInstance` on an executed instance that the target does not
depend on: the source reads the status of the missing dependency through a nil
pointer, before the check for unknown ids is reached. -/
theorem addInstance_executed_missing {m : Manager} {targetDeps : List InstanceID} {fuel : Nat}
    {inst : Instance} {st : ExecState} {d : InstanceID} (hs : inst.Status = INSTANCE_EXECUTED)
    (ht : inst.InstanceID ∉ targetDeps) (hd : d ∈ inst.Dependencies) (hm : m.getInstance d = none) :
    m.addInstance targetDeps (fuel + 1) inst st = .error nilInstanceError := by
  rw [addInstance, if_pos hs, if_pos ht, connected_error hd hm]

/-- Instance `n`, with status `status` and dependencies `deps`. -/
def chainInstance (n : Nat) (deps : List Nat) (status : InstanceStatus) : Instance :=
  { Instance.bare (InstanceID.ofNat n) (NodeId.ofNat 1) default with
    Status := status, Dependencies := deps.map InstanceID.ofNat }

/-- A replica holding `1`, committed on `2`; `2`, committed on `3`; and `3`,
executed on `4`, which the replica does not hold. -/
def danglingChain : Manager :=
  { NewManager (NodeId.ofNat 1) (fun _ => []) with
    instances := [chainInstance 1 [2] INSTANCE_COMMITTED, chainInstance 2 [3] INSTANCE_COMMITTED,
      chainInstance 3 [4] INSTANCE_EXECUTED] }

theorem executionOrder_dereferences_missing :
    (danglingChain.getExecutionOrder (fun _ => 0) (chainInstance 1 [2] INSTANCE_COMMITTED)).2 =
      .error nilInstanceError := by
  rfl

end Manager

end Order

namespace Manager

/-- `applyInstance`: a committed instance runs its instruction on the store,
unless it is a noop, and becomes executed; an executed one is left alone. The
instruction handed to the store is logged in the ghost `applied`. -/
def applyInstance (m : Manager) (iid : InstanceID) : Manager × Except Error (Option Value) :=
  match m.getInstance iid with
  | none => (m, .error nilInstanceError)
  | some i =>
    if i.Status = INSTANCE_EXECUTED then (m, .ok none)
    else if i.Status ≠ INSTANCE_COMMITTED then (m, .error (.other "instance not committed"))
    else
      let r : Manager × Except String (Option Value) :=
        if !i.Noop then
          let s := m.store.ExecuteInstruction i.Command
          ({ m with store := s.1, applied := m.applied ++ [i.Command] }, s.2)
        else (m, .ok none)
      match r.2 with
      | .error e => (r.1, .error (.other e))
      | .ok val =>
        let i := { i with Status := INSTANCE_EXECUTED }
        let m := r.1.putInstance i
        match { m with executed := m.executed ++ [i.InstanceID] }.ReportExecuted i with
        | (m, .error e) => (m, .error e)
        | (m, .ok ()) => (m, .ok val)

/-- `executeDependencyChain`: apply the committed instances of the order, skip
the executed ones, and stop after applying the target. -/
def executeDependencyChain (m : Manager) (target : InstanceID) :
    List InstanceID → Manager × Except Error Unit
  | [] => (m, .ok ())
  | iid :: rest =>
    match m.getInstance iid with
    | none => (m, .error nilInstanceError)
    | some i =>
      if i.Status = INSTANCE_COMMITTED then
        match m.applyInstance iid with
        | (m, .error e) => (m, .error e)
        | (m, .ok _) => if iid = target then (m, .ok ()) else m.executeDependencyChain target rest
      else if i.Status = INSTANCE_EXECUTED then m.executeDependencyChain target rest
      else
        (m, .error (.other
          "Uncommitted dependencies should be handled before calling executeDependencyChain"))

/-- One pass of `managerExecuteInstance`: the order; if it has uncommitted
instances, those (the source then prepares them and starts over); otherwise the
chain is executed and the result is the empty list. -/
def executeInstancePass (uuidTime : UUID → Int) (m : Manager) (iid : InstanceID) :
    Manager × Except Error (List InstanceID) :=
  match m.getInstance iid with
  | none => (m, .error nilInstanceError)
  | some target =>
    match m.getExecutionOrder uuidTime target with
    | (m, .error e) => (m, .error e)
    | (m, .ok (exOrder, uncommitted)) =>
      if uncommitted.isEmpty then
        match m.executeDependencyChain iid exOrder with
        | (m, .error e) => (m, .error e)
        | (m, .ok ()) => (m, .ok [])
      else (m, .ok uncommitted)

end Manager

end Kickboxer.Consensus
