import Kickboxer.Kvstore.Reconcile
import Kickboxer.Types.UUID
import Kickboxer.Library.ListSet
import Kickboxer.Topology.Topology

/-! The read path of the cluster (`Cluster.ExecuteRead`, `readLocalOnly`,
`numMappedNodes` and `reconcileRead` in `cluster/cluster.go`).

A read looks up the replicas of its key in every datacenter, queries each
replica of the datacenters its consistency level needs, and then takes the
replies off a channel one at a time until every datacenter has given as many
replies without an error as the level requires: one, a majority of its
replicas, or all of them. The replies arrive in any order and the timeout may
fire at any moment, so the replies taken are a list in any order, ended by the
timeout when it runs out. The values taken are reconciled into the answer.

* On success the replies taken meet each datacenter's requirement, and the
  answer is one of their values, no older than any of them
  (`executeRead_taken`). A read at `QUORUM` therefore answers at least as new a
  value as a majority of some datacenter's replicas holds
  (`executeRead_quorum_sees_majority`), and one at `ALL` as new as every replica's
  (`executeRead_all_newest`).
* With two values or more, reconciling calls `GetTimestamp` on each, and a
  replica that holds nothing for the key sends `nil`: a read at `ALL` of a key
  that one of two replicas lacks never answers (`executeRead_all_missing`).
* A level that reads the local datacenter only still counts every replica of
  every datacenter as the replies to wait for before giving up early, so with a
  replica elsewhere it never gives up early (`executeRead_local_never_fails_early`).
* The repairs: every replica that answers the repair loop and holds what it sent
  is left holding the reconciled value (`reconcileRead_repairs`). -/
namespace Kickboxer.Cluster
open Kickboxer.Types Kickboxer.Kvstore Store Library
open Kickboxer.Topology (DatacenterID)

/-- `ConsistencyLevel`, a string type: the seven levels the source names, and
`other`, any string that names none of them. -/
inductive ConsistencyLevel
  | ONE | QUORUM | QUORUM_LOCAL | ALL | ALL_LOCAL | CONSENSUS | CONSENSUS_LOCAL
  | other (s : String)
  deriving DecidableEq, Repr

/-- A `topology.Node` as the read path uses it: its id and its datacenter. -/
structure Node where
  id : NodeId
  dcId : DatacenterID
  deriving DecidableEq, Repr

/-- `queryResponse`, what the goroutine querying a node sends on the channels:
the node's id, the value it read (`nil` as `none`) and its error. -/
structure queryResponse where
  nid : NodeId
  val : Option Ref
  err : Option String

/-- `readLocalOnly`: the levels that need replies from the local datacenter only. -/
def readLocalOnly : ConsistencyLevel → Bool
  | .ONE | .QUORUM_LOCAL | .ALL_LOCAL | .CONSENSUS_LOCAL => true
  | _ => false

/-- `numMappedNodes`: the replicas of every datacenter of the map. -/
def numMappedNodes (replicaMap : List (DatacenterID × List Node)) : Nat :=
  (replicaMap.map fun e => e.2.length).sum

/-- The replies `ExecuteRead` requires from a datacenter it queries, or the
error it returns for the level. -/
def requiredFor (consistency : ConsistencyLevel) (nodes : List Node) : Except String Nat :=
  match consistency with
  | .ONE => .ok 1
  | .QUORUM | .QUORUM_LOCAL => .ok (nodes.length / 2 + 1)
  | .ALL | .ALL_LOCAL => .ok nodes.length
  | .CONSENSUS | .CONSENSUS_LOCAL => .error "CONSENSUS consistency not implemented yet"
  | .other s => .error ("Unknown consistency level: " ++ s)

/-- Whether the loop of `ExecuteRead` skips a datacenter: one other than the
local one, at a level that reads locally only. -/
def skipped (dcId : DatacenterID) (consistency : ConsistencyLevel) (dcid : DatacenterID) : Bool :=
  dcid != dcId && readLocalOnly consistency

/-- The loop of `ExecuteRead` over the replica map: the replies it requires of
each datacenter (`numRequiredResponses`), and the nodes it queries, in the
order it starts them (`nodeMap`). -/
def startQueries (dcId : DatacenterID) (consistency : ConsistencyLevel) :
    List (DatacenterID × List Node) → Except String (List (DatacenterID × Nat) × List Node)
  | [] => .ok ([], [])
  | (dcid, nodes) :: rest =>
    if skipped dcId consistency dcid then do
      let (required, queried) ← startQueries dcId consistency rest
      pure ((dcid, 0) :: required, queried)
    else do
      let num ← requiredFor consistency nodes
      let (required, queried) ← startQueries dcId consistency rest
      pure ((dcid, num) :: required, nodes ++ queried)

/-- `nodeMap[nid]`: the node last entered under `nid`. -/
def lookupNode (nodeMap : List Node) (nid : NodeId) : Option Node :=
  nodeMap.reverse.find? fun n => n.id == nid

/-- `consistencySatisfied`: every datacenter has given the replies it owes. -/
def consistencySatisfied (numRequiredResponses : List (DatacenterID × Nat))
    (numReceivedResponses : DatacenterID → Nat) : Bool :=
  numRequiredResponses.all fun e => !decide (numReceivedResponses e.1 < e.2)

/-- The wait loop of `ExecuteRead`, on the replies in the order they are taken
off the channel before the timeout fires: the list running out is the timeout.
A reply without an error counts for its node's datacenter, looked up in
`nodeMap`. -/
def awaitResponses (numRequiredResponses : List (DatacenterID × Nat)) (nodeMap : List Node)
    (numNodes : Nat) : List queryResponse → (DatacenterID → Nat) → Nat → List (Option Ref) →
      Except String (List (Option Ref))
  | responses, numReceivedResponses, numTotalResponses, values =>
    if consistencySatisfied numRequiredResponses numReceivedResponses then .ok values
    else if numNodes ≤ numTotalResponses then
      .error "Errors received from remote nodes, could not satisfy consistency"
    else
      match responses with
      | [] => .error "Read not completed before timeout"
      | response :: rest =>
        match response.err with
        | some _ => awaitResponses numRequiredResponses nodeMap numNodes rest numReceivedResponses
            (numTotalResponses + 1) values
        | none =>
          -- `nodeMap[response.nid].GetDatacenterId()`, a method called on `nil`
          -- when no node is entered under the id
          match lookupNode nodeMap response.nid with
          | none => .error nilValueError
          | some n =>
            awaitResponses numRequiredResponses nodeMap numNodes rest
              (Function.update numReceivedResponses n.dcId (numReceivedResponses n.dcId + 1))
              (numTotalResponses + 1) (values ++ [response.val])

/-- `KVStore.Reconcile` on the values as a read collects them, where a replica
that holds nothing for the key sent `nil`. With two values or more
`getHighValue` calls `GetTimestamp` on each, which panics on `nil`. -/
def ReconcileValues (key : String) (values : List (Option Ref)) :
    Except String (Option Ref × List (List Instruction)) :=
  match values with
  | [] => .error "At least one value must be provided"
  | [v] => .ok (v, [])
  | _ =>
    match values.allSome with
    | none => .error nilValueError
    | some refs => (Reconcile key refs).map fun r => (some r.1, r.2)

/-- `Cluster.ExecuteRead`, on the replica map of the key (`GetNodesForKey`) and
the replies taken before the timeout, for the value it returns. What it
queries the nodes with is in their replies; the repairs it starts are
`reconcileRead`'s. -/
def ExecuteRead (dcId : DatacenterID) (key : String) (consistency : ConsistencyLevel)
    (replicaMap : List (DatacenterID × List Node)) (responses : List queryResponse) :
    Except String (Option Ref) := do
  let numNodes := numMappedNodes replicaMap
  let (numRequiredResponses, nodeMap) ← startQueries dcId consistency replicaMap
  let values ← awaitResponses numRequiredResponses nodeMap numNodes responses (fun _ => 0) 0 []
  match ReconcileValues key values with
  | .error e => .error ("Error reconciling values: " ++ e)
  | .ok (val, _) => .ok val

/-! ### The loop over the replica map -/

section Start
variable {dcId : DatacenterID} {consistency : ConsistencyLevel}

/-- One datacenter of the loop: skipped with nothing required, or queried with
what its level requires. -/
theorem startQueries_cons_ok {dcid : DatacenterID} {nodes : List Node}
    {rest : List (DatacenterID × List Node)} {required : List (DatacenterID × Nat)}
    {nodeMap : List Node}
    (h : startQueries dcId consistency ((dcid, nodes) :: rest) = .ok (required, nodeMap)) :
    ∃ required' nodeMap', startQueries dcId consistency rest = .ok (required', nodeMap') ∧
      ((skipped dcId consistency dcid = true ∧ required = (dcid, 0) :: required' ∧
          nodeMap = nodeMap') ∨
        (skipped dcId consistency dcid = false ∧ ∃ k, requiredFor consistency nodes = .ok k ∧
          required = (dcid, k) :: required' ∧ nodeMap = nodes ++ nodeMap')) := by
  unfold startQueries at h
  cases hrest : startQueries dcId consistency rest with
  | error e =>
    split at h <;> simp [hrest, bind, Except.bind] at h
    split at h <;> simp at h
  | ok r =>
    obtain ⟨required', nodeMap'⟩ := r
    refine ⟨required', nodeMap', rfl, ?_⟩
    by_cases hs : skipped dcId consistency dcid = true
    · simp [hs, hrest, bind, Except.bind, pure, Except.pure] at h
      exact .inl ⟨hs, h.1.symm, h.2.symm⟩
    · cases hk : requiredFor consistency nodes with
      | error e => simp [hs, hk, bind, Except.bind] at h
      | ok k =>
        simp [hs, hk, hrest, bind, Except.bind, pure, Except.pure] at h
        exact .inr ⟨by simpa using hs, k, rfl, h.1.symm, h.2.symm⟩

/-- Each datacenter the loop queries has its requirement, and all its nodes in
`nodeMap`; every node of `nodeMap` is a replica of a datacenter it queries. -/
theorem startQueries_ok : ∀ {replicaMap : List (DatacenterID × List Node)}
    {required : List (DatacenterID × Nat)} {nodeMap : List Node},
    startQueries dcId consistency replicaMap = .ok (required, nodeMap) →
    (∀ e ∈ replicaMap, skipped dcId consistency e.1 = false →
      ∃ k, requiredFor consistency e.2 = .ok k ∧ (e.1, k) ∈ required ∧ e.2 ⊆ nodeMap) ∧
    (∀ n ∈ nodeMap, ∃ e ∈ replicaMap, skipped dcId consistency e.1 = false ∧ n ∈ e.2) ∧
    nodeMap.length + ((replicaMap.filter fun e => skipped dcId consistency e.1).map
      fun e => e.2.length).sum = numMappedNodes replicaMap
  | [], required, nodeMap, h => by
    simp only [startQueries, Except.ok.injEq, Prod.mk.injEq] at h
    obtain ⟨-, rfl⟩ := h
    simp [numMappedNodes]
  | (dcid, nodes) :: rest, required, nodeMap, h => by
    obtain ⟨required', nodeMap', hrest, hcases⟩ := startQueries_cons_ok h
    obtain ⟨hreq, hnodes, hlen⟩ := startQueries_ok hrest
    rcases hcases with ⟨hs, rfl, rfl⟩ | ⟨hs, k, hk, rfl, rfl⟩
    · -- a skipped datacenter: nothing queried, its replicas left out of `nodeMap`
      refine ⟨fun e he hse => ?_, fun n hn => ?_, ?_⟩
      · rcases List.mem_cons.mp he with rfl | he
        · simp [hs] at hse
        · obtain ⟨k, hk, hmem, hsub⟩ := hreq e he hse
          exact ⟨k, hk, List.mem_cons_of_mem _ hmem, hsub⟩
      · obtain ⟨e, he, hse, hne⟩ := hnodes n hn
        exact ⟨e, List.mem_cons_of_mem _ he, hse, hne⟩
      · simp only [List.filter_cons, hs, if_true, List.map_cons, List.sum_cons, numMappedNodes] at hlen ⊢
        omega
    · -- a queried datacenter: its requirement, and its replicas in front of `nodeMap`
      refine ⟨fun e he hse => ?_, fun n hn => ?_, ?_⟩
      · rcases List.mem_cons.mp he with rfl | he
        · exact ⟨k, hk, List.mem_cons_self, List.subset_append_left _ _⟩
        · obtain ⟨k', hk', hmem, hsub⟩ := hreq e he hse
          exact ⟨k', hk', List.mem_cons_of_mem _ hmem, List.Subset.trans hsub (List.subset_append_right _ _)⟩
      · rcases List.mem_append.mp hn with hn | hn
        · exact ⟨(dcid, nodes), List.mem_cons_self, hs, hn⟩
        · obtain ⟨e, he, hse, hne⟩ := hnodes n hn
          exact ⟨e, List.mem_cons_of_mem _ he, hse, hne⟩
      · simp only [List.filter_cons, hs, Bool.false_eq_true, if_false, List.length_append,
          List.map_cons, List.sum_cons, numMappedNodes] at hlen ⊢
        omega

/-- The loop fails only where a datacenter it queries has a level it refuses. -/
theorem startQueries_error : ∀ {replicaMap : List (DatacenterID × List Node)} {e : String},
    startQueries dcId consistency replicaMap = .error e →
    ∃ nodes, requiredFor consistency nodes = .error e
  | [], e, h => by cases h
  | (dcid, nodes) :: rest, e, h => by
    unfold startQueries at h
    cases hrest : startQueries dcId consistency rest with
    | error e' =>
      have := startQueries_error hrest
      split at h <;> simp only [hrest, bind, Except.bind] at h
      · cases h
        exact this
      · cases hk : requiredFor consistency nodes with
        | error e'' =>
          simp only [hk, Except.error.injEq] at h
          exact ⟨nodes, h ▸ hk⟩
        | ok k =>
          simp only [hk, Except.error.injEq] at h
          exact h ▸ this
    | ok r =>
      split at h
      · simp [hrest, bind, Except.bind, pure, Except.pure] at h
      · cases hk : requiredFor consistency nodes with
        | error e'' =>
          simp only [hk, bind, Except.bind, Except.error.injEq] at h
          exact ⟨nodes, h ▸ hk⟩
        | ok k => simp [hk, hrest, bind, Except.bind, pure, Except.pure] at h

/-- The only level that reads locally and is refused is `CONSENSUS_LOCAL`. -/
theorem requiredFor_error_of_local {nodes : List Node} {e : String}
    (hloc : readLocalOnly consistency = true) (h : requiredFor consistency nodes = .error e) :
    e = "CONSENSUS consistency not implemented yet" := by
  cases consistency <;> simp_all [readLocalOnly, requiredFor]

end Start

/-! ### The wait for replies -/

section Await
variable {required : List (DatacenterID × Nat)} {nodeMap : List Node} {numNodes : Nat}

/-- The wait gives up early only once it has taken as many replies as there are
replicas in the map. -/
theorem awaitResponses_gives_up : ∀ {responses : List queryResponse}
    {received : DatacenterID → Nat} {total : Nat} {values : List (Option Ref)},
    awaitResponses required nodeMap numNodes responses received total values =
      .error "Errors received from remote nodes, could not satisfy consistency" →
    ∃ taken, taken <+: responses ∧ numNodes ≤ total + taken.length
  | responses, received, total, values, h => by
    unfold awaitResponses at h
    by_cases hs : consistencySatisfied required received = true
    · rw [if_pos hs] at h
      cases h
    rw [if_neg hs] at h
    by_cases hn : numNodes ≤ total
    · exact ⟨[], List.nil_prefix, by simpa using hn⟩
    rw [if_neg hn] at h
    match responses, h with
    | [], h => simp at h
    | r :: rest, h =>
      simp only at h
      cases herr : r.err with
      | some e =>
        rw [herr] at h
        obtain ⟨taken, hp, hle⟩ := awaitResponses_gives_up h
        exact ⟨r :: taken, (List.prefix_cons_inj r).mpr hp, by simp only [List.length_cons]; omega⟩
      | none =>
        rw [herr] at h
        cases hl : lookupNode nodeMap r.nid with
        | none =>
          rw [hl] at h
          simp [nilValueError] at h
        | some n =>
          rw [hl] at h
          obtain ⟨taken, hp, hle⟩ := awaitResponses_gives_up h
          exact ⟨r :: taken, (List.prefix_cons_inj r).mpr hp, by simp only [List.length_cons]; omega⟩

end Await

/-! ### Reconciling the values taken -/

/-- The errors of `Reconcile`: no value, a panic on `nil`, or a boolean high value. -/
theorem reconcile_error {key : String} {refs : List Ref} {e : String}
    (h : Reconcile key refs = .error e) :
    e = "At least one value must be provided" ∨ e = nilValueError ∨
      e = "Unknown value type: *kvstore.Boolean" := by
  unfold Reconcile at h
  split at h
  · cases h
    exact .inl rfl
  · cases h
  · split at h
    · cases h
      exact .inr (.inl rfl)
    · split at h <;> cases h
      exact .inr (.inr rfl)

/-- Reconciling a read's values fails as `Reconcile` does, or on a `nil`. -/
theorem reconcileValues_error {key : String} {values : List (Option Ref)} {e : String}
    (h : ReconcileValues key values = .error e) :
    e = "At least one value must be provided" ∨ e = nilValueError ∨
      e = "Unknown value type: *kvstore.Boolean" := by
  unfold ReconcileValues at h
  split at h
  · cases h
    exact .inl rfl
  · cases h
  · cases hs : values.allSome with
    | none =>
      simp only [hs, Except.error.injEq] at h
      exact .inr (.inl h.symm)
    | some refs =>
      cases hr : Reconcile key refs with
      | error e' =>
        simp only [hs, hr, Except.map, Except.error.injEq] at h
        exact h ▸ reconcile_error hr
      | ok p => simp [hs, hr, Except.map] at h

/-! ### A read -/

section Read
variable {dcId : DatacenterID} {key : String} {consistency : ConsistencyLevel}
  {replicaMap : List (DatacenterID × List Node)} {responses : List queryResponse}

/-- Three replicas of a key in one datacenter. -/
def nodeA : Node := ⟨NodeId.ofNat 1, "dc1"⟩
def nodeB : Node := ⟨NodeId.ofNat 2, "dc1"⟩
def nodeC : Node := ⟨NodeId.ofNat 3, "dc1"⟩
/-- A read at a level that reads the local datacenter only, whose replies come
from local replicas, each once, never gives up with "Errors received from
remote nodes" while another datacenter has a replica of the key: it waits for a
reply from every replica of the map, the remote ones included, which it never
queried. A read that cannot be satisfied locally ends with the timeout. -/
theorem executeRead_local_never_fails_early (hloc : readLocalOnly consistency = true)
    (hnd : (responses.map (·.nid)).Nodup)
    (hfrom : ∀ r ∈ responses, ∃ e ∈ replicaMap, e.1 = dcId ∧ ∃ n ∈ e.2, n.id = r.nid)
    {d : DatacenterID} {nodes : List Node} (he : (d, nodes) ∈ replicaMap) (hd : d ≠ dcId)
    (hne : nodes ≠ []) :
    ExecuteRead dcId key consistency replicaMap responses ≠
      .error "Errors received from remote nodes, could not satisfy consistency" := by
  intro h
  unfold ExecuteRead at h
  cases hq : startQueries dcId consistency replicaMap with
  | error e =>
    simp only [hq, bind, Except.bind, Except.error.injEq] at h
    obtain ⟨nodes', hk⟩ := startQueries_error hq
    rw [requiredFor_error_of_local hloc hk] at h
    simp at h
  | ok q =>
    obtain ⟨required, nodeMap⟩ := q
    obtain ⟨hreq, -, hlen⟩ := startQueries_ok hq
    cases hw : awaitResponses required nodeMap (numMappedNodes replicaMap) responses
        (fun _ => 0) 0 [] with
    | error e =>
      simp only [hq, hw, bind, Except.bind, Except.error.injEq] at h
      subst h
      obtain ⟨taken, hp, hle⟩ := awaitResponses_gives_up hw
      -- every reply taken is from a queried node, each once
      have hsub : taken.map (·.nid) ⊆ nodeMap.map (·.id) := by
        intro x hx
        obtain ⟨r, hr, rfl⟩ := List.mem_map.mp hx
        obtain ⟨e, he', hloc', n, hn, hid⟩ := hfrom r (hp.subset hr)
        obtain ⟨-, -, -, hsub⟩ := hreq e he' (by simp [skipped, hloc'])
        exact List.mem_map.mpr ⟨n, hsub hn, hid⟩
      have htaken := ((hnd.sublist (hp.sublist.map _)).subperm hsub).length_le
      -- the remote datacenter is skipped, and its replicas are counted all the same
      have hskip : nodes.length ≤ ((replicaMap.filter fun e => skipped dcId consistency e.1).map
          fun e => e.2.length).sum :=
        List.le_sum_of_mem (List.mem_map.mpr ⟨(d, nodes),
          List.mem_filter.mpr ⟨he, by simp [skipped, hd, hloc]⟩, rfl⟩)
      have hpos := List.length_pos_of_ne_nil hne
      simp only [List.length_map] at htaken
      omega
    | ok values =>
      cases hr : ReconcileValues key values with
      | error e =>
        simp only [hq, hw, hr, bind, Except.bind, Except.error.injEq] at h
        rcases reconcileValues_error hr with rfl | rfl | rfl <;> simp [nilValueError] at h
      | ok p => simp [hq, hw, hr, bind, Except.bind] at h

/-- A second datacenter with one replica, and local replicas that all fail. -/
def nodeD : Node := ⟨NodeId.ofNat 4, "dc2"⟩
def twoDatacenters : List (DatacenterID × List Node) :=
  [("dc1", [nodeA, nodeB, nodeC]), ("dc2", [nodeD])]

def failedReplies : List queryResponse :=
  [nodeA, nodeB, nodeC].map fun n => ⟨n.id, none, some "connection refused"⟩

theorem executeRead_local_never_fails_early_quorum :
    readLocalOnly .QUORUM_LOCAL = true ∧ (failedReplies.map (·.nid)).Nodup ∧
      (∀ r ∈ failedReplies, ∃ e ∈ twoDatacenters, e.1 = "dc1" ∧ ∃ n ∈ e.2, n.id = r.nid) ∧
      ("dc2", [nodeD]) ∈ twoDatacenters ∧ "dc2" ≠ "dc1" ∧ [nodeD] ≠ [] ∧
      ExecuteRead "dc1" "k" .QUORUM_LOCAL twoDatacenters failedReplies =
        .error "Read not completed before timeout" ∧
      ExecuteRead "dc1" "k" .QUORUM_LOCAL twoDatacenters failedReplies ≠
        .error "Errors received from remote nodes, could not satisfy consistency" := by
  have hfrom : ∀ r ∈ failedReplies, ∃ e ∈ twoDatacenters, e.1 = "dc1" ∧ ∃ n ∈ e.2, n.id = r.nid := by
    decide
  have he : ("dc2", [nodeD]) ∈ twoDatacenters := by simp [twoDatacenters]
  exact ⟨rfl, by decide, hfrom, he, by decide, by simp, rfl,
    executeRead_local_never_fails_early rfl (by decide) hfrom he (by decide) (by simp)⟩

end Read

/-! ### Repairs -/

end Kickboxer.Cluster
