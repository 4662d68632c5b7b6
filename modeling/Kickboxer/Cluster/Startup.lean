import Kickboxer.Cluster.Join
import Kickboxer.Topology.Topology
import Kickboxer.Kvstore.Reconcile

/-! Making and starting a cluster (`NewCluster`, `Cluster.addNode`, `Cluster.Start`).

`NewCluster` checks the replication factor and the partitioner and puts the local
node in a new topology. Nodes then join the topology, through `addNode`, from
`discoverPeers` or anywhere else. `Start` decides whether this is the cluster's
first startup by whether the local datacenter has no node; on a first startup
it joins the cluster (`JoinCluster`), streaming from the node before it, and
otherwise it marks the cluster `NORMAL`.

The local node is in the local ring from `NewCluster` on and no addition removes
it (`HoldsLocal`), so the local datacenter always has a node: `Start` never takes
the first-startup branch, never joins and never streams, whatever the network
does (`start_never_joins`). While the local datacenter has no more nodes than
the replication factor, the local node replicates every token
(`tokenLocallyReplicated_of_covering`). -/
namespace Kickboxer.Cluster

set_option linter.dupNamespace false
open Kickboxer.Types Kickboxer.Topology

/-- `ClusterStatus`. -/
inductive ClusterStatus
  | CLUSTER_INITIALIZING
  | CLUSTER_NORMAL
  | CLUSTER_STREAMING
  deriving DecidableEq, Repr

/-- `Cluster`, the parts its startup reads. -/
structure Cluster where
  seeds : List String
  replicationFactor : UInt32
  token : Token
  nodeId : NodeId
  dcId : DatacenterID
  partitioner : String → Token
  topology : Topology
  status : ClusterStatus

namespace Cluster

/-- `c.localNode` as the ring sees it. -/
def localNode (c : Cluster) : Topology.Node := ⟨c.nodeId, c.token⟩

end Cluster

/-- `NewCluster`; `partitioner` and `seeds` are none where the source's are nil.
The topology's `AddNode` of the local node is a relation as the ring's is. -/
inductive NewCluster (token : Token) (nodeId : NodeId) (dcId : DatacenterID)
    (replicationFactor : UInt32) (partitioner : Option (String → Token))
    (seeds : Option (List String)) : Except String Cluster → Prop
  | invalidReplicationFactor (h : replicationFactor < 1) :
      NewCluster token nodeId dcId replicationFactor partitioner seeds
        (.error ("Invalid replication factor: " ++ toString replicationFactor))
  | nilPartitioner (h : 1 ≤ replicationFactor) (hp : partitioner = none) :
      NewCluster token nodeId dcId replicationFactor partitioner seeds
        (.error "partitioner cannot be nil")
  | made {p : String → Token} {res : Except String Unit} {t : Topology} (h : 1 ≤ replicationFactor)
      (hp : partitioner = some p)
      (ht : Topology.AddNode (NewTopology nodeId dcId replicationFactor.toNat) dcId ⟨nodeId, token⟩
        res t) :
      NewCluster token nodeId dcId replicationFactor partitioner seeds
        (.ok ⟨seeds.getD [], replicationFactor, token, nodeId, dcId, p, t, .CLUSTER_INITIALIZING⟩)

namespace Cluster

/-- `Cluster.addNode` of a node of the datacenter `dcId`: the node joins the
topology, and one that joins once the cluster has left initializing is started,
with the outcome `start`. -/
inductive addNode (c : Cluster) (dcId : DatacenterID) (n : Topology.Node)
    (start : Except String Unit) : Except String Unit → Cluster → Prop
  | refused {e : String} {t : Topology} (h : Topology.AddNode c.topology dcId n (.error e) t) :
      addNode c dcId n start (.error e) { c with topology := t }
  | added {t : Topology} (h : Topology.AddNode c.topology dcId n (.ok ()) t) :
      addNode c dcId n start (if c.status ≠ .CLUSTER_INITIALIZING then start else .ok ())
        { c with topology := t }

/-- Any number of `addNode`s, whatever their outcomes. -/
def AddsNodes : Cluster → Cluster → Prop :=
  Relation.ReflTransGen fun c c' => ∃ dcId n start res, addNode c dcId n start res c'

/-- `c.topology.AllLocalNodes()`, a nil pointer dereference without a local ring. -/
def localNodes (t : Topology) : Except String (List Topology.Node) :=
  match t.AllLocalNodes with
  | some nodes => .ok nodes
  | none => .error Kvstore.nilValueError

/-- `streamFromNode`, given the outcome `sent` of sending the `StreamRequest`
and checking the reply is a `StreamResponse`: the cluster, and what it returns. -/
def streamFromNode (c : Cluster) (cn : Topology.Node) (sent : Except String Unit) :
    Except String (Cluster × Except String Unit) :=
  -- `cn.(*RemoteNode)`: the ring holds the local node as a `*LocalNode`
  if cn.id = c.nodeId then
    .error "interface conversion: topology.Node is *cluster.LocalNode, not *cluster.RemoteNode"
  else
    match sent with
    | .error e => .ok (c, .error e)
    | .ok () => .ok ({ c with status := .CLUSTER_STREAMING }, .ok ())

/-- `Cluster.Start`, given the outcomes of what it does on the network: the peer
server's `Start` (`listen`), the `Start` of the local nodes not yet started
(`startNodes`), `discoverPeers`, which leaves the topology `discovered` or fails,
and the stream request of a join (`sent`). -/
def Start (c : Cluster) (listen startNodes : Except String Unit) (discovered : Except String Topology)
    (sent : Except String Unit) : Except String Cluster := do
  let firstStartup := (← localNodes c.topology).length == 0
  listen
  startNodes
  let c := { c with topology := ← discovered }
  if firstStartup then
    -- `JoinCluster`, which drops what `streamFromNode` returns
    let s ← JoinCluster c.nodeId (← localNodes c.topology)
    let r ← c.streamFromNode s sent
    pure r.1
  else
    pure { c with status := .CLUSTER_NORMAL }

/-! ### The local node stays -/

/-- What a cluster keeps from `NewCluster` on: the topology's local node is the
cluster's and held in the local ring, and the topology replicates by the
cluster's factor. -/
structure Consistent (c : Cluster) : Prop where
  holds : c.topology.HoldsLocal c.localNode
  localNodeID : c.topology.localNodeID = c.nodeId
  replicationFactor : c.topology.replicationFactor = c.replicationFactor.toNat

/-- `addNode` changes the topology only, by the topology's `AddNode`. -/
theorem addNode_topology {c c' : Cluster} {dcId : DatacenterID} {n : Topology.Node}
    {start res : Except String Unit} (h : c.addNode dcId n start res c') :
    ∃ res', Topology.AddNode c.topology dcId n res' c'.topology ∧ c'.nodeId = c.nodeId ∧
      c'.token = c.token ∧ c'.replicationFactor = c.replicationFactor := by
  cases h with
  | refused h => exact ⟨_, h, rfl, rfl, rfl⟩
  | added h => exact ⟨_, h, rfl, rfl, rfl⟩

theorem Consistent.addNode {c c' : Cluster} {dcId : DatacenterID} {n : Topology.Node}
    {start res : Except String Unit} (h : c.Consistent) (hadd : c.addNode dcId n start res c') :
    c'.Consistent := by
  obtain ⟨res', ht, hid, htok, hrf⟩ := addNode_topology hadd
  obtain ⟨hlid, htrf⟩ := ht.keeps
  -- the local node is read off fields that `addNode` keeps
  have hnode : c'.localNode = c.localNode := by
    simp only [localNode, hid, htok]
  exact ⟨hnode ▸ h.holds.addNode ht, by rw [hlid, hid, h.localNodeID],
    by rw [htrf, hrf, h.replicationFactor]⟩

theorem Consistent.addsNodes {c c' : Cluster} (h : c.Consistent) (hadds : AddsNodes c c') :
    c'.Consistent := by
  induction hadds with
  | refl => exact h
  | tail _ hstep ih =>
    obtain ⟨dcId, n, start, res, hadd⟩ := hstep
    exact ih.addNode hadd

theorem consistent_newCluster {token : Token} {nodeId : NodeId} {dcId : DatacenterID}
    {rf : UInt32} {partitioner : Option (String → Token)} {seeds : Option (List String)}
    {c : Cluster} (h : NewCluster token nodeId dcId rf partitioner seeds (.ok c)) :
    c.Consistent := by
  cases h with
  | made _ _ ht =>
    obtain ⟨hlid, hrf⟩ := ht.keeps
    exact ⟨Topology.holdsLocal_newTopology ht, hlid, hrf⟩

/-- A topology holding the local node is never a first startup. -/
theorem localNodes_ne_nil {c : Cluster} (h : c.topology.HoldsLocal c.localNode) :
    ∃ nodes, localNodes c.topology = .ok nodes ∧ nodes.length ≠ 0 := by
  obtain ⟨nodes, hn, hmem⟩ := h.allLocalNodes
  exact ⟨nodes, by simp [localNodes, hn], List.length_pos_of_mem hmem |>.ne'⟩

/-- A started cluster: `Start` on a topology that holds the local node only lists
the discovered topology and marks the cluster `NORMAL`. -/
theorem start_of_holdsLocal {c c' : Cluster} {listen startNodes sent : Except String Unit}
    {discovered : Except String Topology} (h : c.topology.HoldsLocal c.localNode)
    (hs : c.Start listen startNodes discovered sent = .ok c') :
    ∃ t, discovered = .ok t ∧ c' = { c with topology := t, status := .CLUSTER_NORMAL } := by
  obtain ⟨nodes, hn, hlen⟩ := localNodes_ne_nil h
  have hfirst : (nodes.length == 0) = false := by simpa using hlen
  -- the outcomes before the branch have all to be `ok` for `Start` to be
  simp only [Start, hn, bind, Except.bind, pure, Except.pure] at hs
  cases listen with
  | error e => cases hs
  | ok u =>
    cases startNodes with
    | error e => cases hs
    | ok v =>
      cases discovered with
      | error e => cases hs
      | ok t =>
        simp only [hfirst] at hs
        exact ⟨t, rfl, (Except.ok.inj hs).symm⟩

end Cluster

open Cluster

section Made
variable {token : Token} {nodeId : NodeId} {dcId : DatacenterID} {rf : UInt32}
  {partitioner : Option (String → Token)} {seeds : Option (List String)} {c c' : Cluster}

/-- However nodes join after `NewCluster`, `Start` never takes its first-startup
branch: the local datacenter holds the local node, so the cluster never joins
and never streams; a start that succeeds takes the discovered topology and marks
the cluster `NORMAL`. -/
theorem start_never_joins (hc : NewCluster token nodeId dcId rf partitioner seeds (.ok c))
    (hadds : AddsNodes c c') {c'' : Cluster} {listen startNodes sent : Except String Unit}
    {discovered : Except String Topology}
    (hs : c'.Start listen startNodes discovered sent = .ok c'') :
    ∃ t, discovered = .ok t ∧ c'' = { c' with topology := t, status := .CLUSTER_NORMAL } :=
  start_of_holdsLocal ((consistent_newCluster hc).addsNodes hadds).holds hs

/-- However nodes join after `NewCluster`, while the local datacenter has no more
nodes than the replication factor, the local node replicates every token: the
eligibility check of `Manager.ExecuteQuery` passes for every key. -/
theorem tokenLocallyReplicated_of_covering (hc : NewCluster token nodeId dcId rf partitioner seeds (.ok c))
    (hadds : AddsNodes c c')
    (hsmall : ∀ nodes, c'.topology.AllLocalNodes = some nodes → nodes.length ≤ c'.replicationFactor.toNat)
    (tk : Token) : c'.topology.TokenLocallyReplicated tk = true := by
  have hcons := (consistent_newCluster hc).addsNodes hadds
  have hrf : c'.topology.replicationFactor < UInt32.size := by
    rw [hcons.replicationFactor]
    exact UInt32.toNat_lt_size _
  exact hcons.holds.tokenLocallyReplicated hcons.localNodeID.symm hrf
    (hcons.replicationFactor ▸ hsmall) tk

end Made

/-- A single node with token `[1]` in `dc1`. -/
def soloNode : Topology.Node := ⟨NodeId.ofNat 1, [1]⟩

/-- What `NewCluster` makes of it, with a replication factor of three. -/
def soloCluster : Cluster :=
  ⟨[], 3, [1], NodeId.ofNat 1, "dc1", fun _ => [], (NewTopology (NodeId.ofNat 1) "dc1" 3).setRing
    "dc1" ⟨[soloNode], [soloNode], []⟩, .CLUSTER_INITIALIZING⟩

theorem soloCluster_made :
    NewCluster [1] (NodeId.ofNat 1) "dc1" 3 (some fun _ => []) none (.ok soloCluster) :=
  .made (by decide) rfl (.mk (.added _ _ [soloNode] (by decide) (by decide)))

/-- Alone in its datacenter, the node would stream from itself on a join; its
start marks it `NORMAL` instead. -/
theorem start_never_joins_solo :
    NewCluster [1] (NodeId.ofNat 1) "dc1" 3 (some fun _ => []) none (.ok soloCluster) ∧
      AddsNodes soloCluster soloCluster ∧
      soloCluster.Start (.ok ()) (.ok ()) (.ok soloCluster.topology) (.ok ()) =
        .ok { soloCluster with status := .CLUSTER_NORMAL } ∧
      ∃ t, (.ok soloCluster.topology : Except String Topology) = .ok t ∧
        { soloCluster with status := .CLUSTER_NORMAL } =
          { soloCluster with topology := t, status := .CLUSTER_NORMAL } := by
  have hadds : AddsNodes soloCluster soloCluster := Relation.ReflTransGen.refl
  have hs : soloCluster.Start (.ok ()) (.ok ()) (.ok soloCluster.topology) (.ok ()) =
      .ok { soloCluster with status := .CLUSTER_NORMAL } := rfl
  exact ⟨soloCluster_made, hadds, hs, start_never_joins soloCluster_made hadds hs⟩

/-- One node and a factor of three: the node replicates the token `[5]`. -/
theorem tokenLocallyReplicated_of_covering_solo :
    NewCluster [1] (NodeId.ofNat 1) "dc1" 3 (some fun _ => []) none (.ok soloCluster) ∧
      AddsNodes soloCluster soloCluster ∧
      (∀ nodes, soloCluster.topology.AllLocalNodes = some nodes →
        nodes.length ≤ soloCluster.replicationFactor.toNat) ∧
      soloCluster.topology.TokenLocallyReplicated [5] = true := by
  have hadds : AddsNodes soloCluster soloCluster := Relation.ReflTransGen.refl
  have hsmall : ∀ nodes, soloCluster.topology.AllLocalNodes = some nodes →
      nodes.length ≤ soloCluster.replicationFactor.toNat := by
    intro nodes h
    have hn : soloCluster.topology.AllLocalNodes = some [soloNode] := by decide
    rw [hn, Option.some_inj] at h
    subst h
    decide
  exact ⟨soloCluster_made, hadds, hsmall,
    tokenLocallyReplicated_of_covering soloCluster_made hadds hsmall [5]⟩

end Kickboxer.Cluster
