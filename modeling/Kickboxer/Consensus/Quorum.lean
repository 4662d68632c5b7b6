import Kickboxer.Consensus.Protocol

/-! The quorums of the send loops (`sendPreAccept`, `sendAccept`,
`managerSendPrepare`).

Each loop counts the local node as the first reply and then waits for
`quorumSize replicas - 1` replies from the instance's replicas, which are the
key's replicas other than the local node (`getInstanceReplicas`). With `r` such
replicas a quorum has `r / 2 + 1` of the `r + 1` nodes (`IsQuorum.length`): a
strict majority exactly when `r` is even (`quorumSize_majority_iff`). When it is,
the quorums of any two nodes for one instance meet (`quorums_meet`); when `r` is
odd they need not, and of four replicas two nodes wait for two disjoint pairs
(`four_node_quorums_disjoint`). -/
namespace Kickboxer.Consensus
open Kickboxer.Types Library

/-- The nodes a phase of `m` waits for on `i`: `m` itself and
`quorumSize - 1` distinct replicas of `i` other than `m`. -/
def IsQuorum (m : Manager) (i : Instance) (q : List NodeId) : Prop :=
  ∃ rs, q = m.nodeID :: rs ∧ rs.Nodup ∧ rs ⊆ m.getInstanceReplicas i ∧
    rs.length = Manager.quorumSize (m.getInstanceReplicas i) - 1

/-- A quorum over `r` replicas has `r / 2 + 1` nodes, a strict majority of the
`r + 1` nodes exactly when `r` is even. -/
theorem quorumSize_majority_iff (replicas : List NodeId) :
    replicas.length + 1 < 2 * Manager.quorumSize replicas ↔ replicas.length % 2 = 0 := by
  unfold Manager.quorumSize
  omega

theorem not_mem_getInstanceReplicas (m : Manager) (i : Instance) :
    m.nodeID ∉ m.getInstanceReplicas i := by
  simp [Manager.getInstanceReplicas]

/-- The key's replicas are the local node and the instance's replicas. -/
theorem length_getInstanceReplicas {m : Manager} {i : Instance}
    (hnd : (m.topology i.Command.Key).Nodup) (hm : m.nodeID ∈ m.topology i.Command.Key) :
    (m.getInstanceReplicas i).length + 1 = (m.topology i.Command.Key).length := by
  have herase := hnd.erase_eq_filter m.nodeID
  have hlen := List.length_erase_of_mem hm
  have hpos := List.length_pos_of_mem hm
  have hfilter : (m.topology i.Command.Key).filter (fun x => decide (x ≠ m.nodeID)) =
      (m.topology i.Command.Key).filter (· != m.nodeID) :=
    List.filter_congr fun x _ => by by_cases h : x = m.nodeID <;> simp [h]
  rw [Manager.getInstanceReplicas, hfilter, ← herase]
  omega

namespace IsQuorum
variable {m : Manager} {i : Instance} {q : List NodeId}

theorem length (hq : IsQuorum m i q) : q.length = Manager.quorumSize (m.getInstanceReplicas i) := by
  obtain ⟨rs, rfl, -, -, hlen⟩ := hq
  simp only [List.length_cons, hlen, Manager.quorumSize]
  omega

theorem nodup (hq : IsQuorum m i q) : q.Nodup := by
  obtain ⟨rs, rfl, hnd, hsub, -⟩ := hq
  exact List.nodup_cons.mpr ⟨fun h => not_mem_getInstanceReplicas m i (hsub h), hnd⟩

theorem subset_topology (hq : IsQuorum m i q) (hm : m.nodeID ∈ m.topology i.Command.Key) :
    q ⊆ m.topology i.Command.Key := by
  obtain ⟨rs, rfl, -, hsub, -⟩ := hq
  refine List.cons_subset.mpr ⟨hm, fun x hx => ?_⟩
  exact List.mem_of_mem_filter (hsub hx)

end IsQuorum

/-- With an odd number of replicas for a key, a quorum of one node and a quorum
of another for the same instance share a node, as long as both nodes see the
key's replicas alike and are among them. -/
theorem quorums_meet {m m' : Manager} {i : Instance} {q q' : List NodeId}
    (htop : m'.topology i.Command.Key = m.topology i.Command.Key)
    (hnd : (m.topology i.Command.Key).Nodup) (hodd : (m.topology i.Command.Key).length % 2 = 1)
    (hm : m.nodeID ∈ m.topology i.Command.Key) (hm' : m'.nodeID ∈ m.topology i.Command.Key)
    (hq : IsQuorum m i q) (hq' : IsQuorum m' i q') : ∃ x, x ∈ q ∧ x ∈ q' := by
  have hnd' : (m'.topology i.Command.Key).Nodup := htop ▸ hnd
  have hm'' : m'.nodeID ∈ m'.topology i.Command.Key := htop ▸ hm'
  have hr := length_getInstanceReplicas hnd hm
  have hr' := length_getInstanceReplicas hnd' hm''
  rw [htop] at hr'
  -- both quorums have more than half of the key's replicas
  have hlen : (m.topology i.Command.Key).length < q.length + q'.length := by
    rw [hq.length, hq'.length]
    simp only [Manager.quorumSize]
    omega
  have hsub' : q' ⊆ m.topology i.Command.Key := htop ▸ hq'.subset_topology hm''
  exact ListSet.exists_mem_of_length_lt hq.nodup hq'.nodup (hq.subset_topology hm) hsub' hlen

/-- Three replicas of every key. -/
def threeNodes : String → List NodeId := fun _ => [nodeA, nodeB, nodeC]

/-- Of three replicas, `A`'s quorum `[A, B]` and `B`'s quorum `[B, C]` for one
instance share `B`. -/
theorem quorums_meet_three :
    IsQuorum (Manager.NewManager nodeA threeNodes) (Instance.bare iidX nodeA setA) [nodeA, nodeB] ∧
      IsQuorum (Manager.NewManager nodeB threeNodes) (Instance.bare iidX nodeA setA) [nodeB, nodeC] ∧
      ∃ x, x ∈ [nodeA, nodeB] ∧ x ∈ [nodeB, nodeC] := by
  have hq : IsQuorum (Manager.NewManager nodeA threeNodes) (Instance.bare iidX nodeA setA)
      [nodeA, nodeB] := ⟨[nodeB], rfl, by decide, by decide, by decide⟩
  have hq' : IsQuorum (Manager.NewManager nodeB threeNodes) (Instance.bare iidX nodeA setA)
      [nodeB, nodeC] := ⟨[nodeC], rfl, by decide, by decide, by decide⟩
  have htop : (Manager.NewManager nodeB threeNodes).topology (Instance.bare iidX nodeA setA).Command.Key =
      (Manager.NewManager nodeA threeNodes).topology (Instance.bare iidX nodeA setA).Command.Key := rfl
  exact ⟨hq, hq', quorums_meet htop (by decide) (by decide) (by decide) (by decide) hq hq'⟩

/-- Four replicas of every key. -/
def fourNodes : String → List NodeId := fun _ => [1, 2, 3, 4].map NodeId.ofNat

theorem getInstanceReplicas_fourNodes (n : NodeId) (i : Instance) :
    (Manager.NewManager n fourNodes).getInstanceReplicas i = ([1, 2, 3, 4].map NodeId.ofNat).filter (· ≠ n) :=
  rfl

theorem four_node_quorums_disjoint (i : Instance) :
    IsQuorum (Manager.NewManager (NodeId.ofNat 1) fourNodes) i [NodeId.ofNat 1, NodeId.ofNat 2] ∧
      IsQuorum (Manager.NewManager (NodeId.ofNat 3) fourNodes) i [NodeId.ofNat 3, NodeId.ofNat 4] ∧
      ¬ ∃ x, x ∈ [NodeId.ofNat 1, NodeId.ofNat 2] ∧ x ∈ [NodeId.ofNat 3, NodeId.ofNat 4] := by
  simp only [IsQuorum, getInstanceReplicas_fourNodes]
  exact ⟨⟨[NodeId.ofNat 2], rfl, by decide, by decide, by decide⟩,
    ⟨[NodeId.ofNat 4], rfl, by decide, by decide, by decide⟩, by decide⟩

end Kickboxer.Consensus
