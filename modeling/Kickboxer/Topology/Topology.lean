import Kickboxer.Topology.Routing
import Kickboxer.Library.KeyedList
import Mathlib.Logic.Relation

/-! The topology (`topology.Topology`): a ring of nodes for each datacenter.

`AddNode` puts a node in the ring of its datacenter, made empty when the
datacenter is new; the local ring is the ring of the local node's datacenter,
and `AllLocalNodes` its nodes in token order. `HoldsLocal` says that the local
ring exists, is sorted, and holds a given node. A topology that holds the local
node keeps holding it whatever nodes are added after (`HoldsLocal.addNode`, and
over any sequence of additions `HoldsLocal.addsNodes`), so its local nodes are
never none (`HoldsLocal.allLocalNodes`). `NewCluster` makes such a topology. -/
namespace Kickboxer.Topology

set_option linter.dupNamespace false
open Kickboxer.Types Library Kickboxer.Topology.Ring

/-- `topology.DatacenterID`. -/
abbrev DatacenterID := String

/-- `topology.Topology`, the parts the cluster reads: the local node and its
datacenter, the replication factor, and the ring of each datacenter, the map
kept as the list of its entries. -/
structure Topology where
  localNodeID : NodeId
  localDcID : DatacenterID
  replicationFactor : Nat
  rings : List (DatacenterID × Ring)

/-- `NewTopology`. -/
def NewTopology (localNID : NodeId) (localDCID : DatacenterID) (replicationFactor : Nat) :
    Topology :=
  ⟨localNID, localDCID, replicationFactor, []⟩

namespace Ring

/-- The ring's `AddNode` keeps a sorted ring sorted and every node it held. -/
theorem addNode_keeps {r r' : Ring} {m n : Node} {res : Except String Unit}
    (h : Ring.AddNode r n res r') (hr : r.Sorted) (hm : m ∈ r.nodeMap) :
    r'.Sorted ∧ m ∈ r'.nodeMap := by
  refine ⟨addNode_sorted h hr, ?_⟩
  cases h with
  | added => exact List.mem_cons_of_mem n hm
  | refused => exact hm

/-- The positions `i < n` steps on from one index reach every index of a ring of `n`. -/
theorem mod_add_surj {n idx k : Nat} (hk : k < n) : ∃ i < n, (idx + i) % n = k := by
  have hr : idx % n < n := Nat.mod_lt _ (by omega)
  refine ⟨(k + (n - idx % n)) % n, Nat.mod_lt _ (by omega), ?_⟩
  have hsum : idx % n + (k + (n - idx % n)) = k + n := by omega
  rw [Nat.add_mod_mod, ← Nat.mod_add_mod, hsum, Nat.add_mod_right, Nat.mod_eq_of_lt hk]

/-- With a replication factor covering the ring, every node of the ring is a
replica of every token, wherever the token's owner is. -/
theorem mem_getNodesForToken {r : Ring} {n : Node} (hn : n ∈ r.tokenRing) {rf : UInt32}
    (hrf : r.tokenRing.length ≤ rf.toNat) (t : Token) : n ∈ r.GetNodesForToken t rf := by
  obtain ⟨k, hk, rfl⟩ := List.getElem_of_mem hn
  simp only [GetNodesForToken, List.mem_map, List.mem_range]
  generalize sortSearch _ _ = idx
  obtain ⟨i, hi, hik⟩ : ∃ i < r.tokenRing.length, (idx + i) % r.tokenRing.length = k :=
    mod_add_surj hk
  refine ⟨i, by split_ifs <;> omega, ?_⟩
  rw [hik, List.getD_eq_getElem _ _ hk]

end Ring

namespace Topology

/-- `t.rings[dcId]`, when present. -/
def ring? (t : Topology) (dcId : DatacenterID) : Option Ring :=
  (lookup Prod.fst t.rings dcId).map Prod.snd

/-- `t.rings[dcId] = r`: the entry replaced, or a new one. -/
def setRing (t : Topology) (dcId : DatacenterID) (r : Ring) : Topology :=
  match t.ring? dcId with
  | some _ => { t with rings := replace Prod.fst t.rings (dcId, r) }
  | none => { t with rings := t.rings ++ [(dcId, r)] }

/-- `Topology.AddNode` of a node of the datacenter `dcId`: the datacenter's ring,
made empty when it is new, takes the node as the ring's `AddNode` does, and
goes back in the map, whether or not the ring refused the node. -/
inductive AddNode : Topology → DatacenterID → Node → Except String Unit → Topology → Prop
  | mk {t : Topology} {dcId : DatacenterID} {n : Node} {res : Except String Unit} {r : Ring} :
      Ring.AddNode ((t.ring? dcId).getD NewRing) n res r → AddNode t dcId n res (t.setRing dcId r)

/-- Any number of additions, whatever their outcomes. -/
def AddsNodes : Topology → Topology → Prop :=
  Relation.ReflTransGen fun t t' => ∃ dcId n res, AddNode t dcId n res t'

/-- `AllLocalNodes`: the local ring's nodes in token order; none when the local
datacenter has no ring, where the source dereferences a nil ring. -/
def AllLocalNodes (t : Topology) : Option (List Node) := (t.ring? t.localDcID).map (·.tokenRing)

/-- `GetNodesForToken`: each datacenter's replicas of the token. -/
def GetNodesForToken (t : Topology) (tk : Token) : List (DatacenterID × List Node) :=
  t.rings.map fun e => (e.1, e.2.GetNodesForToken tk t.replicationFactor.toUInt32)

/-- `GetLocalNodesForToken`: the local ring's replicas of the token, none
without a local ring. -/
def GetLocalNodesForToken (t : Topology) (tk : Token) : List Node :=
  match t.ring? t.localDcID with
  | none => []
  | some r => r.GetNodesForToken tk t.replicationFactor.toUInt32

/-- `TokenLocallyReplicated`. -/
def TokenLocallyReplicated (t : Topology) (tk : Token) : Bool :=
  (t.GetLocalNodesForToken tk).any (·.id == t.localNodeID)

/-! ### The map of rings -/

@[simp] theorem ring?_setRing (t : Topology) (dcId d : DatacenterID) (r : Ring) :
    (t.setRing dcId r).ring? d = if dcId = d then some r else t.ring? d := by
  unfold setRing
  split
  · rename_i hs
    simp only [ring?, lookup_replace]
    by_cases hd : dcId = d
    · subst hd
      obtain ⟨e, he, -⟩ := Option.map_eq_some_iff.mp hs
      simp [he]
    · simp [hd]
  · rename_i hn
    simp only [ring?, lookup_append]
    -- the new entry goes last, behind none under its datacenter
    have hl : lookup Prod.fst [(dcId, r)] d = if dcId = d then some (dcId, r) else none := by
      by_cases hd : dcId = d <;> simp [lookup, hd]
    by_cases hd : dcId = d
    · subst hd
      simp [Option.map_eq_none_iff.mp hn, hl]
    · simp [hd, hl]

@[simp] theorem localDcID_setRing (t : Topology) (dcId : DatacenterID) (r : Ring) :
    (t.setRing dcId r).localDcID = t.localDcID := by
  unfold setRing
  split <;> rfl

@[simp] theorem localNodeID_setRing (t : Topology) (dcId : DatacenterID) (r : Ring) :
    (t.setRing dcId r).localNodeID = t.localNodeID := by
  unfold setRing
  split <;> rfl

@[simp] theorem replicationFactor_setRing (t : Topology) (dcId : DatacenterID) (r : Ring) :
    (t.setRing dcId r).replicationFactor = t.replicationFactor := by
  unfold setRing
  split <;> rfl

/-- An addition changes the rings only. -/
theorem AddNode.keeps {t t' : Topology} {dcId : DatacenterID} {n : Node} {res : Except String Unit}
    (h : AddNode t dcId n res t') :
    t'.localNodeID = t.localNodeID ∧ t'.replicationFactor = t.replicationFactor := by
  cases h
  exact ⟨localNodeID_setRing .., replicationFactor_setRing ..⟩

/-! ### The local node stays -/

/-- The local ring exists, is sorted, and holds `n`. -/
structure HoldsLocal (t : Topology) (n : Node) : Prop where
  ring : ∃ r, t.ring? t.localDcID = some r ∧ r.Sorted ∧ n ∈ r.nodeMap

/-- One addition keeps the local node: it changes one ring, which keeps its nodes. -/
theorem HoldsLocal.addNode {t t' : Topology} {n m : Node} {dcId : DatacenterID}
    {res : Except String Unit} (h : t.HoldsLocal n) (ha : AddNode t dcId m res t') :
    t'.HoldsLocal n := by
  obtain ⟨r, hr, hs, hn⟩ := h.ring
  cases ha with
  | mk hadd =>
    rename_i r'
    by_cases hd : dcId = t.localDcID
    · -- the local ring itself takes the node
      subst hd
      rw [hr, Option.getD_some] at hadd
      obtain ⟨hs', hn'⟩ := Ring.addNode_keeps hadd hs hn
      exact ⟨⟨r', by simp, hs', hn'⟩⟩
    · exact ⟨⟨r, by simp [hd, hr], hs, hn⟩⟩

theorem HoldsLocal.addsNodes {t t' : Topology} {n : Node} (h : t.HoldsLocal n)
    (ha : AddsNodes t t') : t'.HoldsLocal n := by
  induction ha with
  | refl => exact h
  | tail _ hstep ih =>
    obtain ⟨dcId, m, res, hadd⟩ := hstep
    exact ih.addNode hadd

/-- The local nodes of such a topology are there, and hold the node. -/
theorem HoldsLocal.allLocalNodes {t : Topology} {n : Node} (h : t.HoldsLocal n) :
    ∃ nodes, t.AllLocalNodes = some nodes ∧ n ∈ nodes := by
  obtain ⟨r, hr, hs, hn⟩ := h.ring
  exact ⟨r.tokenRing, by simp [AllLocalNodes, hr], hs.1.mem_iff.mpr hn⟩

/-- The local node replicates every token when the replication factor covers
the local datacenter. -/
theorem HoldsLocal.tokenLocallyReplicated {t : Topology} {n : Node} (h : t.HoldsLocal n)
    (hid : n.id = t.localNodeID) (hrf : t.replicationFactor < UInt32.size)
    (hsmall : ∀ nodes, t.AllLocalNodes = some nodes → nodes.length ≤ t.replicationFactor)
    (tk : Token) : t.TokenLocallyReplicated tk = true := by
  obtain ⟨r, hr, hs, hn⟩ := h.ring
  have hlen : r.tokenRing.length ≤ t.replicationFactor.toUInt32.toNat := by
    rw [UInt32.toNat_ofNat_of_lt' hrf]
    exact hsmall _ (by simp [AllLocalNodes, hr])
  simp only [TokenLocallyReplicated, GetLocalNodesForToken, hr, List.any_eq_true, beq_iff_eq]
  exact ⟨n, Ring.mem_getNodesForToken (hs.1.mem_iff.mpr hn) hlen tk, hid⟩

/-- A new topology given its local node holds it. -/
theorem holdsLocal_newTopology {nid : NodeId} {dcId : DatacenterID} {rf : Nat} {n : Node}
    {res : Except String Unit} {t : Topology} (h : AddNode (NewTopology nid dcId rf) dcId n res t) :
    t.HoldsLocal n := by
  cases h with
  | mk hadd =>
    rename_i r
    have hnone : (NewTopology nid dcId rf).ring? dcId = none := rfl
    rw [hnone, Option.getD_none] at hadd
    -- the empty ring cannot refuse a node
    cases hadd with
    | added sorted _ hsort =>
      exact ⟨⟨_, by simp [NewTopology], addNode_sorted (.added _ _ sorted (by simp [NewRing]) hsort)
        newRing_sorted, List.mem_cons_self⟩⟩
    | refused hn => simp [NewRing] at hn

end Topology

end Kickboxer.Topology
