import Kickboxer.Topology.Ring
import Mathlib.Data.List.Nodup

/-! Do all nodes compute the same replicas?

Every node builds its ring by adding the cluster's nodes in whatever order it
learns of them. Two such rings need not agree: `sort.Sort` orders nodes by token
alone, so two nodes with one token may come out in either order, and the owner
of that token differs between them (`tied_tokens_disagree`). With distinct tokens
the order is forced: any two rings built from the same nodes have the same token
ring, and so the same `GetNodesForToken` for every token and replication factor
(`getNodesForToken_order_independent`). -/
namespace Kickboxer.Topology
open Kickboxer.Types Kickboxer.Topology.Ring

/-! ### Equal tokens -/

/-- Two nodes sharing token `0`, as every consensus test node does. -/
def tieA : Node := ⟨NodeId.ofNat 1, [0]⟩

def tieB : Node := ⟨NodeId.ofNat 2, [0]⟩

/-- Adding the two nodes in either order, the map yields them in some order and
`sort.Sort` keeps it, since neither is less than the other; the two rings then
give different owners of token `0`. -/
theorem tied_tokens_disagree :
    AddNodes NewRing [tieA, tieB] ⟨[tieB, tieA], [tieA, tieB], [tieA]⟩ ∧
      AddNodes NewRing [tieB, tieA] ⟨[tieA, tieB], [tieB, tieA], [tieB]⟩ ∧
      GetNodesForToken ⟨[tieB, tieA], [tieA, tieB], [tieA]⟩ [0] 1 = [tieA] ∧
      GetNodesForToken ⟨[tieA, tieB], [tieB, tieA], [tieB]⟩ [0] 1 = [tieB] := by
  refine ⟨?_, ?_, by decide, by decide⟩
  · exact .cons (.added _ _ [tieA] (by decide) (by decide))
      (.cons (.added _ _ [tieA, tieB] (by decide) (by decide)) (.nil _))
  · exact .cons (.added _ _ [tieB] (by decide) (by decide))
      (.cons (.added _ _ [tieB, tieA] (by decide) (by decide)) (.nil _))

/-! ### Distinct tokens -/

/-- Neither of two nodes is less than the other only when they share a token. -/
theorem token_eq_of_not_less {a b : Node} (hab : nodeLess a b = false)
    (hba : nodeLess b a = false) : a.token = b.token := by
  simp only [nodeLess, beq_eq_false_iff_ne] at hab hba
  have hswap := bytesCompare_swap a.token b.token
  rcases bytesCompare_cases a.token b.token with h | h | h
  · exact absurd h hab
  · exact bytesCompare_eq_zero h
  · rw [h] at hswap
    exact absurd hswap hba

/-- Two sorted orders of the same nodes with distinct tokens are the same list. -/
theorem sortSortOf_unique {nodes s₁ s₂ : List Node} (htok : (nodes.map Node.token).Nodup)
    (h₁ : SortSortOf nodes s₁) (h₂ : SortSortOf nodes s₂) : s₁ = s₂ := by
  refine List.Perm.eq_of_pairwise ?_ h₁.2 h₂.2 (h₁.1.trans h₂.1.symm)
  intro a b ha hb hba hab
  exact List.inj_on_of_nodup_map htok (h₁.1.subset ha) (h₂.1.subset hb)
    (token_eq_of_not_less hab hba)

/-- The rings built by adding one set of nodes, with distinct ids and distinct
tokens, in any two orders give every token the same replicas. -/
theorem getNodesForToken_order_independent (nodes order₁ order₂ : List Node)
    (hid : (nodes.map Node.id).Nodup) (htok : (nodes.map Node.token).Nodup)
    (h₁ : order₁.Perm nodes) (h₂ : order₂.Perm nodes) (r₁ r₂ : Ring)
    (hr₁ : AddNodes NewRing order₁ r₁) (hr₂ : AddNodes NewRing order₂ r₂) (t : Token)
    (replicationFactor : UInt32) :
    r₁.GetNodesForToken t replicationFactor = r₂.GetNodesForToken t replicationFactor := by
  -- each ring's token ring sorts its order of the nodes, so the nodes themselves
  have hmap : ∀ {order : List Node} {r : Ring}, order.Perm nodes →
      AddNodes NewRing order r → SortSortOf nodes r.tokenRing := by
    intro order r hperm hr
    have hs := addNodes_sortSortOf hr ((hperm.map Node.id).nodup_iff.mpr hid)
    exact ⟨hs.1.trans hperm, hs.2⟩
  exact getNodesForToken_congr (sortSortOf_unique htok (hmap h₁ hr₁) (hmap h₂ hr₂)) t
    replicationFactor

/-- A node with token `1`. -/
def nodeC : Node := ⟨NodeId.ofNat 3, [1]⟩

/-- Two nodes with tokens `0` and `1`, added in both orders. -/
theorem getNodesForToken_order_independent_two :
    ([tieA, nodeC].map Node.id).Nodup ∧ ([tieA, nodeC].map Node.token).Nodup ∧
      AddNodes NewRing [tieA, nodeC] ⟨[nodeC, tieA], [tieA, nodeC], [tieA]⟩ ∧
      AddNodes NewRing [nodeC, tieA] ⟨[tieA, nodeC], [tieA, nodeC], [nodeC]⟩ ∧
      GetNodesForToken ⟨[nodeC, tieA], [tieA, nodeC], [tieA]⟩ [1] 1 =
        GetNodesForToken ⟨[tieA, nodeC], [tieA, nodeC], [nodeC]⟩ [1] 1 := by
  have hid : ([tieA, nodeC].map Node.id).Nodup := by decide
  have htok : ([tieA, nodeC].map Node.token).Nodup := by decide
  have hr₁ : AddNodes NewRing [tieA, nodeC] ⟨[nodeC, tieA], [tieA, nodeC], [tieA]⟩ :=
    .cons (.added _ _ [tieA] (by decide) (by decide))
      (.cons (.added _ _ _ (by decide) (by decide)) (.nil _))
  have hr₂ : AddNodes NewRing [nodeC, tieA] ⟨[tieA, nodeC], [tieA, nodeC], [nodeC]⟩ :=
    .cons (.added _ _ [nodeC] (by decide) (by decide))
      (.cons (.added _ _ _ (by decide) (by decide)) (.nil _))
  exact ⟨hid, htok, hr₁, hr₂, getNodesForToken_order_independent _ _ _ hid htok
    (.refl _) (.swap _ _ []) _ _ hr₁ hr₂ [1] 1⟩

end Kickboxer.Topology
