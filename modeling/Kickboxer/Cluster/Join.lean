import Kickboxer.Topology.Routing

/-! Joining a cluster (`Cluster.JoinCluster`).

A joining node looks itself up among the nodes of its datacenter in token order
(`AllLocalNodes`, a copy of the ring's `tokenRing`) and streams the data of the
node before it, `nodes[(idx - 1) % len(nodes)]`. Go's `%` keeps the sign of its
left operand, so for the node at index zero the index is `-1` and the join
panics, unless the node is alone in its datacenter (`-1 % 1 = 0`).

`joinCluster_streams_from_predecessor`: on a ring built by `AddNode` from nodes
with distinct ids, every node but the first streams from the node just before it
in token order, and no node of the ring has a token strictly between the two.
`joinCluster_lowest_token_panics`: the node whose token is below every other
node's cannot join: the wrap-around to the last node is never taken. -/
namespace Kickboxer.Cluster
open Kickboxer.Types Kickboxer.Topology

/-- `Cluster.JoinCluster` on the local datacenter's nodes in token order: the node
it streams from (the argument of `streamFromNode`), or its panic. -/
def JoinCluster (localId : NodeId) (nodes : List Topology.Node) : Except String Topology.Node :=
  -- the loop leaves `idx` at zero when no node has the local id
  let idx := (nodes.findIdx? fun n => n.id == localId).getD 0
  match nodes[idx]? with
  | none =>
    .error ("runtime error: index out of range [" ++ toString idx ++ "] with length " ++
      toString nodes.length)
  | some n =>
    if n.id ≠ localId then .error "node at index is not the local node"
    else
      -- Go's `%` truncates toward zero
      let j := Int.tmod ((idx : Int) - 1) nodes.length
      if j < 0 then .error ("runtime error: index out of range [" ++ toString j ++ "]")
      else
        match nodes[j.toNat]? with
        | some s => .ok s
        | none =>
          .error ("runtime error: index out of range [" ++ toString j ++ "] with length " ++
            toString nodes.length)

/-! ### Where the local node is found -/

/-- With distinct ids, the search for a node's id stops at that node. -/
theorem findIdx?_id {nodes : List Topology.Node} (hnd : (nodes.map (·.id)).Nodup) {i : Nat}
    (hi : i < nodes.length) : nodes.findIdx? (fun n => n.id == nodes[i].id) = some i := by
  rw [List.findIdx?_eq_some_iff_getElem]
  refine ⟨hi, by simp, fun j hji heq => ?_⟩
  have hj : j < (nodes.map (·.id)).length := by simp; omega
  have hi' : i < (nodes.map (·.id)).length := by simpa using hi
  have heq' : (nodes.map (·.id))[j] = (nodes.map (·.id))[i] := by simpa using heq
  have hinj := hnd.getElem_inj_iff.mp heq'
  omega

/-- Go's `-1 % n` for `n ≥ 2`. -/
theorem tmod_neg_one {n : Nat} (h : 2 ≤ n) : Int.tmod (-1) n = -1 := by
  rw [Int.neg_tmod, Int.tmod_eq_of_lt (by omega) (by omega)]

/-- A node at position `i + 1` of nodes with distinct ids streams from the node
at position `i`. -/
theorem JoinCluster_succ {nodes : List Topology.Node} (hnd : (nodes.map (·.id)).Nodup) {i : Nat}
    (hi : i + 1 < nodes.length) : JoinCluster nodes[i + 1].id nodes = .ok nodes[i] := by
  have hj : Int.tmod ((i + 1 : Nat) - 1 : Int) nodes.length = i := by
    rw [Nat.cast_succ, add_sub_cancel_right, Int.tmod_eq_of_lt (by omega) (by omega)]
  simp only [JoinCluster, findIdx?_id hnd hi, Option.getD_some, List.getElem?_eq_getElem hi, hj]
  simp [List.getElem?_eq_getElem (Nat.lt_of_succ_lt hi)]

/-- The first of two nodes or more panics on the index `-1`. -/
theorem JoinCluster_head (x y : Topology.Node) (rest : List Topology.Node) :
    JoinCluster x.id (x :: y :: rest) = .error "runtime error: index out of range [-1]" := by
  have hidx : (x :: y :: rest).findIdx? (fun n => n.id == x.id) = some 0 := by
    simp [List.findIdx?_cons]
  have hj := tmod_neg_one (n := (x :: y :: rest).length) (by simp)
  simp only [JoinCluster, hidx, Option.getD_some, List.getElem?_cons_zero, Nat.cast_zero, zero_sub,
    hj]
  simp
  rfl

/-! ### On a ring -/

section Ring
variable {ns : List Topology.Node} {r : Ring}

theorem tokenRing_ids_nodup (h : Ring.AddNodes Ring.NewRing ns r) (hnd : (ns.map (·.id)).Nodup) :
    (r.tokenRing.map (·.id)).Nodup :=
  ((Ring.addNodes_sortSortOf h hnd).1.map _).nodup_iff.mpr hnd

/-- On a ring built from nodes with distinct ids, the node at position `i + 1`
streams from the node at position `i`, its predecessor in token order: no node
of the ring lies strictly between the two. -/
theorem joinCluster_streams_from_predecessor (h : Ring.AddNodes Ring.NewRing ns r)
    (hnd : (ns.map (·.id)).Nodup) {i : Nat} (hi : i + 1 < r.tokenRing.length) :
    JoinCluster r.tokenRing[i + 1].id r.tokenRing = .ok r.tokenRing[i] ∧
      ∀ z ∈ r.tokenRing, bytesCompare z.token r.tokenRing[i].token ≤ 0 ∨
        bytesCompare r.tokenRing[i + 1].token z.token ≤ 0 := by
  have hle := List.pairwise_iff_getElem.mp
    (pairwise_le_of_sortSortOf (Ring.addNodes_sortSortOf h hnd))
  refine ⟨JoinCluster_succ (tokenRing_ids_nodup h hnd) hi, fun z hz => ?_⟩
  obtain ⟨k, hk, rfl⟩ := List.getElem_of_mem hz
  -- `z` sits at or before position `i`, or at or after position `i + 1`
  rcases Nat.lt_or_ge i k with hik | hik
  · right
    rcases Nat.lt_or_ge (i + 1) k with hk' | hk'
    · exact hle _ _ hi hk hk'
    · have : k = i + 1 := by omega
      subst this
      simp [bytesCompare_self]
  · left
    rcases Nat.lt_or_ge k i with hk' | hk'
    · exact hle _ _ hk (by omega) hk'
    · have : k = i := by omega
      subst this
      simp [bytesCompare_self]

/-- The ring of `routeA` (token `0`) and `routeB` (token `2`), added against token
order. -/
def joinRing : Ring := ⟨[routeA, routeB], [routeA, routeB], [routeB]⟩

theorem joinRing_added : Ring.AddNodes Ring.NewRing [routeB, routeA] joinRing :=
  .cons (.added _ _ [routeB] (by decide) (by decide))
    (.cons (.added _ _ _ (by decide) (by decide)) (.nil _))

/-- `routeB` streams from `routeA`. -/
theorem joinCluster_streams_from_predecessor_two :
    ([routeB, routeA].map (·.id)).Nodup ∧ 0 + 1 < joinRing.tokenRing.length ∧
      (JoinCluster routeB.id joinRing.tokenRing = .ok routeA ∧
        ∀ z ∈ joinRing.tokenRing, bytesCompare z.token routeA.token ≤ 0 ∨
          bytesCompare routeB.token z.token ≤ 0) := by
  have hnd : ([routeB, routeA].map (·.id)).Nodup := by decide
  have hi : 0 + 1 < joinRing.tokenRing.length := by decide
  exact ⟨hnd, hi, joinCluster_streams_from_predecessor joinRing_added hnd hi⟩

/-- On a ring of two nodes or more with distinct ids, the node whose token is
below every other node's panics when it joins. -/
theorem joinCluster_lowest_token_panics (h : Ring.AddNodes Ring.NewRing ns r)
    (hnd : (ns.map (·.id)).Nodup) (htwo : 2 ≤ ns.length) {x : Topology.Node} (hx : x ∈ ns)
    (hlow : ∀ y ∈ ns, y ≠ x → bytesCompare x.token y.token < 0) :
    JoinCluster x.id r.tokenRing = .error "runtime error: index out of range [-1]" := by
  have hs := Ring.addNodes_sortSortOf h hnd
  have hle := pairwise_le_of_sortSortOf hs
  obtain ⟨a, b, rest, hring⟩ : ∃ a b rest, r.tokenRing = a :: b :: rest := by
    match hr : r.tokenRing, hs.1.length_eq with
    | a :: b :: rest, _ => exact ⟨a, b, rest, rfl⟩
    | [], hlen => simp at hlen; omega
    | [_], hlen => simp at hlen; omega
  -- the first node of the ring is `x`: a node before `x` would have a token
  -- at most `x`'s, while every other node's is above it
  have hax : a = x := by
    by_contra hne
    have hxr : x ∈ r.tokenRing := hs.1.mem_iff.mpr hx
    rw [hring] at hxr hle
    have hxt : x ∈ b :: rest := (List.mem_cons.mp hxr).resolve_left (Ne.symm hne)
    have hax := List.rel_of_pairwise_cons hle hxt
    have hxa := hlow a (hs.1.mem_iff.mp (by simp [hring])) hne
    have hswap := bytesCompare_swap x.token a.token
    omega
  rw [hring, hax]
  exact JoinCluster_head x b rest

/-- `routeA` holds the lowest token of `joinRing` and cannot join. -/
theorem joinCluster_lowest_token_panics_two :
    ([routeB, routeA].map (·.id)).Nodup ∧ 2 ≤ [routeB, routeA].length ∧ routeA ∈ [routeB, routeA] ∧
      (∀ y ∈ [routeB, routeA], y ≠ routeA → bytesCompare routeA.token y.token < 0) ∧
      JoinCluster routeA.id joinRing.tokenRing = .error "runtime error: index out of range [-1]" := by
  have hnd : ([routeB, routeA].map (·.id)).Nodup := by decide
  have htwo : 2 ≤ [routeB, routeA].length := by decide
  have hx : routeA ∈ [routeB, routeA] := by decide
  have hlow : ∀ y ∈ [routeB, routeA], y ≠ routeA → bytesCompare routeA.token y.token < 0 := by
    decide
  exact ⟨hnd, htwo, hx, hlow, joinCluster_lowest_token_panics joinRing_added hnd htwo hx hlow⟩

end Ring

end Kickboxer.Cluster
