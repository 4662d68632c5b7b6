import Kickboxer.Topology.Ring
import Mathlib.Data.Nat.ModEq
import Mathlib.Data.List.GetD
import Mathlib.Data.List.Nodup

/-! Token routing (`Ring.GetNodesForToken` and `sort.Search`).

`bytes.Compare` orders tokens as a total preorder: `bytesCompare a b ≤ 0` is
transitive (`bytesCompare_le_trans`), and a sorted token ring lists its nodes in
that order (`pairwise_le_of_sortSortOf`). On a sorted ring the search predicate
`t ≤ token` is monotone in the index, and `sort.Search` finds its first index,
or the ring's length if it holds nowhere (`sortSearch_firstTrue`), which is the
first index of a linear scan (`sortSearch_eq_findIdx`).

So on every ring built by `AddNode` from nodes with distinct ids, the token ring
is those nodes in non-decreasing token order, and `GetNodesForToken` returns the
`min rf n` nodes of the ring from the first whose token is at least `t` (the
first node if there is none), wrapping around, all distinct
(`getNodesForToken_routes`). An empty ring gives the empty list. -/
namespace Kickboxer.Topology
open Kickboxer.Types Kickboxer.Topology.Ring

/-! ### The byte order -/

theorem bytesCompare_le_zero_cons (x y : UInt8) (xs ys : Token) :
    bytesCompare (x :: xs) (y :: ys) ≤ 0 ↔ x < y ∨ (x = y ∧ bytesCompare xs ys ≤ 0) := by
  have hcons : bytesCompare (x :: xs) (y :: ys) =
      if x < y then -1 else if y < x then 1 else bytesCompare xs ys := rfl
  rw [hcons]
  by_cases hxy : x < y
  · simp [hxy]
  · by_cases hyx : y < x
    · have hne : x ≠ y := fun h => UInt8.lt_irrefl x (h ▸ hyx)
      simp [hxy, hyx, hne]
    · have hx : x = y := UInt8.le_antisymm (UInt8.not_lt.mp hyx) (UInt8.not_lt.mp hxy)
      simp [hx]

theorem bytesCompare_le_trans : ∀ {a b c : Token},
    bytesCompare a b ≤ 0 → bytesCompare b c ≤ 0 → bytesCompare a c ≤ 0
  | [], _, [], _, _ => by simp [bytesCompare]
  | [], _, _ :: _, _, _ => by simp [bytesCompare]
  | _ :: _, [], _, h, _ => by simp [bytesCompare] at h
  | _ :: _, _ :: _, [], _, h => by simp [bytesCompare] at h
  | x :: xs, y :: ys, z :: zs, h₁, h₂ => by
    rw [bytesCompare_le_zero_cons] at h₁ h₂ ⊢
    rcases h₁ with hxy | ⟨rfl, h₁⟩ <;> rcases h₂ with hyz | ⟨rfl, h₂⟩
    · exact .inl (UInt8.lt_trans hxy hyz)
    · exact .inl hxy
    · exact .inl hyz
    · exact .inr ⟨rfl, bytesCompare_le_trans h₁ h₂⟩

/-- A node not less than another has a token at least the other's. -/
theorem le_of_not_nodeLess {a b : Node} (h : nodeLess b a = false) :
    bytesCompare a.token b.token ≤ 0 := by
  simp only [nodeLess, beq_eq_false_iff_ne] at h
  have hswap := bytesCompare_swap a.token b.token
  rcases bytesCompare_cases a.token b.token with h' | h' | h'
  · omega
  · omega
  · rw [h'] at hswap
    exact absurd hswap h

theorem pairwise_le_of_sortSortOf {nodes sorted : List Node} (h : SortSortOf nodes sorted) :
    sorted.Pairwise fun a b => bytesCompare a.token b.token ≤ 0 :=
  h.2.imp le_of_not_nodeLess

/-! ### `sort.Search` -/

/-- `i` is the first index below `n` at which `f` holds, or `n` if it holds at
none. -/
def FirstTrue (f : Nat → Bool) (n i : Nat) : Prop :=
  i ≤ n ∧ (∀ k < i, f k = false) ∧ (i < n → f i = true)

theorem FirstTrue.unique {f : Nat → Bool} {n i i' : Nat} (h : FirstTrue f n i)
    (h' : FirstTrue f n i') : i = i' := by
  obtain ⟨hi, hbelow, hat⟩ := h
  obtain ⟨hi', hbelow', hat'⟩ := h'
  rcases Nat.lt_trichotomy i i' with hlt | heq | hgt
  · exact absurd (hat (by omega)) (by rw [hbelow' i hlt]; simp)
  · exact heq
  · exact absurd (hat' (by omega)) (by rw [hbelow i' hgt]; simp)

section Search
variable {f : Nat → Bool} {n : Nat} (hmono : ∀ a b, a ≤ b → b < n → f a = true → f b = true)
include hmono

/-- The loop keeps `f` false below `i` and true at `j`, and each round narrows
`[i, j)`; so with more rounds than its width it ends at the first true index. -/
theorem searchLoop_firstTrue (fuel : Nat) :
    ∀ i j, j ≤ n → i ≤ j → j - i < fuel → (∀ k < i, f k = false) → (j < n → f j = true) →
      FirstTrue f n (searchLoop f fuel i j) := by
  induction fuel with
  | zero => intro i j _ _ hfuel; omega
  | succ fuel ih =>
    intro i j hjn hij hfuel hbelow hat
    rw [searchLoop]
    by_cases hlt : i < j
    · rw [if_pos hlt]
      by_cases hh : f ((i + j) / 2) = true
      · -- `f` holds at the midpoint, which becomes the upper end
        rw [if_neg (by simp [hh])]
        exact ih _ _ (by omega) (by omega) (by omega) hbelow fun _ => hh
      · -- `f` fails at the midpoint, and so below it
        rw [if_pos (by simpa using hh)]
        refine ih _ _ hjn (by omega) (by omega) (fun k hk => ?_) hat
        cases hfk : f k
        · rfl
        · exact absurd (hmono k ((i + j) / 2) (by omega) (by omega) hfk) hh
    · rw [if_neg hlt]
      have hij' : i = j := by omega
      subst hij'
      exact ⟨hjn, hbelow, hat⟩

theorem sortSearch_firstTrue : FirstTrue f n (sortSearch n f) :=
  searchLoop_firstTrue hmono (n + 1) 0 n le_rfl (Nat.zero_le n) (by omega) (fun k hk => absurd hk (by omega))
    fun h => absurd h (lt_irrefl n)

end Search

/-- The first index of a linear scan is the first true index. -/
theorem findIdx_firstTrue {α : Type} (p : α → Bool) (l : List α) (d : α) :
    FirstTrue (fun i => p (l.getD i d)) l.length (l.findIdx p) := by
  refine ⟨List.findIdx_le_length, fun k hk => ?_, fun h => ?_⟩
  · have hkl : k < l.length := lt_of_lt_of_le hk List.findIdx_le_length
    show p (l.getD k d) = false
    rw [List.getD_eq_getElem l d hkl]
    exact List.not_of_lt_findIdx hk
  · show p (l.getD (l.findIdx p) d) = true
    rw [List.getD_eq_getElem l d h]
    exact List.findIdx_getElem

/-! ### Routing -/

/-- The owner of `t` on a ring: the first index whose token is at least `t`, or
`0` if there is none. -/
def ownerIndex (ring : List Node) (t : Token) : Nat :=
  let k := ring.findIdx fun nd => decide (bytesCompare t nd.token ≤ 0)
  if k < ring.length then k else 0

/-- The default node `GetNodesForToken` reads out of range. -/
def noNode : Node := ⟨default, []⟩

/-- On a sorted ring, `sort.Search` with the predicate `t ≤ token` finds the
first node whose token is at least `t`, as a linear scan does. -/
theorem sortSearch_eq_findIdx {ring : List Node}
    (hsorted : ring.Pairwise fun a b => bytesCompare a.token b.token ≤ 0) (t : Token)
    {f : Nat → Bool} (hf : ∀ i, f i = true ↔ bytesCompare t (ring.getD i noNode).token ≤ 0) :
    sortSearch ring.length f = ring.findIdx fun nd => decide (bytesCompare t nd.token ≤ 0) := by
  have hscan := findIdx_firstTrue (fun nd => decide (bytesCompare t nd.token ≤ 0)) ring noNode
  have hfeq : (fun i => decide (bytesCompare t (ring.getD i noNode).token ≤ 0)) = f := by
    funext i
    exact Bool.eq_iff_iff.mpr (by rw [hf]; simp)
  rw [hfeq] at hscan
  refine FirstTrue.unique (sortSearch_firstTrue fun a b hab hb ha => ?_) hscan
  -- the search predicate is monotone along the sorted ring
  rw [hf] at ha ⊢
  rcases Nat.lt_or_eq_of_le hab with hlt | rfl
  · have hle := List.pairwise_iff_getElem.mp hsorted a b (by omega) hb hlt
    rw [List.getD_eq_getElem ring noNode (by omega)] at ha
    rw [List.getD_eq_getElem ring noNode hb]
    exact bytesCompare_le_trans ha hle
  · exact ha

/-- Positions `i` steps on from one index of a ring of `n`, for `i < n`, are
distinct. -/
theorem mod_add_inj {n idx i j : Nat} (hi : i < n) (hj : j < n)
    (h : (idx + i) % n = (idx + j) % n) : i = j := by
  have hmod : i ≡ j [MOD n] := Nat.ModEq.add_left_cancel' idx h
  rw [Nat.ModEq, Nat.mod_eq_of_lt hi, Nat.mod_eq_of_lt hj] at hmod
  exact hmod

/-- `GetNodesForToken` on a sorted ring, with the owner found by a linear scan. -/
theorem getNodesForToken_eq (r : Ring)
    (hsorted : r.tokenRing.Pairwise fun a b => bytesCompare a.token b.token ≤ 0) (t : Token)
    (rf : UInt32) :
    r.GetNodesForToken t rf = (List.range (min rf.toNat r.tokenRing.length)).map
      fun i => r.tokenRing.getD ((ownerIndex r.tokenRing t + i) % r.tokenRing.length) noNode := by
  simp only [GetNodesForToken]
  rw [sortSearch_eq_findIdx hsorted t fun i => by simp [noNode]]
  have hnum : (if r.tokenRing.length < rf.toNat then r.tokenRing.length else rf.toNat) =
      min rf.toNat r.tokenRing.length := by
    split_ifs with h <;> omega
  rw [hnum]
  refine List.map_congr_left fun i _ => ?_
  by_cases hk : r.tokenRing.findIdx (fun nd => decide (bytesCompare t nd.token ≤ 0)) <
      r.tokenRing.length
  · simp only [ownerIndex, hk, if_true, noNode]
  · -- no token is at least `t`: the search ends past the ring, which wraps to its start
    have hlen : r.tokenRing.findIdx (fun nd => decide (bytesCompare t nd.token ≤ 0)) =
        r.tokenRing.length := le_antisymm List.findIdx_le_length (by omega)
    simp only [ownerIndex, hk, if_false, noNode]
    rw [hlen, Nat.zero_add, Nat.add_mod_left]

/-- Every ring built by `AddNode` from nodes with distinct ids: its token ring is
those nodes in non-decreasing token order, and the replicas of a token are the
`min rf n` distinct nodes of the ring from the token's owner on. -/
theorem getNodesForToken_routes {ns : List Node} {r : Ring} (h : AddNodes NewRing ns r)
    (hnd : (ns.map Node.id).Nodup) (t : Token) (rf : UInt32) :
    r.tokenRing.Perm ns ∧ r.tokenRing.Pairwise (fun a b => bytesCompare a.token b.token ≤ 0) ∧
    r.GetNodesForToken t rf = (List.range (min rf.toNat r.tokenRing.length)).map
      (fun i => r.tokenRing.getD ((ownerIndex r.tokenRing t + i) % r.tokenRing.length) noNode) ∧
    (r.GetNodesForToken t rf).length = min rf.toNat r.tokenRing.length ∧
    ((r.GetNodesForToken t rf).map Node.id).Nodup := by
  have hs := addNodes_sortSortOf h hnd
  have hsorted := pairwise_le_of_sortSortOf hs
  have hids : (r.tokenRing.map Node.id).Nodup := (hs.1.map Node.id).nodup_iff.mpr hnd
  have heq := getNodesForToken_eq r hsorted t rf
  refine ⟨hs.1, hsorted, heq, by simp [heq], ?_⟩
  rw [heq, List.map_map]
  refine List.Nodup.map_on (fun i hi j hj hij => ?_) List.nodup_range
  -- two of the positions hold nodes with one id, so they are one position
  rw [List.mem_range] at hi hj
  have hn : 0 < r.tokenRing.length := by omega
  have hpi := Nat.mod_lt (ownerIndex r.tokenRing t + i) hn
  have hpj := Nat.mod_lt (ownerIndex r.tokenRing t + j) hn
  simp only [Function.comp, List.getD_eq_getElem _ _ hpi, List.getD_eq_getElem _ _ hpj] at hij
  have hnode := List.inj_on_of_nodup_map hids (List.getElem_mem hpi) (List.getElem_mem hpj) hij
  have hpos := ((List.Nodup.of_map Node.id hids).getElem_inj_iff).mp hnode
  exact mod_add_inj (by omega) (by omega) hpos

/-- Nodes with tokens `0` and `2`. -/
def routeA : Node := ⟨NodeId.ofNat 1, [0]⟩
def routeB : Node := ⟨NodeId.ofNat 2, [2]⟩

/-- Added against token order, the two nodes are sorted; token `1` is owned by
the second and three replicas wrap around to the first. -/
theorem getNodesForToken_routes_two :
    ([routeB, routeA].map Node.id).Nodup ∧
      AddNodes NewRing [routeB, routeA] ⟨[routeA, routeB], [routeA, routeB], [routeB]⟩ ∧
      GetNodesForToken ⟨[routeA, routeB], [routeA, routeB], [routeB]⟩ [1] 3 = [routeB, routeA] ∧
      ([routeA, routeB].Perm [routeB, routeA] ∧
        [routeA, routeB].Pairwise (fun a b => bytesCompare a.token b.token ≤ 0) ∧
        GetNodesForToken ⟨[routeA, routeB], [routeA, routeB], [routeB]⟩ [1] 3 =
          (List.range (min (3 : UInt32).toNat 2)).map
            (fun i => [routeA, routeB].getD ((ownerIndex [routeA, routeB] [1] + i) % 2) noNode) ∧
        (GetNodesForToken ⟨[routeA, routeB], [routeA, routeB], [routeB]⟩ [1] 3).length =
          min (3 : UInt32).toNat 2 ∧
        ((GetNodesForToken ⟨[routeA, routeB], [routeA, routeB], [routeB]⟩ [1] 3).map Node.id).Nodup) := by
  have hnd : ([routeB, routeA].map Node.id).Nodup := by decide
  have hr : AddNodes NewRing [routeB, routeA] ⟨[routeA, routeB], [routeA, routeB], [routeB]⟩ :=
    .cons (.added _ _ [routeB] (by decide) (by decide))
      (.cons (.added _ _ _ (by decide) (by decide)) (.nil _))
  exact ⟨hnd, hr, by decide, getNodesForToken_routes hr hnd [1] 3⟩

end Kickboxer.Topology
