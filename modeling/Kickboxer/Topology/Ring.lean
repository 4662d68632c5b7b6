import Kickboxer.Types.UUID
import Mathlib.Data.List.Perm.Basic

/-! The token ring (`topology/ring.go`, `partitioner/partitioner.go`).

A ring keeps its nodes by id and, after every change, the same nodes ordered by
token (`refreshRing`). Tokens are byte strings compared by `bytes.Compare`. The
ordered list comes from reading the id map in Go's map order and sorting it with
`sort.Sort`, which is not stable: when two nodes share a token, either may come
first. `AddNode` is therefore a relation, and its rebuilt ring is any
permutation of the nodes in non-decreasing token order (`SortSortOf`).

`GetNodesForToken` binary-searches (`sort.Search`) for the first node whose token
is at least the given one, and takes the replication factor's worth of nodes from
there, wrapping around the ring. -/
namespace Kickboxer.Topology
open Kickboxer.Types

/-- `partitioner.Token`. -/
abbrev Token := List UInt8

/-- `bytes.Compare`: `-1`, `0` or `1` as `a` is before, equal to or after `b` in
lexicographic byte order, a proper prefix coming first. -/
def bytesCompare : Token → Token → Int
  | [], [] => 0
  | [], _ :: _ => -1
  | _ :: _, [] => 1
  | a :: as, b :: bs => if a < b then -1 else if b < a then 1 else bytesCompare as bs

theorem bytesCompare_self : ∀ a : Token, bytesCompare a a = 0
  | [] => rfl
  | x :: xs => by simp [bytesCompare, bytesCompare_self xs]

theorem bytesCompare_swap : ∀ a b : Token, bytesCompare b a = -bytesCompare a b
  | [], [] => rfl
  | [], _ :: _ => rfl
  | _ :: _, [] => rfl
  | x :: xs, y :: ys => by
    unfold bytesCompare
    by_cases hxy : x < y
    · have hyx : ¬ y < x := fun h => UInt8.lt_irrefl x (UInt8.lt_trans hxy h)
      simp [hxy, hyx]
    · by_cases hyx : y < x
      · simp [hxy, hyx]
      · simp [hxy, hyx, bytesCompare_swap xs ys]

theorem bytesCompare_eq_zero : ∀ {a b : Token}, bytesCompare a b = 0 → a = b
  | [], [], _ => rfl
  | [], _ :: _, h => by simp [bytesCompare] at h
  | _ :: _, [], h => by simp [bytesCompare] at h
  | x :: xs, y :: ys, h => by
    unfold bytesCompare at h
    by_cases hxy : x < y
    · simp [hxy] at h
    · by_cases hyx : y < x
      · simp [hxy, hyx] at h
      · simp only [hxy, hyx, if_false] at h
        have hx : x = y := UInt8.le_antisymm (UInt8.not_lt.mp hyx) (UInt8.not_lt.mp hxy)
        rw [hx, bytesCompare_eq_zero h]

theorem bytesCompare_cases : ∀ a b : Token,
    bytesCompare a b = -1 ∨ bytesCompare a b = 0 ∨ bytesCompare a b = 1
  | [], [] => by simp [bytesCompare]
  | [], _ :: _ => by simp [bytesCompare]
  | _ :: _, [] => by simp [bytesCompare]
  | x :: xs, y :: ys => by
    unfold bytesCompare
    split
    · exact .inl rfl
    · split
      · exact .inr (.inr rfl)
      · exact bytesCompare_cases xs ys

/-- The parts of a `topology.Node` the ring reads. -/
structure Node where
  id : NodeId
  token : Token
  deriving DecidableEq, Repr

/-- `nodeSorter.Less`. -/
def nodeLess (a b : Node) : Bool := bytesCompare a.token b.token == -1

/-- What `sort.Sort` with `nodeSorter` may leave of `nodes`, whatever order the
map yielded them in: a permutation in non-decreasing token order. -/
def SortSortOf (nodes sorted : List Node) : Prop :=
  sorted.Perm nodes ∧ sorted.Pairwise (fun a b => nodeLess b a = false)

instance (nodes sorted : List Node) : Decidable (SortSortOf nodes sorted) :=
  inferInstanceAs (Decidable (_ ∧ _))

/-- `topology.Ring`; the id map is kept as the list of its nodes. -/
structure Ring where
  nodeMap : List Node
  tokenRing : List Node
  priorRing : List Node

namespace Ring

/-- `NewRing`. -/
def NewRing : Ring := ⟨[], [], []⟩

/-- `Ring.AddNode`: a node with a new id joins the map and the token ring is
rebuilt (`refreshRing`); a known id is refused and the ring kept. -/
inductive AddNode : Ring → Node → Except String Unit → Ring → Prop
  | added (r : Ring) (n : Node) (sorted : List Node) (hn : n.id ∉ r.nodeMap.map Node.id)
      (hs : SortSortOf (n :: r.nodeMap) sorted) :
      AddNode r n (.ok ()) ⟨n :: r.nodeMap, sorted, r.tokenRing⟩
  | refused (r : Ring) (n : Node) (hn : n.id ∈ r.nodeMap.map Node.id) :
      AddNode r n (.error "This node is already a part of the ring") r

/-- Adding a list of nodes, one `AddNode` after another. -/
inductive AddNodes : Ring → List Node → Ring → Prop
  | nil (r : Ring) : AddNodes r [] r
  | cons {r r' r'' : Ring} {n : Node} {ns : List Node} {res : Except String Unit} :
      AddNode r n res r' → AddNodes r' ns r'' → AddNodes r (n :: ns) r''

/-- `sort.Search`: the binary search of the standard library, the loop run on at
most `fuel` halvings. -/
def searchLoop (f : Nat → Bool) : Nat → Nat → Nat → Nat
  | 0, i, _ => i
  | fuel + 1, i, j =>
    if i < j then
      let h := (i + j) / 2
      if !f h then searchLoop f fuel (h + 1) j else searchLoop f fuel i h
    else i

def sortSearch (n : Nat) (f : Nat → Bool) : Nat := searchLoop f (n + 1) 0 n

/-- `Ring.GetNodesForToken`: from the first node whose token is at least `t`, the
next `replicationFactor` nodes of the ring (all of them if the ring is smaller),
wrapping around its end. -/
def GetNodesForToken (r : Ring) (t : Token) (replicationFactor : UInt32) : List Node :=
  let ringLen := r.tokenRing.length
  let numNodes := if ringLen < replicationFactor.toNat then ringLen else replicationFactor.toNat
  let searcher := fun i => decide (bytesCompare t (r.tokenRing.getD i ⟨default, []⟩).token ≤ 0)
  let idx := sortSearch ringLen searcher
  (List.range numNodes).map (fun i => r.tokenRing.getD ((idx + i) % ringLen) ⟨default, []⟩)

/-- The replicas of a token are read off the token ring alone. -/
theorem getNodesForToken_congr {r r' : Ring} (h : r.tokenRing = r'.tokenRing) (t : Token)
    (replicationFactor : UInt32) :
    r.GetNodesForToken t replicationFactor = r'.GetNodesForToken t replicationFactor := by
  unfold GetNodesForToken
  rw [h]

/-! ### The ring invariant

Between calls the token ring is the id map's nodes in token order. -/

/-- The token ring sorts the map's nodes. -/
def Sorted (r : Ring) : Prop := SortSortOf r.nodeMap r.tokenRing

theorem newRing_sorted : NewRing.Sorted := ⟨.nil, .nil⟩

theorem addNode_sorted {r r' : Ring} {n : Node} {res : Except String Unit}
    (h : AddNode r n res r') (hr : r.Sorted) : r'.Sorted := by
  cases h with
  | added sorted hn hs => exact hs
  | refused hn => exact hr

theorem addNodes_sorted {r r' : Ring} {ns : List Node} (h : AddNodes r ns r') (hr : r.Sorted) :
    r'.Sorted := by
  induction h with
  | nil => exact hr
  | cons hstep _ ih => exact ih (addNode_sorted hstep hr)

/-- Adding nodes whose ids are new and distinct keeps every one of them. -/
theorem addNodes_nodeMap {r r' : Ring} {ns : List Node} (h : AddNodes r ns r')
    (hfresh : ∀ n ∈ ns, n.id ∉ r.nodeMap.map Node.id) (hnd : (ns.map Node.id).Nodup) :
    r'.nodeMap.Perm (ns.reverse ++ r.nodeMap) := by
  induction h with
  | nil => exact .refl _
  | @cons r₀ r₁ r₂ n ns _ hstep _ ih =>
    rw [List.map_cons, List.nodup_cons] at hnd
    -- the head's id is fresh, so its add is not refused
    have hadd : r₁.nodeMap = n :: r₀.nodeMap := by
      cases hstep with
      | added => rfl
      | refused hn => exact absurd hn (hfresh n List.mem_cons_self)
    have hfresh' : ∀ m ∈ ns, m.id ∉ r₁.nodeMap.map Node.id := by
      intro m hm hmem
      rw [hadd, List.map_cons, List.mem_cons] at hmem
      rcases hmem with heq | hold
      · exact hnd.1 (heq ▸ List.mem_map_of_mem hm)
      · exact hfresh m (List.mem_cons_of_mem n hm) hold
    calc r₂.nodeMap.Perm (ns.reverse ++ r₁.nodeMap) := ih hfresh' hnd.2
      _ = (n :: ns).reverse ++ r₀.nodeMap := by simp [hadd]

/-- A ring built from the empty one by adding nodes with distinct ids sorts
exactly those nodes. -/
theorem addNodes_sortSortOf {ns : List Node} {r : Ring} (h : AddNodes NewRing ns r)
    (hnd : (ns.map Node.id).Nodup) : SortSortOf ns r.tokenRing := by
  have hm := addNodes_nodeMap h (fun _ _ h => by simp [NewRing] at h) hnd
  have hs := addNodes_sorted h newRing_sorted
  rw [NewRing, List.append_nil] at hm
  exact ⟨hs.1.trans (hm.trans (List.reverse_perm ns)), hs.2⟩

end Ring

end Kickboxer.Topology
