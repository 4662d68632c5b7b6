import Kickboxer.Consensus.Execute
import Kickboxer.Library.Components

/-! What `tarjanConnect`'s bookkeeping keeps between calls of `strongConnect`.

`strongConnect` changes its record in three ways: it visits and pushes a vertex
(`push`), lowers a vertex's low link (`setLowlink`), and pops the stack above a
root as one component (`pop`). A visited vertex keeps its index; only its low link
and its stack flag change, and only while it is on the stack. Each operation gets
its lemmas on `find`, `num` and `lowlink` here, and later proofs use those and never
unfold the record.

The invariant `Inv` holds of the record between calls: the visited vertices are
keys, each listed once, and each either output or on the stack; the stack flags
tell the stack; indices grow up the stack; every output component is strongly
connected, and every prefix of the output is closed under the edges; a vertex on
the stack has a low link at most its index, namely the index of a vertex still on
the stack that it reaches. `push` keeps it (`Inv.push`); `setLowlink` keeps it for a
stacked vertex and a low link it reaches (`Inv.setLowlink`); `pop` keeps it for a
strongly connected top whose edges stay in it or in the output (`Inv.pop`). -/
namespace Kickboxer.Consensus
open Relation Kickboxer.Library

section Graph
variable {α : Type} [DecidableEq α] (graph : List (α × List α))

/-- An edge between two keys of the graph; an out-neighbour that is not a key
is ignored, as `tarjanConnect` ignores it. -/
def Edge (u w : α) : Prop := w ∈ (graphOut graph u).getD [] ∧ w ∈ graph.map Prod.fst

variable {graph}

theorem graphOut_eq_none_iff {w : α} : graphOut graph w = none ↔ w ∉ graph.map Prod.fst := by
  rw [graphOut, Option.map_eq_none_iff, List.find?_eq_none]
  simp only [beq_iff_eq, List.mem_map]
  exact ⟨fun h ⟨e, he, hw⟩ => h e he hw, fun h e he hw => h ⟨e, he, hw⟩⟩

end Graph

namespace TarjanState

section Push
variable {α : Type} (st : TarjanState α)

/-- The visited vertices, in the order they were visited. -/
def visited : List α := st.vertices.map (·.1)

/-- Visiting `v`: it gets the next index, as its low link too, and is pushed. -/
def push (v : α) : TarjanState α :=
  { st with index := st.index + 1, vertices := st.vertices ++ [(v, st.index + 1, st.index + 1, true)],
            stack := st.stack ++ [v] }

variable {st} {v : α}

@[simp] theorem push_index : (st.push v).index = st.index + 1 := rfl
@[simp] theorem push_stack : (st.push v).stack = st.stack ++ [v] := rfl
@[simp] theorem push_output : (st.push v).output = st.output := rfl
@[simp] theorem visited_push : (st.push v).visited = st.visited ++ [v] := by
  simp [push, visited]

theorem not_mem_take_of_mem_drop {l : List α} {x : α} {k : Nat} (hnd : l.Nodup)
    (hx : x ∈ l.drop k) : x ∉ l.take k := by
  rw [← List.take_append_drop k l] at hnd
  exact fun ht => List.disjoint_of_nodup_append hnd ht hx

end Push

variable {α : Type} [DecidableEq α] (st : TarjanState α)

/-- A visited vertex's index. -/
def num (v : α) : Nat := ((st.find v).map (·.1)).getD 0

/-- Popping the stack above its first `initialStackSize` vertices as one
component, top first. -/
def pop (initialStackSize : Nat) : TarjanState α :=
  let component := (st.stack.drop initialStackSize).reverse
  { st with stack := st.stack.take initialStackSize,
            vertices := st.vertices.map fun e =>
              if e.1 ∈ component then (e.1, e.2.1, e.2.2.1, false) else e,
            output := st.output ++ [component] }

variable {st} {v x : α} {low k : Nat}

/-! ### Fields -/

@[simp] theorem setLowlink_index : (st.setLowlink v low).index = st.index := rfl
@[simp] theorem setLowlink_stack : (st.setLowlink v low).stack = st.stack := rfl
@[simp] theorem setLowlink_output : (st.setLowlink v low).output = st.output := rfl
@[simp] theorem visited_setLowlink : (st.setLowlink v low).visited = st.visited := by
  simp only [setLowlink, visited, List.map_map]
  congr 1
  funext e
  by_cases h : e.1 = v <;> simp [h]

@[simp] theorem pop_index : (st.pop k).index = st.index := rfl
@[simp] theorem pop_stack : (st.pop k).stack = st.stack.take k := rfl
@[simp] theorem pop_output : (st.pop k).output = st.output ++ [(st.stack.drop k).reverse] := rfl
@[simp] theorem visited_pop : (st.pop k).visited = st.visited := by
  simp only [pop, visited, List.map_map]
  congr 1
  funext e
  by_cases h : e.1 ∈ st.stack.drop k <;> simp [h]

/-! ### Lookups -/

/-- A lookup through a map of the entries that keeps their vertices. -/
private theorem find?_map_key {β : Type} (l : List (α × β)) (f : α × β → α × β)
    (hf : ∀ e, (f e).1 = e.1) (x : α) :
    (l.map f).find? (·.1 == x) = (l.find? (·.1 == x)).map f := by
  rw [List.find?_map]
  congr 2
  funext e
  simp [hf]

theorem find_eq_none_iff : st.find x = none ↔ x ∉ st.visited := by
  rw [find, Option.map_eq_none_iff, List.find?_eq_none, visited]
  simp only [beq_iff_eq, List.mem_map]
  exact ⟨fun h ⟨e, he, hx⟩ => h e he hx, fun h e he hx => h ⟨e, he, hx⟩⟩

theorem find_isSome_iff : (st.find x).isSome ↔ x ∈ st.visited := by
  rw [← not_iff_not, Option.not_isSome_iff_eq_none, find_eq_none_iff]

theorem find_push_ne (h : x ≠ v) : (st.push v).find x = st.find x := by
  simp [find, push, List.find?_append, Ne.symm h]

theorem find_push_self (hv : v ∉ st.visited) :
    (st.push v).find v = some (st.index + 1, st.index + 1, true) := by
  have hnone : st.find v = none := find_eq_none_iff.mpr hv
  simp only [find, Option.map_eq_none_iff] at hnone
  simp [find, push, List.find?_append, hnone]

theorem find_setLowlink :
    (st.setLowlink v low).find x =
      if x = v then (st.find x).map (fun e => (e.1, low, e.2.2)) else st.find x := by
  simp only [find, setLowlink]
  rw [find?_map_key _ _ (fun e => by by_cases h : e.1 = v <;> simp [h])]
  cases hf : st.vertices.find? (·.1 == x) with
  | none => simp
  | some e =>
    have hx : e.1 = x := by simpa using List.find?_some hf
    by_cases h : x = v <;> simp [hx, h]

theorem find_pop :
    (st.pop k).find x =
      if x ∈ st.stack.drop k then (st.find x).map (fun e => (e.1, e.2.1, false)) else st.find x := by
  simp only [find, pop]
  rw [find?_map_key _ _ (fun e => by by_cases h : e.1 ∈ (st.stack.drop k).reverse <;> simp [h])]
  cases hf : st.vertices.find? (·.1 == x) with
  | none => simp
  | some e =>
    have hx : e.1 = x := by simpa using List.find?_some hf
    by_cases h : x ∈ st.stack.drop k <;> simp [hx, h]

/-! ### Indices and low links -/

theorem num_push_ne (h : x ≠ v) : (st.push v).num x = st.num x := by
  simp [num, find_push_ne h]

theorem lowlink_push_ne (h : x ≠ v) : (st.push v).lowlink x = st.lowlink x := by
  simp [lowlink, find_push_ne h]

theorem num_push_self (hv : v ∉ st.visited) : (st.push v).num v = st.index + 1 := by
  simp [num, find_push_self hv]

theorem lowlink_push_self (hv : v ∉ st.visited) : (st.push v).lowlink v = st.index + 1 := by
  simp [lowlink, find_push_self hv]

@[simp] theorem num_setLowlink : (st.setLowlink v low).num x = st.num x := by
  by_cases h : x = v
  · subst h
    cases hf : st.find x <;> simp [num, find_setLowlink, hf]
  · simp [num, find_setLowlink, h]

theorem lowlink_setLowlink_self (hv : v ∈ st.visited) : (st.setLowlink v low).lowlink v = low := by
  obtain ⟨e, he⟩ := Option.isSome_iff_exists.mp (find_isSome_iff.mpr hv)
  simp [lowlink, find_setLowlink, he]

theorem lowlink_setLowlink_ne (h : x ≠ v) : (st.setLowlink v low).lowlink x = st.lowlink x := by
  simp [lowlink, find_setLowlink, h]

@[simp] theorem num_pop : (st.pop k).num x = st.num x := by
  by_cases h : x ∈ st.stack.drop k
  · cases hf : st.find x <;> simp [num, find_pop, h, hf]
  · simp [num, find_pop, h]

@[simp] theorem lowlink_pop : (st.pop k).lowlink x = st.lowlink x := by
  by_cases h : x ∈ st.stack.drop k
  · cases hf : st.find x <;> simp [lowlink, find_pop, h, hf]
  · simp [lowlink, find_pop, h]

theorem find_eq_some (hx : x ∈ st.visited) :
    ∃ b, st.find x = some (st.num x, st.lowlink x, b) := by
  obtain ⟨e, he⟩ := Option.isSome_iff_exists.mp (find_isSome_iff.mpr hx)
  exact ⟨e.2.2, by simp [num, lowlink, he]⟩

/-! ### Frames -/

/-- `st'` goes on from `st`: it has visited what `st` visited, first and in the
same order, and keeps the entry of each such vertex. -/
def Frame (st st' : TarjanState α) : Prop :=
  st.visited <+: st'.visited ∧ ∀ x ∈ st.visited, st'.find x = st.find x

namespace Frame
variable {st₀ st' st'' : TarjanState α}

theorem refl (st : TarjanState α) : Frame st st := ⟨List.prefix_refl _, fun _ _ => rfl⟩

theorem trans (h : Frame st st') (h' : Frame st' st'') : Frame st st'' :=
  ⟨h.1.trans h'.1, fun x hx => (h'.2 x (h.1.subset hx)).trans (h.2 x hx)⟩

theorem mem (h : Frame st st') (hx : x ∈ st.visited) : x ∈ st'.visited := h.1.subset hx

theorem num_eq (h : Frame st st') (hx : x ∈ st.visited) : st'.num x = st.num x := by
  simp [TarjanState.num, h.2 x hx]

theorem lowlink_eq (h : Frame st st') (hx : x ∈ st.visited) : st'.lowlink x = st.lowlink x := by
  simp [TarjanState.lowlink, h.2 x hx]

theorem length_le (h : Frame st st') : st.visited.length ≤ st'.visited.length := h.1.length_le

theorem length_lt (h : Frame st st') (hv : v ∉ st.visited) (hv' : v ∈ st'.visited) :
    st.visited.length < st'.visited.length := by
  obtain ⟨rest, hrest⟩ := h.1
  rw [← hrest, List.mem_append] at hv'
  have hne : rest ≠ [] := by
    rintro rfl
    exact hv (hv'.resolve_right List.not_mem_nil)
  rw [← hrest, List.length_append]
  have := List.length_pos_of_ne_nil hne
  omega

theorem setLowlink (h : Frame st₀ st) (hv : v ∉ st₀.visited) : Frame st₀ (st.setLowlink v low) :=
  ⟨by simpa using h.1, fun x hx => by
    rw [find_setLowlink, if_neg (fun (e : x = v) => hv (e ▸ hx)), h.2 x hx]⟩

theorem pop (h : Frame st₀ st) (hfresh : ∀ x ∈ st.stack.drop k, x ∉ st₀.visited) :
    Frame st₀ (st.pop k) :=
  ⟨by simpa using h.1, fun x hx => by rw [find_pop, if_neg (fun hd => hfresh x hd hx), h.2 x hx]⟩

end Frame

theorem frame_push (hv : v ∉ st.visited) : Frame st (st.push v) :=
  ⟨by simp, fun x hx => find_push_ne (fun e => hv (e ▸ hx))⟩

/-! ### Lowering one low link -/

/-- `st'` is `st`, or `st` with the low link of `v` lowered. -/
def Lowers (v : α) (st st' : TarjanState α) : Prop :=
  st' = st ∨ ∃ low ≤ st.lowlink v, st' = st.setLowlink v low

namespace Lowers
variable {st' : TarjanState α}

theorem refl (st : TarjanState α) (v : α) : Lowers v st st := .inl rfl

theorem setLowlink (h : low ≤ st.lowlink v) : Lowers v st (st.setLowlink v low) := .inr ⟨low, h, rfl⟩

theorem visited_eq (h : Lowers v st st') : st'.visited = st.visited := by
  rcases h with rfl | ⟨low, -, rfl⟩ <;> simp

theorem stack_eq (h : Lowers v st st') : st'.stack = st.stack := by
  rcases h with rfl | ⟨low, -, rfl⟩ <;> simp

theorem num_eq (h : Lowers v st st') (x : α) : st'.num x = st.num x := by
  rcases h with rfl | ⟨low, -, rfl⟩ <;> simp

theorem lowlink_ne (h : Lowers v st st') (hx : x ≠ v) : st'.lowlink x = st.lowlink x := by
  rcases h with rfl | ⟨low, -, rfl⟩
  · rfl
  · exact lowlink_setLowlink_ne hx

theorem lowlink_le (h : Lowers v st st') (hv : v ∈ st.visited) : st'.lowlink v ≤ st.lowlink v := by
  rcases h with rfl | ⟨low, hle, rfl⟩
  · exact le_rfl
  · rwa [lowlink_setLowlink_self hv]

theorem frame {st₀ : TarjanState α} (h : Lowers v st st') (hf : Frame st₀ st) (hv : v ∉ st₀.visited) :
    Frame st₀ st' := by
  rcases h with rfl | ⟨low, -, rfl⟩
  · exact hf
  · exact hf.setLowlink hv

end Lowers

/-! ### The invariant -/

variable (graph : List (α × List α))

/-- What holds of the record between calls of `strongConnect`. -/
structure Inv (st : TarjanState α) : Prop where
  visited_nodup : st.visited.Nodup
  visited_key : ∀ x ∈ st.visited, x ∈ graph.map Prod.fst
  num_le : ∀ x ∈ st.visited, st.num x ≤ st.index
  stacked_iff : ∀ x e, st.find x = some e → (e.2.2 = true ↔ x ∈ st.stack)
  stack_sorted : st.stack.Pairwise fun x y => st.num x < st.num y
  perm : (st.output.flatten ++ st.stack).Perm st.visited
  strongly : ∀ c ∈ st.output, Components.Strongly (Edge graph) c
  closed : Components.PrefixClosed (Edge graph) st.output
  low_le : ∀ x ∈ st.stack, st.lowlink x ≤ st.num x
  low_reach : ∀ x ∈ st.stack, ∃ y ∈ st.stack, st.num y = st.lowlink x ∧ ReflTransGen (Edge graph) x y

variable {graph}

namespace Inv

theorem mem_visited_iff (h : Inv graph st) : x ∈ st.visited ↔ x ∈ st.output.flatten ∨ x ∈ st.stack := by
  rw [← h.perm.mem_iff, List.mem_append]

theorem mem_visited_of_stack (h : Inv graph st) (hx : x ∈ st.stack) : x ∈ st.visited :=
  h.mem_visited_iff.mpr (.inr hx)

theorem nodup_append (h : Inv graph st) : (st.output.flatten ++ st.stack).Nodup :=
  h.perm.nodup_iff.mpr h.visited_nodup

theorem output_nodup (h : Inv graph st) : st.output.flatten.Nodup :=
  (List.nodup_append.mp h.nodup_append).1

theorem stack_nodup (h : Inv graph st) : st.stack.Nodup :=
  (List.nodup_append.mp h.nodup_append).2.1

theorem not_mem_output (h : Inv graph st) (hx : x ∈ st.stack) : x ∉ st.output.flatten :=
  fun ho => List.disjoint_of_nodup_append h.nodup_append ho hx

/-- Fewer vertices are visited than there are keys while a key is unvisited. -/
theorem visited_length_lt (h : Inv graph st) (hv : v ∉ st.visited) (hk : v ∈ graph.map Prod.fst) :
    st.visited.length < graph.length := by
  have hsub : v :: st.visited ⊆ graph.map Prod.fst := List.cons_subset.mpr ⟨hk, h.visited_key⟩
  have hle := ((List.nodup_cons.mpr ⟨hv, h.visited_nodup⟩).subperm hsub).length_le
  simp only [List.length_cons, List.length_map] at hle
  omega

end Inv

theorem inv_init : Inv graph (⟨0, [], [], []⟩ : TarjanState α) where
  visited_nodup := by simp [visited]
  visited_key := by simp [visited]
  num_le := by simp [visited]
  stacked_iff x e he := by simp [find] at he
  stack_sorted := List.Pairwise.nil
  perm := by simp [visited]
  strongly := by simp
  closed := Components.PrefixClosed.nil
  low_le := by simp
  low_reach := by simp

/-- Visiting a new key keeps the invariant. -/
theorem Inv.push (h : Inv graph st) (hv : v ∉ st.visited) (hk : v ∈ graph.map Prod.fst) :
    Inv graph (st.push v) := by
  have hne : ∀ x ∈ st.stack, x ≠ v := fun x hx e => hv (e ▸ h.mem_visited_of_stack hx)
  refine { visited_nodup := ?_, visited_key := ?_, num_le := ?_, stacked_iff := ?_,
           stack_sorted := ?_, perm := ?_, strongly := by simpa using h.strongly,
           closed := by simpa using h.closed, low_le := ?_, low_reach := ?_ }
  · rw [visited_push, List.nodup_append]
    exact ⟨h.visited_nodup, List.nodup_singleton v, fun a ha b hb e => hv (by simp_all)⟩
  · intro x hx
    rw [visited_push, List.mem_append, List.mem_singleton] at hx
    rcases hx with hx | rfl
    · exact h.visited_key x hx
    · exact hk
  · intro x hx
    rw [visited_push, List.mem_append, List.mem_singleton] at hx
    rcases hx with hx | rfl
    · have hxv : x ≠ v := fun e => hv (e ▸ hx)
      rw [num_push_ne hxv, push_index]
      exact Nat.le_succ_of_le (h.num_le x hx)
    · rw [num_push_self hv, push_index]
  · intro x e he
    by_cases hxv : x = v
    · subst hxv
      rw [find_push_self hv] at he
      cases he
      simp
    · rw [find_push_ne hxv] at he
      rw [h.stacked_iff x e he, push_stack, List.mem_append, List.mem_singleton]
      simp [hxv]
  · rw [push_stack, List.pairwise_append]
    refine ⟨?_, List.pairwise_singleton _ _, fun x hx y hy => ?_⟩
    · refine h.stack_sorted.imp_of_mem fun {a b} ha hb hab => ?_
      rwa [num_push_ne (hne a ha), num_push_ne (hne b hb)]
    · rw [List.mem_singleton] at hy
      subst hy
      rw [num_push_ne (hne x hx), num_push_self hv]
      exact Nat.lt_succ_of_le (h.num_le x (h.mem_visited_of_stack hx))
  · rw [push_output, push_stack, visited_push, ← List.append_assoc]
    exact h.perm.append_right [v]
  · intro x hx
    rw [push_stack, List.mem_append, List.mem_singleton] at hx
    rcases hx with hx | rfl
    · rw [lowlink_push_ne (hne x hx), num_push_ne (hne x hx)]
      exact h.low_le x hx
    · rw [lowlink_push_self hv, num_push_self hv]
  · intro x hx
    rw [push_stack, List.mem_append, List.mem_singleton] at hx
    rcases hx with hx | rfl
    · obtain ⟨y, hy, hyl, hxy⟩ := h.low_reach x hx
      refine ⟨y, by simp [hy], ?_, hxy⟩
      rw [lowlink_push_ne (hne x hx), num_push_ne (hne y hy), hyl]
    · exact ⟨x, by simp, by rw [lowlink_push_self hv, num_push_self hv], .refl⟩

/-- Lowering the low link of a stacked vertex to the index of a stacked vertex it
reaches keeps the invariant. -/
theorem Inv.setLowlink (h : Inv graph st) (hv : v ∈ st.stack) (hle : low ≤ st.num v)
    (hy : ∃ y ∈ st.stack, st.num y = low ∧ ReflTransGen (Edge graph) v y) :
    Inv graph (st.setLowlink v low) := by
  have hvis := h.mem_visited_of_stack hv
  refine { visited_nodup := by simpa using h.visited_nodup,
           visited_key := by simpa using h.visited_key, num_le := by simpa using h.num_le,
           stacked_iff := ?_, stack_sorted := by simpa using h.stack_sorted,
           perm := by simpa using h.perm, strongly := by simpa using h.strongly,
           closed := by simpa using h.closed, low_le := ?_, low_reach := ?_ }
  · intro x e he
    rw [find_setLowlink] at he
    by_cases hxv : x = v
    · rw [if_pos hxv] at he
      obtain ⟨e₀, he₀, rfl⟩ := Option.map_eq_some_iff.mp he
      simpa using h.stacked_iff x e₀ he₀
    · rw [if_neg hxv] at he
      simpa using h.stacked_iff x e he
  · intro x hx
    by_cases hxv : x = v
    · subst hxv
      rw [lowlink_setLowlink_self hvis, num_setLowlink]
      exact hle
    · rw [lowlink_setLowlink_ne hxv, num_setLowlink]
      exact h.low_le x hx
  · intro x hx
    by_cases hxv : x = v
    · subst hxv
      simpa [lowlink_setLowlink_self hvis] using hy
    · simpa [lowlink_setLowlink_ne hxv] using h.low_reach x hx

/-- Popping a strongly connected top whose edges stay in it or in the output,
above a stack whose low links are still met below it, keeps the invariant. -/
theorem Inv.pop (h : Inv graph st) (hs : Components.Strongly (Edge graph) (st.stack.drop k))
    (hc : ∀ x ∈ st.stack.drop k, ∀ z, Edge graph x z → z ∈ st.output.flatten ∨ z ∈ st.stack.drop k)
    (hlow : ∀ x ∈ st.stack.take k,
      ∃ y ∈ st.stack.take k, st.num y = st.lowlink x ∧ ReflTransGen (Edge graph) x y) :
    Inv graph (st.pop k) := by
  refine { visited_nodup := by simpa using h.visited_nodup,
           visited_key := by simpa using h.visited_key, num_le := by simpa using h.num_le,
           stacked_iff := ?_, stack_sorted := ?_, perm := ?_, strongly := ?_, closed := ?_,
           low_le := ?_, low_reach := by simpa using hlow }
  · intro x e he
    rw [find_pop] at he
    by_cases hd : x ∈ st.stack.drop k
    · rw [if_pos hd] at he
      obtain ⟨e₀, -, rfl⟩ := Option.map_eq_some_iff.mp he
      simpa using not_mem_take_of_mem_drop h.stack_nodup hd
    · rw [if_neg hd] at he
      rw [h.stacked_iff x e he, pop_stack]
      constructor
      · intro hx
        rw [← List.take_append_drop k st.stack, List.mem_append] at hx
        exact hx.resolve_right hd
      · exact List.mem_of_mem_take
  · simpa using h.stack_sorted.sublist (List.take_sublist k st.stack)
  · rw [pop_output, pop_stack, visited_pop, List.flatten_append, List.flatten_singleton,
      List.append_assoc]
    refine List.Perm.trans ?_ h.perm
    refine List.Perm.append_left _ ?_
    calc List.Perm ((st.stack.drop k).reverse ++ st.stack.take k) (st.stack.drop k ++ st.stack.take k) :=
          (List.reverse_perm _).append_right _
      List.Perm _ (st.stack.take k ++ st.stack.drop k) := List.perm_append_comm
      _ = st.stack := List.take_append_drop k st.stack
  · intro c hc'
    rw [pop_output, List.mem_append, List.mem_singleton] at hc'
    rcases hc' with hc' | rfl
    · exact h.strongly c hc'
    · intro x hx y hy
      exact hs x (List.mem_reverse.mp hx) y (List.mem_reverse.mp hy)
  · rw [pop_output]
    refine Components.PrefixClosed.append h.closed fun x hx z hz => ?_
    rw [List.mem_reverse] at hx ⊢
    exact hc x hx z hz
  · intro x hx
    rw [pop_stack] at hx
    simpa using h.low_le x (List.mem_of_mem_take hx)

end TarjanState

end Kickboxer.Consensus
