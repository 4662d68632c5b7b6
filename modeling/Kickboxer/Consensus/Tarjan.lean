import Kickboxer.Consensus.TarjanState

/-! `tarjanConnect` is a decomposition into strongly connected components in
reverse topological order.

A call `strongConnect v` on an unvisited key is specified by `Visit`: it keeps
the invariant and the entries of the vertices visited before, visits `v`, and
leaves on top of the old stack the vertices of the call that are not yet in a
component. Either there are none, and `v` closed a component, or they are `v` and
vertices it reaches, each with a low link below its index and no lower than
`v`'s, whose edges all lead to visited vertices, and to stacked ones no lower
than the low link. The loop over `v`'s out-list keeps `Loop`, one lemma per branch
of its body (`loop_skip`, `loop_visited`, `loop_call`); at the end, `v` is a root
exactly when its low link is its index, and then the vertices above it reach it
back (`reach_root`, by strong induction on the index through the low links) and
their edges stay among them or in the output (`root_edges`), so the popped
component keeps the invariant (`loop_finish_pop`). With the fuel at least the
number of unvisited keys, the call meets its specification (`strongConnect_visit`,
by induction on the fuel). At the top level the stack is empty between calls, so
every key ends up in the output, and `tarjanConnect_components` reads the three
properties off the final invariant. -/
namespace Kickboxer.Consensus
open Relation Kickboxer.Library TarjanState

section Tarjan
variable {α : Type} [DecidableEq α] (graph : List (α × List α))

/-- One round of `strongConnect`'s loop over the out-list of `v`. -/
def visitEdge (fuel : Nat) (v : α) (st : TarjanState α) (w : α) : TarjanState α :=
  match graphOut graph w, st.find w with
  | none, _ => st
  | some _, none =>
    let st := strongConnect graph fuel w st
    if st.lowlink w < st.lowlink v then st.setLowlink v (st.lowlink w) else st
  | some _, some (wIndex, _, stacked) =>
    if stacked ∧ wIndex < st.lowlink v then st.setLowlink v wIndex else st

theorem strongConnect_succ (fuel : Nat) (v : α) (st : TarjanState α) :
    strongConnect graph (fuel + 1) v st =
      let st' := ((graphOut graph v).getD []).foldl (visitEdge graph fuel v) (st.push v)
      if st.index + 1 = st'.lowlink v then st'.pop st.stack.length else st' := rfl

/-- What `strongConnect v` leaves of `st` in `st'`, with `T` the vertices it left
on top of the stack. -/
structure Visit (st st' : TarjanState α) (v : α) (T : List α) : Prop where
  inv : Inv graph st'
  frame : Frame st st'
  mem : v ∈ st'.visited
  num_self : st'.num v = st.index + 1
  stack_eq : st'.stack = st.stack ++ T
  head : T = [] ∨ ∃ T', T = v :: T'
  popped : T = [] → st'.lowlink v = st'.num v
  fresh : ∀ x ∈ T, x ∉ st.visited
  seg : ∀ x ∈ T, st'.lowlink x < st'.num x ∧ ReflTransGen (Edge graph) v x ∧
    st'.lowlink v ≤ st'.lowlink x
  succ : ∀ x ∈ T, ∀ z, Edge graph x z → z ∈ st'.visited ∧ (z ∈ st'.stack → st'.lowlink x ≤ st'.num z)

/-- The state of the loop of a call `strongConnect v` on `st₀`, after the
out-neighbours `ps`, with `T` the vertices left above `v` on the stack. -/
structure Loop (st₀ : TarjanState α) (v : α) (ps T : List α) (st : TarjanState α) : Prop where
  inv : Inv graph st
  frame : Frame st₀ st
  mem : v ∈ st.visited
  num_self : st.num v = st₀.index + 1
  stack_eq : st.stack = st₀.stack ++ v :: T
  fresh : ∀ x ∈ T, x ∉ st₀.visited
  seg : ∀ x ∈ T, st.lowlink x < st.num x ∧ ReflTransGen (Edge graph) v x ∧ st.lowlink v ≤ st.lowlink x
  succ : ∀ x ∈ T, ∀ z, Edge graph x z → z ∈ st.visited ∧ (z ∈ st.stack → st.lowlink x ≤ st.num z)
  done : ∀ z ∈ ps, Edge graph v z → z ∈ st.visited ∧ (z ∈ st.stack → st.lowlink v ≤ st.num z)

variable {graph}

namespace Loop
variable {st₀ st st' : TarjanState α} {v w : α} {ps T : List α}

theorem mem_stack (hL : Loop graph st₀ v ps T st) : v ∈ st.stack := by
  simp [hL.stack_eq]

theorem not_mem_T (hL : Loop graph st₀ v ps T st) : v ∉ T := by
  have hnd := hL.inv.stack_nodup
  rw [hL.stack_eq] at hnd
  exact (List.nodup_cons.mp (List.nodup_append.mp hnd).2.1).1

theorem ne_of_mem (hL : Loop graph st₀ v ps T st) {x : α} (hx : x ∈ T) : x ≠ v :=
  fun e => hL.not_mem_T (e ▸ hx)

theorem lowlink_le_num (hL : Loop graph st₀ v ps T st) : st.lowlink v ≤ st₀.index + 1 :=
  hL.num_self ▸ hL.inv.low_le v hL.mem_stack

/-- An old vertex has an index below `v`'s. -/
theorem num_old_lt (hL : Loop graph st₀ v ps T st) (h₀ : Inv graph st₀) {x : α}
    (hx : x ∈ st₀.visited) : st.num x < st₀.index + 1 := by
  rw [hL.frame.num_eq hx]
  exact Nat.lt_succ_of_le (h₀.num_le x hx)

/-- One more out-neighbour whose edge, if any, is already accounted for. -/
theorem snoc (hL : Loop graph st₀ v ps T st)
    (hw : Edge graph v w → w ∈ st.visited ∧ (w ∈ st.stack → st.lowlink v ≤ st.num w)) :
    Loop graph st₀ v (ps ++ [w]) T st where
  inv := hL.inv
  frame := hL.frame
  mem := hL.mem
  num_self := hL.num_self
  stack_eq := hL.stack_eq
  fresh := hL.fresh
  seg := hL.seg
  succ := hL.succ
  done z hz := by
    rw [List.mem_append, List.mem_singleton] at hz
    rcases hz with hz | rfl
    · exact hL.done z hz
    · exact hw

/-- Lowering the low link of `v` keeps the loop state. -/
theorem lowers (hL : Loop graph st₀ v ps T st) (hv : v ∉ st₀.visited) (hlow : Lowers v st st')
    (hinv : Inv graph st') : Loop graph st₀ v ps T st' where
  inv := hinv
  frame := hlow.frame hL.frame hv
  mem := hlow.visited_eq ▸ hL.mem
  num_self := by rw [hlow.num_eq, hL.num_self]
  stack_eq := by rw [hlow.stack_eq, hL.stack_eq]
  fresh := hL.fresh
  seg x hx := by
    obtain ⟨hlt, hreach, hle⟩ := hL.seg x hx
    rw [hlow.lowlink_ne (hL.ne_of_mem hx), hlow.num_eq]
    exact ⟨hlt, hreach, (hlow.lowlink_le hL.mem).trans hle⟩
  succ x hx z hz := by
    rw [hlow.visited_eq, hlow.stack_eq, hlow.lowlink_ne (hL.ne_of_mem hx), hlow.num_eq]
    exact hL.succ x hx z hz
  done z hz hvz := by
    rw [hlow.visited_eq, hlow.stack_eq, hlow.num_eq]
    obtain ⟨hzv, hzs⟩ := hL.done z hz hvz
    exact ⟨hzv, fun h => (hlow.lowlink_le hL.mem).trans (hzs h)⟩

end Loop

section Steps
variable {st₀ st : TarjanState α} {v w : α} {ps T : List α}

theorem loop_start (h₀ : Inv graph st₀) (hv : v ∉ st₀.visited) (hk : v ∈ graph.map Prod.fst) :
    Loop graph st₀ v [] [] (st₀.push v) where
  inv := h₀.push hv hk
  frame := frame_push hv
  mem := by simp
  num_self := num_push_self hv
  stack_eq := by simp
  fresh := by simp
  seg := by simp
  succ := by simp
  done := by simp

/-- An out-neighbour that is not a key is skipped. -/
theorem loop_skip (hL : Loop graph st₀ v ps T st) (hw : graphOut graph w = none) :
    Loop graph st₀ v (ps ++ [w]) T st :=
  hL.snoc fun hvw => absurd hvw.2 (graphOut_eq_none_iff.mp hw)

/-- A visited out-neighbour lowers the low link of `v` to its index if it is
stacked and lower. -/
theorem loop_visited (hL : Loop graph st₀ v ps T st) (hv : v ∉ st₀.visited)
    (hw : w ∈ (graphOut graph v).getD []) (hk : w ∈ graph.map Prod.fst) {wIndex l : Nat}
    {stacked : Bool} (hf : st.find w = some (wIndex, l, stacked)) :
    Loop graph st₀ v (ps ++ [w]) T
      (if stacked ∧ wIndex < st.lowlink v then st.setLowlink v wIndex else st) := by
  have hwv : w ∈ st.visited := find_isSome_iff.mp (by simp [hf])
  have hnum : st.num w = wIndex := by simp [num, hf]
  have hstacked : stacked = true ↔ w ∈ st.stack := hL.inv.stacked_iff w _ hf
  by_cases hc : stacked = true ∧ wIndex < st.lowlink v
  · rw [if_pos hc]
    have hws : w ∈ st.stack := hstacked.mp hc.1
    have hinv := hL.inv.setLowlink hL.mem_stack
      (hc.2.le.trans (hL.inv.low_le v hL.mem_stack)) ⟨w, hws, hnum, .single ⟨hw, hk⟩⟩
    refine (hL.lowers hv (.setLowlink hc.2.le) hinv).snoc fun _ => ⟨by simpa using hwv, fun _ => ?_⟩
    rw [lowlink_setLowlink_self hL.mem, num_setLowlink, hnum]
  · rw [if_neg hc]
    refine hL.snoc fun _ => ⟨hwv, fun hws => ?_⟩
    rw [hnum]
    exact Nat.le_of_not_lt fun hlt => hc ⟨hstacked.mpr hws, hlt⟩

/-- After the call on an unvisited out-neighbour `w`, lowering the low link of
`v` to at most `w`'s, if `w` is still stacked, keeps the loop state with the
vertices the call left added on top. -/
theorem loop_call (hL : Loop graph st₀ v ps T st) (hv : v ∉ st₀.visited)
    (hw : w ∈ (graphOut graph v).getD []) (hk : w ∈ graph.map Prod.fst) (hwn : w ∉ st.visited)
    {st₂ st₃ : TarjanState α} {Tw : List α} (hV : Visit graph st st₂ w Tw) (hlow : Lowers v st₂ st₃) (hinv : Inv graph st₃)
    (hlw : Tw ≠ [] → st₃.lowlink v ≤ st₂.lowlink w) :
    Loop graph st₀ v (ps ++ [w]) (T ++ Tw) st₃ := by
  have hvw : Edge graph v w := ⟨hw, hk⟩
  have hlv : st₃.lowlink v ≤ st.lowlink v := by
    rw [← hV.frame.lowlink_eq hL.mem]
    exact hlow.lowlink_le (hV.frame.mem hL.mem)
  have hTw : ∀ x ∈ Tw, x ≠ v := fun x hx e => hV.fresh x hx (e ▸ hL.mem)
  -- a vertex visited before the call and stacked after it was stacked before it
  have hold : ∀ z ∈ st.visited, z ∈ st₃.stack → z ∈ st.stack := by
    intro z hz hzs
    rw [hlow.stack_eq, hV.stack_eq, List.mem_append] at hzs
    exact hzs.resolve_right fun hzT => hV.fresh z hzT hz
  have hmemT : ∀ x ∈ T, x ∈ st.visited := fun x hx =>
    hL.inv.mem_visited_of_stack (by simp [hL.stack_eq, hx])
  refine { inv := hinv, frame := hlow.frame (hL.frame.trans hV.frame) hv,
           mem := hlow.visited_eq ▸ hV.frame.mem hL.mem, num_self := ?_, stack_eq := ?_,
           fresh := ?_, seg := ?_, succ := ?_, done := ?_ }
  · rw [hlow.num_eq, hV.frame.num_eq hL.mem, hL.num_self]
  · rw [hlow.stack_eq, hV.stack_eq, hL.stack_eq]
    simp
  · intro x hx
    rw [List.mem_append] at hx
    rcases hx with hx | hx
    · exact hL.fresh x hx
    · exact fun h => hV.fresh x hx (hL.frame.mem h)
  · intro x hx
    rw [List.mem_append] at hx
    rcases hx with hx | hx
    · obtain ⟨hlt, hreach, hle⟩ := hL.seg x hx
      rw [hlow.lowlink_ne (hL.ne_of_mem hx), hlow.num_eq, hV.frame.lowlink_eq (hmemT x hx),
        hV.frame.num_eq (hmemT x hx)]
      exact ⟨hlt, hreach, hlv.trans hle⟩
    · obtain ⟨hlt, hreach, hle⟩ := hV.seg x hx
      rw [hlow.lowlink_ne (hTw x hx), hlow.num_eq]
      exact ⟨hlt, .head hvw hreach, (hlw (List.ne_nil_of_mem hx)).trans hle⟩
  · intro x hx z hz
    rw [hlow.visited_eq, hlow.num_eq]
    rw [List.mem_append] at hx
    rcases hx with hx | hx
    · obtain ⟨hzv, hzs⟩ := hL.succ x hx z hz
      refine ⟨hV.frame.mem hzv, fun hz₃ => ?_⟩
      rw [hlow.lowlink_ne (hL.ne_of_mem hx), hV.frame.lowlink_eq (hmemT x hx),
        hV.frame.num_eq hzv]
      exact hzs (hold z hzv hz₃)
    · rw [hlow.stack_eq, hlow.lowlink_ne (hTw x hx)]
      exact hV.succ x hx z hz
  · intro z hz hvz
    rw [hlow.visited_eq, hlow.num_eq]
    rw [List.mem_append, List.mem_singleton] at hz
    rcases hz with hz | rfl
    · obtain ⟨hzv, hzs⟩ := hL.done z hz hvz
      refine ⟨hV.frame.mem hzv, fun hz₃ => ?_⟩
      rw [hV.frame.num_eq hzv]
      exact hlv.trans (hzs (hold z hzv hz₃))
    · refine ⟨hV.mem, fun hz₃ => ?_⟩
      -- `w` is still stacked, so the call left it on top
      rw [hlow.stack_eq, hV.stack_eq, List.mem_append] at hz₃
      have hzT : z ∈ Tw := hz₃.resolve_left fun h => hwn (hL.inv.mem_visited_of_stack h)
      exact (hlw (List.ne_nil_of_mem hzT)).trans (hV.seg z hzT).1.le

/-! ### Finishing a vertex -/

/-- At a root, every vertex left above it reaches it back: its low link is the
index of a stacked vertex it reaches, no lower than the root's index, so that
vertex is above the root too and has a smaller index. -/
theorem reach_root (hL : Loop graph st₀ v ps T st) (h₀ : Inv graph st₀)
    (hroot : st.lowlink v = st₀.index + 1) : ∀ x ∈ v :: T, ReflTransGen (Edge graph) x v := by
  suffices h : ∀ m, ∀ x ∈ v :: T, st.num x = m → ReflTransGen (Edge graph) x v from
    fun x hx => h _ x hx rfl
  intro m
  induction m using Nat.strong_induction_on with
  | _ m ih =>
    intro x hx hxm
    rcases List.mem_cons.mp hx with rfl | hxT
    · exact .refl
    · obtain ⟨hlt, -, hle⟩ := hL.seg x hxT
      obtain ⟨y, hys, hyl, hxy⟩ := hL.inv.low_reach x (by simp [hL.stack_eq, hxT])
      have hy : y ∈ v :: T := by
        rw [hL.stack_eq, List.mem_append] at hys
        refine hys.resolve_left fun hy₀ => ?_
        have := hL.num_old_lt h₀ (h₀.mem_visited_of_stack hy₀)
        omega
      exact hxy.trans (ih (st.num y) (by omega) y hy rfl)

/-- At a root, an edge from a vertex left above it leads above it or into the
output: a stacked target below the root would have pulled the low links under the
root's index. -/
theorem root_edges (hL : Loop graph st₀ v ((graphOut graph v).getD []) T st) (h₀ : Inv graph st₀)
    (hroot : st.lowlink v = st₀.index + 1) :
    ∀ x ∈ v :: T, ∀ z, Edge graph x z → z ∈ st.output.flatten ∨ z ∈ v :: T := by
  intro x hx z hz
  have hzx : z ∈ st.visited ∧ (z ∈ st.stack → st.lowlink v ≤ st.num z) := by
    rcases List.mem_cons.mp hx with rfl | hxT
    · exact hL.done z hz.1 hz
    · obtain ⟨hzv, hzs⟩ := hL.succ x hxT z hz
      exact ⟨hzv, fun h => (hL.seg x hxT).2.2.trans (hzs h)⟩
  rcases hL.inv.mem_visited_iff.mp hzx.1 with ho | hs
  · exact .inl ho
  · right
    rw [hL.stack_eq, List.mem_append] at hs
    refine hs.resolve_left fun hz₀ => ?_
    have hlt := hL.num_old_lt h₀ (h₀.mem_visited_of_stack hz₀)
    have hle := hzx.2 (by simp [hL.stack_eq, hz₀])
    omega

/-- A root pops the vertices left above it as one component. -/
theorem loop_finish_pop (hL : Loop graph st₀ v ((graphOut graph v).getD []) T st)
    (h₀ : Inv graph st₀) (hv : v ∉ st₀.visited) (hroot : st₀.index + 1 = st.lowlink v) :
    Visit graph st₀ (st.pop st₀.stack.length) v [] := by
  have hdrop : st.stack.drop st₀.stack.length = v :: T := by rw [hL.stack_eq, List.drop_left]
  have htake : st.stack.take st₀.stack.length = st₀.stack := by rw [hL.stack_eq, List.take_left]
  have hfrom : ∀ y ∈ v :: T, ReflTransGen (Edge graph) v y := by
    intro y hy
    rcases List.mem_cons.mp hy with rfl | hyT
    · exact .refl
    · exact (hL.seg y hyT).2.1
  have hback := reach_root hL h₀ hroot.symm
  -- the stack below keeps its low links, read in `st₀`
  have hlow : ∀ x ∈ st₀.stack,
      ∃ y ∈ st₀.stack, st.num y = st.lowlink x ∧ ReflTransGen (Edge graph) x y := by
    intro x hx
    obtain ⟨y, hy, hyl, hxy⟩ := h₀.low_reach x hx
    refine ⟨y, hy, ?_, hxy⟩
    rw [hL.frame.num_eq (h₀.mem_visited_of_stack hy), hL.frame.lowlink_eq (h₀.mem_visited_of_stack hx),
      hyl]
  have hinv : Inv graph (st.pop st₀.stack.length) := by
    refine hL.inv.pop ?_ ?_ ?_
    · rw [hdrop]
      exact fun x hx y hy => (hback x hx).trans (hfrom y hy)
    · rw [hdrop]
      exact root_edges hL h₀ hroot.symm
    · rw [htake]
      exact hlow
  refine { inv := hinv, frame := hL.frame.pop ?_, mem := by simpa using hL.mem,
           num_self := by rw [num_pop]; exact hL.num_self, stack_eq := by simp [htake],
           head := .inl rfl, popped := fun _ => by rw [lowlink_pop, num_pop, hL.num_self, hroot],
           fresh := by simp, seg := by simp, succ := by simp }
  rw [hdrop]
  intro x hx
  rcases List.mem_cons.mp hx with rfl | hxT
  · exact hv
  · exact hL.fresh x hxT

/-- A vertex that is not a root stays on the stack with those above it. -/
theorem loop_finish_keep (hL : Loop graph st₀ v ((graphOut graph v).getD []) T st)
    (hv : v ∉ st₀.visited) (hroot : st₀.index + 1 ≠ st.lowlink v) :
    Visit graph st₀ st v (v :: T) where
  inv := hL.inv
  frame := hL.frame
  mem := hL.mem
  num_self := hL.num_self
  stack_eq := hL.stack_eq
  head := .inr ⟨T, rfl⟩
  popped h := absurd h (List.cons_ne_nil _ _)
  fresh x hx := by
    rcases List.mem_cons.mp hx with rfl | hxT
    · exact hv
    · exact hL.fresh x hxT
  seg x hx := by
    rcases List.mem_cons.mp hx with rfl | hxT
    · have hle := hL.lowlink_le_num
      rw [hL.num_self]
      exact ⟨by omega, .refl, le_rfl⟩
    · exact hL.seg x hxT
  succ x hx z hz := by
    rcases List.mem_cons.mp hx with rfl | hxT
    · exact hL.done z hz.1 hz
    · exact hL.succ x hxT z hz

end Steps

/-! ### The search -/

section Search
variable {fuel : Nat}
  (ih : ∀ w st, Inv graph st → w ∉ st.visited → w ∈ graph.map Prod.fst →
    graph.length ≤ st.visited.length + fuel → ∃ T, Visit graph st (strongConnect graph fuel w st) w T)
include ih

/-- One round of the loop, with calls of one less fuel meeting their
specification. -/
theorem loop_visitEdge {st₀ st : TarjanState α} {v w : α} {ps T : List α}
    (hL : Loop graph st₀ v ps T st) (hv : v ∉ st₀.visited)
    (hfuel : graph.length ≤ st₀.visited.length + (fuel + 1)) (hw : w ∈ (graphOut graph v).getD []) :
    ∃ T', Loop graph st₀ v (ps ++ [w]) T' (visitEdge graph fuel v st w) := by
  rcases hg : graphOut graph w with _ | outw
  · refine ⟨T, ?_⟩
    simp only [visitEdge, hg]
    exact loop_skip hL hg
  have hk : w ∈ graph.map Prod.fst := by
    by_contra hn
    rw [← graphOut_eq_none_iff, hg] at hn
    exact Option.some_ne_none _ hn
  rcases hf : st.find w with _ | ⟨wIndex, l, stacked⟩
  · have hwn : w ∉ st.visited := find_eq_none_iff.mp hf
    obtain ⟨Tw, hV⟩ := ih w st hL.inv hwn hk (by have := hL.frame.length_lt hv hL.mem; omega)
    refine ⟨T ++ Tw, ?_⟩
    simp only [visitEdge, hg, hf]
    by_cases hc : (strongConnect graph fuel w st).lowlink w < (strongConnect graph fuel w st).lowlink v
    · rw [if_pos hc]
      -- `w` is still stacked: had it closed a component, its low link would be its
      -- index, above `v`'s
      have hTw : Tw ≠ [] := by
        intro hnil
        have h₁ := hV.popped hnil
        rw [hV.num_self] at h₁
        have h₂ := hV.frame.lowlink_eq hL.mem
        have h₃ := hL.inv.low_le v hL.mem_stack
        have h₄ := hL.inv.num_le v hL.mem
        omega
      have hws : w ∈ (strongConnect graph fuel w st).stack := by
        rcases hV.head with h | ⟨T', rfl⟩
        · exact absurd h hTw
        · simp [hV.stack_eq]
      have hvs : v ∈ (strongConnect graph fuel w st).stack := by simp [hV.stack_eq, hL.mem_stack]
      obtain ⟨y, hys, hyl, hwy⟩ := hV.inv.low_reach w hws
      have hinv := hV.inv.setLowlink hvs (hc.le.trans (hV.inv.low_le v hvs))
        ⟨y, hys, hyl, .head ⟨hw, hk⟩ hwy⟩
      exact loop_call hL hv hw hk hwn hV (.setLowlink hc.le) hinv fun _ => by
        rw [lowlink_setLowlink_self (hV.frame.mem hL.mem)]
    · rw [if_neg hc]
      exact loop_call hL hv hw hk hwn hV (.refl _ _) hV.inv fun _ => Nat.le_of_not_lt hc
  · refine ⟨T, ?_⟩
    simp only [visitEdge, hg, hf]
    exact loop_visited hL hv hw hk hf

/-- The whole loop over the out-list of `v`. -/
theorem loop_foldl {st₀ : TarjanState α} {v : α} (hv : v ∉ st₀.visited)
    (hfuel : graph.length ≤ st₀.visited.length + (fuel + 1)) :
    ∀ rest ps T st, ps ++ rest = (graphOut graph v).getD [] → Loop graph st₀ v ps T st →
      ∃ T', Loop graph st₀ v ((graphOut graph v).getD []) T'
        (rest.foldl (visitEdge graph fuel v) st) := by
  intro rest
  induction rest with
  | nil =>
    intro ps T st hps hL
    rw [List.append_nil] at hps
    exact ⟨T, hps ▸ hL⟩
  | cons w rest ihr =>
    intro ps T st hps hL
    have hw : w ∈ (graphOut graph v).getD [] := by simp [← hps]
    obtain ⟨T', hL'⟩ := loop_visitEdge ih hL hv hfuel hw
    exact ihr (ps ++ [w]) T' _ (by simp [← hps]) hL'

end Search

/-- With fuel for every unvisited key, `strongConnect` on an unvisited key meets
its specification. -/
theorem strongConnect_visit : ∀ (fuel : Nat) (v : α) (st : TarjanState α), Inv graph st →
    v ∉ st.visited → v ∈ graph.map Prod.fst → graph.length ≤ st.visited.length + fuel →
    ∃ T, Visit graph st (strongConnect graph fuel v st) v T := by
  intro fuel
  induction fuel with
  | zero =>
    intro v st h hv hk hfuel
    have := h.visited_length_lt hv hk
    omega
  | succ fuel ih =>
    intro v st h hv hk hfuel
    obtain ⟨T, hL⟩ := loop_foldl ih hv hfuel _ [] [] (st.push v) rfl (loop_start h hv hk)
    rw [strongConnect_succ]
    dsimp only
    by_cases hroot : st.index + 1 =
        (((graphOut graph v).getD []).foldl (visitEdge graph fuel v) (st.push v)).lowlink v
    · rw [if_pos hroot]
      exact ⟨[], loop_finish_pop hL h hv hroot⟩
    · rw [if_neg hroot]
      exact ⟨v :: T, loop_finish_keep hL hv hroot⟩

/-- A call on an empty stack closes every component it opens. -/
theorem Visit.eq_nil {st st' : TarjanState α} {v : α} {T : List α} (hV : Visit graph st st' v T)
    (hs : st.stack = []) : T = [] := by
  rcases hV.head with h | ⟨T', rfl⟩
  · exact h
  exfalso
  have hvs : v ∈ st'.stack := by simp [hV.stack_eq]
  obtain ⟨hlt, -, -⟩ := hV.seg v List.mem_cons_self
  obtain ⟨y, hys, hyl, -⟩ := hV.inv.low_reach v hvs
  have hsorted := hV.inv.stack_sorted
  rw [hV.stack_eq, hs, List.nil_append] at hsorted hys
  rcases List.mem_cons.mp hys with rfl | hyT
  · omega
  · have := List.rel_of_pairwise_cons hsorted hyT
    omega

/-! ### The top level -/

variable (graph)

/-- One round of `tarjanConnect`'s loop over the vertices. -/
def visitRoot (st : TarjanState α) (e : α × List α) : TarjanState α :=
  if (st.find e.1).isSome then st else strongConnect graph graph.length e.1 st

theorem tarjanConnect_eq :
    tarjanConnect graph = (graph.foldl (visitRoot graph) ⟨0, [], [], []⟩).output := rfl

variable {graph}

theorem visitRoot_spec {st : TarjanState α} {e : α × List α} (h : Inv graph st) (hs : st.stack = [])
    (hk : e.1 ∈ graph.map Prod.fst) :
    Inv graph (visitRoot graph st e) ∧ (visitRoot graph st e).stack = [] ∧
      e.1 ∈ (visitRoot graph st e).visited ∧ Frame st (visitRoot graph st e) := by
  unfold visitRoot
  by_cases hvis : (st.find e.1).isSome
  · rw [if_pos hvis]
    exact ⟨h, hs, find_isSome_iff.mp hvis, .refl st⟩
  · rw [if_neg hvis]
    have hv : e.1 ∉ st.visited := fun hm => hvis (find_isSome_iff.mpr hm)
    obtain ⟨T, hV⟩ := strongConnect_visit graph.length e.1 st h hv hk (by omega)
    refine ⟨hV.inv, ?_, hV.mem, hV.frame⟩
    rw [hV.stack_eq, hs, hV.eq_nil hs]
    rfl

/-- Between rounds the stack is empty, and every vertex of a round is visited. -/
theorem visitRoot_run : ∀ (rest ps : List (α × List α)) (st : TarjanState α), ps ++ rest = graph →
    Inv graph st → st.stack = [] → (∀ e ∈ ps, e.1 ∈ st.visited) →
    Inv graph (rest.foldl (visitRoot graph) st) ∧ (rest.foldl (visitRoot graph) st).stack = [] ∧
      ∀ e ∈ graph, e.1 ∈ (rest.foldl (visitRoot graph) st).visited := by
  intro rest
  induction rest with
  | nil =>
    intro ps st hps h hs hps'
    rw [List.append_nil] at hps
    exact ⟨h, hs, hps ▸ hps'⟩
  | cons e rest ihr =>
    intro ps st hps h hs hps'
    have he : e ∈ graph := by simp [← hps]
    obtain ⟨h', hs', hmem, hfr⟩ := visitRoot_spec h hs (List.mem_map_of_mem he)
    refine ihr (ps ++ [e]) _ (by simp [← hps]) h' hs' fun e' he' => ?_
    rw [List.mem_append, List.mem_singleton] at he'
    rcases he' with he' | rfl
    · exact hfr.mem (hps' e' he')
    · exact hmem

/-- `tarjanConnect` on a graph given as a map from vertex to out-list lists every
key exactly once and nothing else, puts two keys in one component exactly when
each reaches the other along edges between keys, and lists the component an edge
leads to before the component it leaves, when they differ. -/
theorem tarjanConnect_components (hnd : (graph.map Prod.fst).Nodup) :
    (tarjanConnect graph).flatten.Perm (graph.map Prod.fst) ∧
    (∀ u ∈ graph.map Prod.fst, ∀ w ∈ graph.map Prod.fst,
      (∃ c ∈ tarjanConnect graph, u ∈ c ∧ w ∈ c) ↔
        ReflTransGen (Edge graph) u w ∧ ReflTransGen (Edge graph) w u) ∧
    (∀ i j (hi : i < (tarjanConnect graph).length) (hj : j < (tarjanConnect graph).length) u w,
      u ∈ (tarjanConnect graph)[i] → w ∈ (tarjanConnect graph)[j] → Edge graph u w → i ≠ j → j < i) := by
  obtain ⟨hinv, hs, hall⟩ := visitRoot_run graph [] ⟨0, [], [], []⟩ rfl inv_init rfl (by simp)
  rw [tarjanConnect_eq]
  have hflat : (graph.foldl (visitRoot graph) ⟨0, [], [], []⟩).output.flatten.Perm
      (graph.map Prod.fst) := by
    have h₁ := hinv.perm
    rw [hs, List.append_nil] at h₁
    refine h₁.trans ((List.perm_ext_iff_of_nodup hinv.visited_nodup hnd).mpr fun x =>
      ⟨hinv.visited_key x, fun hx => ?_⟩)
    obtain ⟨e, he, rfl⟩ := List.mem_map.mp hx
    exact hall e he
  have hnd' := hinv.output_nodup
  refine ⟨hflat, fun u hu w _ => ?_, fun i j hi hj u w hu hw huw hij => ?_⟩
  · exact Components.mem_same_iff hinv.closed hnd' hinv.strongly (hflat.mem_iff.mpr hu)
  · have := Components.index_le_of_reach hinv.closed hnd' hi hj hu hw (.single huw)
    omega

end Tarjan

/-- A two-cycle with an edge to a vertex with a self-loop, and an out-neighbour
that is not a key. -/
def tarjanGraph : List (Nat × List Nat) := [(1, [2]), (2, [1, 3, 4]), (3, [3])]

theorem tarjanConnect_components_tarjanGraph :
    (tarjanGraph.map Prod.fst).Nodup ∧ tarjanConnect tarjanGraph = [[3], [2, 1]] ∧
    ((tarjanConnect tarjanGraph).flatten.Perm (tarjanGraph.map Prod.fst) ∧
    (∀ u ∈ tarjanGraph.map Prod.fst, ∀ w ∈ tarjanGraph.map Prod.fst,
      (∃ c ∈ tarjanConnect tarjanGraph, u ∈ c ∧ w ∈ c) ↔
        ReflTransGen (Edge tarjanGraph) u w ∧ ReflTransGen (Edge tarjanGraph) w u) ∧
    (∀ i j (hi : i < (tarjanConnect tarjanGraph).length) (hj : j < (tarjanConnect tarjanGraph).length) u w,
      u ∈ (tarjanConnect tarjanGraph)[i] → w ∈ (tarjanConnect tarjanGraph)[j] → Edge tarjanGraph u w →
        i ≠ j → j < i)) :=
  ⟨by decide, by decide, tarjanConnect_components (by decide)⟩

end Kickboxer.Consensus
