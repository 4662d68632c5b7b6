import Mathlib.Logic.Relation
import Mathlib.Data.List.Nodup

/-! Components of a relation, listed in order.

A list of components is *prefix closed* for a relation `r` when every prefix of
it, flattened, is closed under `r`: whatever a component reaches lies in it or in
a component listed before it. If no element is listed twice, the index of the
component holding a point never grows along a walk (`index_le_of_reach`). If
moreover each component is strongly connected, two listed points share a
component exactly when each reaches the other (`mem_same_iff`). A prefix-closed
list grows by a component whose steps stay in it or in the list
(`PrefixClosed.append`). -/
namespace Kickboxer.Library.Components
open Relation

variable {α : Type}

/-- Every prefix of `comps`, flattened, is closed under `r`. -/
def PrefixClosed (r : α → α → Prop) (comps : List (List α)) : Prop :=
  ∀ n x y, r x y → x ∈ (comps.take n).flatten → y ∈ (comps.take n).flatten

/-- Every point of `c` reaches every other. -/
def Strongly (r : α → α → Prop) (c : List α) : Prop :=
  ∀ x ∈ c, ∀ y ∈ c, ReflTransGen r x y

variable {r : α → α → Prop} {comps : List (List α)}

theorem PrefixClosed.nil : PrefixClosed r [] := by
  simp [PrefixClosed]

theorem PrefixClosed.append {c : List α} (h : PrefixClosed r comps)
    (hc : ∀ x ∈ c, ∀ y, r x y → y ∈ comps.flatten ∨ y ∈ c) : PrefixClosed r (comps ++ [c]) := by
  intro n x y hxy hx
  by_cases hn : n ≤ comps.length
  · rw [List.take_append_of_le_length hn] at hx ⊢
    exact h n x y hxy hx
  · -- the prefix is the whole list
    have hall : (comps ++ [c]).take n = comps ++ [c] :=
      List.take_of_length_le (by simp only [List.length_append, List.length_singleton]; omega)
    rw [hall] at hx ⊢
    simp only [List.flatten_append, List.flatten_cons, List.flatten_nil, List.append_nil,
      List.mem_append] at hx ⊢
    rcases hx with hx | hx
    · have hy := h comps.length x y hxy (by rwa [List.take_length])
      rw [List.take_length] at hy
      exact .inl hy
    · exact hc x hx y hxy

theorem PrefixClosed.reach (h : PrefixClosed r comps) (n : Nat) {x y : α} (hxy : ReflTransGen r x y)
    (hx : x ∈ (comps.take n).flatten) : y ∈ (comps.take n).flatten := by
  induction hxy with
  | refl => exact hx
  | tail _ hyz ih => exact h n _ _ hyz ih

theorem mem_take_flatten {i : Nat} (hi : i < comps.length) {x : α} (hx : x ∈ comps[i]) :
    x ∈ (comps.take (i + 1)).flatten :=
  List.mem_flatten.mpr ⟨comps[i], List.mem_iff_getElem.mpr ⟨i, by simp; omega, by simp⟩, hx⟩

theorem exists_index_of_mem_take_flatten {n : Nat} {x : α} (hx : x ∈ (comps.take n).flatten) :
    ∃ j, ∃ hj : j < comps.length, j < n ∧ x ∈ comps[j] := by
  obtain ⟨c, hc, hxc⟩ := List.mem_flatten.mp hx
  obtain ⟨j, hj, rfl⟩ := List.mem_iff_getElem.mp hc
  simp only [List.length_take] at hj
  rw [List.getElem_take] at hxc
  exact ⟨j, by omega, by omega, hxc⟩

theorem exists_index_of_mem_flatten {x : α} (hx : x ∈ comps.flatten) :
    ∃ j, ∃ hj : j < comps.length, x ∈ comps[j] := by
  obtain ⟨c, hc, hxc⟩ := List.mem_flatten.mp hx
  obtain ⟨j, hj, rfl⟩ := List.mem_iff_getElem.mp hc
  exact ⟨j, hj, hxc⟩

/-- A point listed once lies in one component. -/
theorem index_unique (hnd : comps.flatten.Nodup) {i j : Nat} (hi : i < comps.length)
    (hj : j < comps.length) {x : α} (hxi : x ∈ comps[i]) (hxj : x ∈ comps[j]) : i = j := by
  have hdisj := (List.nodup_flatten.mp hnd).2
  by_contra hne
  rcases Nat.lt_or_gt_of_ne hne with hlt | hlt
  · exact List.disjoint_left.mp (List.pairwise_iff_getElem.mp hdisj i j hi hj hlt) hxi hxj
  · exact List.disjoint_left.mp (List.pairwise_iff_getElem.mp hdisj j i hj hi hlt) hxj hxi

/-- Along a walk the component index never grows. -/
theorem index_le_of_reach (h : PrefixClosed r comps) (hnd : comps.flatten.Nodup) {i j : Nat}
    (hi : i < comps.length) (hj : j < comps.length) {x y : α} (hx : x ∈ comps[i]) (hy : y ∈ comps[j])
    (hxy : ReflTransGen r x y) : j ≤ i := by
  obtain ⟨k, hk, hki, hyk⟩ :=
    exists_index_of_mem_take_flatten (h.reach (i + 1) hxy (mem_take_flatten hi hx))
  have hkj := index_unique hnd hk hj hyk hy
  omega

/-- What a listed point reaches is listed. -/
theorem mem_flatten_of_reach (h : PrefixClosed r comps) {x y : α} (hxy : ReflTransGen r x y)
    (hx : x ∈ comps.flatten) : y ∈ comps.flatten := by
  have hy := h.reach comps.length hxy (by rwa [List.take_length])
  rwa [List.take_length] at hy

/-- Listed once, in strongly connected components closed to the front, two
points share a component exactly when each reaches the other. -/
theorem mem_same_iff (h : PrefixClosed r comps) (hnd : comps.flatten.Nodup)
    (hs : ∀ c ∈ comps, Strongly r c) {x y : α} (hx : x ∈ comps.flatten) :
    (∃ c ∈ comps, x ∈ c ∧ y ∈ c) ↔ ReflTransGen r x y ∧ ReflTransGen r y x := by
  constructor
  · rintro ⟨c, hc, hxc, hyc⟩
    exact ⟨hs c hc x hxc y hyc, hs c hc y hyc x hxc⟩
  · rintro ⟨hxy, hyx⟩
    obtain ⟨i, hi, hxi⟩ := exists_index_of_mem_flatten hx
    obtain ⟨j, hj, hyj⟩ := exists_index_of_mem_flatten (mem_flatten_of_reach h hxy hx)
    have hji := index_le_of_reach h hnd hi hj hxi hyj hxy
    have hij := index_le_of_reach h hnd hj hi hyj hxi hyx
    have hij' : i = j := by omega
    subst hij'
    exact ⟨comps[i], List.getElem_mem hi, hxi, hyj⟩

end Kickboxer.Library.Components
