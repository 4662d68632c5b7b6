import Mathlib.Data.List.Nodup
import Mathlib.Data.List.Perm.Subperm

/-! Finite sets kept as lists in insertion order.

A set of a hash-map language is iterated in some order; keeping the elements as
a list in the order they were first added fixes one such order and keeps every
operation computable. `add` appends an element that is not there yet, and the
other operations are built from it and from `filter`. The lemmas say what each
operation holds, as membership facts for `simp`, and that no operation repeats
an element. -/
namespace Kickboxer.Library.ListSet

variable {α : Type} [DecidableEq α]

/-- Add `x` at the end unless it is present. -/
def add (s : List α) (x : α) : List α := if x ∈ s then s else s ++ [x]

/-- The set of a list's elements, in order of first occurrence. -/
def ofList (xs : List α) : List α := xs.foldl add []

/-- Every element of `t` added to `s`. -/
def union (s t : List α) : List α := t.foldl add s

/-- The elements of `s` that `t` holds. -/
def inter (s t : List α) : List α := s.filter (· ∈ t)

/-- The elements of `s` that `t` does not hold. -/
def diff (s t : List α) : List α := s.filter (· ∉ t)

/-- Equality of two repeat-free lists as sets: the same size, and every element
of the first in the second. -/
def equal (s t : List α) : Bool := s.length == t.length && s.all (· ∈ t)

@[simp] theorem mem_add {s : List α} {x y : α} : y ∈ add s x ↔ y ∈ s ∨ y = x := by
  unfold add
  split
  · constructor
    · exact .inl
    · rintro (h | rfl)
      · exact h
      · assumption
  · simp

theorem mem_foldl_add {s : List α} {xs : List α} {y : α} :
    y ∈ xs.foldl add s ↔ y ∈ s ∨ y ∈ xs := by
  induction xs generalizing s with
  | nil => simp
  | cons x xs ih =>
    rw [List.foldl_cons, ih, mem_add, List.mem_cons]
    tauto

@[simp] theorem mem_ofList {xs : List α} {y : α} : y ∈ ofList xs ↔ y ∈ xs := by
  simp [ofList, mem_foldl_add]

@[simp] theorem mem_union {s t : List α} {y : α} : y ∈ union s t ↔ y ∈ s ∨ y ∈ t :=
  mem_foldl_add

@[simp] theorem mem_inter {s t : List α} {y : α} : y ∈ inter s t ↔ y ∈ s ∧ y ∈ t := by
  simp [inter]

@[simp] theorem mem_diff {s t : List α} {y : α} : y ∈ diff s t ↔ y ∈ s ∧ y ∉ t := by
  simp [diff]

/-- A fold that adds the set `f e` of each element `e`. -/
theorem mem_foldl_union {β : Type} {f : β → List α} {l : List β} {s : List α} {y : α} :
    y ∈ l.foldl (fun acc e => union acc (f e)) s ↔ y ∈ s ∨ ∃ e ∈ l, y ∈ f e := by
  induction l generalizing s with
  | nil => simp
  | cons e l ih =>
    rw [List.foldl_cons, ih, mem_union, or_assoc]
    simp only [List.mem_cons, or_and_right, exists_or, exists_eq_left]

theorem nodup_add {s : List α} (h : s.Nodup) (x : α) : (add s x).Nodup := by
  unfold add
  split
  · exact h
  · refine List.nodup_append.mpr ⟨h, List.nodup_singleton x, ?_⟩
    intro a ha b hb
    rw [List.mem_singleton] at hb
    exact fun hab => by simp_all

theorem nodup_foldl_add {s : List α} (h : s.Nodup) (xs : List α) : (xs.foldl add s).Nodup := by
  induction xs generalizing s with
  | nil => exact h
  | cons x xs ih => exact ih (nodup_add h x)

theorem nodup_ofList (xs : List α) : (ofList xs).Nodup := nodup_foldl_add List.nodup_nil xs

theorem nodup_union {s : List α} (h : s.Nodup) (t : List α) : (union s t).Nodup :=
  nodup_foldl_add h t

/-- On repeat-free lists, `equal` is equality of the element sets. -/
theorem equal_iff {s t : List α} (hs : s.Nodup) (ht : t.Nodup) :
    equal s t = true ↔ ∀ x, x ∈ s ↔ x ∈ t := by
  simp only [equal, Bool.and_eq_true, beq_iff_eq, List.all_eq_true, decide_eq_true_eq]
  constructor
  · rintro ⟨hlen, hsub⟩ x
    -- a sub-list of the same length without repeats has every element
    have hsub' : s ⊆ t := fun y hy => hsub y hy
    have hperm := (hs.subperm hsub').perm_of_length_le (by omega)
    exact hperm.mem_iff
  · intro h
    have hperm : s.Perm t := (List.perm_ext_iff_of_nodup hs ht).mpr h
    exact ⟨hperm.length_eq, fun x hx => (h x).mp hx⟩

/-- Two repeat-free lists inside `all` whose lengths add up to more than
`all`'s share an element. -/
theorem exists_mem_of_length_lt {all q₁ q₂ : List α} (h₁ : q₁.Nodup) (h₂ : q₂.Nodup)
    (hs₁ : q₁ ⊆ all) (hs₂ : q₂ ⊆ all) (hlt : all.length < q₁.length + q₂.length) :
    ∃ x, x ∈ q₁ ∧ x ∈ q₂ := by
  by_contra hne
  simp only [not_exists, not_and] at hne
  -- otherwise both lists fit side by side into `all`
  have hnd : (q₁ ++ q₂).Nodup :=
    List.nodup_append.mpr ⟨h₁, h₂, fun a ha b hb hab => hne a ha (hab ▸ hb)⟩
  have hsub : q₁ ++ q₂ ⊆ all := List.append_subset.mpr ⟨hs₁, hs₂⟩
  have hle := (hnd.subperm hsub).length_le
  rw [List.length_append] at hle
  omega

/-- The prefixes of `a :: l` are the empty list and `a` before each prefix of `l`. -/
theorem exists_prefix_cons {β : Type} {a : β} {l : List β} {P : List β → Prop} :
    (∃ q, q <+: a :: l ∧ P q) ↔ P [] ∨ ∃ q, q <+: l ∧ P (a :: q) := by
  simp only [List.prefix_cons_iff]
  constructor
  · rintro ⟨q, rfl | ⟨t, rfl, ht⟩, hP⟩
    · exact .inl hP
    · exact .inr ⟨t, ht, hP⟩
  · rintro (hP | ⟨t, ht, hP⟩)
    · exact ⟨[], .inl rfl, hP⟩
    · exact ⟨a :: t, .inr ⟨t, rfl, ht⟩, hP⟩

end Kickboxer.Library.ListSet
