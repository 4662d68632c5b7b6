import Mathlib.Order.Basic

/-! Stores kept as lists of records under a key, and how their entries evolve.

A store is a list of records, each under its key. `lookup` finds the first
record under a key and `replace` puts a record in place of those under its key;
appending adds records. `Evolves get R s s'` says that every entry of `s` is
still in `s'`, related by `R` to what it was: the frame condition of operations
that change entries in place and add new ones but never delete one. It composes
(`Evolves.trans`), and over list stores it follows from what one replacement
does to the entry it replaces (`evolves_replace`). `foldl_rel` carries such a
relation through a fold of steps. -/
namespace Kickboxer.Library

section KeyedList
variable {α κ : Type} [DecidableEq κ] (key : α → κ)

/-- The first record under `k`. -/
def lookup (l : List α) (k : κ) : Option α := l.find? (key · == k)

/-- `a` in place of every record under its key. -/
def replace (l : List α) (a : α) : List α := l.map fun b => if key b == key a then a else b

variable {key}

theorem lookup_eq_some {l : List α} {k : κ} {a : α} (h : lookup key l k = some a) :
    a ∈ l ∧ key a = k := by
  unfold lookup at h
  exact ⟨List.mem_of_find?_eq_some h, by simpa using List.find?_some h⟩

theorem lookup_replace (l : List α) (a : α) (k : κ) :
    lookup key (replace key l a) k =
      if key a = k then (lookup key l k).map fun _ => a else lookup key l k := by
  induction l with
  | nil => simp [lookup, replace]
  | cons b l ih =>
    unfold lookup replace at *
    by_cases hb : key b = key a
    · by_cases hk : key a = k <;> simp_all
    · by_cases hk : key a = k
      · subst hk
        simp_all
      · by_cases hbk : key b = k <;> simp_all

/-- A record of a replacement is the new record or one of the old. -/
theorem mem_replace {l : List α} {a b : α} (h : b ∈ replace key l a) : b = a ∨ b ∈ l := by
  obtain ⟨c, hc, rfl⟩ := List.mem_map.mp h
  by_cases hk : key c = key a
  · exact .inl (by simp [hk])
  · exact .inr (by simp [hk, hc])

theorem lookup_append (l l' : List α) (k : κ) :
    lookup key (l ++ l') k = (lookup key l k).or (lookup key l' k) := by
  simp [lookup, List.find?_append]

theorem lookup_append_of_eq_some {l : List α} {k : κ} {a : α} (l' : List α)
    (h : lookup key l k = some a) : lookup key (l ++ l') k = some a := by
  rw [lookup_append, h, Option.some_or]

end KeyedList

/-! ### Entries that evolve -/

section Evolves
variable {σ κ α : Type} (get : σ → κ → Option α) (R : α → α → Prop)

/-- Every entry of `s` is still in `s'`, related by `R` to what it was. -/
def Evolves (s s' : σ) : Prop := ∀ k a, get s k = some a → ∃ a', get s' k = some a' ∧ R a a'

variable {get R}

theorem Evolves.refl [Std.Refl R] (s : σ) : Evolves get R s s :=
  fun _ a h => ⟨a, h, Std.Refl.refl a⟩

theorem Evolves.trans [IsTrans α R] {s₁ s₂ s₃ : σ} (h₁ : Evolves get R s₁ s₂)
    (h₂ : Evolves get R s₂ s₃) : Evolves get R s₁ s₃ := by
  intro k a ha
  obtain ⟨b, hb, hab⟩ := h₁ k a ha
  obtain ⟨c, hc, hbc⟩ := h₂ k b hb
  exact ⟨c, hc, IsTrans.trans a b c hab hbc⟩

theorem Evolves.mono {R' : α → α → Prop} (hR : ∀ a b, R a b → R' a b) {s s' : σ}
    (h : Evolves get R s s') : Evolves get R' s s' := by
  intro k a ha
  obtain ⟨b, hb, hab⟩ := h k a ha
  exact ⟨b, hb, hR a b hab⟩

/-- A change that leaves every lookup as it was. -/
theorem Evolves.of_get_eq [Std.Refl R] {s s' : σ} (h : ∀ k, get s' k = get s k) :
    Evolves get R s s' := by
  intro k a ha
  exact ⟨a, (h k).trans ha, Std.Refl.refl a⟩

end Evolves

section ListStore
variable {α κ : Type} [DecidableEq κ] {key : α → κ} {R : α → α → Prop}

/-- A replacement evolves a list store when the record it replaces evolves into it. -/
theorem evolves_replace [Std.Refl R] {l : List α} {a : α}
    (h : ∀ b, lookup key l (key a) = some b → R b a) :
    Evolves (lookup key) R l (replace key l a) := by
  intro k b hb
  rw [lookup_replace]
  by_cases hk : key a = k
  · subst hk
    exact ⟨a, by simp [hb], h b hb⟩
  · exact ⟨b, by simp [hk, hb], Std.Refl.refl b⟩

theorem evolves_append [Std.Refl R] (l l' : List α) : Evolves (lookup key) R l (l ++ l') :=
  fun _ a ha => ⟨a, lookup_append_of_eq_some l' ha, Std.Refl.refl a⟩

end ListStore

/-! ### Folds -/

/-- A property that each step keeps, for the elements of the list, holds of the
fold. -/
theorem foldl_invariant {β γ : Type} (p : β → Prop) (f : β → γ → β) (l : List γ)
    (hf : ∀ b c, c ∈ l → p b → p (f b c)) (b : β) (hb : p b) : p (l.foldl f b) := by
  induction l generalizing b with
  | nil => exact hb
  | cons c l ih =>
    exact ih (fun b' c' hc' => hf b' c' (List.mem_cons_of_mem c hc')) (f b c) (hf b c List.mem_cons_self hb)

/-- A fold relates the projections of its start and its result when each step
relates them. -/
theorem foldl_rel {α β γ : Type} (R : α → α → Prop) [Std.Refl R] [IsTrans α R] (g : β → α)
    (f : β → γ → β) (hf : ∀ b c, R (g b) (g (f b c))) (l : List γ) (b : β) :
    R (g b) (g (l.foldl f b)) := by
  induction l generalizing b with
  | nil => exact Std.Refl.refl (g b)
  | cons c l ih => exact IsTrans.trans _ _ _ (hf b c) (ih (f b c))

end Kickboxer.Library
