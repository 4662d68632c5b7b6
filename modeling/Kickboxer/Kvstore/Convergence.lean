import Kickboxer.Kvstore.Store
import Mathlib.Data.List.MinMax
import Mathlib.Data.List.Pairwise

/-! Batches of writes on one key, in any order.

`executeAll` runs a batch through `ExecuteInstruction`. A `DEL` on an absent key
is ignored, and a present key becomes a tombstone whatever its timestamp, so a
`SET` and a later `DEL` leave different values in the two orders
(`executeAll_set_del_order`).

Without deletes the store is last-writer-wins: `set` keeps a value only when the
new timestamp is strictly older, so two `SET`s with different timestamps commute
(`exec_set_comm`), a batch may be run in any order, and the key ends with the
string of the batch's latest `SET`, or with the initial value when that is newer
(`set_batch_converges`). -/
namespace Kickboxer.Kvstore
open Store

namespace KVStore

/-- Running a batch of instructions, in order, through `ExecuteInstruction`. -/
def executeAll (s : KVStore) (batch : List Instruction) : KVStore :=
  batch.foldl (fun s i => (s.ExecuteInstruction i).1) s

/-- A `SET` on `key` of the value `v` at `ts`, and a `DEL` of `key` at `ts`. -/
def setInstruction (key v : String) (ts : Int) : Instruction := ⟨"SET", key, [v], ⟨ts⟩⟩

def delInstruction (key : String) (ts : Int) : Instruction := ⟨"DEL", key, [], ⟨ts⟩⟩

/-- From an empty store, a `SET` at time 1 and a `DEL` at time 2 leave a tombstone
in one order and the string in the other. -/
theorem executeAll_set_del_order :
    (NewKVStore.executeAll [setInstruction "k" "a" 1, delInstruction "k" 2]).data "k" =
        some (.tombstone ⟨2⟩) ∧
      (NewKVStore.executeAll [delInstruction "k" 2, setInstruction "k" "a" 1]).data "k" =
        some (.string "a" ⟨1⟩) := by
  decide

/-! ### `SET` alone is last-writer-wins -/

/-- What `set` leaves at the key: the old value when it is strictly newer. -/
def setValue (old : Option Value) (val : String) (ts : Time) : Value :=
  match old with
  | some e => if ts.Before e.GetTimestamp then e else .string val ts
  | none => .string val ts

theorem write_of_data {s : KVStore} {key : String} {v : Value} (h : s.data key = some v) :
    s.write key v = s := by
  cases s with
  | mk data =>
    simp only [write, KVStore.mk.injEq]
    funext k
    by_cases hk : k = key
    · rw [if_pos hk, hk]
      exact h.symm
    · rw [if_neg hk]

theorem set_fst (s : KVStore) (key val : String) (ts : Time) :
    (s.set key val ts).1 = s.write key (setValue (s.data key) val ts) := by
  cases hd : s.data key with
  | none => simp [set, setValue, hd]
  | some e =>
    by_cases hb : ts.Before e.GetTimestamp = true
    · simp [set, setValue, hd, hb, write_of_data hd]
    · simp [set, setValue, hd, hb]

/-- The instructions `set_batch_converges` is about: valid `SET`s on `key`. -/
structure ValidSet (key : String) (i : Instruction) : Prop where
  cmd : i.Cmd = "SET"
  onKey : i.Key = key
  args : i.Args.length = 1
  nonzero : i.Timestamp.instant ≠ 0

theorem exec_valid_set {key : String} {i : Instruction} (h : ValidSet key i) (s : KVStore) :
    (s.ExecuteInstruction i).1 = s.write key (setValue (s.data key) (i.Args.headD "") i.Timestamp) := by
  rw [executeInstruction_set s i h.cmd h.args h.nonzero, set_fst, h.onKey]

theorem setValue_some (v : Value) (val : String) (ts : Time) :
    setValue (some v) val ts = if ts.instant < v.GetTimestamp.instant then v else .string val ts := by
  simp [setValue, Time.Before]

theorem setValue_none (val : String) (ts : Time) : setValue none val ts = .string val ts := rfl

theorem setValue_timestamp_ge (old : Option Value) (val : String) (ts : Time) :
    ts.instant ≤ (setValue old val ts).GetTimestamp.instant := by
  cases old with
  | none => exact le_refl _
  | some e =>
    rw [setValue_some]
    split
    · rename_i hb
      exact le_of_lt hb
    · exact le_refl _

theorem instant_ne {t u : Time} (h : t ≠ u) : t.instant ≠ u.instant :=
  fun he => h (by cases t; cases u; simp_all)

/-- Two writes with different timestamps leave the same value in either order. -/
theorem setValue_comm (old : Option Value) (a b : String) (ta tb : Time) (h : ta ≠ tb) :
    setValue (some (setValue old a ta)) b tb = setValue (some (setValue old b tb)) a ta := by
  have hne := instant_ne h
  cases old with
  | none =>
    simp only [setValue_none, setValue_some, Value.getTimestamp_string]
    rcases lt_or_gt_of_ne hne with hab | hba
    · simp [hab, not_lt.mpr hab.le]
    · simp [hba, not_lt.mpr hba.le]
  | some e =>
    simp only [setValue_some]
    by_cases hae : ta.instant < e.GetTimestamp.instant <;>
      by_cases hbe : tb.instant < e.GetTimestamp.instant
    · simp [hae, hbe]
    · -- only `b` is newer than the old value
      have hab : ta.instant < tb.instant := by omega
      simp [hae, hbe, hab]
    · have hba : tb.instant < ta.instant := by omega
      simp [hae, hbe, hba]
    · -- both are newer than the old value: the later of the two stays
      rcases lt_or_gt_of_ne hne with hab | hba
      · simp [hae, hbe, hab, not_lt.mpr hab.le]
      · simp [hae, hbe, hba, not_lt.mpr hba.le]

/-- A write followed by a later one leaves what the later one alone leaves. -/
theorem setValue_later (old : Option Value) (a b : String) (ta tb : Time)
    (h : ta.instant < tb.instant) :
    setValue (some (setValue old a ta)) b tb = setValue old b tb := by
  cases old with
  | none =>
    simp [setValue_none, setValue_some, not_lt.mpr h.le]
  | some e =>
    simp only [setValue_some]
    by_cases hae : ta.instant < e.GetTimestamp.instant
    · simp [hae]
    · have hbe : ¬ tb.instant < e.GetTimestamp.instant := by omega
      simp [hae, hbe, not_lt.mpr h.le]

/-- A write followed by an earlier one leaves what the first write left. -/
theorem setValue_earlier (old : Option Value) (a b : String) (ta tb : Time)
    (h : tb.instant < ta.instant) :
    setValue (some (setValue old a ta)) b tb = setValue old a ta := by
  have hge := setValue_timestamp_ge old a ta
  rw [setValue_some, if_pos (by omega)]

theorem exec_set_comm {key : String} {x y : Instruction} (hx : ValidSet key x) (hy : ValidSet key y)
    (hts : x.Timestamp ≠ y.Timestamp) (s : KVStore) :
    ((s.ExecuteInstruction x).1.ExecuteInstruction y).1 =
      ((s.ExecuteInstruction y).1.ExecuteInstruction x).1 := by
  rw [exec_valid_set hx, exec_valid_set hy, exec_valid_set hy, exec_valid_set hx]
  simp only [write_data_self]
  rw [setValue_comm _ _ _ _ _ hts]
  simp only [write, KVStore.mk.injEq]
  funext k
  by_cases hk : k = key <;> simp [hk]

/-- The write of the batch with the latest timestamp, the first of them on a tie. -/
def latestWrite (batch : List Instruction) : Option Instruction :=
  -- the order of the integers themselves, whichever order instances are in scope
  @List.argmax _ _ Int.instLinearOrder.toPartialOrder.toPreorder Int.decLt
    (fun i => i.Timestamp.instant) batch

theorem latestWrite_cons (x : Instruction) (xs : List Instruction) :
    latestWrite (x :: xs) = Option.casesOn (latestWrite xs) (some x) fun c =>
      if x.Timestamp.instant < c.Timestamp.instant then some c else some x := by
  rw [latestWrite, latestWrite, List.argmax_cons]

theorem latestWrite_mem {xs : List Instruction} {c : Instruction} (h : latestWrite xs = some c) :
    c ∈ xs :=
  List.argmax_mem h

/-- The value last-writer-wins gives a batch of writes on a key holding `old`:
the string of the batch's latest write, unless `old` is strictly newer. -/
def lwwValue (old : Option Value) (batch : List Instruction) : Option Value :=
  match latestWrite batch with
  | some w => some (setValue old (w.Args.headD "") w.Timestamp)
  | none => old

/-- One write in front of the batch: the batch's winner and the front write, in
either order of arrival, leave the later of the two. -/
theorem lwwValue_cons (old : Option Value) (x : Instruction) (xs : List Instruction)
    (hx : ∀ c ∈ xs, x.Timestamp ≠ c.Timestamp) :
    lwwValue old (x :: xs) = lwwValue (some (setValue old (x.Args.headD "") x.Timestamp)) xs := by
  unfold lwwValue
  rw [latestWrite_cons]
  cases hm : latestWrite xs with
  | none => rfl
  | some c =>
    have hne := instant_ne (hx c (latestWrite_mem hm))
    simp only
    by_cases hlt : x.Timestamp.instant < c.Timestamp.instant
    · rw [if_pos hlt, setValue_later _ _ _ _ _ hlt]
    · rw [if_neg hlt, setValue_earlier _ _ _ _ _ (by omega)]

/-- A batch run from `s` leaves at `key` what last-writer-wins says. -/
theorem executeAll_data (key : String) :
    ∀ (s : KVStore) (batch : List Instruction), (∀ i ∈ batch, ValidSet key i) →
      batch.Pairwise (fun i j => i.Timestamp ≠ j.Timestamp) →
      (s.executeAll batch).data key = lwwValue (s.data key) batch
  | s, [], _, _ => rfl
  | s, x :: xs, hv, hp => by
    have hx := hv x (List.mem_cons_self ..)
    have ih := executeAll_data key (s.ExecuteInstruction x).1 xs
      (fun i hi => hv i (List.mem_cons_of_mem _ hi)) (List.pairwise_cons.mp hp).2
    show ((s.ExecuteInstruction x).1.executeAll xs).data key = _
    rw [ih, lwwValue_cons _ _ _ (List.pairwise_cons.mp hp).1, exec_valid_set hx, write_data_self]

/-- **Last-writer-wins for `SET`s.** Valid `SET`s on one key with pairwise
distinct timestamps leave the same store in every order, and the key holds the
string of the latest of them, unless the initial value is strictly newer. -/
theorem set_batch_converges (s : KVStore) (key : String) (batch batch' : List Instruction)
    (hv : ∀ i ∈ batch, ValidSet key i)
    (hd : batch.Pairwise (fun i j => i.Timestamp ≠ j.Timestamp)) (hp : List.Perm batch' batch) :
    s.executeAll batch' = s.executeAll batch ∧
      (s.executeAll batch).data key = lwwValue (s.data key) batch := by
  have hsym : Std.Symm (fun i j : Instruction => i.Timestamp ≠ j.Timestamp) := ⟨fun _ _ h => Ne.symm h⟩
  refine ⟨?_, executeAll_data key s batch hv hd⟩
  apply hp.foldl_eq'
  intro x hx y hy z
  by_cases hxy : x = y
  · rw [hxy]
  · have hx' := hp.subset hx
    have hy' := hp.subset hy
    exact exec_set_comm (hv x hx') (hv y hy') (hd.forall hx' hy' hxy) z

theorem set_batch_converges_two :
    (∀ i ∈ [setInstruction "k" "a" 1, setInstruction "k" "b" 2], ValidSet "k" i) ∧
      [setInstruction "k" "a" 1, setInstruction "k" "b" 2].Pairwise
        (fun i j => i.Timestamp ≠ j.Timestamp) ∧
      List.Perm [setInstruction "k" "b" 2, setInstruction "k" "a" 1]
        [setInstruction "k" "a" 1, setInstruction "k" "b" 2] ∧
      (NewKVStore.executeAll [setInstruction "k" "b" 2, setInstruction "k" "a" 1] =
          NewKVStore.executeAll [setInstruction "k" "a" 1, setInstruction "k" "b" 2] ∧
        (NewKVStore.executeAll [setInstruction "k" "a" 1, setInstruction "k" "b" 2]).data "k" =
          lwwValue (NewKVStore.data "k") [setInstruction "k" "a" 1, setInstruction "k" "b" 2]) := by
  have hv : ∀ i ∈ [setInstruction "k" "a" 1, setInstruction "k" "b" 2], ValidSet "k" i := by
    intro i hi
    simp only [List.mem_cons, List.mem_nil_iff, or_false] at hi
    rcases hi with rfl | rfl <;> exact ⟨rfl, rfl, rfl, by decide⟩
  have hd : [setInstruction "k" "a" 1, setInstruction "k" "b" 2].Pairwise
      (fun i j => i.Timestamp ≠ j.Timestamp) := by decide
  have hp : List.Perm [setInstruction "k" "b" 2, setInstruction "k" "a" 1]
      [setInstruction "k" "a" 1, setInstruction "k" "b" 2] := List.Perm.swap _ _ _
  exact ⟨hv, hd, hp, set_batch_converges NewKVStore "k" _ _ hv hd hp⟩

end KVStore

end Kickboxer.Kvstore
