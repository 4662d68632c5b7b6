import Kickboxer.Consensus.Protocol

/-! How a replica's instances move on (`getOrSetInstance`, `Instance.preaccept`,
`accept`, `commit`, `updateBallot`, `incrementBallot` and the operations built
on them).

`Instance.Grows P i i'` says that `i'` is `i` moved on: its status is no lower,
and, if `P` holds, neither is its ballot. `Manager.Advances P m m'` says that
every instance `m` holds is still in `m'`, grown, at the same node. Every
manager operation advances its manager; the ballot part needs, for the
operations that bump a ballot, that the ballots they read are below `2^32-1`,
the one value whose increment wraps. `P` is that assumption, made once for a
whole protocol step in `Consensus.Monotonic`; `Manager.Below` says it of a
manager's instances, and the operations that bump no ballot keep it. -/
namespace Kickboxer.Consensus
open Kickboxer.Types Store Kvstore Library

/-- The ballot whose increment wraps: `2^32-1`. -/
def ballotLimit : UInt32 := 4294967295

namespace Instance

def Below (i : Instance) : Prop := i.MaxBallot < ballotLimit

/-- `i'` is `i` moved on: no lower status and, under `P`, no lower ballot. -/
def Grows (P : Prop) (i i' : Instance) : Prop :=
  i.Status ≤ i'.Status ∧ (P → i.MaxBallot ≤ i'.MaxBallot)

instance (P : Prop) : Std.Refl (Grows P) :=
  ⟨fun _ => ⟨UInt8.le_refl _, fun _ => UInt32.le_refl _⟩⟩

instance (P : Prop) : IsTrans Instance (Grows P) :=
  ⟨fun _ _ _ hab hbc => ⟨UInt8.le_trans hab.1 hbc.1, fun hP => UInt32.le_trans (hab.2 hP) (hbc.2 hP)⟩⟩

theorem Grows.mono {P Q : Prop} (hQ : Q → P) {i i' : Instance} (h : Grows P i i') : Grows Q i i' :=
  ⟨h.1, fun hq => h.2 (hQ hq)⟩

/-- A change of neither status nor ballot. -/
theorem grows_of_eq {P : Prop} {i i' : Instance} (hs : i'.Status = i.Status)
    (hb : i'.MaxBallot = i.MaxBallot) : Grows P i i' :=
  ⟨hs ▸ UInt8.le_refl _, fun _ => hb ▸ UInt32.le_refl _⟩

theorem le_add_one_of_lt_limit {b : UInt32} (h : b < ballotLimit) : b ≤ b + 1 := by
  have hn : b.toNat < 4294967295 := UInt32.lt_iff_toNat_lt.mp h
  rw [UInt32.le_iff_toNat_le, UInt32.toNat_add]
  have : (1 : UInt32).toNat = 1 := rfl
  omega

/-- A ballot raised to `c`, then bumped if asked: no lower, unless the bump wraps. -/
theorem le_bumped {b c : UInt32} (incr : Bool) (hle : b ≤ c) (hc : incr = true → c < ballotLimit) :
    b ≤ (if incr then (· + 1) else id) c := by
  cases incr with
  | false => exact hle
  | true => exact UInt32.le_trans hle (le_add_one_of_lt_limit (hc rfl))

theorem maxBallot_lt_limit {a b : UInt32} (ha : a < ballotLimit) (hb : b < ballotLimit) :
    maxBallot a b < ballotLimit := by
  unfold maxBallot
  split
  · exact hb
  · exact ha

theorem maxBallot_of_le {a b : UInt32} (h : b ≤ a) : maxBallot a b = a := by
  unfold maxBallot
  rw [if_neg (UInt32.not_lt.mpr h)]

/-- The ballot `accept` or `commit` leaves: the copy's if higher, then bumped. -/
theorem advanceTo_ballot_le {status : InstanceStatus} {i i' : Instance} {inst : Option Instance}
    {incr : Bool} (h : advanceTo status i inst incr = .ok i')
    (hb : incr = true → i.Below ∧ ∀ o ∈ inst, o.Below) : i.MaxBallot ≤ i'.MaxBallot := by
  obtain ⟨-, -, -, -, -, -, hm⟩ := advanceTo_eq_ok h
  rw [hm]
  cases inst with
  | none => exact le_bumped incr (UInt32.le_refl _) fun h => (hb h).1
  | some o =>
    exact le_bumped incr (maxBallot_ge_left _ _) fun h =>
      maxBallot_lt_limit (hb h).1 ((hb h).2 o rfl)

theorem advanceTo_grows {P : Prop} {status : InstanceStatus} {i i' : Instance}
    {inst : Option Instance} {incr : Bool} (h : advanceTo status i inst incr = .ok i')
    (hb : P → incr = true → i.Below ∧ ∀ o ∈ inst, o.Below) : Grows P i i' :=
  ⟨advanceTo_status_le h, fun hP => advanceTo_ballot_le h (hb hP)⟩

/-- Without a bump, `accept` and `commit` keep a ballot below the limit. -/
theorem advanceTo_below {status : InstanceStatus} {i i' : Instance} {inst : Option Instance}
    (h : advanceTo status i inst false = .ok i') (hi : i.Below) (ho : ∀ o ∈ inst, o.Below) :
    i'.Below := by
  obtain ⟨-, -, -, -, -, -, hm⟩ := advanceTo_eq_ok h
  unfold Below
  rw [hm]
  cases inst with
  | none => exact hi
  | some o => exact maxBallot_lt_limit hi (ho o rfl)

theorem updateBallot_grows {P : Prop} (i : Instance) (ballot : UInt32) :
    Grows P i (i.updateBallot ballot).1 := by
  unfold updateBallot
  split
  · exact ⟨UInt8.le_refl _, fun _ => UInt32.le_of_lt ‹_›⟩
  · exact Std.Refl.refl i

theorem updateBallot_id (i : Instance) (ballot : UInt32) :
    (i.updateBallot ballot).1.InstanceID = i.InstanceID := by
  unfold updateBallot
  split <;> rfl

/-- `mergeAttributes` changes the dependencies alone. -/
theorem mergeAttributes_eq_ok {i i' : Instance} {deps : List Consensus.InstanceID} {c : Bool}
    (h : i.mergeAttributes deps = .ok (i', c)) :
    i'.InstanceID = i.InstanceID ∧ i'.Status = i.Status ∧ i'.MaxBallot = i.MaxBallot := by
  simp only [mergeAttributes] at h
  split at h
  · cases h
  · split at h <;> (cases h; exact ⟨rfl, rfl, rfl⟩)

theorem updateBallot_below {i : Instance} {ballot : UInt32} (hi : i.Below)
    (hb : ballot < ballotLimit) : (i.updateBallot ballot).1.Below := by
  unfold updateBallot
  split
  · exact hb
  · exact hi

end Instance

open Instance

/-! ### Managers that advance -/

namespace Manager

/-- Every instance of `m` is still in `m'`, grown, and `m'` is the same node. -/
structure Advances (P : Prop) (m m' : Manager) : Prop where
  nodeID : m'.nodeID = m.nodeID
  instances : Evolves Manager.getInstance (Instance.Grows P) m m'

/-- Every instance of `m` has its ballot below the limit. -/
def Below (m : Manager) : Prop := ∀ i ∈ m.instances, i.Below

variable {P : Prop}

theorem Advances.refl (m : Manager) : Advances P m m := ⟨rfl, Evolves.refl m⟩

theorem Advances.trans {m₁ m₂ m₃ : Manager} (h₁ : Advances P m₁ m₂) (h₂ : Advances P m₂ m₃) :
    Advances P m₁ m₃ :=
  ⟨h₂.nodeID.trans h₁.nodeID, h₁.instances.trans h₂.instances⟩

theorem Advances.mono {Q : Prop} (hQ : Q → P) {m m' : Manager} (h : Advances P m m') :
    Advances Q m m' :=
  ⟨h.nodeID, h.instances.mono fun _ _ => Grows.mono hQ⟩

instance : Std.Refl (Advances P) := ⟨Advances.refl⟩

instance : IsTrans Manager (Advances P) := ⟨fun _ _ _ => Advances.trans⟩

theorem getInstance_eq_lookup (m : Manager) (iid : InstanceID) :
    m.getInstance iid = lookup Instance.InstanceID m.instances iid := rfl

theorem Below.getInstance {m : Manager} (h : m.Below) {iid : InstanceID} {i : Instance}
    (hi : m.getInstance iid = some i) : i.Below :=
  h i (lookup_eq_some hi).1

theorem getInstance_id {m : Manager} {iid : InstanceID} {i : Instance}
    (hi : m.getInstance iid = some i) : i.InstanceID = iid :=
  (lookup_eq_some hi).2

theorem getInstance_putInstance (m : Manager) (i : Instance) (iid : InstanceID) :
    (m.putInstance i).getInstance iid =
      if i.InstanceID = iid then (m.getInstance iid).map fun _ => i else m.getInstance iid :=
  lookup_replace m.instances i iid

theorem getInstance_of_instances {m m' : Manager} (h : m'.instances = m.instances) :
    m'.getInstance = m.getInstance := by
  unfold Manager.getInstance
  rw [h]

/-- A change to anything but the instances. -/
theorem advances_of_instances {m m' : Manager} (hn : m'.nodeID = m.nodeID)
    (hi : m'.instances = m.instances) : Advances P m m' :=
  ⟨hn, Evolves.of_get_eq fun iid => by rw [getInstance_of_instances hi]⟩

/-- Writing back an instance that grew from the one under its id. -/
theorem advances_putInstance {m : Manager} {i : Instance}
    (h : ∀ b, m.getInstance i.InstanceID = some b → Grows P b i) : Advances P m (m.putInstance i) :=
  ⟨rfl, evolves_replace h⟩

theorem Below.putInstance {m : Manager} (hm : m.Below) {i : Instance} (hi : i.Below) :
    (m.putInstance i).Below := by
  intro j hj
  obtain ⟨b, hb, rfl⟩ := List.mem_map.mp hj
  split
  · exact hi
  · exact hm b hb

/-! ### The dependency manager

Each entry point runs on `InterferingKeys`, a single key, so none fails, and
none touches the instances. -/

@[simp] theorem withDeps_instances {α : Type} (m : Manager)
    (f : DependencyMap → List String → Instance → DependencyMap × α) (i : Instance) :
    (m.withDeps f i).1.instances = m.instances := rfl

@[simp] theorem withDeps_nodeID {α : Type} (m : Manager)
    (f : DependencyMap → List String → Instance → DependencyMap × α) (i : Instance) :
    (m.withDeps f i).1.nodeID = m.nodeID := rfl

theorem ReportAcknowledged_ok (m : Manager) (i : Instance) : (m.ReportAcknowledged i).2 = .ok () :=
  rfl

theorem ReportExecuted_ok (m : Manager) (i : Instance) : (m.ReportExecuted i).2 = .ok () := rfl

theorem AddDependency_ok (m : Manager) (i : Instance) : (m.AddDependency i).2 = .ok () := rfl

theorem getInstanceDeps_ok (m : Manager) (i : Instance) :
    ∃ deps, (m.getInstanceDeps i).2 = .ok deps := ⟨_, rfl⟩

theorem withDeps_advances {α : Type} (m : Manager)
    (f : DependencyMap → List String → Instance → DependencyMap × α) (i : Instance) :
    Advances P m (m.withDeps f i).1 :=
  advances_of_instances rfl rfl

theorem ReportAcknowledged_advances (m : Manager) (i : Instance) :
    Advances P m (m.ReportAcknowledged i).1 :=
  withDeps_advances m _ i

theorem ReportExecuted_advances (m : Manager) (i : Instance) :
    Advances P m (m.ReportExecuted i).1 :=
  withDeps_advances m _ i

theorem AddDependency_advances (m : Manager) (i : Instance) :
    Advances P m (m.AddDependency i).1 :=
  withDeps_advances m _ i

/-! ### `getOrSetInstance` -/

/-- The clamp `getOrSetInstance` applies to a new instance's status. -/
def clampStatus (i : Instance) : Instance :=
  if i.Status > INSTANCE_COMMITTED then { i with Status := INSTANCE_COMMITTED } else i

section GetOrSet
variable (m : Manager) (inst : Instance)

/-- A new instance is stored, as committed if it came executed, and registered
if it is past preaccepted. -/
theorem getOrSetInstance_none (h : m.getInstance inst.InstanceID = none) :
    m.getOrSetInstance inst =
      (if (clampStatus inst).Status > INSTANCE_PREACCEPTED then
          ({ m with instances := m.instances ++ [clampStatus inst] }.AddDependency (clampStatus inst)).1
        else { m with instances := m.instances ++ [clampStatus inst] },
        clampStatus inst, false) := by
  simp only [getOrSetInstance, h]
  rfl

theorem getOrSetInstance_some {i : Instance} (h : m.getInstance inst.InstanceID = some i) :
    m.getOrSetInstance inst = (m, i, true) := by
  simp only [getOrSetInstance, h]

theorem clampStatus_id (i : Instance) : (clampStatus i).InstanceID = i.InstanceID := by
  unfold clampStatus
  split <;> rfl

theorem clampStatus_ballot (i : Instance) : (clampStatus i).MaxBallot = i.MaxBallot := by
  unfold clampStatus
  split <;> rfl

/-- What `getOrSetInstance` returns: the existing instance, untouched, or the
new one it stored. -/
theorem getOrSetInstance_cases :
    (m.getInstance inst.InstanceID = some (m.getOrSetInstance inst).2.1 ∧
        (m.getOrSetInstance inst).1 = m ∧ (m.getOrSetInstance inst).2.2 = true) ∨
      (m.getInstance inst.InstanceID = none ∧ (m.getOrSetInstance inst).2.1 = clampStatus inst ∧
        (m.getOrSetInstance inst).1.instances = m.instances ++ [clampStatus inst] ∧
        (m.getOrSetInstance inst).2.2 = false) := by
  cases h : m.getInstance inst.InstanceID with
  | some i =>
    left
    rw [getOrSetInstance_some m inst h]
    exact ⟨rfl, rfl, rfl⟩
  | none =>
    right
    rw [getOrSetInstance_none m inst h]
    refine ⟨rfl, rfl, ?_, rfl⟩
    split <;> rfl

theorem getOrSetInstance_nodeID : (m.getOrSetInstance inst).1.nodeID = m.nodeID := by
  rcases getOrSetInstance_cases m inst with ⟨-, h, -⟩ | ⟨h, -, -, -⟩
  · rw [h]
  · rw [getOrSetInstance_none m inst h]
    split <;> rfl

theorem getOrSetInstance_advances : Advances P m (m.getOrSetInstance inst).1 := by
  rcases getOrSetInstance_cases m inst with ⟨-, h, -⟩ | ⟨-, -, h, -⟩
  · rw [h]
    exact Advances.refl m
  · refine ⟨getOrSetInstance_nodeID m inst, ?_⟩
    intro iid a ha
    refine ⟨a, ?_, Std.Refl.refl a⟩
    rw [getInstance_eq_lookup] at ha ⊢
    rw [h]
    exact lookup_append_of_eq_some _ ha

/-- The instance returned is the one stored under the id. -/
theorem getOrSetInstance_getInstance :
    (m.getOrSetInstance inst).1.getInstance inst.InstanceID = some (m.getOrSetInstance inst).2.1 := by
  rcases getOrSetInstance_cases m inst with ⟨h, hm, -⟩ | ⟨h, hi, hl, -⟩
  · rw [hm, h]
  · rw [getInstance_eq_lookup] at h ⊢
    rw [hl, lookup_append, h, hi, Option.none_or]
    simp [lookup, clampStatus_id]

theorem getOrSetInstance_id : (m.getOrSetInstance inst).2.1.InstanceID = inst.InstanceID :=
  getInstance_id (getOrSetInstance_getInstance m inst)

theorem getOrSetInstance_below (hm : m.Below) (hi : inst.Below) :
    (m.getOrSetInstance inst).1.Below ∧ (m.getOrSetInstance inst).2.1.Below := by
  rcases getOrSetInstance_cases m inst with ⟨h, hm', -⟩ | ⟨-, hr, hl, -⟩
  · rw [hm']
    exact ⟨hm, hm.getInstance h⟩
  · have hc : (clampStatus inst).Below := by
      unfold Instance.Below
      rw [clampStatus_ballot]
      exact hi
    refine ⟨?_, hr ▸ hc⟩
    intro j hj
    rw [hl] at hj
    rcases List.mem_append.mp hj with hj | hj
    · exact hm j hj
    · rw [List.mem_singleton.mp hj]
      exact hc

/-- The copy `getOrSetSrc` hands on is the source's own instance. -/
theorem getOrSetSrc_copy {src : Src} {o : Instance} (h : (m.getOrSetSrc src).2.2 = some o) :
    o = src.inst := by
  cases src with
  | «local» i => simp [getOrSetSrc] at h
  | other i =>
    simp only [getOrSetSrc] at h
    split at h
    · exact (Option.some.inj h).symm
    · cases h

/-- The copy `getOrSetSrc` hands on is below the limit when the source's
instance is. -/
theorem getOrSetSrc_copy_below {src : Src} (hs : src.inst.Below) :
    ∀ o ∈ (m.getOrSetSrc src).2.2, o.Below := fun o ho => by
  rw [getOrSetSrc_copy m ho]
  exact hs

theorem getOrSetSrc_fst (src : Src) :
    (m.getOrSetSrc src).1 = (m.getOrSetInstance src.inst).1 ∧
      (m.getOrSetSrc src).2.1 = (m.getOrSetInstance src.inst).2.1 := by
  cases src <;> exact ⟨rfl, rfl⟩

/-- A write back, after `getOrSetInstance`, of an instance grown from the one it
returned. -/
theorem advances_put_getOrSet {i : Instance} (hid : i.InstanceID = inst.InstanceID)
    (hg : Grows P (m.getOrSetInstance inst).2.1 i) :
    Advances P m ((m.getOrSetInstance inst).1.putInstance i) := by
  refine (getOrSetInstance_advances m inst).trans (advances_putInstance fun b hb => ?_)
  rw [hid, getOrSetInstance_getInstance] at hb
  cases hb
  exact hg

end GetOrSet

/-- Writing an instance under an id `m` does not hold. -/
theorem advances_putInstance_fresh {m m' : Manager} {i : Instance} (h : Advances P m m')
    (hn : m.getInstance i.InstanceID = none) : Advances P m (m'.putInstance i) := by
  refine ⟨h.nodeID, fun iid a ha => ?_⟩
  rw [getInstance_putInstance]
  by_cases hk : i.InstanceID = iid
  · subst hk
    rw [hn] at ha
    cases ha
  · rw [if_neg hk]
    exact h.instances iid a ha

/-! ### The state changes of an instance -/

section Changes
variable (m : Manager)

/-- What `getInstanceDeps` returns keeps the instances and the node. -/
theorem getInstanceDeps_same {i : Instance} {m' : Manager} {r : Except Error (List InstanceID)}
    (hd : m.getInstanceDeps i = (m', r)) : m'.instances = m.instances ∧ m'.nodeID = m.nodeID := by
  have h := congrArg Prod.fst hd
  simp only at h
  rw [← h]
  exact ⟨rfl, rfl⟩

/-- `Instance.preaccept` past its status check succeeds: the instance,
preaccepted with the copy's noop flag and any higher ballot, bumped if asked, is
written back over a manager that differs only in its dependency tree. -/
theorem preaccept_eq (i : Instance) (inst : Option Instance) (incr : Bool)
    (hs : ¬ i.Status > INSTANCE_PREACCEPTED) :
    (m.preaccept i inst incr).2 = .ok () ∧
    ∃ (m' : Manager) (x : Instance), (m.preaccept i inst incr).1 = m'.putInstance x ∧ m'.instances = m.instances ∧
      m'.nodeID = m.nodeID ∧ x.InstanceID = i.InstanceID ∧ x.Status = INSTANCE_PREACCEPTED ∧
      x.MaxBallot = (if incr then (· + 1) else id)
        ((inst.map fun o => maxBallot i.MaxBallot o.MaxBallot).getD i.MaxBallot) := by
  -- `getInstanceDeps` never fails, so the write back is always the second one
  cases inst <;> cases incr <;> simp only [preaccept, hs, if_false] <;> split <;> rename_i hd <;>
    first
    | (obtain ⟨_, hok⟩ := getInstanceDeps_ok m _; rw [hd] at hok; cases hok; done)
    | (obtain ⟨h1, h2⟩ := getInstanceDeps_same m hd; exact ⟨rfl, _, _, rfl, h1, h2, rfl, rfl, rfl⟩)

/-- `Instance.preaccept` on the map's instance `i`. -/
theorem preaccept_advances {i : Instance} {inst : Option Instance} {incr : Bool}
    (hi : m.getInstance i.InstanceID = some i)
    (hb : P → incr = true → i.Below ∧ ∀ o ∈ inst, o.Below) :
    Advances P m (m.preaccept i inst incr).1 := by
  by_cases hs : i.Status > INSTANCE_PREACCEPTED
  · simp only [preaccept, hs, if_true]
    exact Advances.refl m
  · obtain ⟨-, m', x, hr, hm, hn, hid, hst, hbal⟩ := preaccept_eq m i inst incr hs
    rw [hr]
    refine (advances_of_instances hn hm).trans (advances_putInstance fun b hb' => ?_)
    rw [getInstance_of_instances hm, hid, hi] at hb'
    cases hb'
    refine ⟨hst ▸ UInt8.not_lt.mp hs, fun hP => hbal ▸ ?_⟩
    cases inst with
    | none => exact le_bumped incr (UInt32.le_refl _) fun h => (hb hP h).1
    | some o =>
      exact le_bumped incr (maxBallot_ge_left _ _) fun h =>
        maxBallot_lt_limit (hb hP h).1 ((hb hP h).2 o rfl)

theorem preAcceptInstance_advances {src : Src} {incr : Bool}
    (hb : P → incr = true → m.Below ∧ src.inst.Below) :
    Advances P m (m.preAcceptInstance src incr).1 := by
  obtain ⟨h1, h2⟩ := getOrSetSrc_fst m src
  simp only [preAcceptInstance]
  rw [h1, h2]
  refine (getOrSetInstance_advances m src.inst).trans (preaccept_advances _ ?_ fun hP hi => ?_)
  · rw [getOrSetInstance_id]
    exact getOrSetInstance_getInstance m src.inst
  · obtain ⟨hm, hs⟩ := hb hP hi
    exact ⟨(getOrSetInstance_below m src.inst hm hs).2, getOrSetSrc_copy_below m hs⟩

/-- The shared part of `acceptInstance` and `commitInstance`: the instance
`getOrSetSrc` gives, moved on by `advanceTo`, written back. -/
theorem advanceTo_put_advances {src : Src} {incr : Bool} {status : InstanceStatus} {i : Instance}
    (h : advanceTo status (m.getOrSetSrc src).2.1 (m.getOrSetSrc src).2.2 incr = .ok i)
    (hb : P → incr = true → m.Below ∧ src.inst.Below) :
    Advances P m ((m.getOrSetSrc src).1.putInstance i) := by
  obtain ⟨h1, h2⟩ := getOrSetSrc_fst m src
  rw [h1]
  rw [h2] at h
  have hid : i.InstanceID = src.inst.InstanceID := by
    rw [(advanceTo_eq_ok h).2.2.1, getOrSetInstance_id]
  refine advances_put_getOrSet m src.inst hid (advanceTo_grows h fun hP hi => ?_)
  obtain ⟨hm, hs⟩ := hb hP hi
  exact ⟨(getOrSetInstance_below m src.inst hm hs).2, getOrSetSrc_copy_below m hs⟩

theorem acceptInstance_advances {src : Src} {incr : Bool}
    (hb : P → incr = true → m.Below ∧ src.inst.Below) :
    Advances P m (m.acceptInstance src incr).1 := by
  simp only [acceptInstance]
  split
  · obtain ⟨h1, -⟩ := getOrSetSrc_fst m src
    rw [h1]
    exact getOrSetInstance_advances m src.inst
  · rename_i i h
    exact (advanceTo_put_advances m h hb).trans (ReportAcknowledged_advances _ _)

theorem commitInstance_advances {src : Src} {incr : Bool}
    (hb : P → incr = true → m.Below ∧ src.inst.Below) :
    Advances P m (m.commitInstance src incr).1 := by
  simp only [commitInstance]
  split
  · obtain ⟨h1, -⟩ := getOrSetSrc_fst m src
    rw [h1]
    exact getOrSetInstance_advances m src.inst
  · rename_i i h
    exact (advanceTo_put_advances m h hb).trans (advances_of_instances rfl rfl)

/-- Writing back, under its id, an instance grown from the one stored there. -/
theorem advances_put_grown {iid : InstanceID} {i x : Instance} (hi : m.getInstance iid = some i)
    (hid : x.InstanceID = i.InstanceID) (hg : Grows P i x) : Advances P m (m.putInstance x) := by
  refine advances_putInstance fun b hb => ?_
  rw [hid, getInstance_id hi, hi] at hb
  cases hb
  exact hg

theorem updateInstanceBallotFromResponses_advances (iid : InstanceID) (ballots : List UInt32) :
    Advances P m (m.updateInstanceBallotFromResponses iid ballots) := by
  unfold updateInstanceBallotFromResponses
  split
  · rename_i i hi
    exact advances_put_grown m hi (updateBallot_id i _) (updateBallot_grows i _)
  · exact Advances.refl m

theorem mergePreAcceptAttributes_advances (iid : InstanceID) (responses : List PreAcceptResponse)
    (changes : Bool) : Advances P m (m.mergePreAcceptAttributes iid responses changes).1 := by
  induction responses generalizing m changes with
  | nil => exact Advances.refl m
  | cons response rest ih =>
    simp only [mergePreAcceptAttributes]
    split
    · exact Advances.refl m
    · rename_i i hi
      split
      · exact Advances.refl m
      · rename_i i' c hmerge
        obtain ⟨hid, hs, hb⟩ := mergeAttributes_eq_ok hmerge
        exact (advances_put_grown m hi hid (grows_of_eq hs hb)).trans (ih _ _)

/-- What one step of `addMissingInstancesUnsafe` leaves: the rest, run on what
`GetOrSet` left when the instance was there; or, when it was not, what
`GetOrSet` left (an unknown status), or a copy of the stored instance with the
same id and ballot put and registered, alone (an error) or followed by the rest. -/
theorem addMissingInstancesUnsafe_cons (inst : Instance) (rest : List Instance) :
    ((m.getOrSetInstance inst).2.2 = true ∧ (m.addMissingInstancesUnsafe (inst :: rest)).1 =
        ((m.getOrSetInstance inst).1.addMissingInstancesUnsafe rest).1) ∨
      ((m.getOrSetInstance inst).2.2 = false ∧
        ((m.addMissingInstancesUnsafe (inst :: rest)).1 = (m.getOrSetInstance inst).1 ∨
          ∃ x : Instance, x.InstanceID = (m.getOrSetInstance inst).2.1.InstanceID ∧
            x.MaxBallot = (m.getOrSetInstance inst).2.1.MaxBallot ∧
            ((m.addMissingInstancesUnsafe (inst :: rest)).1 =
                (((m.getOrSetInstance inst).1.putInstance x).AddDependency x).1 ∨
              (m.addMissingInstancesUnsafe (inst :: rest)).1 =
                ((((m.getOrSetInstance inst).1.putInstance x).AddDependency x).1.addMissingInstancesUnsafe
                  rest).1))) := by
  simp only [addMissingInstancesUnsafe]
  split
  · exact Or.inl ⟨by assumption, rfl⟩
  · rename_i hfound
    refine Or.inr ⟨by simpa using hfound, ?_⟩
    split
    · let i := (m.getOrSetInstance inst).2.1
      refine Or.inr ⟨if i.Status = INSTANCE_COMMITTED ∨ i.Status = INSTANCE_EXECUTED then
        { i with Status := INSTANCE_COMMITTED } else i, by split <;> rfl, by split <;> rfl, ?_⟩
      split
      · rename_i m' e hd
        exact Or.inl (congrArg Prod.fst hd).symm
      · rename_i m' hd
        have h : _ = m' := congrArg Prod.fst hd
        exact Or.inr (by rw [h])
    · exact Or.inl rfl

/-- `addMissingInstancesUnsafe` stores only instances the replica did not hold. -/
theorem addMissingInstancesUnsafe_advances (instances : List Instance) :
    Advances P m (m.addMissingInstancesUnsafe instances).1 := by
  induction instances generalizing m with
  | nil => exact Advances.refl m
  | cons inst rest ih =>
    have hgot := getOrSetInstance_advances (P := P) m inst
    rcases addMissingInstancesUnsafe_cons m inst rest with ⟨-, h⟩ | ⟨hx, h | ⟨x, hid, -, h | h⟩⟩
    · rw [h]
      exact hgot.trans (ih _)
    · rw [h]
      exact hgot
    all_goals
      have hn : m.getInstance x.InstanceID = none := by
        rcases getOrSetInstance_cases m inst with ⟨-, -, ht⟩ | ⟨hn, -⟩
        · rw [ht] at hx
          cases hx
        · rw [hid, getOrSetInstance_id]
          exact hn
      have hput : Advances P m (((m.getOrSetInstance inst).1.putInstance x).AddDependency x).1 :=
        (advances_putInstance_fresh hgot hn).trans (AddDependency_advances _ _)
      rw [h]
    · exact hput
    · exact hput.trans (ih _)

end Changes

/-! ### The handlers

A replica's handlers bump no ballot, so they advance it unconditionally. -/

section Handlers
variable (m : Manager)

theorem fst_eq_of_eq {α β : Type} {p : α × β} {a : α} {b : β} (h : p = (a, b)) : p.1 = a := by
  rw [h]

theorem preAcceptReply_advances (request : PreAcceptRequest) :
    Advances P m (m.preAcceptReply request).1 := by
  simp only [preAcceptReply]
  cases h : m.getInstance request.Instance.InstanceID with
  | none =>
    refine advances_putInstance fun b hb => ?_
    simp only [Option.getD_none] at hb
    rw [h] at hb
    cases hb
  | some i =>
    simp only [Option.getD_some]
    exact advances_put_grown m h rfl (grows_of_eq rfl rfl)

theorem HandlePreAccept_advances (request : PreAcceptRequest) :
    Advances P m (m.HandlePreAccept request).1 := by
  have hpa : Advances P m (m.preAcceptInstance (.other request.Instance) false).1 :=
    preAcceptInstance_advances m fun _ h => nomatch h
  -- the ballot check either answers with `m` or runs the preaccept
  simp only [HandlePreAccept]
  split
  · split
    · exact Advances.refl m
    · split
      · exact hpa
      · exact hpa.trans (preAcceptReply_advances _ request)
  · split
    · exact hpa
    · exact hpa.trans (preAcceptReply_advances _ request)

theorem HandleAccept_advances (request : AcceptRequest) :
    Advances P m (m.HandleAccept request).1 := by
  have hmissing : Advances P m
      (if request.MissingInstances.length > 0 then (m.addMissingInstancesUnsafe request.MissingInstances).1
        else m) := by
    split
    · exact addMissingInstancesUnsafe_advances m _
    · exact Advances.refl m
  simp only [HandleAccept]
  generalize (if request.MissingInstances.length > 0 then
    (m.addMissingInstancesUnsafe request.MissingInstances).1 else m) = m' at hmissing ⊢
  have hacc : Advances P m' (m'.acceptInstance (.other request.Instance) false).1 :=
    acceptInstance_advances m' fun _ h => nomatch h
  split
  · split
    · exact hmissing
    · split <;> exact hmissing.trans hacc
  · split <;> exact hmissing.trans hacc

theorem HandleCommit_advances (request : CommitRequest) :
    Advances P m (m.HandleCommit request).1 := by
  have hc : Advances P m (m.commitInstance (.other request.Instance) false).1 :=
    commitInstance_advances m fun _ h => nomatch h
  simp only [HandleCommit]
  split <;> exact hc

theorem HandlePrepare_advances (request : PrepareRequest) :
    Advances P m (m.HandlePrepare request).1 := by
  simp only [HandlePrepare]
  split
  · exact Advances.refl m
  · rename_i i hi
    split
    · exact advances_put_grown m hi (updateBallot_id i _) (updateBallot_grows i _)
    · exact advances_put_grown m hi rfl (Std.Refl.refl i)

theorem HandleMessage_advances (msg : Message) : Advances P m (m.HandleMessage msg).1 := by
  cases msg with
  | preAcceptRequest r => exact HandlePreAccept_advances m r
  | acceptRequest r => exact HandleAccept_advances m r
  | commitRequest r => exact HandleCommit_advances m r
  | prepareRequest r => exact HandlePrepare_advances m r
  | prepareSuccessorRequest r => exact Advances.refl m
  | _ => exact Advances.refl m

/-- `managerPrepareCheckResponses` raises the local ballot, and on a refusal may
accept or commit the local instance from the best reply, without a bump. -/
theorem managerPrepareCheckResponses_advances (iid : InstanceID) (responses : List PrepareResponse) :
    Advances P m (m.managerPrepareCheckResponses iid responses).1 := by
  simp only [managerPrepareCheckResponses]
  generalize hm' : m.updateInstanceBallotFromResponses iid _ = m'
  have hup : Advances P m m' := hm' ▸ updateInstanceBallotFromResponses_advances m iid _
  split
  · exact hup
  · split
    · split
      · split
        · split
          · rename_i hd
            exact hup.trans (fst_eq_of_eq hd ▸ acceptInstance_advances m' fun _ h => nomatch h)
          · rename_i hd
            exact hup.trans (fst_eq_of_eq hd ▸ acceptInstance_advances m' fun _ h => nomatch h)
        · split
          · split
            · rename_i hd
              exact hup.trans (fst_eq_of_eq hd ▸ commitInstance_advances m' fun _ h => nomatch h)
            · rename_i hd
              exact hup.trans (fst_eq_of_eq hd ▸ commitInstance_advances m' fun _ h => nomatch h)
          · exact hup
      · exact hup
    · exact hup

end Handlers

/-! ### Execution

Execution records components and marks committed instances executed; it bumps
no ballot. -/

section Execution
variable (m : Manager)

theorem recordSCC_advances (scc : List InstanceID) (iid : InstanceID) :
    Advances P m (m.recordSCC scc iid) := by
  unfold recordSCC
  split
  · rename_i i hi
    exact advances_put_grown m hi rfl (grows_of_eq rfl rfl)
  · exact Advances.refl m

theorem getExecutionOrder_advances (uuidTime : UUID → Int) (target : Instance) :
    Advances P m (m.getExecutionOrder uuidTime target).1 := by
  simp only [getExecutionOrder]
  split
  · exact Advances.refl m
  · -- each component is recorded on its members, one `recordSCC` after the other
    split <;>
    · refine foldl_rel (Advances P) Prod.fst _ (fun r scc => ?_) _ (m, [])
      simp only
      split
      · exact foldl_rel (Advances P) id (recordSCC · scc) (fun m' iid => recordSCC_advances m' scc iid)
          scc r.1
      · exact Advances.refl r.1

/-- `applyInstance` moves a committed instance to executed and nothing else. -/
theorem applyInstance_advances (iid : InstanceID) : Advances P m (m.applyInstance iid).1 := by
  simp only [applyInstance]
  split
  · exact Advances.refl m
  · rename_i i hi
    split
    · exact Advances.refl m
    · split
      · exact Advances.refl m
      · rename_i hne hc
        have hc : i.Status = INSTANCE_COMMITTED := Classical.not_not.mp hc
        -- the store's run, whether or not the instance is a noop, leaves the instances
        generalize hr : (if (!i.Noop) = true then _ else (m, Except.ok none)) = r
        have hr1 : r.1.instances = m.instances ∧ r.1.nodeID = m.nodeID := by
          rw [← hr]
          split <;> exact ⟨rfl, rfl⟩
        have hput : Advances P m (r.1.putInstance { i with Status := INSTANCE_EXECUTED }) :=
          (advances_of_instances hr1.2 hr1.1).trans
            (advances_put_grown r.1 (show r.1.getInstance iid = some i by
                rw [getInstance_of_instances hr1.1]; exact hi) rfl
              ⟨by show i.Status ≤ INSTANCE_EXECUTED; rw [hc]; decide, fun _ => UInt32.le_refl _⟩)
        split
        · exact advances_of_instances hr1.2 hr1.1
        · split <;>
          · rename_i hd
            rw [← fst_eq_of_eq hd]
            exact hput.trans (advances_of_instances rfl rfl)

theorem executeDependencyChain_advances (target : InstanceID) (order : List InstanceID) :
    Advances P m (m.executeDependencyChain target order).1 := by
  induction order generalizing m with
  | nil => exact Advances.refl m
  | cons iid rest ih =>
    simp only [executeDependencyChain]
    split
    · exact Advances.refl m
    · split
      · split
        · rename_i hd
          exact fst_eq_of_eq hd ▸ applyInstance_advances m iid
        · rename_i m' v hd
          have h : Advances P m m' := fst_eq_of_eq hd ▸ applyInstance_advances m iid
          split
          · exact h
          · exact h.trans (ih m')
      · split
        · exact ih m
        · exact Advances.refl m

theorem executeInstancePass_advances (uuidTime : UUID → Int) (iid : InstanceID) :
    Advances P m (m.executeInstancePass uuidTime iid).1 := by
  simp only [executeInstancePass]
  split
  · exact Advances.refl m
  · rename_i target _
    split
    · rename_i hd
      exact fst_eq_of_eq hd ▸ getExecutionOrder_advances m uuidTime target
    · rename_i m' exOrder uncommitted hd
      have h : Advances P m m' := fst_eq_of_eq hd ▸ getExecutionOrder_advances m uuidTime target
      split
      · split
        · rename_i hd'
          exact h.trans (fst_eq_of_eq hd' ▸ executeDependencyChain_advances m' iid exOrder)
        · rename_i hd'
          exact h.trans (fst_eq_of_eq hd' ▸ executeDependencyChain_advances m' iid exOrder)
      · exact h

end Execution

/-! ### Ballots below the limit

What bumps no ballot keeps every ballot below the limit, given that the ballots
it reads are. -/

section Below
variable {m : Manager}

theorem Below.of_instances {m' : Manager} (hm : m.Below) (h : m'.instances = m.instances) :
    m'.Below := by
  unfold Below
  rw [h]
  exact hm

theorem maxOfBallots_lt_limit {ballots : List UInt32} (h : ∀ b ∈ ballots, b < ballotLimit) :
    maxOfBallots ballots < ballotLimit :=
  foldl_invariant (· < ballotLimit) maxBallot ballots (fun _ c hc hb => maxBallot_lt_limit hb (h c hc))
    0 (show (0 : UInt32) < ballotLimit by decide)

theorem Below.updateInstanceBallotFromResponses (hm : m.Below) (iid : InstanceID)
    {ballots : List UInt32} (h : ∀ b ∈ ballots, b < ballotLimit) :
    (m.updateInstanceBallotFromResponses iid ballots).Below := by
  unfold Manager.updateInstanceBallotFromResponses
  split
  · rename_i i hi
    exact hm.putInstance (updateBallot_below (hm.getInstance hi) (maxOfBallots_lt_limit h))
  · exact hm

theorem Below.mergePreAcceptAttributes (hm : m.Below) (iid : InstanceID)
    (responses : List PreAcceptResponse) (changes : Bool) :
    (m.mergePreAcceptAttributes iid responses changes).1.Below := by
  induction responses generalizing m changes with
  | nil => exact hm
  | cons response rest ih =>
    simp only [Manager.mergePreAcceptAttributes]
    split
    · exact hm
    · rename_i i hi
      split
      · exact hm
      · rename_i i' c hmerge
        have hb : i'.Below := by
          unfold Instance.Below
          rw [(mergeAttributes_eq_ok hmerge).2.2]
          exact hm.getInstance hi
        exact ih (hm.putInstance hb) _

theorem Below.addMissingInstancesUnsafe (hm : m.Below) {instances : List Instance}
    (h : ∀ i ∈ instances, i.Below) : (m.addMissingInstancesUnsafe instances).1.Below := by
  induction instances generalizing m with
  | nil => exact hm
  | cons inst rest ih =>
    have hrest : ∀ i ∈ rest, i.Below := fun i hi => h i (List.mem_cons_of_mem inst hi)
    obtain ⟨hm', hi'⟩ := getOrSetInstance_below m inst hm (h inst List.mem_cons_self)
    rcases Manager.addMissingInstancesUnsafe_cons m inst rest with ⟨-, h⟩ | ⟨-, h | ⟨x, -, hb, h | h⟩⟩
    · rw [h]
      exact ih hm' hrest
    · rw [h]
      exact hm'
    all_goals
      have hput : (((m.getOrSetInstance inst).1.putInstance x).AddDependency x).1.Below :=
        hm'.putInstance (by unfold Instance.Below; rw [hb]; exact hi')
      rw [h]
    · exact hput
    · exact ih hput hrest

/-- `acceptInstance` or `commitInstance` without a bump, from a copy below the
limit. -/
theorem Below.advanceTo_put {src : Src} {status : InstanceStatus} {i : Instance} (hm : m.Below)
    (hs : src.inst.Below)
    (h : advanceTo status (m.getOrSetSrc src).2.1 (m.getOrSetSrc src).2.2 false = .ok i) :
    ((m.getOrSetSrc src).1.putInstance i).Below := by
  obtain ⟨h1, h2⟩ := getOrSetSrc_fst m src
  obtain ⟨hm', hi'⟩ := getOrSetInstance_below m src.inst hm hs
  rw [h1]
  rw [h2] at h
  exact hm'.putInstance (advanceTo_below h hi' (getOrSetSrc_copy_below m hs))

theorem Below.acceptInstance (hm : m.Below) {src : Src} (hs : src.inst.Below) :
    (m.acceptInstance src false).1.Below := by
  simp only [Manager.acceptInstance]
  split
  · rw [(getOrSetSrc_fst m src).1]
    exact (getOrSetInstance_below m src.inst hm hs).1
  · rename_i i h
    exact hm.advanceTo_put hs h

theorem Below.commitInstance (hm : m.Below) {src : Src} (hs : src.inst.Below) :
    (m.commitInstance src false).1.Below := by
  simp only [Manager.commitInstance]
  split
  · rw [(getOrSetSrc_fst m src).1]
    exact (getOrSetInstance_below m src.inst hm hs).1
  · rename_i i h
    exact hm.advanceTo_put hs h

/-- The instance `analyzePrepareResponses` picks is one of the replies'. -/
theorem analyzePrepareResponses_mem {responses : List PrepareResponse} {ri : Instance}
    (h : analyzePrepareResponses responses = some ri) : ri ∈ responses.filterMap (·.Instance) := by
  unfold analyzePrepareResponses at h
  dsimp only at h
  split at h
  · cases h
  · -- the fold only ever picks the reply it is looking at
    refine foldl_invariant (fun acc : InstanceStatus × Option Instance =>
      ∀ x ∈ acc.2, x ∈ responses.filterMap (·.Instance)) _ (responses.filterMap (·.Instance)) ?_
      (0, none) (fun _ hx => by cases hx) ri h
    · intro acc c hc hacc
      split
      · exact hacc
      · split
        · intro x hx
          cases hx
          exact hc
        · exact hacc

theorem Below.managerPrepareCheckResponses (hm : m.Below) (iid : InstanceID)
    {responses : List PrepareResponse} (h : ∀ ri ∈ responses.filterMap (·.Instance), ri.Below) :
    (m.managerPrepareCheckResponses iid responses).1.Below := by
  simp only [Manager.managerPrepareCheckResponses]
  generalize hm' : m.updateInstanceBallotFromResponses iid _ = m'
  have hup : m'.Below := hm' ▸ hm.updateInstanceBallotFromResponses iid (by
    intro b hb
    rw [List.mem_singleton] at hb
    rw [hb]
    exact maxOfBallots_lt_limit fun b hb => by
      obtain ⟨ri, hri, rfl⟩ := List.mem_map.mp hb
      exact h ri hri)
  split
  · exact hup
  · split
    · rename_i mi li hmi _
      have hmib : mi.Below := h mi (List.mem_of_mem_filter (List.mem_of_getLast? hmi))
      split
      · split
        · split <;> (rename_i hd; exact fst_eq_of_eq hd ▸ hup.acceptInstance hmib)
        · split
          · split <;> (rename_i hd; exact fst_eq_of_eq hd ▸ hup.commitInstance hmib)
          · exact hup
      · exact hup
    · exact hup

end Below

end Manager

end Kickboxer.Consensus
