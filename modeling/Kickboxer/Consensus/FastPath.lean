import Mathlib.Data.Finset.Dedup
import Kickboxer.Consensus.Advance

/-! The fast path of the preaccept phase (`manager_preaccept.go`,
`Instance.mergeAttributes`).

A leader that has its preaccept replies merges each reply's dependencies into
its instance, one reply at a time, each against the dependencies merged so
far, and commits at once when no merge changed anything. What it ends with is
the union of its own dependencies and every reply's, and the flag that sends
it through an accept phase stays down exactly when every reply's set is the
one it proposed (`mergePreAcceptAttributes_fast_path`). The merges run against
a moving set, but a merge that changes nothing leaves the set where it was, so
as long as the flag is down the set merged against is the proposed one. -/
namespace Kickboxer.Consensus
open Kickboxer.Types Library

namespace Instance

/-- One merge into a preaccepted instance: the union of the two sets, flagged
unless the reply's set is the instance's. -/
theorem mergeAttributes_preaccepted {i : Instance} (hst : i.Status = INSTANCE_PREACCEPTED)
    (deps : List Consensus.InstanceID) :
    ∃ i' c, i.mergeAttributes deps = .ok (i', c) ∧
      (∀ x, x ∈ i'.Dependencies ↔ x ∈ i.Dependencies ∨ x ∈ deps) ∧
      (c = false ↔ ∀ x, x ∈ deps ↔ x ∈ i.Dependencies) := by
  have hsame := ListSet.equal_iff (ListSet.nodup_ofList i.Dependencies) (ListSet.nodup_ofList deps)
  simp only [ListSet.mem_ofList] at hsame
  by_cases he : ListSet.equal (ListSet.ofList i.Dependencies) (ListSet.ofList deps) = true
  · refine ⟨i, false, ?_, fun x => ?_, ?_⟩
    · simp [mergeAttributes, hst, he]
    · have := hsame.mp he x
      tauto
    · simp only [true_iff]
      exact fun x => (hsame.mp he x).symm
  · let merged := ListSet.union (ListSet.ofList i.Dependencies) (ListSet.ofList deps)
    refine ⟨{ i with Dependencies := merged }, true, ?_, fun x => ?_, ?_⟩
    · simp [mergeAttributes, hst, he, merged]
    · simp [merged]
    · simp only [Bool.true_eq_false, false_iff]
      exact fun h => he (hsame.mpr fun x => (h x).symm)

end Instance

open Instance

namespace Manager

variable {iid : InstanceID}

/-- The merge loop from a preaccepted instance `i` held under `iid`: no error,
the union of `i`'s dependencies with every reply's, and a flag that stays down
exactly when it starts down and every reply's set is `i`'s. -/
theorem mergePreAcceptAttributes_spec (responses : List PreAcceptResponse) :
    ∀ (m : Manager) (i : Instance) (changes : Bool), m.getInstance iid = some i →
      i.Status = INSTANCE_PREACCEPTED →
      (m.mergePreAcceptAttributes iid responses changes).2.2 = .ok () ∧
      (∃ i', (m.mergePreAcceptAttributes iid responses changes).1.getInstance iid = some i' ∧
        ∀ x, x ∈ i'.Dependencies ↔ x ∈ i.Dependencies ∨ ∃ p ∈ responses, x ∈ p.Instance.Dependencies) ∧
      ((m.mergePreAcceptAttributes iid responses changes).2.1 = false ↔
        changes = false ∧ ∀ p ∈ responses, ∀ x, x ∈ p.Instance.Dependencies ↔ x ∈ i.Dependencies) := by
  induction responses with
  | nil =>
    intro m i changes hi _
    exact ⟨rfl, ⟨i, hi, by simp⟩, by simp [mergePreAcceptAttributes]⟩
  | cons p rest ih =>
    intro m i changes hi hst
    obtain ⟨i', c, hmerge, hdeps, hc⟩ := mergeAttributes_preaccepted hst p.Instance.Dependencies
    obtain ⟨hid, hst', -⟩ := mergeAttributes_eq_ok hmerge
    -- the merged instance takes `i`'s place under `iid`
    have hi' : (m.putInstance i').getInstance iid = some i' := by
      rw [getInstance_putInstance, if_pos (hid.trans (getInstance_id hi)), hi]
      rfl
    have hrun : m.mergePreAcceptAttributes iid (p :: rest) changes =
        (m.putInstance i').mergePreAcceptAttributes iid rest (changes || c) := by
      simp only [mergePreAcceptAttributes, hi, hmerge]
    obtain ⟨herr, ⟨j, hj, hjdeps⟩, hflag⟩ :=
      ih (m.putInstance i') i' (changes || c) hi' (hst'.trans hst)
    rw [hrun]
    refine ⟨herr, ⟨j, hj, fun x => ?_⟩, ?_⟩
    · rw [hjdeps, hdeps]
      simp only [List.mem_cons, exists_eq_or_imp, or_assoc]
    · rw [hflag, Bool.or_eq_false_iff, List.forall_mem_cons]
      cases c with
      | true =>
        have hne : ¬ ∀ x, x ∈ p.Instance.Dependencies ↔ x ∈ i.Dependencies :=
          fun h => Bool.noConfusion (hc.mpr h)
        simp only [Bool.true_eq_false, and_false, false_and, hne]
      | false =>
        have hp := hc.mp rfl
        -- a merge that changed nothing leaves `i`'s set
        have hsame : ∀ x, x ∈ i'.Dependencies ↔ x ∈ i.Dependencies := fun x => by
          rw [hdeps, hp x, or_self]
        simp only [hsame, hp, and_true, iff_self, implies_true, true_and]

/-- `mergePreAcceptAttributes` as `preAcceptPhase` calls it: the instance ends
with the union of its dependencies and every reply's, and commits on the fast
path exactly when every reply's dependencies are the ones it proposed. -/
theorem mergePreAcceptAttributes_fast_path (m : Manager) (iid : InstanceID) (i : Instance)
    (hi : m.getInstance iid = some i) (hst : i.Status = INSTANCE_PREACCEPTED)
    (responses : List PreAcceptResponse) :
    (m.mergePreAcceptAttributes iid responses false).2.2 = .ok () ∧
    (∃ i', (m.mergePreAcceptAttributes iid responses false).1.getInstance iid = some i' ∧
      i'.Dependencies.toFinset =
        i.Dependencies.toFinset ∪ (responses.flatMap fun p => p.Instance.Dependencies).toFinset) ∧
    ((m.mergePreAcceptAttributes iid responses false).2.1 = false ↔
      ∀ p ∈ responses, p.Instance.Dependencies.toFinset = i.Dependencies.toFinset) := by
  obtain ⟨herr, ⟨i', hi', hdeps⟩, hflag⟩ := mergePreAcceptAttributes_spec responses m i false hi hst
  refine ⟨herr, ⟨i', hi', ?_⟩, ?_⟩
  · ext x
    simp only [List.mem_toFinset, Finset.mem_union, List.mem_flatMap, hdeps]
  · simp only [hflag, Finset.ext_iff, List.mem_toFinset, true_and]

/-- A leader proposing instance `1` with dependency `2`, and two replies: one
agreeing, one adding `3`. -/
def proposed : Instance :=
  { Instance.bare (InstanceID.ofNat 1) (NodeId.ofNat 1) default with
    Status := INSTANCE_PREACCEPTED, Dependencies := [InstanceID.ofNat 2] }

def replyWith (deps : List InstanceID) : PreAcceptResponse :=
  ⟨true, 0, { proposed with Dependencies := deps }, []⟩

theorem mergePreAcceptAttributes_fast_path_two_replies :
    ({ NewManager (NodeId.ofNat 1) (fun _ => []) with instances := [proposed] }.getInstance
        (InstanceID.ofNat 1) = some proposed) ∧
      proposed.Status = INSTANCE_PREACCEPTED ∧
      (let m := { NewManager (NodeId.ofNat 1) (fun _ => []) with instances := [proposed] }
       let responses := [replyWith [InstanceID.ofNat 2], replyWith [InstanceID.ofNat 2, InstanceID.ofNat 3]]
       (m.mergePreAcceptAttributes (InstanceID.ofNat 1) responses false).2.2 = .ok () ∧
       (∃ i', (m.mergePreAcceptAttributes (InstanceID.ofNat 1) responses false).1.getInstance
          (InstanceID.ofNat 1) = some i' ∧
         i'.Dependencies.toFinset = proposed.Dependencies.toFinset ∪
           (responses.flatMap fun p => p.Instance.Dependencies).toFinset) ∧
       ((m.mergePreAcceptAttributes (InstanceID.ofNat 1) responses false).2.1 = false ↔
         ∀ p ∈ responses, p.Instance.Dependencies.toFinset = proposed.Dependencies.toFinset)) :=
  ⟨by decide, rfl, mergePreAcceptAttributes_fast_path _ _ _ (by decide) rfl _⟩

end Manager

end Kickboxer.Consensus
