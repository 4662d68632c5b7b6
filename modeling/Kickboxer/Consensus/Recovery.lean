import Kickboxer.Consensus.Runs

/-! What a prepare relies on (`analyzePrepareResponses`, `HandlePreAccept`,
`HandleAccept`, `HandlePrepare`).

A prepare goes on from the reply `analyzePrepareResponses` picks: one at the
highest ballot among the replies, and at the highest status among those, a
status above zero; none only when every reply at the highest ballot has status
zero (`analyzePrepareResponses_picks_highest`).

A replica answers a preaccept, an accept or a prepare of an instance it holds
at a ballot no higher than its own with a refusal (`HandlePreAccept_refused`,
`HandleAccept_refused`, `HandlePrepare_refused`), and an accepted prepare leaves
the instance at the prepare's ballot. Ballots only go up along a run whose
ballots stay below the limit, so a replica that held an instance at ballot `b`
refuses, at every later point, every preaccept, accept and prepare of it at a
ballot up to `b` (`ballot_promise_kept`). -/
namespace Kickboxer.Consensus
open Kickboxer.Types Library Instance

namespace Manager

/-! ### The reply a prepare goes on from -/

/-- One round of the status loop of `analyzePrepareResponses` at the highest
ballot `mb`. -/
def prepareStatusStep (mb : UInt32) (acc : InstanceStatus × Option Instance) (ri : Instance) :
    InstanceStatus × Option Instance :=
  if ri.MaxBallot < mb then acc else if ri.Status > acc.1 then (ri.Status, some ri) else acc

theorem analyzePrepareResponses_eq (responses : List PrepareResponse) :
    analyzePrepareResponses responses =
      if (responses.filterMap (·.Instance)).isEmpty then none
      else ((responses.filterMap (·.Instance)).foldl
        (prepareStatusStep (maxOfBallots ((responses.filterMap (·.Instance)).map (·.MaxBallot))))
        (0, none)).2 :=
  rfl

theorem le_foldl_maxBallot (l : List UInt32) (acc : UInt32) : acc ≤ l.foldl maxBallot acc := by
  induction l generalizing acc with
  | nil => exact UInt32.le_refl acc
  | cons b l ih => exact UInt32.le_trans (maxBallot_ge_left acc b) (ih _)

theorem le_maxOfBallots {ballots : List UInt32} {b : UInt32} (h : b ∈ ballots) :
    b ≤ maxOfBallots ballots := by
  unfold maxOfBallots
  generalize (0 : UInt32) = acc
  induction ballots generalizing acc with
  | nil => cases h
  | cons c l ih =>
    rcases List.mem_cons.mp h with rfl | hl
    · exact UInt32.le_trans (maxBallot_ge_right acc b) (le_foldl_maxBallot l _)
    · exact ih hl _

/-- The highest ballot is one of the ballots, or zero. -/
theorem maxOfBallots_mem (ballots : List UInt32) :
    maxOfBallots ballots = 0 ∨ maxOfBallots ballots ∈ ballots := by
  unfold maxOfBallots
  refine foldl_invariant (fun b => b = 0 ∨ b ∈ ballots) maxBallot ballots (fun b c hc hb => ?_) 0
    (.inl rfl)
  unfold maxBallot
  split
  · exact .inr hc
  · exact hb

section StatusLoop
variable (mb : UInt32)

/-- The loop only rises, and ends at least at the status of every reply at the
highest ballot. -/
theorem le_foldl_prepareStatusStep (l : List Instance) (acc : InstanceStatus × Option Instance) :
    acc.1 ≤ (l.foldl (prepareStatusStep mb) acc).1 ∧
      ∀ x ∈ l, ¬ x.MaxBallot < mb → x.Status ≤ (l.foldl (prepareStatusStep mb) acc).1 := by
  induction l generalizing acc with
  | nil => exact ⟨UInt8.le_refl _, fun _ h => nomatch h⟩
  | cons ri l ih =>
    have hstep : acc.1 ≤ (prepareStatusStep mb acc ri).1 ∧
        (¬ ri.MaxBallot < mb → ri.Status ≤ (prepareStatusStep mb acc ri).1) := by
      unfold prepareStatusStep
      split
      · exact ⟨UInt8.le_refl _, fun h => absurd ‹_› h⟩
      · split
        · exact ⟨UInt8.le_of_lt ‹_›, fun _ => UInt8.le_refl _⟩
        · exact ⟨UInt8.le_refl _, fun _ => UInt8.not_lt.mp ‹_›⟩
    obtain ⟨hle, hall⟩ := ih (prepareStatusStep mb acc ri)
    refine ⟨UInt8.le_trans hstep.1 hle, fun x hx hb => ?_⟩
    rcases List.mem_cons.mp hx with rfl | hx
    · exact UInt8.le_trans (hstep.2 hb) hle
    · exact hall x hx hb

/-- What the loop picks is a reply of the list at the highest ballot, its status
above zero and the loop's; with nothing picked the loop stays at zero. -/
theorem foldl_prepareStatusStep_pick (l : List Instance) :
    (∀ ri, (l.foldl (prepareStatusStep mb) (0, none)).2 = some ri →
      ri ∈ l ∧ ¬ ri.MaxBallot < mb ∧ 0 < ri.Status ∧
        ri.Status = (l.foldl (prepareStatusStep mb) (0, none)).1) ∧
    ((l.foldl (prepareStatusStep mb) (0, none)).2 = none →
      (l.foldl (prepareStatusStep mb) (0, none)).1 = 0) := by
  refine foldl_invariant (fun acc : InstanceStatus × Option Instance =>
    (∀ ri, acc.2 = some ri → ri ∈ l ∧ ¬ ri.MaxBallot < mb ∧ 0 < ri.Status ∧ ri.Status = acc.1) ∧
      (acc.2 = none → acc.1 = 0)) _ l (fun acc c hc hacc => ?_) (0, none)
    ⟨fun _ h => (nomatch h), fun _ => rfl⟩
  unfold prepareStatusStep
  split
  · exact hacc
  · rename_i hb
    split
    · rename_i hs
      -- the status rose above the loop's, which is never below zero
      have hpos : 0 < c.Status := UInt8.lt_of_le_of_lt UInt8.zero_le hs
      exact ⟨fun ri h => by cases h; exact ⟨hc, hb, hpos, rfl⟩, fun h => (nomatch h)⟩
    · exact hacc

end StatusLoop

/-- The reply a prepare goes on from is one at the highest ballot of the
replies, and at the highest status among those, which is above zero; no reply is
picked only when every reply at the highest ballot has status zero. -/
theorem analyzePrepareResponses_picks_highest (responses : List PrepareResponse) :
    (∀ ri, analyzePrepareResponses responses = some ri →
      ri ∈ responses.filterMap (·.Instance) ∧ 0 < ri.Status ∧
        ∀ x ∈ responses.filterMap (·.Instance),
          x.MaxBallot ≤ ri.MaxBallot ∧ (x.MaxBallot = ri.MaxBallot → x.Status ≤ ri.Status)) ∧
    (analyzePrepareResponses responses = none →
      ∀ x ∈ responses.filterMap (·.Instance),
        (∀ y ∈ responses.filterMap (·.Instance), y.MaxBallot ≤ x.MaxBallot) → x.Status = 0) := by
  rw [analyzePrepareResponses_eq]
  generalize responses.filterMap (·.Instance) = seen
  set mb := maxOfBallots (seen.map (·.MaxBallot)) with hmb
  have hle : ∀ x ∈ seen, x.MaxBallot ≤ mb := fun x hx => le_maxOfBallots (List.mem_map_of_mem hx)
  obtain ⟨hpick, hnone⟩ := foldl_prepareStatusStep_pick mb seen
  have hall := (le_foldl_prepareStatusStep mb seen (0, none)).2
  split
  · -- no reply carries the instance
    rename_i hempty
    have hnil : seen = [] := List.isEmpty_iff.mp hempty
    exact ⟨fun _ h => (nomatch h), fun _ x hx _ => absurd (hnil ▸ hx) List.not_mem_nil⟩
  · refine ⟨fun ri h => ?_, fun h x hx hmax => ?_⟩
    · obtain ⟨hri, hb, hpos, hst⟩ := hpick ri h
      have hge : mb ≤ ri.MaxBallot := UInt32.not_lt.mp hb
      refine ⟨hri, hpos, fun x hx => ⟨UInt32.le_trans (hle x hx) hge, fun heq => ?_⟩⟩
      rw [hst]
      exact hall x hx (by rw [heq]; exact hb)
    · -- a reply at the highest ballot is not below the loop's ballot
      have hge : ¬ x.MaxBallot < mb := by
        rcases maxOfBallots_mem (seen.map (·.MaxBallot)) with h0 | hmem
        · rw [← hmb] at h0
          rw [h0]
          exact UInt32.not_lt.mpr UInt32.zero_le
        · rw [← hmb] at hmem
          obtain ⟨y, hy, hyb⟩ := List.mem_map.mp hmem
          rw [← hyb]
          exact UInt32.not_lt.mpr (hmax y hy)
      have hx0 := hall x hx hge
      rw [hnone h] at hx0
      exact UInt8.le_antisymm hx0 UInt8.zero_le

/-! ### Refusals -/

variable {m : Manager} {i : Instance}

theorem HandlePreAccept_refused {r : PreAcceptRequest} (hi : m.getInstance r.Instance.InstanceID = some i)
    (hle : r.Instance.MaxBallot ≤ i.MaxBallot) :
    m.HandlePreAccept r = (m, .ok ⟨false, i.Copy.MaxBallot, i.Copy, []⟩) := by
  simp [HandlePreAccept, hi, hle]

/-- An accept is refused after its missing instances are added, which let no
ballot go down. -/
theorem HandleAccept_refused {r : AcceptRequest} (hi : m.getInstance r.Instance.InstanceID = some i)
    (hle : r.Instance.MaxBallot ≤ i.MaxBallot) :
    ∃ b, (m.HandleAccept r).2 = .ok ⟨false, b⟩ := by
  have hadv : Advances True m
      (if r.MissingInstances.length > 0 then (m.addMissingInstancesUnsafe r.MissingInstances).1
        else m) := by
    split
    · exact addMissingInstancesUnsafe_advances m _
    · exact Advances.refl m
  obtain ⟨i', hi', hg⟩ := hadv.instances _ i hi
  have hle' : r.Instance.MaxBallot ≤ i'.MaxBallot := UInt32.le_trans hle (hg.2 trivial)
  refine ⟨i'.MaxBallot, ?_⟩
  simp only [HandleAccept]
  rw [hi']
  simp [hle']

theorem HandlePrepare_refused {r : PrepareRequest} (hi : m.getInstance r.InstanceID = some i)
    (hle : r.Ballot ≤ i.MaxBallot) : (m.HandlePrepare r).2 = .ok ⟨false, some i.Copy⟩ := by
  have hn : ¬ r.Ballot > i.MaxBallot := UInt32.not_lt.mpr hle
  simp [HandlePrepare, hi, hn]

/-- An accepted prepare of a known instance leaves it at the prepare's ballot. -/
theorem HandlePrepare_accepted {r : PrepareRequest} (hi : m.getInstance r.InstanceID = some i)
    (hgt : r.Ballot > i.MaxBallot) :
    ∃ i', (m.HandlePrepare r).1.getInstance r.InstanceID = some i' ∧ i'.MaxBallot = r.Ballot ∧
      (m.HandlePrepare r).2 = .ok ⟨true, some i'.Copy⟩ := by
  have hid : i.InstanceID = r.InstanceID := getInstance_id hi
  refine ⟨(i.updateBallot r.Ballot).1, ?_, by simp [updateBallot, hgt], ?_⟩
  · simp only [HandlePrepare, hi, hgt, decide_true, if_true]
    rw [getInstance_putInstance]
    simp [updateBallot, hgt, hid, hi]
  · simp [HandlePrepare, hi, hgt]

end Manager

open Manager

section Runs
variable (uuidTime : UUID → Int)

/-- A replica that holds an instance at a ballot keeps the promise that ballot
makes over the rest of a run whose ballots stay below the limit: at every later
point it refuses every preaccept, accept and prepare of the instance at a ballot
no higher. -/
theorem ballot_promise_kept {w w' : World} {acts : List Action} (h : run uuidTime w acts = some w')
    {n : NodeId} {m : Manager} (hm : w.manager n = some m) {x : InstanceID} {i : Instance}
    (hi : m.getInstance x = some i) :
    ∃ m', w'.manager n = some m' ∧
      ((∀ v ∈ trace uuidTime w acts, v.BallotsBelowLimit) →
        (∀ r : PreAcceptRequest, r.Instance.InstanceID = x → r.Instance.MaxBallot ≤ i.MaxBallot →
          (m'.HandlePreAccept r).1 = m' ∧ ∃ resp, (m'.HandlePreAccept r).2 = .ok resp ∧
            resp.Accepted = false) ∧
        (∀ r : AcceptRequest, r.Instance.InstanceID = x → r.Instance.MaxBallot ≤ i.MaxBallot →
          ∃ resp, (m'.HandleAccept r).2 = .ok resp ∧ resp.Accepted = false) ∧
        (∀ r : PrepareRequest, r.InstanceID = x → r.Ballot ≤ i.MaxBallot →
          ∃ resp, (m'.HandlePrepare r).2 = .ok resp ∧ resp.Accepted = false)) := by
  obtain ⟨m', hm', hadv⟩ := run_advances uuidTime h n m hm
  obtain ⟨i', hi', hg⟩ := hadv.instances x i hi
  refine ⟨m', hm', fun hb => ⟨fun r hr hle => ?_, fun r hr hle => ?_, fun r hr hle => ?_⟩⟩
  all_goals
    -- the ballot the replica holds now is no lower than the one it held
    have hle' := UInt32.le_trans hle (hg.2 hb)
  · rw [← hr] at hi'
    rw [HandlePreAccept_refused hi' hle']
    exact ⟨rfl, _, rfl, rfl⟩
  · rw [← hr] at hi'
    obtain ⟨b, hb'⟩ := HandleAccept_refused hi' hle'
    exact ⟨_, hb', rfl⟩
  · rw [← hr] at hi'
    exact ⟨_, HandlePrepare_refused hi' hle', rfl⟩

/-- The leader `A` holds `iidX` once queried; through the fast path it keeps
refusing what comes at a ballot no higher. -/
theorem ballot_promise_kept_fast_path :
    ∃ (w' : World) (m : Manager) (i : Instance),
      run (fun _ => 0) leaderQueried fastPath = some w' ∧ leaderQueried.manager nodeA = some m ∧
        m.getInstance iidX = some i ∧
        ∃ m', w'.manager nodeA = some m' ∧
          ((∀ v ∈ trace (fun _ => 0) leaderQueried fastPath, v.BallotsBelowLimit) →
            (∀ r : PreAcceptRequest, r.Instance.InstanceID = iidX → r.Instance.MaxBallot ≤ i.MaxBallot →
              (m'.HandlePreAccept r).1 = m' ∧ ∃ resp, (m'.HandlePreAccept r).2 = .ok resp ∧
                resp.Accepted = false) ∧
            (∀ r : AcceptRequest, r.Instance.InstanceID = iidX → r.Instance.MaxBallot ≤ i.MaxBallot →
              ∃ resp, (m'.HandleAccept r).2 = .ok resp ∧ resp.Accepted = false) ∧
            (∀ r : PrepareRequest, r.InstanceID = iidX → r.Ballot ≤ i.MaxBallot →
              ∃ resp, (m'.HandlePrepare r).2 = .ok resp ∧ resp.Accepted = false)) := by
  obtain ⟨w', hw⟩ := Option.isSome_iff_exists.mp
    (show (run (fun _ => 0) leaderQueried fastPath).isSome by decide +kernel)
  obtain ⟨m, hm⟩ := Option.isSome_iff_exists.mp
    (show (leaderQueried.manager nodeA).isSome by decide +kernel)
  have hsome : ((leaderQueried.manager nodeA).bind (·.getInstance iidX)).isSome := by
    decide +kernel
  rw [hm, Option.bind_some] at hsome
  obtain ⟨i, hi⟩ := Option.isSome_iff_exists.mp hsome
  exact ⟨w', m, i, hw, hm, hi, ballot_promise_kept (fun _ => 0) hw hm hi⟩

end Runs

end Kickboxer.Consensus
