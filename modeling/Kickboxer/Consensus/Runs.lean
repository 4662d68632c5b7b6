import Kickboxer.Consensus.Advance

/-! Runs of the protocol: what every run keeps and what some runs break.

Every action of `step` changes at most one manager, through the operations of
`Consensus.Advance`, so every step advances every replica (`step_advances`): an
instance a replica holds stays there and its status does not decrease. Its
ballot does not decrease either when, before the step, every ballot in the
world (at a replica or in a message) is below `2^32-1`
(`World.BallotsBelowLimit`): a step bumps a ballot at most once, after raising
it to ballots it has read. Chained over a run, with the assumption made of every
world the run passes through, this is `instances_never_regress`.

The local step of each phase succeeds or fails only with an invalid status
update, which the phases ignore, because the store's instructions always have
an interfering key; so a phase always goes on to its wait.

Five runs from the cluster of `Consensus.Protocol` show what the protocol does
not keep. A recovery that hears from a successor that the instance is committed
commits its own copy, whose dependencies may differ from the leader's
(`successor_commit_disagrees`). An accept carries no missing instances, so a
replica can commit an instance whose dependency it never received, and then
cannot order it for execution (`committed_with_unknown_dependency`). A leader
whose preaccept wait times out commits all the same, with the dependencies it
started from, so two leaders of interfering writes can both commit without
seeing each other and apply different histories (`timeouts_diverge`). A
leader whose accept is refused for its ballot commits as well, with attributes
no other replica accepted (`rejected_accept_committed`). And a recovery that
hears from a successor that the instance is accepted accepts its own copy
(`successorResponse_accepted`, `successor_accept_keeps_local`). -/
namespace Kickboxer.Consensus
open Kickboxer.Types Store Library Instance Manager

/-! ### Ballots below the limit -/

/-- Every ballot a message carries is below the limit. -/
def Message.Below : Message → Prop
  | .preAcceptRequest r => r.Instance.Below
  | .preAcceptResponse r =>
    r.MaxBallot < ballotLimit ∧ r.Instance.Below ∧ ∀ i ∈ r.MissingInstances, i.Below
  | .acceptRequest r => r.Instance.Below ∧ ∀ i ∈ r.MissingInstances, i.Below
  | .acceptResponse r => r.MaxBallot < ballotLimit
  | .commitRequest r => r.Instance.Below
  | .commitResponse _ => True
  | .prepareRequest r => r.Ballot < ballotLimit
  | .prepareResponse r => ∀ i ∈ r.Instance, i.Below
  | .prepareSuccessorRequest _ => True
  | .prepareSuccessorResponse r => ∀ i ∈ r.Instance, i.Below

/-- No ballot in the world, at a replica or in a message, has reached `2^32-1`. -/
def World.BallotsBelowLimit (w : World) : Prop :=
  (∀ m ∈ w.managers, m.Below) ∧ ∀ e ∈ w.network, e.msg.Below

/-! ### The local step of a phase never fails -/

section LocalSteps
variable (m : Manager) (src : Src) (incr : Bool)

theorem preAcceptInstance_result : ignoreInvalidStatus (m.preAcceptInstance src incr).2 = .ok () := by
  simp only [preAcceptInstance]
  by_cases hs : (m.getOrSetSrc src).2.1.Status > INSTANCE_PREACCEPTED
  · simp only [preaccept, hs, if_true]
    rfl
  · rw [(preaccept_eq _ _ _ _ hs).1]
    rfl

theorem acceptInstance_result : ignoreInvalidStatus (m.acceptInstance src incr).2 = .ok () := by
  simp only [acceptInstance]
  split
  · rename_i e h
    rw [(advanceTo_eq_error h).2]
    rfl
  · rw [ReportAcknowledged_ok]
    rfl

theorem commitInstance_result : ignoreInvalidStatus (m.commitInstance src incr).2 = .ok () := by
  simp only [commitInstance]
  split
  · rename_i e h
    rw [(advanceTo_eq_error h).2]
    rfl
  · rw [ReportAcknowledged_ok]
    rfl

end LocalSteps

/-- Accepting a held instance through its own object keeps its dependencies
and noop flag: `advanceTo` is given no copy to take them from. -/
theorem acceptInstance_local {m : Manager} {li : Instance} (hli : m.getInstance li.InstanceID = some li)
    (hle : ¬ li.Status > INSTANCE_ACCEPTED) :
    ∃ i, (m.acceptInstance (.local li) false).1.getInstance li.InstanceID = some i ∧
      i.Status = INSTANCE_ACCEPTED ∧ i.Dependencies = li.Dependencies ∧ i.Noop = li.Noop := by
  simp only [acceptInstance, getOrSetSrc, getOrSetInstance_some m li hli]
  cases ha : li.accept none false with
  | error e => exact absurd (advanceTo_eq_error ha).1 hle
  | ok i' =>
    obtain ⟨-, hs, hid, -, hdeps, hnoop, -⟩ := advanceTo_eq_ok ha
    refine ⟨i', ?_, hs, hdeps, hnoop⟩
    simp only [Manager.ReportAcknowledged]
    rw [getInstance_of_instances (withDeps_instances _ _ _), getInstance_putInstance, if_pos hid, hli]
    rfl

/-! ### The phases -/

section Phases
variable (tag : Tag) {P : Prop}

theorem beginPhase_eq (op : Manager → Src → Bool → Manager × Except Error Unit)
    (request : Instance → Message) {m : Manager} {src : Src}
    (hok : ignoreInvalidStatus (op m src true).2 = .ok ()) :
    ∃ sent, beginPhase tag op request m src = ((op m src true).1, sent, .ok ()) := by
  simp only [beginPhase, hok]
  split
  · exact ⟨_, rfl⟩
  · exact ⟨_, rfl⟩

theorem enterPreAccept_eq (mode : Mode) (m : Manager) (src : Src) :
    (enterPreAccept tag mode m src).mgr = (m.preAcceptInstance src true).1 ∧
      (enterPreAccept tag mode m src).next = .preAccepting mode := by
  obtain ⟨sent, h⟩ := beginPhase_eq tag _ (fun c => .preAcceptRequest ⟨c⟩)
    (preAcceptInstance_result m src true)
  unfold enterPreAccept beginPreAcceptPhase
  rw [h]
  exact ⟨rfl, rfl⟩

theorem enterAccept_eq (mode : Mode) (m : Manager) (src : Src) :
    (enterAccept tag mode m src).mgr = (m.acceptInstance src true).1 ∧
      (enterAccept tag mode m src).next = .accepting mode := by
  obtain ⟨sent, h⟩ := beginPhase_eq tag _ (fun c => .acceptRequest ⟨c, []⟩)
    (acceptInstance_result m src true)
  unfold enterAccept beginAcceptPhase
  rw [h]
  exact ⟨rfl, rfl⟩

theorem enterCommit_mgr (mode : Mode) (m : Manager) (src : Src) :
    (enterCommit tag mode m src).mgr = (m.commitInstance src true).1 := by
  obtain ⟨sent, h⟩ := beginPhase_eq tag _ (fun c => .commitRequest ⟨c⟩)
    (commitInstance_result m src true)
  unfold enterCommit managerCommitPhase
  rw [h]

/-- A phase on the local instance, whose ballot is below the limit if the
manager's are. -/
theorem localSrc_below {m : Manager} {iid : InstanceID} {src : Src} (h : m.localSrc iid = some src)
    (hm : m.Below) : src.inst.Below := by
  obtain ⟨i, hi, rfl⟩ := Option.map_eq_some_iff.mp h
  exact hm.getInstance hi

theorem enterCommit_advances (mode : Mode) {m : Manager} {src : Src}
    (hb : P → m.Below ∧ src.inst.Below) : Advances P m (enterCommit tag mode m src).mgr := by
  rw [enterCommit_mgr]
  exact commitInstance_advances m fun hP _ => hb hP

theorem enterAccept_advances (mode : Mode) {m : Manager} {src : Src}
    (hb : P → m.Below ∧ src.inst.Below) : Advances P m (enterAccept tag mode m src).mgr := by
  rw [(enterAccept_eq tag mode m src).1]
  exact acceptInstance_advances m fun hP _ => hb hP

theorem enterPreAccept_advances (mode : Mode) {m : Manager} {src : Src}
    (hb : P → m.Below ∧ src.inst.Below) : Advances P m (enterPreAccept tag mode m src).mgr := by
  rw [(enterPreAccept_eq tag mode m src).1]
  exact preAcceptInstance_advances m fun hP _ => hb hP

theorem afterAccept_advances (mode : Mode) {m : Manager} (iid : InstanceID)
    (result : Except Error Unit) (hb : P → m.Below) :
    Advances P m (afterAccept tag mode m iid result).mgr := by
  unfold afterAccept
  split
  · exact Advances.refl m
  · rename_i src _ h
    exact enterCommit_advances tag _ fun hP => ⟨hb hP, localSrc_below h (hb hP)⟩
  · exact Advances.refl m

theorem afterPreAccept_advances (mode : Mode) {m : Manager} (iid : InstanceID)
    (acceptRequired : Bool) (result : Except Error Unit) (hb : P → m.Below) :
    Advances P m (afterPreAccept tag mode m iid acceptRequired result).mgr := by
  unfold afterPreAccept
  split
  · exact Advances.refl m
  · rename_i src _ h
    have hs : P → m.Below ∧ src.inst.Below := fun hP => ⟨hb hP, localSrc_below h (hb hP)⟩
    split
    · exact enterAccept_advances tag _ hs
    · exact enterCommit_advances tag _ hs
  · exact Advances.refl m

/-! ### Prepare -/

theorem preparePhase_advances {m : Manager} (iid : InstanceID) (hb : P → m.Below) :
    Advances P m (preparePhase tag m iid).mgr := by
  unfold preparePhase
  split
  · exact Advances.refl m
  · rename_i i hi
    split
    · exact Advances.refl m
    · exact advances_put_grown m hi rfl
        ⟨UInt8.le_refl _, fun hP => le_add_one_of_lt_limit ((hb hP).getInstance hi)⟩

theorem deferToSuccessor_advances {m : Manager} (iid : InstanceID) (succ : List NodeId)
    (hb : P → m.Below) : Advances P m (deferToSuccessor tag m iid succ).mgr := by
  unfold deferToSuccessor
  split
  · exact Advances.refl m
  · split
    · exact Advances.refl m
    · exact preparePhase_advances tag iid hb

theorem waitForSuccessor_mgr (m : Manager) (iid : InstanceID) : (waitForSuccessor m iid).mgr = m := by
  unfold waitForSuccessor
  split <;> rfl

theorem successorResponse_advances {m : Manager} (iid : InstanceID) (rest : List NodeId)
    (response : PrepareSuccessorResponse) (hb : P → m.Below) :
    Advances P m (successorResponse tag m iid rest response).mgr := by
  unfold successorResponse
  split
  · exact deferToSuccessor_advances tag iid rest hb
  · exact Advances.refl m
  · rename_i ri li _ _
    have hacc : Advances P m (m.acceptInstance (.local li) false).1 :=
      acceptInstance_advances m fun _ h => nomatch h
    split
    · split
      · split
        · rename_i hd
          exact fst_eq_of_eq hd ▸ hacc
        · rename_i m' hd
          rw [waitForSuccessor_mgr]
          exact fst_eq_of_eq hd ▸ hacc
      · split
        · exact commitInstance_advances m fun _ h => nomatch h
        · rw [waitForSuccessor_mgr]
          exact Advances.refl m
    · rw [waitForSuccessor_mgr]
      exact Advances.refl m

theorem successorResponse_accepted_mgr {m : Manager} {iid : InstanceID} (rest : List NodeId)
    {ri li : Instance} (hli : m.getInstance iid = some li) (hgt : ri.Status > li.Status)
    (hacc : ri.Status = INSTANCE_ACCEPTED) :
    (successorResponse tag m iid rest ⟨some ri⟩).mgr = (m.acceptInstance (.local li) false).1 := by
  simp only [successorResponse, hli, if_pos hgt, if_pos hacc]
  split
  · rename_i hd
    exact (fst_eq_of_eq hd).symm
  · rename_i hd
    rw [waitForSuccessor_mgr]
    exact (fst_eq_of_eq hd).symm

/-- A successor's accepted copy moves the local instance to accepted, with the
local dependencies and noop flag, whatever the copy's are. -/
theorem successorResponse_accepted {m : Manager} {iid : InstanceID} (rest : List NodeId)
    {ri li : Instance} (hli : m.getInstance iid = some li) (hgt : ri.Status > li.Status)
    (hacc : ri.Status = INSTANCE_ACCEPTED) :
    ∃ i, (successorResponse tag m iid rest ⟨some ri⟩).mgr.getInstance iid = some i ∧
      i.Status = INSTANCE_ACCEPTED ∧ i.Dependencies = li.Dependencies ∧ i.Noop = li.Noop := by
  have hid := getInstance_id hli
  subst hid
  rw [successorResponse_accepted_mgr tag rest hli hgt hacc]
  have hlt : li.Status < INSTANCE_ACCEPTED := hacc ▸ hgt
  refine acceptInstance_local hli fun h => ?_
  rw [gt_iff_lt, UInt8.lt_iff_toNat_lt] at h
  rw [UInt8.lt_iff_toNat_lt] at hlt
  omega

theorem prepareFrom_advances {m : Manager} {src : Src} (status : InstanceStatus)
    (hb : P → m.Below ∧ src.inst.Below) : Advances P m (prepareFrom tag m src status).mgr := by
  unfold prepareFrom
  split
  · exact enterPreAccept_advances tag _ hb
  · split
    · exact enterAccept_advances tag _ hb
    · split
      · exact enterCommit_advances tag _ hb
      · exact Advances.refl m

/-- `managerPrepareApply`: the checked replies raise the local ballot to theirs,
which are below the limit, before the first phase bumps it. -/
theorem prepareApply_advances {m : Manager} (iid : InstanceID) (responses : List PrepareResponse)
    (hb : P → m.Below ∧ ∀ ri ∈ responses.filterMap (·.Instance), ri.Below) :
    Advances P m (prepareApply tag m iid responses).mgr := by
  unfold prepareApply
  have hcheck := managerPrepareCheckResponses_advances m (P := P) iid responses
  have hbelow : P → (m.managerPrepareCheckResponses iid responses).1.Below := fun hP =>
    (hb hP).1.managerPrepareCheckResponses iid (hb hP).2
  split
  · rename_i m' e hd
    exact fst_eq_of_eq hd ▸ hcheck
  · rename_i m' hd
    rw [fst_eq_of_eq hd] at hcheck hbelow
    split
    · exact hcheck
    · rename_i li hli
      have hlib : P → li.Below := fun hP => (hbelow hP).getInstance hli
      split
      · rename_i ri hri
        have hrib : P → ri.Below := fun hP => (hb hP).2 ri (analyzePrepareResponses_mem hri)
        split
        · exact hcheck.trans (prepareFrom_advances tag _ fun hP => ⟨hbelow hP, hlib hP⟩)
        · exact hcheck.trans (prepareFrom_advances tag _ fun hP => ⟨hbelow hP, hrib hP⟩)
      · split
        · -- the noop write keeps the ballot
          have hput : Advances P m' (m'.putInstance li.setNoop) :=
            advances_put_grown m' hli rfl (grows_of_eq rfl rfl)
          exact hcheck.trans (hput.trans (prepareFrom_advances tag _ fun hP =>
            ⟨(hbelow hP).putInstance (hlib hP), hlib hP⟩))
        · exact hcheck.trans (prepareFrom_advances tag _ fun hP => ⟨hbelow hP, hlib hP⟩)

/-! ### The ends of the waits -/

theorem addMissingFromResponses_advances (m : Manager) (responses : List PreAcceptResponse) :
    Advances P m (addMissingFromResponses m responses).1 := by
  induction responses generalizing m with
  | nil => exact Advances.refl m
  | cons r rs ih =>
    simp only [addMissingFromResponses]
    split
    · split
      · rename_i hd
        exact fst_eq_of_eq hd ▸ addMissingInstancesUnsafe_advances m _
      · rename_i m' hd
        exact (fst_eq_of_eq hd ▸ addMissingInstancesUnsafe_advances m _).trans (ih m')
    · exact ih m

theorem Manager.Below.addMissingFromResponses {m : Manager} (hm : m.Below) {responses : List PreAcceptResponse}
    (h : ∀ r ∈ responses, ∀ i ∈ r.MissingInstances, i.Below) :
    (addMissingFromResponses m responses).1.Below := by
  induction responses generalizing m with
  | nil => exact hm
  | cons r rs ih =>
    have hrs : ∀ r ∈ rs, ∀ i ∈ r.MissingInstances, i.Below := fun r hr => h r (List.mem_cons_of_mem _ hr)
    simp only [Consensus.addMissingFromResponses]
    split
    · split
      · rename_i hd
        exact fst_eq_of_eq hd ▸ hm.addMissingInstancesUnsafe (h r List.mem_cons_self)
      · rename_i m' hd
        exact ih (fst_eq_of_eq hd ▸ hm.addMissingInstancesUnsafe (h r List.mem_cons_self)) hrs
    · exact ih hm hrs

/-- The end of a preaccept wait: no bump, and ballots stay below the limit. -/
theorem preAcceptResult_advances (m : Manager) (iid : InstanceID) (responses : List PreAcceptResponse) :
    Advances P m (preAcceptResult m iid responses).1 := by
  unfold preAcceptResult
  split
  · exact updateInstanceBallotFromResponses_advances m iid _
  · split
    · rename_i hd
      exact fst_eq_of_eq hd ▸ addMissingFromResponses_advances m responses
    · rename_i m' hd
      exact (fst_eq_of_eq hd ▸ addMissingFromResponses_advances m responses).trans
        (mergePreAcceptAttributes_advances m' iid responses false)

theorem Manager.Below.preAcceptResult {m : Manager} (hm : m.Below) (iid : InstanceID)
    {responses : List PreAcceptResponse}
    (h : ∀ r ∈ responses, r.MaxBallot < ballotLimit ∧ ∀ i ∈ r.MissingInstances, i.Below) :
    (Consensus.preAcceptResult m iid responses).1.Below := by
  unfold Consensus.preAcceptResult
  split
  · exact hm.updateInstanceBallotFromResponses iid fun b hb => by
      obtain ⟨r, hr, rfl⟩ := List.mem_map.mp hb
      exact (h r hr).1
  · have hadd := hm.addMissingFromResponses fun r hr => (h r hr).2
    split
    · rename_i hd
      exact fst_eq_of_eq hd ▸ hadd
    · rename_i m' hd
      exact (fst_eq_of_eq hd ▸ hadd).mergePreAcceptAttributes iid responses false

theorem acceptResult_advances (m : Manager) (iid : InstanceID) (responses : List AcceptResponse) :
    Advances P m (acceptResult m iid responses).1 := by
  unfold acceptResult
  split
  · exact updateInstanceBallotFromResponses_advances m iid _
  · exact Advances.refl m

theorem Manager.Below.acceptResult {m : Manager} (hm : m.Below) (iid : InstanceID)
    {responses : List AcceptResponse} (h : ∀ r ∈ responses, r.MaxBallot < ballotLimit) :
    (Consensus.acceptResult m iid responses).1.Below := by
  unfold Consensus.acceptResult
  split
  · exact hm.updateInstanceBallotFromResponses iid fun b hb => by
      obtain ⟨r, hr, rfl⟩ := List.mem_map.mp hb
      exact h r hr
  · exact hm

theorem Message.asPreAcceptResponse_below {msg : Message} {r : PreAcceptResponse}
    (h : msg.asPreAcceptResponse = some r) (hb : msg.Below) :
    r.MaxBallot < ballotLimit ∧ ∀ i ∈ r.MissingInstances, i.Below := by
  cases msg <;> simp only [Message.asPreAcceptResponse, reduceCtorEq, Option.some.injEq] at h
  subst h
  exact ⟨hb.1, hb.2.2⟩

theorem Message.asAcceptResponse_below {msg : Message} {r : AcceptResponse}
    (h : msg.asAcceptResponse = some r) (hb : msg.Below) : r.MaxBallot < ballotLimit := by
  cases msg <;> simp only [Message.asAcceptResponse, reduceCtorEq, Option.some.injEq] at h
  subst h
  exact hb

theorem Message.asPrepareResponse_below {msg : Message} {r : PrepareResponse}
    (h : msg.asPrepareResponse = some r) (hb : msg.Below) : ∀ i ∈ r.Instance, i.Below := by
  cases msg <;> simp only [Message.asPrepareResponse, reduceCtorEq, Option.some.injEq] at h
  subst h
  exact hb

/-- What a process takes from messages below the limit is below it. -/
theorem below_of_filterMap {α : Type} {msgs : List Message} {f : Message → Option α}
    {q : α → Prop} (hf : ∀ msg a, f msg = some a → msg.Below → q a) (h : ∀ msg ∈ msgs, msg.Below) :
    ∀ a ∈ msgs.filterMap f, q a := by
  intro a ha
  obtain ⟨msg, hmsg, hfa⟩ := List.mem_filterMap.mp ha
  exact hf msg a hfa (h msg hmsg)

theorem receive_advances {m : Manager} (p : Proc) (msgs : List Message) {e : Effect}
    (hr : receive tag m p msgs = some e) (hb : P → m.Below ∧ ∀ msg ∈ msgs, msg.Below) :
    Advances P m e.mgr := by
  unfold receive at hr
  split at hr
  · cases hr
  · dsimp only at hr
    split at hr
    · split at hr
      · cases hr
        have hbelow : P → (preAcceptResult m p.iid (msgs.filterMap Message.asPreAcceptResponse)).1.Below :=
          fun hP => (hb hP).1.preAcceptResult p.iid
            (below_of_filterMap (fun _ _ => Message.asPreAcceptResponse_below) (hb hP).2)
        exact (preAcceptResult_advances m p.iid _).trans
          (afterPreAccept_advances tag _ p.iid _ _ hbelow)
      · cases hr
    · split at hr
      · cases hr
        have hbelow : P → (acceptResult m p.iid (msgs.filterMap Message.asAcceptResponse)).1.Below :=
          fun hP => (hb hP).1.acceptResult p.iid
            (below_of_filterMap (fun _ _ => Message.asAcceptResponse_below) (hb hP).2)
        exact (acceptResult_advances m p.iid _).trans (afterAccept_advances tag _ p.iid _ hbelow)
      · cases hr
    · split at hr
      · cases hr
        refine prepareApply_advances tag p.iid _ fun hP => ⟨(hb hP).1, fun ri hri => ?_⟩
        obtain ⟨r, hr, hri⟩ := List.mem_filterMap.mp hri
        exact below_of_filterMap (fun _ _ => Message.asPrepareResponse_below) (hb hP).2 r hr ri
          (Option.mem_def.mp hri)
      · cases hr
    · split at hr
      · cases hr
        exact successorResponse_advances tag p.iid _ _ fun hP => (hb hP).1
      · cases hr
    · cases hr

theorem timeout_advances {m : Manager} (p : Proc) {e : Effect} (hr : timeout tag m p = some e)
    (hb : P → m.Below) : Advances P m e.mgr := by
  unfold timeout at hr
  split at hr
  · cases hr
    exact afterPreAccept_advances tag _ p.iid _ _ hb
  · cases hr
    exact afterAccept_advances tag _ p.iid _ hb
  · cases hr
    exact Advances.refl m
  · cases hr
    exact deferToSuccessor_advances tag p.iid _ hb
  · obtain ⟨i, -, rfl⟩ := Option.map_eq_some_iff.mp hr
    exact deferToSuccessor_advances tag p.iid _ hb
  · cases hr

end Phases

theorem wake_mgr {m : Manager} {p : Proc} {e : Effect} (hr : wake m p = some e) : e.mgr = m := by
  unfold wake at hr
  split at hr
  · split at hr
    · cases hr
      rfl
    · cases hr
  · split at hr
    · cases hr
      rfl
    · cases hr
  · cases hr

theorem execute_advances {P : Prop} (uuidTime : UUID → Int) {m : Manager} {p : Proc} {e : Effect}
    (hr : execute uuidTime m p = some e) : Advances P m e.mgr := by
  unfold execute at hr
  split at hr
  · split at hr
    · cases hr
      rename_i hd
      exact fst_eq_of_eq hd ▸ executeInstancePass_advances m uuidTime p.iid
    · cases hr
      rename_i _ hd
      exact fst_eq_of_eq hd ▸ executeInstancePass_advances m uuidTime p.iid
  · cases hr

theorem Manager.answer_fst (m : Manager) (e : Envelope) : (m.answer e).1 = (m.HandleMessage e.msg).1 := by
  dsimp only [Manager.answer]
  split <;> rfl

theorem Manager.makeInstance_below (m : Manager) (iid : InstanceID) (instruction : Instruction)
    (successors : List NodeId) : (m.makeInstance iid instruction successors).Below := by
  show (0 : UInt32) < ballotLimit
  decide

theorem takeAt_mem {net : List Envelope} {ks : List Nat} {chosen rest : List Envelope}
    (h : takeAt net ks = some (chosen, rest)) {e : Envelope} (he : e ∈ chosen) : e ∈ net := by
  unfold takeAt at h
  dsimp only at h
  split at h
  · cases h
    obtain ⟨k, -, hk⟩ := List.mem_filterMap.mp he
    exact List.mem_of_getElem? hk
  · cases h

/-! ### Steps of the world -/

namespace World
variable {P : Prop}

theorem BallotsBelowLimit.manager {w : World} (hw : w.BallotsBelowLimit) {n : NodeId} {m : Manager}
    (h : w.manager n = some m) : m.Below :=
  hw.1 m (lookup_eq_some h).1

/-- A world whose managers are those of `w` with the one of a node replaced by
one it advances to. -/
theorem evolves_of_replace {w w' : World} {n : NodeId} {m m' : Manager} (hm : w.manager n = some m)
    (h : Advances P m m') (hw : w'.managers = replace Manager.nodeID w.managers m') :
    Evolves World.manager (Advances P) w w' := by
  have hn : m.nodeID = n := (lookup_eq_some hm).2
  have hr : Evolves (lookup Manager.nodeID) (Advances P) w.managers w'.managers := by
    rw [hw]
    refine evolves_replace fun b hb => ?_
    rw [h.nodeID, hn] at hb
    have hbm : b = m := Option.some.inj (hb.symm.trans hm)
    exact hbm ▸ h
  exact hr

theorem evolves_of_managers {w w' : World} (h : w'.managers = w.managers) :
    Evolves World.manager (Advances P) w w' :=
  Evolves.of_get_eq fun n => by simp only [World.manager, h]

end World

theorem procStep_evolves {P : Prop} {w w' : World} {pid : Nat} {network : List Envelope}
    {f : Manager → Proc → Option Effect}
    (hf : ∀ p m e, w.procs[pid]? = some p → w.manager p.node = some m → f m p = some e →
      Advances P m e.mgr)
    (h : procStep w pid network f = some w') : Evolves World.manager (Advances P) w w' := by
  simp only [procStep, bind, Option.bind_eq_some_iff, Option.some.injEq] at h
  obtain ⟨p, hp, m, hm, e, he, rfl⟩ := h
  exact World.evolves_of_replace hm (hf p m e hp hm he) rfl

section Runs
variable (uuidTime : UUID → Int)

/-- Every step advances every replica, with the ballots' growth conditional on
the world before it being below the limit. -/
theorem step_advances {w w' : World} {a : Action} (h : step uuidTime w a = some w') :
    Evolves World.manager (Advances w.BallotsBelowLimit) w w' := by
  cases a with
  | query n iid instruction successors =>
    simp only [step, bind, Option.bind_eq_some_iff, Option.some.injEq] at h
    obtain ⟨m, hm, -, -, rfl⟩ := h
    have hb : w.BallotsBelowLimit →
        m.Below ∧ (Src.other (m.makeInstance iid instruction successors)).inst.Below :=
      fun hw => ⟨hw.manager hm, m.makeInstance_below iid instruction successors⟩
    exact World.evolves_of_replace hm (enterPreAccept_advances _ _ hb) rfl
  | prepare n iid =>
    simp only [step, bind, Option.bind_eq_some_iff] at h
    obtain ⟨m, hm, i, -, -, -, h⟩ := h
    split at h
    · cases h
      exact World.evolves_of_managers rfl
    · cases h
      exact World.evolves_of_replace hm (deferToSuccessor_advances _ iid _ fun hw => hw.manager hm) rfl
  | deliver k =>
    simp only [step, bind, Option.bind_eq_some_iff, Option.some.injEq] at h
    obtain ⟨e, -, m, hm, rfl⟩ := h
    exact World.evolves_of_replace hm (m.answer_fst e ▸ HandleMessage_advances m e.msg) rfl
  | drop k =>
    simp only [step] at h
    split at h
    · cases h
      exact World.evolves_of_managers rfl
    · cases h
  | receive pid ks =>
    simp only [step, bind, Option.bind_eq_some_iff] at h
    obtain ⟨p, -, ⟨chosen, rest⟩, htake, -, -, h⟩ := h
    refine procStep_evolves (fun p' m e _ hm he => receive_advances _ p' _ he fun hw =>
      ⟨hw.manager hm, fun msg hmsg => ?_⟩) h
    obtain ⟨env, henv, rfl⟩ := List.mem_map.mp hmsg
    exact hw.2 env (takeAt_mem htake henv)
  | timeout pid =>
    exact procStep_evolves (fun p m e _ hm he => timeout_advances _ p he fun hw => hw.manager hm) h
  | wake pid =>
    exact procStep_evolves (fun _ m e _ _ he => wake_mgr he ▸ Advances.refl m) h
  | execute pid =>
    exact procStep_evolves (fun _ _ _ _ _ he => execute_advances uuidTime he) h

theorem trace_cons {w w₁ : World} {a : Action} (as : List Action) (h : step uuidTime w a = some w₁) :
    trace uuidTime w (a :: as) = w :: trace uuidTime w₁ as := by
  simp only [trace, h, Option.map_some, Option.getD_some]

/-- A run advances every replica, with the ballots' growth conditional on every
world it passes through being below the limit. -/
theorem run_advances {w w' : World} {acts : List Action} (h : run uuidTime w acts = some w') :
    Evolves World.manager (Advances (∀ v ∈ trace uuidTime w acts, v.BallotsBelowLimit)) w w' := by
  induction acts generalizing w with
  | nil =>
    cases h
    exact Evolves.refl _
  | cons a as ih =>
    obtain ⟨w₁, h₁, h₂⟩ := Option.bind_eq_some_iff.mp h
    rw [trace_cons uuidTime as h₁]
    have hstep : Evolves World.manager
        (Advances (∀ v ∈ w :: trace uuidTime w₁ as, v.BallotsBelowLimit)) w w₁ :=
      (step_advances uuidTime h₁).mono fun _ _ hm => hm.mono fun hP => hP w List.mem_cons_self
    have hrest : Evolves World.manager
        (Advances (∀ v ∈ w :: trace uuidTime w₁ as, v.BallotsBelowLimit)) w₁ w' :=
      (ih h₂).mono fun _ _ hm => hm.mono fun hP v hv => hP v (List.mem_cons_of_mem w hv)
    exact hstep.trans hrest

theorem instances_never_regress {w w' : World} {acts : List Action}
    (h : run uuidTime w acts = some w') {n : NodeId} {m : Manager} (hm : w.manager n = some m)
    {iid : InstanceID} {i : Instance} (hi : m.getInstance iid = some i) :
    ∃ m' i', w'.manager n = some m' ∧ m'.getInstance iid = some i' ∧ i.Status ≤ i'.Status ∧
      ((∀ v ∈ trace uuidTime w acts, v.BallotsBelowLimit) → i.MaxBallot ≤ i'.MaxBallot) := by
  obtain ⟨m', hm', hadv⟩ := run_advances uuidTime h n m hm
  obtain ⟨i', hi', hg⟩ := hadv.instances iid i hi
  exact ⟨m', i', hm', hi', hg.1, hg.2⟩

/-- Node `A` after the query that makes it the leader of `iidX`. -/
def leaderQueried : World :=
  (step (fun _ => 0) cluster (.query nodeA iidX setA [nodeB, nodeC])).getD cluster

/-- The fast path: `B`'s reply reaches the leader, which commits and executes. -/
def fastPath : List Action := [.deliver 0, .receive 0 [1], .execute 0]

theorem instances_never_regress_fast_path :
    ∃ (w' : World) (m : Manager) (i : Instance),
      run (fun _ => 0) leaderQueried fastPath = some w' ∧ leaderQueried.manager nodeA = some m ∧
        m.getInstance iidX = some i ∧
        ∃ m' i', w'.manager nodeA = some m' ∧ m'.getInstance iidX = some i' ∧ i.Status ≤ i'.Status ∧
          ((∀ v ∈ trace (fun _ => 0) leaderQueried fastPath, v.BallotsBelowLimit) →
            i.MaxBallot ≤ i'.MaxBallot) := by
  obtain ⟨w', hw⟩ := Option.isSome_iff_exists.mp
    (show (run (fun _ => 0) leaderQueried fastPath).isSome by decide +kernel)
  obtain ⟨m, hm⟩ := Option.isSome_iff_exists.mp
    (show (leaderQueried.manager nodeA).isSome by decide +kernel)
  have hsome : ((leaderQueried.manager nodeA).bind (·.getInstance iidX)).isSome := by
    decide +kernel
  rw [hm, Option.bind_some] at hsome
  obtain ⟨i, hi⟩ := Option.isSome_iff_exists.mp hsome
  exact ⟨w', m, i, hw, hm, hi, instances_never_regress (fun _ => 0) hw hm hi⟩

end Runs

/-! ### Agreement -/

/-- The commit events of `iid` at node `n`: the dependencies and noop flag of
each commit, in order. -/
def World.commitEvents (w : World) (n : NodeId) (iid : InstanceID) : List (List InstanceID × Bool) :=
  ((w.manager n).map fun m =>
    (m.commitLog.filter (·.InstanceID == iid)).map fun i => (i.Dependencies, i.Noop)).getD []

/-- `B` leads `iidY`, whose preaccepts are lost; `A` leads `iidX`. `B`
preaccepts `iidX` after `iidY` but its reply is lost; `C`'s reply, with no
dependency, lets `A` commit on the fast path, and `C` commits too. `A`'s commit
to `B` is lost, and `B` recovers `iidX`: its successor `C` answers committed,
and `B` commits its own copy. -/
def successorRecovery : List Action :=
  [.query nodeB iidY setB [nodeA, nodeC], .drop 0, .drop 0,
   .query nodeA iidX setA [nodeC, nodeB],
   .deliver 0, .drop 1, .deliver 0, .receive 1 [0],
   .deliver 1, .drop 0,
   .prepare nodeB iidX, .deliver 0, .receive 2 [0]]

theorem successor_commit_disagrees :
    (run (fun _ => 0) cluster successorRecovery).map
        (fun w => (w.commitEvents nodeA iidX, w.commitEvents nodeB iidX)) =
      some ([([], false)], [([iidY], false)]) := by
  decide +kernel

/-! ### Dependency closure -/

/-- `A` leads `iidY`, whose preaccepts are lost, then `iidX`, which depends on
it. `B` preaccepts `iidX` without `iidY`, so an accept is needed; `A`'s
preaccept to `C` is lost, but its accept and its commit reach `C`. -/
def acceptSkipped : List Action :=
  [.query nodeA iidY setB [nodeB, nodeC], .drop 0, .drop 0,
   .query nodeA iidX setA [nodeB, nodeC],
   .deliver 0, .drop 0, .receive 1 [0],
   .deliver 1, .receive 1 [1], .deliver 2]

theorem committed_with_unknown_dependency :
    (run (fun _ => 0) cluster acceptSkipped).map (fun w => (w.manager nodeC).bind fun m =>
      (m.getInstance iidX).map fun i =>
        (i.Status, i.Dependencies, (m.getInstance iidY).isSome,
          match (m.getExecutionOrder (fun _ => 0) i).2 with
          | .error e => some e
          | .ok _ => none)) =
      some (some (INSTANCE_COMMITTED, [iidY], false, some (unknownInstanceError iidY))) := by
  decide +kernel

/-! ### Replication -/

/-- `A` leads `iidX` and `B` leads `iidY`, two writes of one key; all their
messages are lost. Both preaccept waits time out, both leaders commit and
execute. -/
def bothTimeOut : List Action :=
  [.query nodeA iidX setA [nodeB, nodeC], .drop 0, .drop 0,
   .query nodeB iidY setB [nodeA, nodeC], .drop 0, .drop 0,
   .timeout 0, .drop 0, .drop 0, .timeout 1, .drop 0, .drop 0, .execute 0, .execute 1]

theorem timeouts_diverge :
    (run (fun _ => 0) cluster bothTimeOut).map
        (fun w => ((w.manager nodeA).map (·.applied), (w.manager nodeB).map (·.applied))) =
      some (some [setA], some [setB]) := by
  decide +kernel

/-! ### Recovery from a successor -/

/-- `C` leads `iidY`, whose preaccepts are lost; `A` leads `iidX` with the
successors `C`, `B`. `B` preaccepts `iidX` with no dependency, `C` after `iidY`;
`C`'s reply makes `A` send accepts with the dependency `iidY`, and `C` accepts.
`B` then recovers `iidX`: its first successor `C` answers with its accepted
copy, and `B` accepts its own. -/
def successorAccept : List Action :=
  [.query nodeC iidY setB [nodeA, nodeB], .drop 0, .drop 0,
   .query nodeA iidX setA [nodeC, nodeB],
   .deliver 0, .deliver 0, .receive 1 [1], .deliver 2,
   .prepare nodeB iidX, .deliver 3, .receive 2 [3]]

theorem successor_accept_keeps_local :
    (run (fun _ => 0) cluster successorAccept).map (fun w =>
      ((w.manager nodeB).bind fun m => (m.getInstance iidX).map fun i => (i.Status, i.Dependencies),
        (w.manager nodeC).bind fun m => (m.getInstance iidX).map fun i => (i.Status, i.Dependencies))) =
      some (some (INSTANCE_ACCEPTED, []), some (INSTANCE_ACCEPTED, [iidY])) := by
  decide +kernel

/-! ### Commit without a quorum -/

/-- `C` leads `iidY`, whose preaccepts are lost; `A` leads `iidX`. `C` preaccepts
`iidX` after `iidY` and `B` with no dependency; then `B` starts a prepare of
`iidX`, which raises its ballot. `C`'s reply makes `A` accept `iidX` with the
dependency `iidY`; `B` refuses that accept for its ballot, and `A` commits all
the same. -/
def acceptRejected : List Action :=
  [.query nodeC iidY setB [nodeA, nodeB], .drop 0, .drop 0,
   .query nodeA iidX setA [nodeB, nodeC],
   .deliver 1, .deliver 0, .prepare nodeB iidX,
   .receive 1 [0], .deliver 3, .receive 1 [4]]

theorem rejected_accept_committed :
    (run (fun _ => 0) cluster acceptRejected).map (fun w =>
      (w.commitEvents nodeA iidX,
        (w.manager nodeB).bind fun m => (m.getInstance iidX).map fun i => (i.Status, i.Dependencies),
        (w.manager nodeC).bind fun m => (m.getInstance iidX).map fun i => (i.Status, i.Dependencies))) =
      some ([([iidY], false)], some (INSTANCE_PREACCEPTED, []), some (INSTANCE_PREACCEPTED, [iidY])) := by
  decide +kernel

end Kickboxer.Consensus
