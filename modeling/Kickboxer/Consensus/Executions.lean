import Kickboxer.Consensus.Runs
import Kickboxer.Kvstore.Convergence

/-! Executions at a replica over runs (`applyInstance`, `executeDependencyChain`,
`managerExecuteInstance` and every other operation of `manager.go`).

`applyInstance` is the one operation that touches what a replica has executed
(`executions`: its `executed` list, the instructions it handed to the store, and
the store): every other one leaves it as it is (`HandleMessage_executions`,
`receive_executions` and the lemmas before them). It appends an instance only
when moving it from committed to executed, and statuses never go down, so an
instance is appended once; and the store changes only by running the one
instruction it logs. `Continues m m'` collects what a replica keeps from one
point to a later one: instances only grow, `executed` and the log of applied
instructions only grow at their ends, the store moves by the new instructions,
and `ExecutedOnce` (no repeat on `executed`, each instance there held as executed)
is kept. Every step relates every replica so (`step_continues`), hence every run
(`run_continues`): each replica executes each instance at most once
(`executed_at_most_once`), never rewrites what it executed
(`executions_only_extend`), and holds the store that replaying its log of
applied instructions gives (`store_replays_applied`). -/
namespace Kickboxer.Consensus
open Kickboxer.Types Store Kvstore Library Instance Manager

namespace Manager

/-! ### Operations that execute nothing -/

/-- What a replica has executed and done to its store: its `executed` list, the
instructions it handed to the store, and the store. -/
def executions (m : Manager) : List InstanceID × List Instruction × KVStore :=
  (m.executed, m.applied, m.store)

section Frame
variable (m : Manager)

@[simp] theorem putInstance_executions (i : Instance) : (m.putInstance i).executions = m.executions := rfl

@[simp] theorem withDeps_executions {α : Type}
    (f : DependencyMap → List String → Instance → DependencyMap × α) (i : Instance) :
    (m.withDeps f i).1.executions = m.executions := rfl

@[simp] theorem AddDependency_executions (i : Instance) :
    (m.AddDependency i).1.executions = m.executions := rfl

@[simp] theorem ReportAcknowledged_executions (i : Instance) :
    (m.ReportAcknowledged i).1.executions = m.executions := rfl

@[simp] theorem ReportExecuted_executions (i : Instance) :
    (m.ReportExecuted i).1.executions = m.executions := rfl

@[simp] theorem getOrSetInstance_executions (inst : Instance) :
    (m.getOrSetInstance inst).1.executions = m.executions := by
  cases h : m.getInstance inst.InstanceID with
  | some i => simp [getOrSetInstance, h]
  | none =>
    -- the clamp of the status, then the registration
    simp only [getOrSetInstance, h]
    split <;> split <;> rfl

@[simp] theorem getOrSetSrc_executions (src : Src) : (m.getOrSetSrc src).1.executions = m.executions := by
  cases src <;> simp [getOrSetSrc]

theorem preaccept_executions (i : Instance) (inst : Option Instance) (incr : Bool) :
    (m.preaccept i inst incr).1.executions = m.executions := by
  unfold preaccept
  split
  · rfl
  · dsimp only
    split
    all_goals
      rename_i hd
      simp [← fst_eq_of_eq hd, getInstanceDeps]

@[simp] theorem preAcceptInstance_executions (src : Src) (incr : Bool) :
    (m.preAcceptInstance src incr).1.executions = m.executions := by
  simp [preAcceptInstance, preaccept_executions]

@[simp] theorem acceptInstance_executions (src : Src) (incr : Bool) :
    (m.acceptInstance src incr).1.executions = m.executions := by
  unfold acceptInstance
  dsimp only
  split <;> simp

@[simp] theorem commitInstance_executions (src : Src) (incr : Bool) :
    (m.commitInstance src incr).1.executions = m.executions := by
  unfold commitInstance
  dsimp only
  split
  · simp
  · -- the commit log is no part of the executions
    rename_i i _
    exact (putInstance_executions (m.getOrSetSrc src).1 i).trans (getOrSetSrc_executions m src)

@[simp] theorem addMissingInstancesUnsafe_executions (instances : List Instance) :
    (m.addMissingInstancesUnsafe instances).1.executions = m.executions := by
  induction instances generalizing m with
  | nil => rfl
  | cons inst rest ih =>
    unfold addMissingInstancesUnsafe
    dsimp only
    split
    · rw [ih, getOrSetInstance_executions]
    · split
      · split
        all_goals
          rename_i hd
          first
          | rw [← fst_eq_of_eq hd]; simp
          | rw [ih, ← fst_eq_of_eq hd]; simp
      · simp

@[simp] theorem updateInstanceBallotFromResponses_executions (iid : InstanceID)
    (ballots : List UInt32) : (m.updateInstanceBallotFromResponses iid ballots).executions = m.executions := by
  unfold updateInstanceBallotFromResponses
  split <;> rfl

@[simp] theorem mergePreAcceptAttributes_executions (iid : InstanceID)
    (responses : List PreAcceptResponse) (changes : Bool) :
    (m.mergePreAcceptAttributes iid responses changes).1.executions = m.executions := by
  induction responses generalizing m changes with
  | nil => rfl
  | cons response rest ih =>
    unfold mergePreAcceptAttributes
    split
    · rfl
    · split
      · rfl
      · rw [ih, putInstance_executions]

@[simp] theorem preAcceptReply_executions (request : PreAcceptRequest) :
    (m.preAcceptReply request).1.executions = m.executions := rfl

@[simp] theorem HandlePreAccept_executions (request : PreAcceptRequest) :
    (m.HandlePreAccept request).1.executions = m.executions := by
  unfold HandlePreAccept
  dsimp only
  repeat' split
  all_goals simp

@[simp] theorem HandleAccept_executions (request : AcceptRequest) :
    (m.HandleAccept request).1.executions = m.executions := by
  unfold HandleAccept
  dsimp only
  repeat' split
  all_goals simp

@[simp] theorem HandleCommit_executions (request : CommitRequest) :
    (m.HandleCommit request).1.executions = m.executions := by
  unfold HandleCommit
  dsimp only
  split <;> simp

@[simp] theorem HandlePrepare_executions (request : PrepareRequest) :
    (m.HandlePrepare request).1.executions = m.executions := by
  unfold HandlePrepare
  repeat' split
  all_goals rfl

@[simp] theorem HandleMessage_executions (msg : Message) :
    (m.HandleMessage msg).1.executions = m.executions := by
  cases msg <;> simp [HandleMessage, HandlePrepareSuccessor]

@[simp] theorem managerPrepareCheckResponses_executions (iid : InstanceID)
    (responses : List PrepareResponse) :
    (m.managerPrepareCheckResponses iid responses).1.executions = m.executions := by
  unfold managerPrepareCheckResponses
  dsimp only
  repeat' split
  all_goals
    first
    | (rename_i hd; rw [← fst_eq_of_eq hd]; simp)
    | simp

@[simp] theorem answer_executions (e : Envelope) : (m.answer e).1.executions = m.executions := by
  rw [answer_fst, HandleMessage_executions]

end Frame

end Manager

/-! ### Phases and process steps that execute nothing -/

section Phases
variable (tag : Tag)

theorem beginPhase_executions {op : Manager → Src → Bool → Manager × Except Error Unit}
    (hop : ∀ m src b, (op m src b).1.executions = m.executions) (request : Instance → Message)
    (m : Manager) (src : Src) : (beginPhase tag op request m src).1.executions = m.executions := by
  unfold beginPhase
  dsimp only
  repeat' split
  all_goals exact hop m src true

@[simp] theorem enterCommit_executions (mode : Mode) (m : Manager) (src : Src) :
    (enterCommit tag mode m src).mgr.executions = m.executions :=
  beginPhase_executions tag commitInstance_executions _ m src

@[simp] theorem afterAccept_executions (mode : Mode) (m : Manager) (iid : InstanceID)
    (result : Except Error Unit) : (afterAccept tag mode m iid result).mgr.executions = m.executions := by
  unfold afterAccept
  split <;> simp

@[simp] theorem enterAccept_executions (mode : Mode) (m : Manager) (src : Src) :
    (enterAccept tag mode m src).mgr.executions = m.executions := by
  have h : (beginAcceptPhase tag m src).1.executions = m.executions :=
    beginPhase_executions tag acceptInstance_executions _ m src
  unfold enterAccept
  split
  all_goals
    rename_i hd
    rw [hd] at h
    simpa using h

@[simp] theorem afterPreAccept_executions (mode : Mode) (m : Manager) (iid : InstanceID)
    (acceptRequired : Bool) (result : Except Error Unit) :
    (afterPreAccept tag mode m iid acceptRequired result).mgr.executions = m.executions := by
  unfold afterPreAccept
  repeat' split
  all_goals simp

@[simp] theorem enterPreAccept_executions (mode : Mode) (m : Manager) (src : Src) :
    (enterPreAccept tag mode m src).mgr.executions = m.executions := by
  have h : (beginPreAcceptPhase tag m src).1.executions = m.executions :=
    beginPhase_executions tag preAcceptInstance_executions _ m src
  unfold enterPreAccept
  split
  all_goals
    rename_i hd
    rw [hd] at h
    simpa using h

@[simp] theorem preparePhase_executions (m : Manager) (iid : InstanceID) :
    (preparePhase tag m iid).mgr.executions = m.executions := by
  unfold preparePhase
  repeat' split
  all_goals rfl

@[simp] theorem deferToSuccessor_executions (m : Manager) (iid : InstanceID) (succ : List NodeId) :
    (deferToSuccessor tag m iid succ).mgr.executions = m.executions := by
  unfold deferToSuccessor
  repeat' split
  all_goals simp

@[simp] theorem successorResponse_executions (m : Manager) (iid : InstanceID) (rest : List NodeId)
    (response : PrepareSuccessorResponse) :
    (successorResponse tag m iid rest response).mgr.executions = m.executions := by
  unfold successorResponse
  repeat' split
  all_goals
    first
    | (rename_i hd; simp [waitForSuccessor_mgr, ← fst_eq_of_eq hd])
    | simp [waitForSuccessor_mgr]

@[simp] theorem prepareFrom_executions (m : Manager) (src : Src) (status : InstanceStatus) :
    (prepareFrom tag m src status).mgr.executions = m.executions := by
  unfold prepareFrom
  repeat' split
  all_goals simp

@[simp] theorem prepareApply_executions (m : Manager) (iid : InstanceID)
    (responses : List PrepareResponse) : (prepareApply tag m iid responses).mgr.executions = m.executions := by
  unfold prepareApply
  rcases hc : m.managerPrepareCheckResponses iid responses with ⟨m', r⟩
  have h : m'.executions = m.executions := by rw [← fst_eq_of_eq hc]; simp
  cases r with
  | error e => simpa using h
  | ok u =>
    cases u
    simp only
    repeat' split
    all_goals simpa using h

@[simp] theorem addMissingFromResponses_executions (m : Manager) (responses : List PreAcceptResponse) :
    (addMissingFromResponses m responses).1.executions = m.executions := by
  induction responses generalizing m with
  | nil => rfl
  | cons r rs ih =>
    unfold addMissingFromResponses
    repeat' split
    all_goals
      first
      | (rename_i hd; rw [← fst_eq_of_eq hd]; simp)
      | (rename_i hd; rw [ih, ← fst_eq_of_eq hd]; simp)
      | exact ih m

@[simp] theorem preAcceptResult_executions (m : Manager) (iid : InstanceID)
    (responses : List PreAcceptResponse) : (preAcceptResult m iid responses).1.executions = m.executions := by
  unfold preAcceptResult
  repeat' split
  all_goals
    first
    | (rename_i hd; rw [← fst_eq_of_eq hd]; simp)
    | simp

@[simp] theorem acceptResult_executions (m : Manager) (iid : InstanceID)
    (responses : List AcceptResponse) : (acceptResult m iid responses).1.executions = m.executions := by
  unfold acceptResult
  split <;> simp

theorem receive_executions {m : Manager} {p : Proc} {msgs : List Message} {e : Effect}
    (h : receive tag m p msgs = some e) : e.mgr.executions = m.executions := by
  unfold receive at h
  dsimp only at h
  repeat' split at h
  all_goals cases h
  all_goals simp

theorem timeout_executions {m : Manager} {p : Proc} {e : Effect} (h : timeout tag m p = some e) :
    e.mgr.executions = m.executions := by
  unfold timeout at h
  repeat' split at h
  all_goals
    first
    | (obtain ⟨i, -, rfl⟩ := Option.map_eq_some_iff.mp h; simp)
    | (cases h; simp)
    | cases h

end Phases

/-! ### Executing -/

namespace Manager

/-- What a replica keeps of its executions: no instance twice on `executed`,
and each one there held as executed. -/
structure ExecutedOnce (m : Manager) : Prop where
  nodup : m.executed.Nodup
  held : ∀ x ∈ m.executed, ∃ i, m.getInstance x = some i ∧ INSTANCE_EXECUTED ≤ i.Status

theorem executedOnce_NewManager (n : NodeId) (topology : String → List NodeId) :
    (NewManager n topology).ExecutedOnce :=
  ⟨List.nodup_nil, fun _ h => nomatch h⟩

variable {m m' : Manager}

/-- An operation that leaves `executed` and lets the instances only grow keeps it. -/
theorem ExecutedOnce.of_advances {P : Prop} (h : m.ExecutedOnce) (hadv : Advances P m m')
    (he : m'.executed = m.executed) : m'.ExecutedOnce := by
  refine ⟨he ▸ h.nodup, fun x hx => ?_⟩
  obtain ⟨i, hi, hst⟩ := h.held x (he ▸ hx)
  obtain ⟨i', hi', hg⟩ := hadv.instances x i hi
  exact ⟨i', hi', UInt8.le_trans hst hg.1⟩

@[simp] theorem recordSCC_executions (m : Manager) (scc : List InstanceID) (iid : InstanceID) :
    (m.recordSCC scc iid).executions = m.executions := by
  unfold recordSCC
  split <;> rfl

@[simp] theorem getExecutionOrder_executions (m : Manager) (uuidTime : UUID → Int)
    (target : Instance) : (m.getExecutionOrder uuidTime target).1.executions = m.executions := by
  simp only [getExecutionOrder]
  split
  · rfl
  · -- each component is recorded on its members, one `recordSCC` after the other
    split <;>
    · refine foldl_invariant (fun r : Manager × List InstanceID => r.1.executions = m.executions) _ _
        (fun r scc _ hr => ?_) _ rfl
      simp only
      split
      · exact foldl_invariant (fun m' => m'.executions = m.executions) _ _
          (fun m' iid _ hm' => (recordSCC_executions m' scc iid).trans hm') _ hr
      · exact hr

/-- `applyInstance` leaves `executed` and the instances, or appends the id of a
committed instance and moves it to executed. -/
theorem applyInstance_cases (m : Manager) (iid : InstanceID) :
    ((m.applyInstance iid).1.executed = m.executed ∧ (m.applyInstance iid).1.instances = m.instances) ∨
      ∃ i, m.getInstance iid = some i ∧ i.Status = INSTANCE_COMMITTED ∧
        (m.applyInstance iid).1.executed = m.executed ++ [iid] ∧
        (m.applyInstance iid).1.instances = (m.putInstance { i with Status := INSTANCE_EXECUTED }).instances := by
  simp only [applyInstance]
  split
  · exact .inl ⟨rfl, rfl⟩
  · rename_i i hi
    split
    · exact .inl ⟨rfl, rfl⟩
    · split
      · exact .inl ⟨rfl, rfl⟩
      · rename_i hc
        have hc : i.Status = INSTANCE_COMMITTED := Classical.not_not.mp hc
        -- the store's run, whether or not the instance is a noop, leaves the rest
        generalize hr : (if (!i.Noop) = true then _ else (m, Except.ok none)) = r
        have hr1 : r.1.executed = m.executed ∧ r.1.instances = m.instances := by
          rw [← hr]
          split <;> exact ⟨rfl, rfl⟩
        split
        · exact .inl hr1
        · split <;>
          · rename_i hd
            rw [← fst_eq_of_eq hd]
            refine .inr ⟨i, hi, hc, ?_, ?_⟩
            · simp [ReportExecuted, withDeps, putInstance, hr1, getInstance_id hi]
            · simp [ReportExecuted, putInstance, hr1]

/-- `applyInstance` hands the store the instruction of a committed instance that
is no noop, or nothing; either way the store is the old one after what it was handed. -/
theorem applyInstance_replays (m : Manager) (iid : InstanceID) :
    ∃ done, (m.applyInstance iid).1.applied = m.applied ++ done ∧
      (m.applyInstance iid).1.store = m.store.executeAll done := by
  simp only [applyInstance]
  split
  · exact ⟨[], by simp, rfl⟩
  · rename_i i _
    split
    · exact ⟨[], by simp, rfl⟩
    · split
      · exact ⟨[], by simp, rfl⟩
      · generalize hr : (if (!i.Noop) = true then _ else (m, Except.ok none)) = r
        have hr1 : ∃ done, r.1.applied = m.applied ++ done ∧ r.1.store = m.store.executeAll done := by
          rw [← hr]
          split
          · exact ⟨[i.Command], rfl, rfl⟩
          · exact ⟨[], by simp, rfl⟩
        obtain ⟨done, ha, hs⟩ := hr1
        -- marking the instance executed and reporting it leave the store alone
        split
        · exact ⟨done, ha, hs⟩
        · split <;>
          · rename_i hd
            rw [← fst_eq_of_eq hd]
            exact ⟨done, ha, hs⟩

/-- A committed instance goes on `executed` only when it is not already there. -/
theorem ExecutedOnce.applyInstance (h : m.ExecutedOnce) (iid : InstanceID) :
    (m.applyInstance iid).1.ExecutedOnce := by
  rcases applyInstance_cases m iid with ⟨he, -⟩ | ⟨i, hi, hc, he, hins⟩
  · have hadv : Advances False m (m.applyInstance iid).1 := applyInstance_advances m iid
    exact h.of_advances hadv he
  · -- an instance on `executed` is held as executed, and this one was committed
    have hnotin : iid ∉ m.executed := fun hx => by
      obtain ⟨j, hj, hst⟩ := h.held iid hx
      rw [hi, Option.some.injEq] at hj
      subst hj
      rw [hc] at hst
      exact absurd hst (by decide)
    refine ⟨?_, fun x hx => ?_⟩
    · rw [he]
      exact h.nodup.append (List.nodup_singleton iid) (List.disjoint_singleton.mpr hnotin)
    · rw [getInstance_of_instances hins, getInstance_putInstance, getInstance_id hi]
      rw [he] at hx
      by_cases hx' : iid = x
      · subst hx'
        exact ⟨_, by rw [if_pos rfl, hi]; rfl, UInt8.le_refl _⟩
      · rw [if_neg hx']
        rcases List.mem_append.mp hx with hx | hx
        · exact h.held x hx
        · exact absurd (List.mem_singleton.mp hx).symm hx'

/-- `m'` carries `m` on: its instances only grew, the ballots aside; its
`executed` list extends `m`'s; its store is `m`'s after the instructions handed
to it since, which extend the log of `applied` ones; and it keeps `ExecutedOnce`. -/
structure Continues (m m' : Manager) : Prop where
  advances : Advances False m m'
  executed : m.executed <+: m'.executed
  replays : ∃ done, m'.applied = m.applied ++ done ∧ m'.store = m.store.executeAll done
  once : m.ExecutedOnce → m'.ExecutedOnce

theorem executeAll_append (s : KVStore) (a b : List Instruction) :
    s.executeAll (a ++ b) = (s.executeAll a).executeAll b :=
  List.foldl_append

theorem Continues.refl (m : Manager) : Continues m m :=
  ⟨Advances.refl m, List.prefix_refl _, ⟨[], by simp, rfl⟩, id⟩

theorem Continues.trans {m₁ m₂ m₃ : Manager} (h₁ : Continues m₁ m₂) (h₂ : Continues m₂ m₃) :
    Continues m₁ m₃ := by
  obtain ⟨d₁, ha₁, hs₁⟩ := h₁.replays
  obtain ⟨d₂, ha₂, hs₂⟩ := h₂.replays
  refine ⟨h₁.advances.trans h₂.advances, h₁.executed.trans h₂.executed, ⟨d₁ ++ d₂, ?_, ?_⟩,
    h₂.once ∘ h₁.once⟩
  · rw [ha₂, ha₁, List.append_assoc]
  · rw [hs₂, hs₁, executeAll_append]

instance : Std.Refl Continues := ⟨Continues.refl⟩

instance : IsTrans Manager Continues := ⟨fun _ _ _ => Continues.trans⟩

/-- An operation that executes nothing carries its manager on. -/
theorem continues_of_frame (hadv : Advances False m m') (he : m'.executions = m.executions) :
    Continues m m' := by
  simp only [executions, Prod.mk.injEq] at he
  obtain ⟨hex, hap, hst⟩ := he
  refine ⟨hadv, hex ▸ List.prefix_refl _, ⟨[], by simp [hap], hst⟩, fun h => h.of_advances hadv hex⟩

theorem continues_applyInstance (m : Manager) (iid : InstanceID) :
    Continues m (m.applyInstance iid).1 := by
  refine ⟨applyInstance_advances m iid, ?_, applyInstance_replays m iid, fun h => h.applyInstance iid⟩
  rcases applyInstance_cases m iid with ⟨he, -⟩ | ⟨_, -, -, he, -⟩
  · exact he ▸ List.prefix_refl _
  · exact he ▸ List.prefix_append _ _

/-- The chain applies one instance after the other. -/
theorem continues_executeDependencyChain (target : InstanceID) :
    ∀ (order : List InstanceID) (m : Manager), Continues m (m.executeDependencyChain target order).1
  | [], m => Continues.refl m
  | iid :: rest, m => by
    unfold Manager.executeDependencyChain
    split
    · exact Continues.refl m
    · split
      · split
        · rename_i hd
          exact fst_eq_of_eq hd ▸ continues_applyInstance m iid
        · rename_i m' _ hd
          have h' : Continues m m' := fst_eq_of_eq hd ▸ continues_applyInstance m iid
          split
          · exact h'
          · exact h'.trans (continues_executeDependencyChain target rest m')
      · split
        · exact continues_executeDependencyChain target rest m
        · exact Continues.refl m

/-- A pass orders the instances, which records components only, then runs the chain. -/
theorem continues_executeInstancePass (m : Manager) (uuidTime : UUID → Int) (iid : InstanceID) :
    Continues m (m.executeInstancePass uuidTime iid).1 := by
  simp only [Manager.executeInstancePass]
  split
  · exact Continues.refl m
  · rename_i target _
    have hord : Continues m (m.getExecutionOrder uuidTime target).1 :=
      continues_of_frame (getExecutionOrder_advances m uuidTime target)
        (getExecutionOrder_executions m uuidTime target)
    split
    · rename_i hd
      exact fst_eq_of_eq hd ▸ hord
    · rename_i m' exOrder _ hd
      have h' : Continues m m' := fst_eq_of_eq hd ▸ hord
      split
      · split <;>
        · rename_i hd'
          exact h'.trans (fst_eq_of_eq hd' ▸ continues_executeDependencyChain iid exOrder m')
      · exact h'

end Manager

open Manager

theorem execute_continues (uuidTime : UUID → Int) {m : Manager} {p : Proc} {e : Effect}
    (hr : execute uuidTime m p = some e) : Continues m e.mgr := by
  unfold execute at hr
  split at hr
  · split at hr <;>
    · cases hr
      rename_i hd
      exact fst_eq_of_eq hd ▸ continues_executeInstancePass m uuidTime p.iid
  · cases hr

/-! ### Runs -/

namespace World

/-- A world whose managers are those of `w` with the one of a node replaced by
one it relates to by `R`, at the same node. -/
theorem evolves_of_replace_rel {R : Manager → Manager → Prop} [Std.Refl R] {w w' : World}
    {n : NodeId} {m m' : Manager} (hm : w.manager n = some m) (hn : m'.nodeID = m.nodeID)
    (h : R m m') (hw : w'.managers = replace Manager.nodeID w.managers m') :
    Evolves World.manager R w w' := by
  have hnm : m.nodeID = n := (lookup_eq_some hm).2
  have hr : Evolves (lookup Manager.nodeID) R w.managers w'.managers := by
    rw [hw]
    refine evolves_replace fun b hb => ?_
    rw [hn, hnm] at hb
    have hbm : b = m := Option.some.inj (hb.symm.trans hm)
    exact hbm ▸ h
  exact hr

end World

theorem procStep_continues {w w' : World} {pid : Nat} {network : List Envelope}
    {f : Manager → Proc → Option Effect}
    (hf : ∀ p m e, w.procs[pid]? = some p → w.manager p.node = some m → f m p = some e →
      Continues m e.mgr)
    (h : procStep w pid network f = some w') : Evolves World.manager Continues w w' := by
  simp only [procStep, bind, Option.bind_eq_some_iff, Option.some.injEq] at h
  obtain ⟨p, hp, m, hm, e, he, rfl⟩ := h
  have hk := hf p m e hp hm he
  exact World.evolves_of_replace_rel hm hk.advances.nodeID hk rfl

section Runs
variable (uuidTime : UUID → Int)

/-- Every step carries every replica on: only `execute` runs `applyInstance`,
and every other step leaves what a replica executed and its store as they are. -/
theorem step_continues {w w' : World} {a : Action} (h : step uuidTime w a = some w') :
    Evolves World.manager Continues w w' := by
  cases a with
  | query n iid instruction successors =>
    simp only [step, bind, Option.bind_eq_some_iff, Option.some.injEq] at h
    obtain ⟨m, hm, -, -, rfl⟩ := h
    have hadv : Advances False m (enterPreAccept ⟨w.procs.length, 1⟩ .leader m
        (.other (m.makeInstance iid instruction successors))).mgr :=
      enterPreAccept_advances _ _ False.elim
    exact World.evolves_of_replace_rel hm hadv.nodeID
      (continues_of_frame hadv (enterPreAccept_executions _ _ _ _)) rfl
  | prepare n iid =>
    simp only [step, bind, Option.bind_eq_some_iff] at h
    obtain ⟨m, hm, i, -, -, -, h⟩ := h
    split at h
    · cases h
      exact Evolves.refl w
    · cases h
      have hadv : Advances False m (deferToSuccessor ⟨w.procs.length, 1⟩ m iid i.Successors).mgr :=
        deferToSuccessor_advances _ iid _ False.elim
      exact World.evolves_of_replace_rel hm hadv.nodeID
        (continues_of_frame hadv (deferToSuccessor_executions _ _ _ _)) rfl
  | deliver k =>
    simp only [step, bind, Option.bind_eq_some_iff, Option.some.injEq] at h
    obtain ⟨e, -, m, hm, rfl⟩ := h
    have hadv : Advances False m (m.answer e).1 := m.answer_fst e ▸ HandleMessage_advances m e.msg
    exact World.evolves_of_replace_rel hm hadv.nodeID
      (continues_of_frame hadv (answer_executions m e)) rfl
  | drop k =>
    simp only [step] at h
    split at h
    · cases h
      exact Evolves.of_get_eq fun n => rfl
    · cases h
  | receive pid ks =>
    simp only [step, bind, Option.bind_eq_some_iff] at h
    obtain ⟨p, -, ⟨chosen, rest⟩, -, -, -, h⟩ := h
    refine procStep_continues (fun p' m e _ _ he => ?_) h
    have hadv : Advances False m e.mgr := receive_advances _ p' _ he False.elim
    exact continues_of_frame hadv (receive_executions _ he)
  | timeout pid =>
    refine procStep_continues (fun p m e _ _ he => ?_) h
    have hadv : Advances False m e.mgr := timeout_advances _ p he False.elim
    exact continues_of_frame hadv (timeout_executions _ he)
  | wake pid =>
    exact procStep_continues (fun _ m e _ _ he => wake_mgr he ▸ Continues.refl m) h
  | execute pid =>
    exact procStep_continues (fun _ _ _ _ _ he => execute_continues uuidTime he) h

/-- Every run carries every replica on. -/
theorem run_continues {w w' : World} {acts : List Action} (h : run uuidTime w acts = some w') :
    Evolves World.manager Continues w w' := by
  induction acts generalizing w with
  | nil =>
    cases h
    exact Evolves.refl _
  | cons a as ih =>
    obtain ⟨w₁, h₁, h₂⟩ := Option.bind_eq_some_iff.mp h
    exact (step_continues uuidTime h₁).trans (ih h₂)

/-- A replica of the initial world is a fresh manager. -/
theorem init_manager {nodes : List NodeId} {topology : String → List NodeId} {n : NodeId}
    {m : Manager} (hm : (World.init nodes topology).manager n = some m) :
    ∃ n', m = NewManager n' topology := by
  obtain ⟨hmem, -⟩ := lookup_eq_some hm
  obtain ⟨n', -, rfl⟩ := List.mem_map.mp hmem
  exact ⟨n', rfl⟩

/-- From the initial world, over every run, each replica executes each instance
at most once, and keeps every instance it executed as executed. -/
theorem executed_at_most_once {nodes : List NodeId} {topology : String → List NodeId}
    {acts : List Action} {w' : World} (h : run uuidTime (World.init nodes topology) acts = some w')
    {n : NodeId} {m : Manager} (hm : (World.init nodes topology).manager n = some m) :
    ∃ m', w'.manager n = some m' ∧ m'.executed.Nodup ∧
      ∀ x ∈ m'.executed, ∃ i, m'.getInstance x = some i ∧ INSTANCE_EXECUTED ≤ i.Status := by
  obtain ⟨m', hm', hc⟩ := run_continues uuidTime h n m hm
  obtain ⟨n', rfl⟩ := init_manager hm
  obtain ⟨hnd, hheld⟩ := hc.once (executedOnce_NewManager n' topology)
  exact ⟨m', hm', hnd, hheld⟩

/-- The fast path from the initial cluster: `A` leads `iidX`, commits it on
`B`'s reply and executes it, handing `setA` to its store. -/
def queryFastPath : List Action := .query nodeA iidX setA [nodeB, nodeC] :: fastPath

theorem queryFastPath_run :
    ∃ w', run (fun _ => 0) cluster queryFastPath = some w' ∧
      (w'.manager nodeA).map (fun m => (m.executed, m.applied)) = some ([iidX], [setA]) := by
  obtain ⟨w', hw⟩ := Option.isSome_iff_exists.mp
    (show (run (fun _ => 0) cluster queryFastPath).isSome by decide +kernel)
  have hexec : ((run (fun _ => 0) cluster queryFastPath).bind (·.manager nodeA)).map
      (fun m => (m.executed, m.applied)) = some ([iidX], [setA]) := by
    decide +kernel
  rw [hw] at hexec
  exact ⟨w', hw, hexec⟩

theorem cluster_manager_nodeA : ∃ m, cluster.manager nodeA = some m :=
  Option.isSome_iff_exists.mp (show (cluster.manager nodeA).isSome by decide +kernel)

theorem executed_at_most_once_fast_path :
    ∃ (w' : World) (m : Manager), run (fun _ => 0) cluster queryFastPath = some w' ∧
      cluster.manager nodeA = some m ∧
      (w'.manager nodeA).map (fun m => (m.executed, m.applied)) = some ([iidX], [setA]) ∧
      ∃ m', w'.manager nodeA = some m' ∧ m'.executed.Nodup ∧
        ∀ x ∈ m'.executed, ∃ i, m'.getInstance x = some i ∧ INSTANCE_EXECUTED ≤ i.Status := by
  obtain ⟨w', hw, hexec⟩ := queryFastPath_run
  obtain ⟨m, hm⟩ := cluster_manager_nodeA
  exact ⟨w', m, hw, hm, hexec, executed_at_most_once (fun _ => 0) hw hm⟩

end Runs

end Kickboxer.Consensus
