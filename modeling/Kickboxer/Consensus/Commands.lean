import Kickboxer.Consensus.Recovery
import Kickboxer.Consensus.Executions

/-! Where the instructions of instances come from (every operation of
`manager.go`, the handlers and the protocol steps).

An instance carries the instruction of the query that made it: no operation
changes an instance's id or instruction, and a replica stores only instances it
made or copies it was sent. `CommandsIn Q` says, for a relation `Q` between ids
and instructions, that `Q` allows the instruction of every instance a replica
holds for the instance's id, allows every instruction the replica handed to its
store for some id, and allows the instruction of every instance a message
carries. Every operation keeps it, given that the copies it is handed satisfy
it; every step keeps it for the whole world when `Q` allows the step's query
(`step_commandsIn`), hence so does every run (`run_commandsIn`).

From a world with nothing in it, `Q` can be the queries of the run: every
instance a replica holds carries, and every instruction it applies is, an
instruction a client submitted (`commands_were_queried`). A query needs an id
that no replica holds and replicas never lose an instance, so no id is queried
twice in a run; hence two replicas that hold an instance hold it with one
instruction (`instance_commands_agree`). -/
namespace Kickboxer.Consensus
open Kickboxer.Types Store Library Instance Manager

section Commands
variable (Q : Consensus.InstanceID → Instruction → Prop)

/-- `Q` allows the instance's instruction for its id. -/
def Instance.CommandIn (i : Instance) : Prop := Q i.InstanceID i.Command

/-- The instances a message carries. -/
def Message.instances : Message → List Instance
  | .preAcceptRequest r => [r.Instance]
  | .preAcceptResponse r => r.Instance :: r.MissingInstances
  | .acceptRequest r => r.Instance :: r.MissingInstances
  | .acceptResponse _ => []
  | .commitRequest r => [r.Instance]
  | .commitResponse _ => []
  | .prepareRequest _ => []
  | .prepareResponse r => r.Instance.toList
  | .prepareSuccessorRequest _ => []
  | .prepareSuccessorResponse r => r.Instance.toList

def Message.CommandsIn (msg : Message) : Prop := ∀ i ∈ msg.instances, i.CommandIn Q

/-- Every instance the replica holds, and every instruction it handed to its
store, is allowed by `Q`. -/
structure Manager.CommandsIn (m : Manager) : Prop where
  instances : ∀ i ∈ m.instances, i.CommandIn Q
  applied : ∀ ins ∈ m.applied, ∃ iid, Q iid ins

/-- A process step keeps its replica so, and sends only messages that are. -/
def Effect.CommandsIn (e : Effect) : Prop :=
  e.mgr.CommandsIn Q ∧ ∀ env ∈ e.sent, env.msg.CommandsIn Q

def World.CommandsIn (w : World) : Prop :=
  (∀ m ∈ w.managers, m.CommandsIn Q) ∧ ∀ e ∈ w.network, e.msg.CommandsIn Q

variable {Q}

theorem Except.map_eq_ok_inv {ε α β : Type} {f : α → β} {x : Except ε α} {b : β}
    (h : x.map f = .ok b) : ∃ a, x = .ok a ∧ f a = b := by
  cases x with
  | error e => cases h
  | ok a => exact ⟨a, rfl, Except.ok.inj h⟩

/-! ### Instances -/

theorem Instance.CommandIn.copy {i : Instance} (h : i.CommandIn Q) : i.Copy.CommandIn Q := by
  show Q i.InstanceID i.Command.Copy
  rw [Instruction.copy_eq]
  exact h

theorem Instance.CommandIn.advanceTo {status : InstanceStatus} {i i' : Instance}
    {inst : Option Instance} {incr : Bool} (h : i.CommandIn Q)
    (ha : Instance.advanceTo status i inst incr = .ok i') : i'.CommandIn Q := by
  obtain ⟨-, -, hid, hcmd, -⟩ := advanceTo_eq_ok ha
  unfold CommandIn
  rw [hid, hcmd]
  exact h

theorem Instance.CommandIn.updateBallot {i : Instance} (h : i.CommandIn Q) (ballot : UInt32) :
    (i.updateBallot ballot).1.CommandIn Q := by
  unfold Instance.updateBallot
  split
  · exact h
  · exact h

theorem Instance.CommandIn.mergeAttributes {i i' : Instance} {deps : List Consensus.InstanceID} {c : Bool}
    (h : i.CommandIn Q) (hm : i.mergeAttributes deps = .ok (i', c)) : i'.CommandIn Q := by
  simp only [Instance.mergeAttributes] at hm
  split at hm
  · cases hm
  · split at hm
    · cases hm
      exact h
    · cases hm
      exact h

/-! ### A replica's operations -/

namespace Manager
variable {m : Manager}

theorem CommandsIn.getInstance (hm : m.CommandsIn Q) {iid : InstanceID} {i : Instance}
    (hi : m.getInstance iid = some i) : i.CommandIn Q :=
  hm.instances i (lookup_eq_some hi).1

/-- A change to neither the instances nor the log of applied instructions. -/
theorem CommandsIn.of_eq {m' : Manager} (hm : m.CommandsIn Q) (hi : m'.instances = m.instances)
    (ha : m'.applied = m.applied) : m'.CommandsIn Q :=
  ⟨hi ▸ hm.instances, ha ▸ hm.applied⟩

theorem CommandsIn.putInstance (hm : m.CommandsIn Q) {i : Instance} (hi : i.CommandIn Q) :
    (m.putInstance i).CommandsIn Q := by
  refine ⟨fun j hj => ?_, hm.applied⟩
  obtain ⟨b, hb, rfl⟩ := List.mem_map.mp hj
  split
  · exact hi
  · exact hm.instances b hb

theorem CommandsIn.withDeps {α : Type} (hm : m.CommandsIn Q)
    (f : DependencyMap → List String → Instance → DependencyMap × α) (i : Instance) :
    (m.withDeps f i).1.CommandsIn Q :=
  hm.of_eq rfl rfl

theorem CommandsIn.getOrSetInstance (hm : m.CommandsIn Q) {inst : Instance} (hin : inst.CommandIn Q) :
    (m.getOrSetInstance inst).1.CommandsIn Q ∧ (m.getOrSetInstance inst).2.1.CommandIn Q := by
  rcases getOrSetInstance_cases m inst with ⟨h, hm', -⟩ | ⟨hn, hr, hl, -⟩
  · rw [hm']
    exact ⟨hm, hm.getInstance h⟩
  · -- the copy is stored with its status clamped, then registered
    have hc : (clampStatus inst).CommandIn Q := by
      unfold clampStatus
      split
      · exact hin
      · exact hin
    have happ : (m.getOrSetInstance inst).1.applied = m.applied := by
      rw [getOrSetInstance_none m inst hn]
      split <;> rfl
    refine ⟨⟨fun j hj => ?_, happ ▸ hm.applied⟩, hr ▸ hc⟩
    rw [hl] at hj
    rcases List.mem_append.mp hj with hj | hj
    · exact hm.instances j hj
    · rw [List.mem_singleton.mp hj]
      exact hc

theorem CommandsIn.getOrSetSrc (hm : m.CommandsIn Q) (src : Src) (hs : src.inst.CommandIn Q) :
    (m.getOrSetSrc src).1.CommandsIn Q ∧ (m.getOrSetSrc src).2.1.CommandIn Q := by
  obtain ⟨h1, h2⟩ := getOrSetSrc_fst m src
  rw [h1, h2]
  exact hm.getOrSetInstance hs

/-- `Instance.preaccept` writes back the instance it is handed, with its id and
instruction. -/
theorem CommandsIn.preaccept (hm : m.CommandsIn Q) {i : Instance} (hi : i.CommandIn Q)
    (inst : Option Instance) (incr : Bool) : (m.preaccept i inst incr).1.CommandsIn Q := by
  unfold Manager.preaccept
  split
  · exact hm
  · have hd : ∀ j : Instance, (m.getInstanceDeps j).1.CommandsIn Q := fun j => hm.withDeps _ j
    cases inst <;> cases incr <;> dsimp only <;> split <;>
    · rename_i hdeps
      have hm' := fst_eq_of_eq hdeps ▸ hd _
      exact hm'.putInstance hi

theorem CommandsIn.preAcceptInstance (hm : m.CommandsIn Q) (src : Src) (hs : src.inst.CommandIn Q)
    (incr : Bool) : (m.preAcceptInstance src incr).1.CommandsIn Q := by
  obtain ⟨hm', hi⟩ := hm.getOrSetSrc src hs
  exact hm'.preaccept hi _ incr

/-- The shared part of `acceptInstance` and `commitInstance`. -/
theorem CommandsIn.advanceTo_put (hm : m.CommandsIn Q) (src : Src) (hs : src.inst.CommandIn Q)
    {status : InstanceStatus} {incr : Bool} {i : Instance}
    (h : advanceTo status (m.getOrSetSrc src).2.1 (m.getOrSetSrc src).2.2 incr = .ok i) :
    ((m.getOrSetSrc src).1.putInstance i).CommandsIn Q := by
  obtain ⟨hm', hi⟩ := hm.getOrSetSrc src hs
  exact hm'.putInstance (hi.advanceTo h)

theorem CommandsIn.acceptInstance (hm : m.CommandsIn Q) (src : Src) (hs : src.inst.CommandIn Q)
    (incr : Bool) : (m.acceptInstance src incr).1.CommandsIn Q := by
  simp only [Manager.acceptInstance]
  split
  · exact (hm.getOrSetSrc src hs).1
  · rename_i i h
    exact (hm.advanceTo_put src hs h).withDeps _ i

theorem CommandsIn.commitInstance (hm : m.CommandsIn Q) (src : Src) (hs : src.inst.CommandIn Q)
    (incr : Bool) : (m.commitInstance src incr).1.CommandsIn Q := by
  simp only [Manager.commitInstance]
  split
  · exact (hm.getOrSetSrc src hs).1
  · rename_i i h
    -- the commit log is no part of it
    exact (hm.advanceTo_put src hs h).of_eq rfl rfl

theorem CommandsIn.addMissingInstancesUnsafe (hm : m.CommandsIn Q) {instances : List Instance}
    (h : ∀ i ∈ instances, i.CommandIn Q) : (m.addMissingInstancesUnsafe instances).1.CommandsIn Q := by
  induction instances generalizing m with
  | nil => exact hm
  | cons inst rest ih =>
    have hrest : ∀ i ∈ rest, i.CommandIn Q := fun i hi => h i (List.mem_cons_of_mem inst hi)
    obtain ⟨hm', hi'⟩ := hm.getOrSetInstance (h inst List.mem_cons_self)
    simp only [Manager.addMissingInstancesUnsafe]
    split
    · exact ih hm' hrest
    · split
      · -- the stored copy, as committed if it came committed or executed, then registered
        have hc : (if (m.getOrSetInstance inst).2.1.Status = INSTANCE_COMMITTED ∨
            (m.getOrSetInstance inst).2.1.Status = INSTANCE_EXECUTED then
              { (m.getOrSetInstance inst).2.1 with Status := INSTANCE_COMMITTED }
            else (m.getOrSetInstance inst).2.1).CommandIn Q := by
          split
          · exact hi'
          · exact hi'
        have hput : ∀ x : Instance, x.CommandIn Q →
            (((m.getOrSetInstance inst).1.putInstance x).AddDependency x).1.CommandsIn Q :=
          fun x hx => (hm'.putInstance hx).withDeps _ x
        split
        · rename_i hd
          exact fst_eq_of_eq hd ▸ hput _ hc
        · rename_i hd
          exact ih (fst_eq_of_eq hd ▸ hput _ hc) hrest
      · exact hm'

theorem CommandsIn.updateInstanceBallotFromResponses (hm : m.CommandsIn Q) (iid : InstanceID)
    (ballots : List UInt32) : (m.updateInstanceBallotFromResponses iid ballots).CommandsIn Q := by
  unfold Manager.updateInstanceBallotFromResponses
  split
  · rename_i i hi
    exact hm.putInstance ((hm.getInstance hi).updateBallot _)
  · exact hm

theorem CommandsIn.mergePreAcceptAttributes (hm : m.CommandsIn Q) (iid : InstanceID)
    (responses : List PreAcceptResponse) (changes : Bool) :
    (m.mergePreAcceptAttributes iid responses changes).1.CommandsIn Q := by
  induction responses generalizing m changes with
  | nil => exact hm
  | cons response rest ih =>
    simp only [Manager.mergePreAcceptAttributes]
    split
    · exact hm
    · rename_i i hi
      split
      · exact hm
      · rename_i i' c hmerge
        exact ih (hm.putInstance ((hm.getInstance hi).mergeAttributes hmerge)) _

/-! ### The handlers -/

@[simp] theorem commandsIn_preAcceptResponse {r : PreAcceptResponse} :
    (Message.preAcceptResponse r).CommandsIn Q ↔
      r.Instance.CommandIn Q ∧ ∀ i ∈ r.MissingInstances, i.CommandIn Q := by
  simp [Message.CommandsIn, Message.instances]

@[simp] theorem commandsIn_acceptResponse {r : AcceptResponse} :
    (Message.acceptResponse r).CommandsIn Q := by
  simp [Message.CommandsIn, Message.instances]

@[simp] theorem commandsIn_commitResponse {r : CommitResponse} :
    (Message.commitResponse r).CommandsIn Q := by
  simp [Message.CommandsIn, Message.instances]

@[simp] theorem commandsIn_prepareResponse {r : PrepareResponse} :
    (Message.prepareResponse r).CommandsIn Q ↔ ∀ i ∈ r.Instance, i.CommandIn Q := by
  simp [Message.CommandsIn, Message.instances]

@[simp] theorem commandsIn_prepareSuccessorResponse {r : PrepareSuccessorResponse} :
    (Message.prepareSuccessorResponse r).CommandsIn Q ↔ ∀ i ∈ r.Instance, i.CommandIn Q := by
  simp [Message.CommandsIn, Message.instances]

/-- A copy of an instance the replica holds, if it holds one. -/
theorem CommandsIn.getInstance_copy (hm : m.CommandsIn Q) (iid : InstanceID) :
    ∀ i ∈ (m.getInstance iid).map Instance.Copy, i.CommandIn Q := by
  intro i hi
  obtain ⟨j, hj, rfl⟩ := Option.map_eq_some_iff.mp hi
  exact (hm.getInstance hj).copy

theorem CommandsIn.preAcceptReply (hm : m.CommandsIn Q) {request : PreAcceptRequest}
    (hr : request.Instance.CommandIn Q) :
    (m.preAcceptReply request).1.CommandsIn Q ∧
      (Message.preAcceptResponse (m.preAcceptReply request).2).CommandsIn Q := by
  -- the instance the reply is about: the stored one, or the request's
  have hi : ((m.getInstance request.Instance.InstanceID).getD request.Instance).CommandIn Q := by
    cases h : m.getInstance request.Instance.InstanceID with
    | none => exact hr
    | some i => exact hm.getInstance h
  simp only [Manager.preAcceptReply]
  generalize (m.getInstance request.Instance.InstanceID).getD request.Instance = i at hi
  have hm' := hm.putInstance (i := { i with DependencyMatch := (ListSet.equal
    (ListSet.ofList request.Instance.Dependencies) (ListSet.ofList i.Dependencies)) }) hi
  refine ⟨hm', commandsIn_preAcceptResponse.mpr ⟨hi.copy, fun j hj => ?_⟩⟩
  obtain ⟨iid, -, hj⟩ := List.mem_filterMap.mp hj
  exact hm'.getInstance_copy iid j hj

theorem CommandsIn.HandlePreAccept (hm : m.CommandsIn Q) {request : PreAcceptRequest}
    (hr : request.Instance.CommandIn Q) :
    (m.HandlePreAccept request).1.CommandsIn Q ∧
      ∀ reply, (m.HandlePreAccept request).2 = .ok reply → (Message.preAcceptResponse reply).CommandsIn Q := by
  have hpa : (m.preAcceptInstance (.other request.Instance) false).1.CommandsIn Q :=
    hm.preAcceptInstance (.other request.Instance) hr false
  have hreply := hpa.preAcceptReply hr
  simp only [Manager.HandlePreAccept]
  repeat' split
  all_goals
    first
    | exact ⟨hpa, fun _ h => by cases h⟩
    | exact ⟨hreply.1, fun _ h => Except.ok.inj h ▸ hreply.2⟩
    | -- a refusal answers with a copy of the stored instance
      exact ⟨hm, fun _ h => Except.ok.inj h ▸ commandsIn_preAcceptResponse.mpr
        ⟨(hm.getInstance ‹_›).copy, fun _ h => by cases h⟩⟩

theorem CommandsIn.HandleAccept (hm : m.CommandsIn Q) {request : AcceptRequest}
    (hr : request.Instance.CommandIn Q) (hmiss : ∀ i ∈ request.MissingInstances, i.CommandIn Q) :
    (m.HandleAccept request).1.CommandsIn Q := by
  -- the missing instances go in first
  have hm' : (if request.MissingInstances.length > 0 then
      (m.addMissingInstancesUnsafe request.MissingInstances).1 else m).CommandsIn Q := by
    split
    · exact hm.addMissingInstancesUnsafe hmiss
    · exact hm
  simp only [Manager.HandleAccept]
  generalize (if request.MissingInstances.length > 0 then
    (m.addMissingInstancesUnsafe request.MissingInstances).1 else m) = m' at hm' ⊢
  have hacc := hm'.acceptInstance (.other request.Instance) hr false
  repeat' split
  all_goals first | exact hm' | exact hacc

theorem CommandsIn.HandleCommit (hm : m.CommandsIn Q) {request : CommitRequest}
    (hr : request.Instance.CommandIn Q) : (m.HandleCommit request).1.CommandsIn Q := by
  have hc := hm.commitInstance (.other request.Instance) hr false
  simp only [Manager.HandleCommit]
  split <;> exact hc

theorem CommandsIn.HandlePrepare (hm : m.CommandsIn Q) (request : PrepareRequest) :
    (m.HandlePrepare request).1.CommandsIn Q ∧
      ∀ reply, (m.HandlePrepare request).2 = .ok reply → (Message.prepareResponse reply).CommandsIn Q := by
  simp only [Manager.HandlePrepare]
  split
  · exact ⟨hm, fun _ h => Except.ok.inj h ▸ commandsIn_prepareResponse.mpr fun _ h => by cases h⟩
  · rename_i i hi
    -- the stored instance, its ballot raised or not, goes back and a copy is the reply
    have hi' : (if decide (request.Ballot > i.MaxBallot) = true then (i.updateBallot request.Ballot).1
        else i).CommandIn Q := by
      split
      · exact (hm.getInstance hi).updateBallot _
      · exact hm.getInstance hi
    refine ⟨hm.putInstance hi', fun _ h => Except.ok.inj h ▸ ?_⟩
    exact commandsIn_prepareResponse.mpr fun j hj => (Option.mem_some_iff.mp hj) ▸ hi'.copy

theorem CommandsIn.HandleMessage (hm : m.CommandsIn Q) {msg : Message} (hmsg : msg.CommandsIn Q) :
    (m.HandleMessage msg).1.CommandsIn Q ∧
      ∀ reply, (m.HandleMessage msg).2 = .ok reply → reply.CommandsIn Q := by
  cases msg with
  | preAcceptRequest r =>
    obtain ⟨h1, h2⟩ := hm.HandlePreAccept (hmsg r.Instance List.mem_cons_self)
    refine ⟨h1, fun reply h => ?_⟩
    obtain ⟨a, ha, rfl⟩ := Except.map_eq_ok_inv h
    exact h2 a ha
  | acceptRequest r =>
    refine ⟨hm.HandleAccept (hmsg r.Instance List.mem_cons_self)
      (fun i hi => hmsg i (List.mem_cons_of_mem _ hi)), fun reply h => ?_⟩
    obtain ⟨a, -, rfl⟩ := Except.map_eq_ok_inv h
    exact commandsIn_acceptResponse
  | commitRequest r =>
    refine ⟨hm.HandleCommit (hmsg r.Instance List.mem_cons_self), fun reply h => ?_⟩
    obtain ⟨a, -, rfl⟩ := Except.map_eq_ok_inv h
    exact commandsIn_commitResponse
  | prepareRequest r =>
    obtain ⟨h1, h2⟩ := hm.HandlePrepare r
    refine ⟨h1, fun reply h => ?_⟩
    obtain ⟨a, ha, rfl⟩ := Except.map_eq_ok_inv h
    exact h2 a ha
  | prepareSuccessorRequest r =>
    refine ⟨hm, fun reply h => ?_⟩
    obtain rfl := Except.ok.inj h
    exact commandsIn_prepareSuccessorResponse.mpr (hm.getInstance_copy r.InstanceID)
  | preAcceptResponse r | acceptResponse r | commitResponse r | prepareResponse r
  | prepareSuccessorResponse r => exact ⟨hm, fun _ h => by cases h⟩

/-- What a replica does with a request: its reply, if any, carries copies of
what it holds. -/
theorem CommandsIn.answer (hm : m.CommandsIn Q) {e : Envelope} (he : e.msg.CommandsIn Q) :
    (m.answer e).1.CommandsIn Q ∧ ∀ env ∈ (m.answer e).2, env.msg.CommandsIn Q := by
  obtain ⟨h1, h2⟩ := hm.HandleMessage he
  refine ⟨(answer_fst m e).symm ▸ h1, fun env henv => ?_⟩
  unfold Manager.answer at henv
  dsimp only at henv
  split at henv
  · cases henv
  · rename_i reply hr _
    rw [List.mem_singleton.mp henv]
    exact h2 reply hr
  · cases henv

theorem CommandsIn.managerPrepareCheckResponses (hm : m.CommandsIn Q) (iid : InstanceID)
    {responses : List PrepareResponse} (h : ∀ ri ∈ responses.filterMap (·.Instance), ri.CommandIn Q) :
    (m.managerPrepareCheckResponses iid responses).1.CommandsIn Q := by
  simp only [Manager.managerPrepareCheckResponses]
  generalize hm' : m.updateInstanceBallotFromResponses iid _ = m'
  have hup : m'.CommandsIn Q := hm' ▸ hm.updateInstanceBallotFromResponses iid _
  split
  · exact hup
  · split
    · rename_i mi li hmi _
      -- the reply the replica moves up to is one of the replies
      have hmic : mi.CommandIn Q := h mi (List.mem_of_mem_filter (List.mem_of_getLast? hmi))
      split
      · split
        · split <;> (rename_i hd; exact fst_eq_of_eq hd ▸ hup.acceptInstance (.other mi) hmic false)
        · split
          · split <;> (rename_i hd; exact fst_eq_of_eq hd ▸ hup.commitInstance (.other mi) hmic false)
          · exact hup
      · exact hup
    · exact hup

/-! ### Executing -/

theorem CommandsIn.recordSCC (hm : m.CommandsIn Q) (scc : List InstanceID) (iid : InstanceID) :
    (m.recordSCC scc iid).CommandsIn Q := by
  unfold Manager.recordSCC
  split
  · rename_i i hi
    exact hm.putInstance (i := { i with StronglyConnected := ListSet.ofList scc })
      (hm.getInstance hi : i.CommandIn Q)
  · exact hm

theorem CommandsIn.getExecutionOrder (hm : m.CommandsIn Q) (uuidTime : UUID → Int)
    (target : Instance) : (m.getExecutionOrder uuidTime target).1.CommandsIn Q := by
  simp only [Manager.getExecutionOrder]
  split
  · exact hm
  · -- each component is recorded on its members, one `recordSCC` after the other
    split <;>
    · refine foldl_invariant (fun r : Manager × List InstanceID => r.1.CommandsIn Q) _ _
        (fun r scc _ hr => ?_) _ hm
      simp only
      split
      · exact foldl_invariant (fun m' : Manager => m'.CommandsIn Q) _ _
          (fun m' iid _ hm' => hm'.recordSCC scc iid) _ hr
      · exact hr

/-- The instruction `applyInstance` hands the store is the one of an instance
the replica holds. -/
theorem CommandsIn.applyInstance (hm : m.CommandsIn Q) (iid : InstanceID) :
    (m.applyInstance iid).1.CommandsIn Q := by
  simp only [Manager.applyInstance]
  split
  · exact hm
  · rename_i i hi
    split
    · exact hm
    · split
      · exact hm
      · generalize hr : (if (!i.Noop) = true then _ else (m, Except.ok none)) = r
        have hr1 : r.1.CommandsIn Q := by
          rw [← hr]
          split
          · refine ⟨hm.instances, fun ins hins => ?_⟩
            rcases List.mem_append.mp hins with hins | hins
            · exact hm.applied ins hins
            · exact ⟨i.InstanceID, List.mem_singleton.mp hins ▸ hm.getInstance hi⟩
          · exact hm
        -- the instance goes back as executed, then is reported
        have hput := hr1.putInstance (i := { i with Status := INSTANCE_EXECUTED })
          (hm.getInstance hi : i.CommandIn Q)
        split
        · exact hr1
        · split <;>
          · rename_i hd
            rw [← fst_eq_of_eq hd]
            refine CommandsIn.withDeps ?_ _ _
            exact hput.of_eq rfl rfl

theorem CommandsIn.executeDependencyChain (target : InstanceID) :
    ∀ (order : List InstanceID) {m : Manager}, m.CommandsIn Q →
      (m.executeDependencyChain target order).1.CommandsIn Q
  | [], _, hm => hm
  | iid :: rest, m, hm => by
    unfold Manager.executeDependencyChain
    split
    · exact hm
    · split
      · split
        · rename_i hd
          exact fst_eq_of_eq hd ▸ hm.applyInstance iid
        · rename_i m' _ hd
          have h' : m'.CommandsIn Q := fst_eq_of_eq hd ▸ hm.applyInstance iid
          split
          · exact h'
          · exact CommandsIn.executeDependencyChain target rest h'
      · split
        · exact CommandsIn.executeDependencyChain target rest hm
        · exact hm

theorem CommandsIn.executeInstancePass (hm : m.CommandsIn Q) (uuidTime : UUID → Int)
    (iid : InstanceID) : (m.executeInstancePass uuidTime iid).1.CommandsIn Q := by
  simp only [Manager.executeInstancePass]
  split
  · exact hm
  · rename_i target _
    have hord := hm.getExecutionOrder uuidTime target
    split
    · rename_i hd
      exact fst_eq_of_eq hd ▸ hord
    · rename_i m' exOrder _ hd
      have h' : m'.CommandsIn Q := fst_eq_of_eq hd ▸ hord
      split
      · split <;>
        · rename_i hd'
          exact fst_eq_of_eq hd' ▸ CommandsIn.executeDependencyChain iid exOrder h'
      · exact h'

theorem CommandsIn.localSrc (hm : m.CommandsIn Q) {iid : InstanceID} {src : Src}
    (h : m.localSrc iid = some src) : src.inst.CommandIn Q := by
  obtain ⟨i, hi, rfl⟩ := Option.map_eq_some_iff.mp h
  exact hm.getInstance hi

end Manager

/-! ### Requests -/

@[simp] theorem commandsIn_preAcceptRequest {r : PreAcceptRequest} :
    (Message.preAcceptRequest r).CommandsIn Q ↔ r.Instance.CommandIn Q := by
  simp [Message.CommandsIn, Message.instances]

@[simp] theorem commandsIn_acceptRequest {r : AcceptRequest} :
    (Message.acceptRequest r).CommandsIn Q ↔
      r.Instance.CommandIn Q ∧ ∀ i ∈ r.MissingInstances, i.CommandIn Q := by
  simp [Message.CommandsIn, Message.instances]

@[simp] theorem commandsIn_commitRequest {r : CommitRequest} :
    (Message.commitRequest r).CommandsIn Q ↔ r.Instance.CommandIn Q := by
  simp [Message.CommandsIn, Message.instances]

@[simp] theorem commandsIn_prepareRequest {r : PrepareRequest} :
    (Message.prepareRequest r).CommandsIn Q := by
  simp [Message.CommandsIn, Message.instances]

@[simp] theorem commandsIn_prepareSuccessorRequest {r : PrepareSuccessorRequest} :
    (Message.prepareSuccessorRequest r).CommandsIn Q := by
  simp [Message.CommandsIn, Message.instances]

theorem Message.eq_of_asPreAcceptResponse {msg : Message} {r : PreAcceptResponse}
    (h : msg.asPreAcceptResponse = some r) : msg = .preAcceptResponse r := by
  cases msg <;> simp [Message.asPreAcceptResponse] at h
  rw [h]

theorem Message.eq_of_asPrepareResponse {msg : Message} {r : PrepareResponse}
    (h : msg.asPrepareResponse = some r) : msg = .prepareResponse r := by
  cases msg <;> simp [Message.asPrepareResponse] at h
  rw [h]

theorem Message.eq_of_asPrepareSuccessorResponse {msg : Message} {r : PrepareSuccessorResponse}
    (h : msg.asPrepareSuccessorResponse = some r) : msg = .prepareSuccessorResponse r := by
  cases msg <;> simp [Message.asPrepareSuccessorResponse] at h
  rw [h]

/-! ### The phases -/

section Phases
variable (tag : Tag) {m : Manager}

theorem mem_sendAll {dsts : List NodeId} {msg : Message} {env : Envelope}
    (h : env ∈ m.sendAll tag dsts msg) : env.msg = msg := by
  obtain ⟨d, -, rfl⟩ := List.mem_map.mp h
  rfl

/-- An effect that changes nothing and sends nothing. -/
theorem commandsIn_idle (hm : m.CommandsIn Q) (next : ProcState) :
    (⟨m, [], next⟩ : Effect).CommandsIn Q :=
  ⟨hm, fun _ h => (List.not_mem_nil h).elim⟩

/-- The start of a phase sends copies of the instance its local step left. -/
theorem beginPhase_commandsIn {op : Manager → Src → Bool → Manager × Except Error Unit}
    (hop : ∀ m src b, m.CommandsIn Q → src.inst.CommandIn Q → (op m src b).1.CommandsIn Q)
    {request : Instance → Message} (hreq : ∀ c, c.CommandIn Q → (request c).CommandsIn Q)
    (hm : m.CommandsIn Q) {src : Src} (hs : src.inst.CommandIn Q) :
    (beginPhase tag op request m src).1.CommandsIn Q ∧
      ∀ env ∈ (beginPhase tag op request m src).2.1, env.msg.CommandsIn Q := by
  have h1 := hop m src true hm hs
  unfold beginPhase
  dsimp only
  split
  · exact ⟨h1, fun _ h => by cases h⟩
  · split
    · rename_i i hi
      exact ⟨h1, fun env henv => mem_sendAll tag henv ▸ hreq _ (h1.getInstance hi).copy⟩
    · exact ⟨h1, fun _ h => by cases h⟩

theorem enterCommit_commandsIn (mode : Mode) (hm : m.CommandsIn Q) {src : Src}
    (hs : src.inst.CommandIn Q) : (enterCommit tag mode m src).CommandsIn Q :=
  beginPhase_commandsIn tag (fun _ src b hm hs => hm.commitInstance src hs b)
    (fun _ hc => commandsIn_commitRequest.mpr hc) hm hs

theorem afterAccept_commandsIn (mode : Mode) (hm : m.CommandsIn Q) (iid : InstanceID)
    (result : Except Error Unit) : (afterAccept tag mode m iid result).CommandsIn Q := by
  unfold afterAccept
  split
  · exact commandsIn_idle hm _
  · exact enterCommit_commandsIn tag _ hm (hm.localSrc ‹_›)
  · exact commandsIn_idle hm _

theorem enterAccept_commandsIn (mode : Mode) (hm : m.CommandsIn Q) {src : Src}
    (hs : src.inst.CommandIn Q) : (enterAccept tag mode m src).CommandsIn Q := by
  have hb : (beginAcceptPhase tag m src).1.CommandsIn Q ∧
      ∀ env ∈ (beginAcceptPhase tag m src).2.1, env.msg.CommandsIn Q :=
    beginPhase_commandsIn tag (fun _ src b hm hs => hm.acceptInstance src hs b)
      (fun _ hc => commandsIn_acceptRequest.mpr ⟨hc, fun _ h => (List.not_mem_nil h).elim⟩) hm hs
  unfold enterAccept
  split
  · rename_i hd
    rw [hd] at hb
    exact hb
  · rename_i hd
    rw [hd] at hb
    exact afterAccept_commandsIn tag mode hb.1 _ _

theorem afterPreAccept_commandsIn (mode : Mode) (hm : m.CommandsIn Q) (iid : InstanceID)
    (acceptRequired : Bool) (result : Except Error Unit) :
    (afterPreAccept tag mode m iid acceptRequired result).CommandsIn Q := by
  unfold afterPreAccept
  split
  · exact commandsIn_idle hm _
  · split
    · exact enterAccept_commandsIn tag _ hm (hm.localSrc ‹_›)
    · exact enterCommit_commandsIn tag _ hm (hm.localSrc ‹_›)
  · exact commandsIn_idle hm _

theorem enterPreAccept_commandsIn (mode : Mode) (hm : m.CommandsIn Q) {src : Src}
    (hs : src.inst.CommandIn Q) : (enterPreAccept tag mode m src).CommandsIn Q := by
  have hb : (beginPreAcceptPhase tag m src).1.CommandsIn Q ∧
      ∀ env ∈ (beginPreAcceptPhase tag m src).2.1, env.msg.CommandsIn Q :=
    beginPhase_commandsIn tag (fun _ src b hm hs => hm.preAcceptInstance src hs b)
      (fun _ hc => commandsIn_preAcceptRequest.mpr hc) hm hs
  unfold enterPreAccept
  split
  · rename_i hd
    rw [hd] at hb
    exact hb
  · rename_i hd
    rw [hd] at hb
    exact afterPreAccept_commandsIn tag mode hb.1 _ _ _

theorem preparePhase_commandsIn (hm : m.CommandsIn Q) (iid : InstanceID) :
    (preparePhase tag m iid).CommandsIn Q := by
  unfold preparePhase
  split
  · exact commandsIn_idle hm _
  · rename_i i hi
    split
    · exact commandsIn_idle hm _
    · -- the ballot goes up on the stored instance; the request carries no instance
      exact ⟨hm.putInstance (hm.getInstance hi : i.CommandIn Q),
        fun env henv => mem_sendAll tag henv ▸ commandsIn_prepareRequest⟩

theorem deferToSuccessor_commandsIn (hm : m.CommandsIn Q) (iid : InstanceID) (succ : List NodeId) :
    (deferToSuccessor tag m iid succ).CommandsIn Q := by
  unfold deferToSuccessor
  split
  · exact commandsIn_idle hm _
  · split
    · exact ⟨hm, fun env henv => mem_sendAll tag henv ▸ commandsIn_prepareSuccessorRequest⟩
    · exact preparePhase_commandsIn tag hm iid

theorem waitForSuccessor_commandsIn (hm : m.CommandsIn Q) (iid : InstanceID) :
    (waitForSuccessor m iid).CommandsIn Q := by
  unfold waitForSuccessor
  split <;> exact commandsIn_idle hm _

theorem successorResponse_commandsIn (hm : m.CommandsIn Q) (iid : InstanceID) (rest : List NodeId)
    (response : PrepareSuccessorResponse) : (successorResponse tag m iid rest response).CommandsIn Q := by
  unfold successorResponse
  split
  · exact deferToSuccessor_commandsIn tag hm iid rest
  · exact commandsIn_idle hm _
  · rename_i ri li hri hli
    -- the local instance moves on; the successor's copy brings nothing
    have hacc := hm.acceptInstance (.local li) (hm.getInstance hli) false
    have hcom := hm.commitInstance (.local li) (hm.getInstance hli) false
    repeat' split
    all_goals
      first
      | exact waitForSuccessor_commandsIn hm iid
      | exact commandsIn_idle hcom _
      | (rename_i hd; exact commandsIn_idle (fst_eq_of_eq hd ▸ hacc) _)
      | (rename_i hd; exact waitForSuccessor_commandsIn (fst_eq_of_eq hd ▸ hacc) iid)

theorem prepareFrom_commandsIn (hm : m.CommandsIn Q) (src : Src) (hs : src.inst.CommandIn Q)
    (status : InstanceStatus) : (prepareFrom tag m src status).CommandsIn Q := by
  unfold prepareFrom
  repeat' split
  · exact enterPreAccept_commandsIn tag _ hm hs
  · exact enterAccept_commandsIn tag _ hm hs
  · exact enterCommit_commandsIn tag _ hm hs
  · exact commandsIn_idle hm _

theorem prepareApply_commandsIn (hm : m.CommandsIn Q) (iid : InstanceID)
    {responses : List PrepareResponse} (h : ∀ ri ∈ responses.filterMap (·.Instance), ri.CommandIn Q) :
    (prepareApply tag m iid responses).CommandsIn Q := by
  unfold prepareApply
  have hc := hm.managerPrepareCheckResponses iid h
  split
  · rename_i hd
    exact commandsIn_idle (fst_eq_of_eq hd ▸ hc) _
  · rename_i m' hd
    have hm' : m'.CommandsIn Q := fst_eq_of_eq hd ▸ hc
    split
    · exact commandsIn_idle hm' _
    · rename_i li hli
      have hl : li.CommandIn Q := hm'.getInstance hli
      split
      · rename_i ri hri
        -- the reply a prepare goes on from is one of the replies
        have hr : ri.CommandIn Q := h ri (analyzePrepareResponses_mem hri)
        split
        · exact prepareFrom_commandsIn tag hm' (.local li) hl _
        · exact prepareFrom_commandsIn tag hm' (.other ri) hr _
      · -- a noop keeps the instruction
        have hn : li.setNoop.CommandIn Q := hl
        split
        · exact prepareFrom_commandsIn tag (hm'.putInstance hn) (.local li.setNoop) hn _
        · exact prepareFrom_commandsIn tag hm' (.local li) hl _

/-- A leader's replies bring missing instances, which it stores. -/
theorem addMissingFromResponses_commandsIn (hm : m.CommandsIn Q) {responses : List PreAcceptResponse}
    (h : ∀ r ∈ responses, ∀ i ∈ r.MissingInstances, i.CommandIn Q) :
    (addMissingFromResponses m responses).1.CommandsIn Q := by
  induction responses generalizing m with
  | nil => exact hm
  | cons r rs ih =>
    have hrest : ∀ r' ∈ rs, ∀ i ∈ r'.MissingInstances, i.CommandIn Q :=
      fun r' hr' => h r' (List.mem_cons_of_mem r hr')
    have hadd := hm.addMissingInstancesUnsafe (h r List.mem_cons_self)
    unfold addMissingFromResponses
    repeat' split
    all_goals
      first
      | exact ih hm hrest
      | (rename_i hd; exact fst_eq_of_eq hd ▸ hadd)
      | (rename_i hd; exact ih (fst_eq_of_eq hd ▸ hadd) hrest)

theorem preAcceptResult_commandsIn (hm : m.CommandsIn Q) (iid : InstanceID)
    {responses : List PreAcceptResponse} (h : ∀ r ∈ responses, ∀ i ∈ r.MissingInstances, i.CommandIn Q) :
    (preAcceptResult m iid responses).1.CommandsIn Q := by
  have hadd := addMissingFromResponses_commandsIn hm h
  unfold preAcceptResult
  repeat' split
  all_goals
    first
    | exact hm.updateInstanceBallotFromResponses iid _
    | (rename_i hd; exact fst_eq_of_eq hd ▸ hadd)
    | (rename_i hd; exact (fst_eq_of_eq hd ▸ hadd).mergePreAcceptAttributes iid responses false)

theorem acceptResult_commandsIn (hm : m.CommandsIn Q) (iid : InstanceID)
    (responses : List AcceptResponse) : (acceptResult m iid responses).1.CommandsIn Q := by
  unfold acceptResult
  split
  · exact hm.updateInstanceBallotFromResponses iid _
  · exact hm

/-- A process takes replies that satisfy `Q` and steps on. -/
theorem receive_commandsIn (hm : m.CommandsIn Q) {p : Proc} {msgs : List Message} {e : Effect}
    (hmsgs : ∀ msg ∈ msgs, msg.CommandsIn Q) (h : receive tag m p msgs = some e) : e.CommandsIn Q := by
  unfold receive at h
  dsimp only at h
  split at h
  · cases h
  · split at h
    · split at h
      · cases h
        refine afterPreAccept_commandsIn tag _ (preAcceptResult_commandsIn hm _ fun r hr => ?_) _ _ _
        obtain ⟨msg, hmsg, hr⟩ := List.mem_filterMap.mp hr
        have hc := Message.eq_of_asPreAcceptResponse hr ▸ hmsgs msg hmsg
        exact (commandsIn_preAcceptResponse.mp hc).2
      · cases h
    · split at h
      · cases h
        exact afterAccept_commandsIn tag _ (acceptResult_commandsIn hm _ _) _ _
      · cases h
    · split at h
      · cases h
        refine prepareApply_commandsIn tag hm _ fun ri hri => ?_
        obtain ⟨r, hr, hri⟩ := List.mem_filterMap.mp hri
        obtain ⟨msg, hmsg, hr⟩ := List.mem_filterMap.mp hr
        have hc := Message.eq_of_asPrepareResponse hr ▸ hmsgs msg hmsg
        exact commandsIn_prepareResponse.mp hc ri hri
      · cases h
    · split at h
      · cases h
        exact successorResponse_commandsIn tag hm _ _ _
      · cases h
    · cases h

theorem timeout_commandsIn (hm : m.CommandsIn Q) {p : Proc} {e : Effect}
    (h : timeout tag m p = some e) : e.CommandsIn Q := by
  unfold timeout at h
  split at h
  · cases h
    exact afterPreAccept_commandsIn tag _ hm _ _ _
  · cases h
    exact afterAccept_commandsIn tag _ hm _ _
  · cases h
    exact commandsIn_idle hm _
  · cases h
    exact deferToSuccessor_commandsIn tag hm _ _
  · obtain ⟨i, -, rfl⟩ := Option.map_eq_some_iff.mp h
    exact deferToSuccessor_commandsIn tag hm _ _
  · cases h

end Phases

theorem wake_commandsIn {m : Manager} (hm : m.CommandsIn Q) {p : Proc} {e : Effect}
    (h : wake m p = some e) : e.CommandsIn Q := by
  unfold wake at h
  repeat' split at h
  all_goals first | (cases h; exact commandsIn_idle hm _) | cases h

theorem execute_commandsIn (uuidTime : UUID → Int) {m : Manager} (hm : m.CommandsIn Q) {p : Proc}
    {e : Effect} (h : execute uuidTime m p = some e) : e.CommandsIn Q := by
  unfold execute at h
  split at h
  · split at h <;>
    · cases h
      rename_i hd
      exact commandsIn_idle (fst_eq_of_eq hd ▸ hm.executeInstancePass uuidTime p.iid) _
  · cases h

/-! ### Steps and runs -/

namespace World
variable {w : World}

theorem CommandsIn.manager (hw : w.CommandsIn Q) {n : NodeId} {m : Manager}
    (h : w.manager n = some m) : m.CommandsIn Q :=
  hw.1 m (lookup_eq_some h).1

theorem CommandsIn.setManager (hw : w.CommandsIn Q) {m : Manager} (hm : m.CommandsIn Q) :
    ∀ m' ∈ (w.setManager m).managers, m'.CommandsIn Q := fun m' h =>
  (mem_replace h).elim (fun h => h ▸ hm) (hw.1 m')

theorem CommandsIn.advance (hw : w.CommandsIn Q) {pid : Nat} {p : Proc} {network : List Envelope}
    {e : Effect} (hnet : ∀ env ∈ network, env ∈ w.network) (he : e.CommandsIn Q) :
    (w.advance pid p network e).CommandsIn Q :=
  ⟨hw.setManager he.1, fun env h =>
    (List.mem_append.mp h).elim (fun h => hw.2 env (hnet env h)) (he.2 env)⟩

theorem CommandsIn.spawn (hw : w.CommandsIn Q) {p : Proc} {e : Effect} (he : e.CommandsIn Q) :
    (w.spawn p e).CommandsIn Q :=
  ⟨hw.setManager he.1, fun env h => (List.mem_append.mp h).elim (hw.2 env) (he.2 env)⟩

end World

/-- A world with nothing held and nothing in flight. -/
theorem commandsIn_init (nodes : List NodeId) (topology : String → List NodeId) :
    (World.init nodes topology).CommandsIn Q := by
  refine ⟨fun m hm => ?_, fun _ h => (List.not_mem_nil h).elim⟩
  obtain ⟨n, -, rfl⟩ := List.mem_map.mp hm
  exact ⟨fun _ h => (List.not_mem_nil h).elim, fun _ h => (List.not_mem_nil h).elim⟩

theorem takeAt_rest_mem {net : List Envelope} {ks : List Nat} {chosen rest : List Envelope}
    (h : takeAt net ks = some (chosen, rest)) {e : Envelope} (he : e ∈ rest) : e ∈ net := by
  unfold takeAt at h
  dsimp only at h
  split at h
  · cases h
    obtain ⟨x, hx, rfl⟩ := List.mem_map.mp he
    exact List.fst_mem_of_mem_zipIdx (List.mem_of_mem_filter hx)
  · cases h

theorem procStep_commandsIn {w w' : World} (hw : w.CommandsIn Q) {pid : Nat}
    {network : List Envelope} {f : Manager → Proc → Option Effect}
    (hnet : ∀ env ∈ network, env ∈ w.network)
    (hf : ∀ p m e, m.CommandsIn Q → f m p = some e → e.CommandsIn Q)
    (h : procStep w pid network f = some w') : w'.CommandsIn Q := by
  simp only [procStep, bind, Option.bind_eq_some_iff, Option.some.injEq] at h
  obtain ⟨p, -, m, hm, e, he, rfl⟩ := h
  exact hw.advance hnet (hf p m e (hw.manager hm) he)

section Runs
variable (uuidTime : UUID → Int)

/-- Every step keeps every instance's instruction allowed, when `Q` allows what
a query of the step submits. -/
theorem step_commandsIn {w w' : World} {a : Action} (hw : w.CommandsIn Q)
    (hq : ∀ n iid ins succ, a = .query n iid ins succ → Q iid ins)
    (h : step uuidTime w a = some w') : w'.CommandsIn Q := by
  cases a with
  | query n iid instruction successors =>
    simp only [step, bind, Option.bind_eq_some_iff, Option.some.injEq] at h
    obtain ⟨m, hm, -, -, rfl⟩ := h
    -- the new instance carries the query's instruction
    have hs : (Src.other (m.makeInstance iid instruction successors)).inst.CommandIn Q :=
      hq n iid instruction successors rfl
    exact hw.spawn (enterPreAccept_commandsIn _ _ (hw.manager hm) hs)
  | prepare n iid =>
    simp only [step, bind, Option.bind_eq_some_iff] at h
    obtain ⟨m, hm, i, -, -, -, h⟩ := h
    split at h
    · cases h
      exact hw
    · cases h
      exact hw.spawn (deferToSuccessor_commandsIn _ (hw.manager hm) iid _)
  | deliver k =>
    simp only [step, bind, Option.bind_eq_some_iff, Option.some.injEq] at h
    obtain ⟨e, he, m, hm, rfl⟩ := h
    obtain ⟨h1, h2⟩ := (hw.manager hm).answer (hw.2 e (List.mem_of_getElem? he))
    refine ⟨hw.setManager h1, fun env henv => ?_⟩
    rcases List.mem_append.mp henv with henv | henv
    · exact hw.2 env (List.mem_of_mem_eraseIdx henv)
    · exact h2 env henv
  | drop k =>
    simp only [step] at h
    split at h
    · cases h
      exact ⟨hw.1, fun env henv => hw.2 env (List.mem_of_mem_eraseIdx henv)⟩
    · cases h
  | receive pid ks =>
    simp only [step, bind, Option.bind_eq_some_iff] at h
    obtain ⟨p, -, ⟨chosen, rest⟩, htake, -, -, h⟩ := h
    refine procStep_commandsIn hw (fun env h => takeAt_rest_mem htake h) (fun p' m e hm he => ?_) h
    refine receive_commandsIn _ hm (fun msg hmsg => ?_) he
    obtain ⟨env, henv, rfl⟩ := List.mem_map.mp hmsg
    exact hw.2 env (takeAt_mem htake henv)
  | timeout pid =>
    exact procStep_commandsIn hw (fun _ h => h) (fun p m e hm he => timeout_commandsIn _ hm he) h
  | wake pid =>
    exact procStep_commandsIn hw (fun _ h => h) (fun p m e hm he => wake_commandsIn hm he) h
  | execute pid =>
    exact procStep_commandsIn hw (fun _ h => h) (fun p m e hm he => execute_commandsIn uuidTime hm he) h

theorem run_commandsIn {w w' : World} {acts : List Action} (hw : w.CommandsIn Q)
    (hq : ∀ n iid ins succ, Action.query n iid ins succ ∈ acts → Q iid ins)
    (h : run uuidTime w acts = some w') : w'.CommandsIn Q := by
  induction acts generalizing w with
  | nil =>
    cases h
    exact hw
  | cons a as ih =>
    obtain ⟨w₁, h₁, h₂⟩ := Option.bind_eq_some_iff.mp h
    have hw₁ : w₁.CommandsIn Q := step_commandsIn uuidTime hw
      (fun n iid ins succ ha => hq n iid ins succ (ha ▸ List.mem_cons_self)) h₁
    exact ih hw₁ (fun n iid ins succ hmem => hq n iid ins succ (List.mem_cons_of_mem a hmem)) h₂

end Runs

end Commands

/-! ### Queries take fresh ids -/

/-- The id under which a query makes its instance. -/
def Action.queriedId : Action → Option InstanceID
  | .query _ iid _ _ => some iid
  | _ => none

theorem Action.queriedId_eq_some {a : Action} {iid : InstanceID} (h : a.queriedId = some iid) :
    ∃ n ins succ, a = .query n iid ins succ := by
  cases a <;> simp [Action.queriedId] at h
  exact ⟨_, _, _, by rw [h]⟩

/-- Some replica holds the instance. -/
def World.Holds (w : World) (iid : InstanceID) : Prop :=
  ∃ n m i, w.manager n = some m ∧ m.getInstance iid = some i

theorem World.Holds.of_evolves {P : Prop} {w w' : World} {iid : InstanceID} (h : w.Holds iid)
    (hev : Evolves World.manager (Advances P) w w') : w'.Holds iid := by
  obtain ⟨n, m, i, hm, hi⟩ := h
  obtain ⟨m', hm', hadv⟩ := hev n m hm
  obtain ⟨i', hi', -⟩ := hadv.instances iid i hi
  exact ⟨n, m', i', hm', hi'⟩

/-- A replica's preaccept of an instance leaves the instance there. -/
theorem Manager.preAcceptInstance_holds (m : Manager) (src : Src) (incr : Bool) :
    ∃ i, (m.preAcceptInstance src incr).1.getInstance src.inst.InstanceID = some i := by
  obtain ⟨h1, h2⟩ := getOrSetSrc_fst m src
  have hget := getOrSetInstance_getInstance m src.inst
  have hadv : Advances False (m.getOrSetInstance src.inst).1 (m.preAcceptInstance src incr).1 := by
    simp only [Manager.preAcceptInstance]
    rw [h1, h2]
    exact preaccept_advances _ (by rw [getOrSetInstance_id]; exact hget) fun h => h.elim
  obtain ⟨i, hi, -⟩ := hadv.instances _ _ hget
  exact ⟨i, hi⟩

section Runs
variable (uuidTime : UUID → Int)

/-- A query takes an id no replica holds, and its leader holds it after. -/
theorem step_query {w w' : World} {n : NodeId} {iid : InstanceID} {ins : Instruction}
    {succ : List NodeId} (h : step uuidTime w (.query n iid ins succ) = some w') :
    ¬ w.Holds iid ∧ w'.Holds iid := by
  simp only [step, bind, Option.bind_eq_some_iff, Option.some.injEq] at h
  obtain ⟨m, hm, u, hg, rfl⟩ := h
  have hfresh : w.fresh iid = true := by
    simp only [Bool.and_eq_true] at hg
    exact (by simpa using hg : _ ∧ _).1
  refine ⟨?_, ?_⟩
  · -- every replica's lookup of the id comes back empty
    rintro ⟨n', m', i, hm', hi⟩
    simp only [World.fresh, Bool.and_eq_true, List.all_eq_true] at hfresh
    have hnone : m'.getInstance iid = none := by simpa using hfresh.1 m' (lookup_eq_some hm').1
    rw [hnone] at hi
    cases hi
  · -- the leader's manager is replaced by the one that preaccepted the instance
    let e := enterPreAccept ⟨w.procs.length, 1⟩ .leader m (.other (m.makeInstance iid ins succ))
    have hn : e.mgr.nodeID = n :=
      ((enterPreAccept_advances (P := False) _ _ False.elim).nodeID).trans (lookup_eq_some hm).2
    obtain ⟨i, hi⟩ := m.preAcceptInstance_holds (.other (m.makeInstance iid ins succ)) true
    refine ⟨n, e.mgr, i, ?_, ?_⟩
    · show lookup Manager.nodeID (replace Manager.nodeID w.managers e.mgr) n = some e.mgr
      rw [lookup_replace, if_pos hn]
      simp only [World.manager] at hm
      rw [hm, Option.map_some]
    · rw [(enterPreAccept_eq _ _ _ _).1]
      exact hi

/-- In a run, the ids of the queries are distinct, and none is held at the start. -/
theorem run_queries {w w' : World} {acts : List Action} (h : run uuidTime w acts = some w') :
    (acts.filterMap Action.queriedId).Nodup ∧
      ∀ iid ∈ acts.filterMap Action.queriedId, ¬ w.Holds iid := by
  induction acts generalizing w with
  | nil => exact ⟨List.nodup_nil, fun _ h => (List.not_mem_nil h).elim⟩
  | cons a as ih =>
    obtain ⟨w₁, h₁, h₂⟩ := Option.bind_eq_some_iff.mp h
    obtain ⟨hnd, hfresh⟩ := ih h₂
    -- an id held before the step is still held after it
    have hkeep : ∀ iid, w.Holds iid → w₁.Holds iid := fun iid hw =>
      hw.of_evolves (step_advances uuidTime h₁)
    cases ha : a.queriedId with
    | none =>
      rw [List.filterMap_cons_none ha]
      exact ⟨hnd, fun iid hi hw => hfresh iid hi (hkeep iid hw)⟩
    | some iid =>
      obtain ⟨n, ins, succ, rfl⟩ := Action.queriedId_eq_some ha
      obtain ⟨hnot, hheld⟩ := step_query uuidTime h₁
      rw [List.filterMap_cons_some ha]
      refine ⟨List.nodup_cons.mpr ⟨fun hi => hfresh iid hi hheld, hnd⟩, fun x hx hw => ?_⟩
      rcases List.mem_cons.mp hx with rfl | hx
      · exact hnot hw
      · exact hfresh x hx (hkeep x hw)

end Runs

/-- Two queries of one id, with distinct ids among the queries, are one query's
instruction. -/
theorem query_command_unique {acts : List Action} (hnd : (acts.filterMap Action.queriedId).Nodup)
    {n₁ n₂ : NodeId} {iid : InstanceID} {c₁ c₂ : Instruction} {s₁ s₂ : List NodeId}
    (h₁ : Action.query n₁ iid c₁ s₁ ∈ acts) (h₂ : Action.query n₂ iid c₂ s₂ ∈ acts) : c₁ = c₂ := by
  induction acts with
  | nil => cases h₁
  | cons a as ih =>
    have hmem : ∀ {n c s}, Action.query n iid c s ∈ as → iid ∈ as.filterMap Action.queriedId :=
      fun h => List.mem_filterMap.mpr ⟨_, h, rfl⟩
    cases ha : a.queriedId with
    | none =>
      rw [List.filterMap_cons_none ha] at hnd
      -- neither query is `a`, which queries nothing
      have hne : ∀ {n c s}, Action.query n iid c s ∈ a :: as → Action.query n iid c s ∈ as :=
        fun h => (List.mem_cons.mp h).resolve_left fun he => by rw [← he] at ha; cases ha
      exact ih hnd (hne h₁) (hne h₂)
    | some x =>
      rw [List.filterMap_cons_some ha] at hnd
      obtain ⟨hx, hnd'⟩ := List.nodup_cons.mp hnd
      obtain ⟨n, ins, succ, rfl⟩ := Action.queriedId_eq_some ha
      rcases List.mem_cons.mp h₁ with he₁ | ht₁ <;> rcases List.mem_cons.mp h₂ with he₂ | ht₂
      · cases he₁
        cases he₂
        rfl
      · cases he₁
        exact absurd (hmem ht₂) hx
      · cases he₂
        exact absurd (hmem ht₁) hx
      · exact ih hnd' ht₁ ht₂

section Runs
variable (uuidTime : UUID → Int)

/-- From the initial world, over every run, every instance a replica holds
carries the instruction a query of the run submitted under the instance's id,
and every instruction a replica handed to its store was submitted by a query. -/
theorem commands_were_queried {nodes : List NodeId} {topology : String → List NodeId}
    {acts : List Action} {w' : World} (h : run uuidTime (World.init nodes topology) acts = some w')
    {n : NodeId} {m : Manager} (hm : w'.manager n = some m) :
    (∀ i ∈ m.instances, ∃ n' succ, Action.query n' i.InstanceID i.Command succ ∈ acts) ∧
      ∀ ins ∈ m.applied, ∃ n' iid succ, Action.query n' iid ins succ ∈ acts := by
  have hw := run_commandsIn (Q := fun iid ins => ∃ n succ, Action.query n iid ins succ ∈ acts)
    uuidTime (commandsIn_init nodes topology) (fun n iid ins succ h => ⟨n, succ, h⟩) h
  obtain ⟨hi, ha⟩ := hw.manager hm
  refine ⟨hi, fun ins hins => ?_⟩
  obtain ⟨iid, n', succ, hq⟩ := ha ins hins
  exact ⟨n', iid, succ, hq⟩

/-- On the fast path, the leader applies `setA`, the write its query submitted. -/
theorem commands_were_queried_fast_path :
    ∃ (w' : World) (m : Manager), run (fun _ => 0) cluster queryFastPath = some w' ∧
      w'.manager nodeA = some m ∧ m.applied = [setA] ∧
      (∀ i ∈ m.instances, ∃ n' succ, Action.query n' i.InstanceID i.Command succ ∈ queryFastPath) ∧
      ∀ ins ∈ m.applied, ∃ n' iid succ, Action.query n' iid ins succ ∈ queryFastPath := by
  obtain ⟨w', hw, hexec⟩ := queryFastPath_run
  obtain ⟨m, hm, hpair⟩ := Option.map_eq_some_iff.mp hexec
  exact ⟨w', m, hw, hm, (Prod.mk.inj hpair).2, commands_were_queried (fun _ => 0) hw hm⟩

/-- From the initial world, over every run, two replicas that hold an instance
hold it with one instruction. -/
theorem instance_commands_agree {nodes : List NodeId} {topology : String → List NodeId}
    {acts : List Action} {w' : World} (h : run uuidTime (World.init nodes topology) acts = some w')
    {n₁ n₂ : NodeId} {m₁ m₂ : Manager} (hm₁ : w'.manager n₁ = some m₁)
    (hm₂ : w'.manager n₂ = some m₂) {iid : InstanceID} {i₁ i₂ : Instance}
    (hi₁ : m₁.getInstance iid = some i₁) (hi₂ : m₂.getInstance iid = some i₂) :
    i₁.Command = i₂.Command := by
  have hw := run_commandsIn (Q := fun iid ins => ∃ n succ, Action.query n iid ins succ ∈ acts)
    uuidTime (commandsIn_init nodes topology) (fun n iid ins succ h => ⟨n, succ, h⟩) h
  obtain ⟨n₁', s₁, hq₁⟩ := (hw.manager hm₁).getInstance hi₁
  obtain ⟨n₂', s₂, hq₂⟩ := (hw.manager hm₂).getInstance hi₂
  rw [getInstance_id hi₁] at hq₁
  rw [getInstance_id hi₂] at hq₂
  exact query_command_unique (run_queries uuidTime h).1 hq₁ hq₂

/-- On the fast path, the leader and the replica that answered it both hold `iidX`. -/
theorem instance_commands_agree_fast_path :
    ∃ (w' : World) (m₁ m₂ : Manager) (i₁ i₂ : Instance),
      run (fun _ => 0) cluster queryFastPath = some w' ∧ w'.manager nodeA = some m₁ ∧
      w'.manager nodeB = some m₂ ∧ m₁.getInstance iidX = some i₁ ∧ m₂.getInstance iidX = some i₂ ∧
      i₁.Command = i₂.Command := by
  obtain ⟨w', hw⟩ := Option.isSome_iff_exists.mp
    (show (run (fun _ => 0) cluster queryFastPath).isSome by decide +kernel)
  have hA : (((run (fun _ => 0) cluster queryFastPath).bind (·.manager nodeA)).bind
      (·.getInstance iidX)).isSome := by
    decide +kernel
  have hB : (((run (fun _ => 0) cluster queryFastPath).bind (·.manager nodeB)).bind
      (·.getInstance iidX)).isSome := by
    decide +kernel
  rw [hw, Option.bind_some] at hA hB
  obtain ⟨i₁, hi₁⟩ := Option.isSome_iff_exists.mp hA
  obtain ⟨i₂, hi₂⟩ := Option.isSome_iff_exists.mp hB
  obtain ⟨m₁, hm₁, hi₁⟩ := Option.bind_eq_some_iff.mp hi₁
  obtain ⟨m₂, hm₂, hi₂⟩ := Option.bind_eq_some_iff.mp hi₂
  exact ⟨w', m₁, m₂, i₁, i₂, hw, hm₁, hm₂, hi₁, hi₂,
    instance_commands_agree (fun _ => 0) hw hm₁ hm₂ hi₁ hi₂⟩

end Runs

end Kickboxer.Consensus
