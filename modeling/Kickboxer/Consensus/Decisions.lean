import Kickboxer.Consensus.Commands

/-! Agreement without recovery (`Instance.commit`, `Manager.commitInstance`,
`HandleCommit`, `managerCommitPhase`, `ExecutePaxos` and every operation that
writes an instance).

An instance is decided once it is committed or executed, and what a commit
decides is its dependencies and noop flag, its attributes. `DecidedIn D` says,
for a relation `D` between ids and attributes, that every decided copy of an
instance, at a replica, in its commit log or in a message, carries attributes
`D` allows for its id, and that a commit request asks for such attributes.
Every operation of a replica keeps it, given that the copies it is handed do,
with one exception: the commit phase of the local instance decides the local
instance's attributes, whatever `D` says. Everything else that writes a decided
copy takes its attributes from a copy that is decided already: `HandleCommit`
from its request, `addMissingInstancesUnsafe` from a reply, `getOrSetInstance`
from a copy it stores, execution from the instance it marks executed.

In a run with no recovery (no `prepare` action), every process is a leader, and
a leader commits only its own instance, at most once, from one of its two waits.
Queries take fresh ids, so one leader runs each instance, and `Settled` records
a decision for each instance whose leader has left its waits: every decided copy
in the world carries the decision of its instance. Every step keeps it
(`step_settled`), extending the decisions, hence so does every run. So all
commit events of an instance, at any replicas, carry the same attributes
(`commits_agree_without_recovery`), and a replica's decided instance keeps its
attributes for the rest of the run (`decided_attributes_final`). Recovery
breaks both (`successor_commit_disagrees`, `HandleCommit_overwrites_committed`). -/
namespace Kickboxer.Consensus
open Kickboxer.Types Store Library Instance Manager

/-- What a commit decides: the dependencies and the noop flag. -/
abbrev Attributes := List InstanceID × Bool

def Instance.attributes (i : Instance) : Attributes := (i.Dependencies, i.Noop)

/-- Committed or executed. -/
def Instance.Decided (i : Instance) : Prop := INSTANCE_COMMITTED ≤ i.Status

instance (i : Instance) : Decidable i.Decided := inferInstanceAs (Decidable (_ ≤ _))

/-- The instances a message asks its destination to commit. -/
def Message.commits : Message → List Instance
  | .commitRequest r => [r.Instance]
  | _ => []

/-- The states of a leader's process (`ExecutePaxos`): its two waits, then
execution. -/
def ProcState.leads : ProcState → Bool
  | .preAccepting .leader | .accepting .leader | .executing | .done => true
  | _ => false

/-- The waits of the preaccept and accept phases, before a commit. -/
def ProcState.waiting : ProcState → Bool
  | .preAccepting _ | .accepting _ => true
  | _ => false

section Decisions
variable (D : Consensus.InstanceID → Attributes → Prop)

/-- A decided instance carries attributes `D` allows. -/
def Instance.DecidedIn (i : Instance) : Prop := i.Decided → D i.InstanceID i.attributes

def Message.DecidedIn (msg : Message) : Prop :=
  (∀ i ∈ msg.instances, i.DecidedIn D) ∧ ∀ i ∈ msg.commits, D i.InstanceID i.attributes

/-- Every decided instance the replica holds, and every commit it logged, is
allowed by `D`. -/
structure Manager.DecidedIn (m : Manager) : Prop where
  instances : ∀ i ∈ m.instances, i.DecidedIn D
  commitLog : ∀ i ∈ m.commitLog, D i.InstanceID i.attributes

def Effect.DecidedIn (e : Effect) : Prop :=
  e.mgr.DecidedIn D ∧ ∀ env ∈ e.sent, env.msg.DecidedIn D

def World.DecidedIn (w : World) : Prop :=
  (∀ m ∈ w.managers, m.DecidedIn D) ∧ ∀ e ∈ w.network, e.msg.DecidedIn D

/-- `D`, and the attributes `a` for `iid`. -/
def withDecision (iid : Consensus.InstanceID) (a : Attributes) :
    Consensus.InstanceID → Attributes → Prop :=
  fun j b => D j b ∨ (j = iid ∧ b = a)

/-- A process step of `iid` decides nothing, or decides `iid` and leaves the
waits. -/
def Effect.Decides (iid : Consensus.InstanceID) (e : Effect) : Prop :=
  e.DecidedIn D ∨ ∃ a, e.DecidedIn (withDecision D iid a) ∧ e.next.waiting = false

variable {D}

/-! ### Instances -/

namespace Instance
variable {i j : Instance}

theorem DecidedIn.mono {D' : Consensus.InstanceID → Attributes → Prop}
    (h : i.DecidedIn D) (hD : ∀ j a, D j a → D' j a) : i.DecidedIn D' :=
  fun hi => hD _ _ (h hi)

/-- An instance that keeps the id, status and attributes of one allowed by `D`. -/
theorem DecidedIn.of_same (h : i.DecidedIn D) (hid : j.InstanceID = i.InstanceID)
    (hs : j.Status = i.Status) (ha : j.attributes = i.attributes) : j.DecidedIn D := by
  intro hj
  rw [hid, ha]
  exact h (show INSTANCE_COMMITTED ≤ i.Status from hs ▸ hj)

theorem decidedIn_of_lt {i : Instance} (h : i.Status < INSTANCE_COMMITTED) : i.DecidedIn D :=
  fun hi => absurd hi (UInt8.not_le.mpr h)

theorem decidedIn_of_preaccepted {i : Instance} (h : i.Status = INSTANCE_PREACCEPTED) :
    i.DecidedIn D :=
  decidedIn_of_lt (by rw [h]; decide)

theorem DecidedIn.copy (h : i.DecidedIn D) : i.Copy.DecidedIn D := h

theorem DecidedIn.updateBallot (h : i.DecidedIn D) (ballot : UInt32) :
    (i.updateBallot ballot).1.DecidedIn D := by
  unfold Instance.updateBallot
  split
  · exact h
  · exact h

theorem DecidedIn.clampStatus (h : i.DecidedIn D) : (Manager.clampStatus i).DecidedIn D := by
  unfold Manager.clampStatus
  split
  · -- an executed copy is stored as committed: still decided, same attributes
    rename_i hs
    exact fun _ => h (UInt8.le_of_lt hs)
  · exact h

/-- `accept` leaves an instance accepted: not decided. -/
theorem decidedIn_accept {inst : Option Instance} {incr : Bool} (h : i.accept inst incr = .ok j) :
    j.DecidedIn D := by
  refine decidedIn_of_lt ?_
  rw [(advanceTo_eq_ok h).2.1]
  decide

/-- `mergeAttributes` works on a preaccepted instance and leaves it so. -/
theorem decidedIn_mergeAttributes {deps : List Consensus.InstanceID} {c : Bool}
    (h : i.mergeAttributes deps = .ok (j, c)) : j.DecidedIn D := by
  refine decidedIn_of_preaccepted ?_
  rw [(mergeAttributes_eq_ok h).2.1]
  unfold Instance.mergeAttributes at h
  split at h
  · cases h
  · rename_i hs
    exact not_not.mp hs

/-- `clampStatus` changes a status within the decided ones. -/
theorem clampStatus_attributes (i : Instance) : (Manager.clampStatus i).attributes = i.attributes := by
  unfold Manager.clampStatus
  split <;> rfl

end Instance

theorem Message.DecidedIn.mono {D' : Consensus.InstanceID → Attributes → Prop} {msg : Message}
    (h : msg.DecidedIn D) (hD : ∀ j a, D j a → D' j a) : msg.DecidedIn D' :=
  ⟨fun i hi => (h.1 i hi).mono hD, fun i hi => hD _ _ (h.2 i hi)⟩

/-! ### A replica's operations -/

namespace Manager
variable {m : Manager}

theorem DecidedIn.mono {D' : Consensus.InstanceID → Attributes → Prop} (hm : m.DecidedIn D)
    (hD : ∀ j a, D j a → D' j a) : m.DecidedIn D' :=
  ⟨fun i hi => (hm.instances i hi).mono hD, fun i hi => hD _ _ (hm.commitLog i hi)⟩

theorem DecidedIn.getInstance (hm : m.DecidedIn D) {iid : InstanceID} {i : Instance}
    (hi : m.getInstance iid = some i) : i.DecidedIn D :=
  hm.instances i (lookup_eq_some hi).1

/-- A change to neither the instances nor the commit log. -/
theorem DecidedIn.of_eq {m' : Manager} (hm : m.DecidedIn D) (hi : m'.instances = m.instances)
    (hc : m'.commitLog = m.commitLog) : m'.DecidedIn D :=
  ⟨hi ▸ hm.instances, hc ▸ hm.commitLog⟩

theorem DecidedIn.putInstance (hm : m.DecidedIn D) {i : Instance} (hi : i.DecidedIn D) :
    (m.putInstance i).DecidedIn D := by
  refine ⟨fun j hj => ?_, hm.commitLog⟩
  obtain ⟨b, hb, rfl⟩ := List.mem_map.mp hj
  split
  · exact hi
  · exact hm.instances b hb

theorem DecidedIn.withDeps {α : Type} (hm : m.DecidedIn D)
    (f : DependencyMap → List String → Instance → DependencyMap × α) (i : Instance) :
    (m.withDeps f i).1.DecidedIn D :=
  hm.of_eq rfl rfl

theorem DecidedIn.getOrSetInstance (hm : m.DecidedIn D) {inst : Instance} (hin : inst.DecidedIn D) :
    (m.getOrSetInstance inst).1.DecidedIn D ∧ (m.getOrSetInstance inst).2.1.DecidedIn D := by
  rcases getOrSetInstance_cases m inst with ⟨h, hm', -⟩ | ⟨hn, hr, hl, -⟩
  · rw [hm']
    exact ⟨hm, hm.getInstance h⟩
  · -- the copy is stored with its status clamped, then registered
    have hc : (clampStatus inst).DecidedIn D := hin.clampStatus
    have hlog : (m.getOrSetInstance inst).1.commitLog = m.commitLog := by
      rw [getOrSetInstance_none m inst hn]
      split <;> rfl
    refine ⟨⟨?_, hlog ▸ hm.commitLog⟩, hr ▸ hc⟩
    rw [hl]
    exact List.forall_mem_append.mpr ⟨hm.instances, List.forall_mem_singleton.mpr hc⟩

theorem DecidedIn.getOrSetSrc (hm : m.DecidedIn D) (src : Src) (hs : src.inst.DecidedIn D) :
    (m.getOrSetSrc src).1.DecidedIn D ∧ (m.getOrSetSrc src).2.1.DecidedIn D := by
  obtain ⟨h1, h2⟩ := getOrSetSrc_fst m src
  rw [h1, h2]
  exact hm.getOrSetInstance hs

/-- `Instance.preaccept` writes back a preaccepted instance, which is not decided. -/
theorem DecidedIn.preaccept (hm : m.DecidedIn D) (i : Instance) (inst : Option Instance)
    (incr : Bool) : (m.preaccept i inst incr).1.DecidedIn D := by
  unfold Manager.preaccept
  split
  · exact hm
  · have hd : ∀ j : Instance, (m.getInstanceDeps j).1.DecidedIn D := fun j => hm.withDeps _ j
    cases inst <;> cases incr <;> dsimp only <;> split <;>
    · rename_i hdeps
      have hm' := fst_eq_of_eq hdeps ▸ hd _
      exact hm'.putInstance (decidedIn_of_preaccepted rfl)

theorem DecidedIn.preAcceptInstance (hm : m.DecidedIn D) (src : Src) (hs : src.inst.DecidedIn D)
    (incr : Bool) : (m.preAcceptInstance src incr).1.DecidedIn D :=
  (hm.getOrSetSrc src hs).1.preaccept _ _ incr

theorem DecidedIn.acceptInstance (hm : m.DecidedIn D) (src : Src) (hs : src.inst.DecidedIn D)
    (incr : Bool) : (m.acceptInstance src incr).1.DecidedIn D := by
  simp only [Manager.acceptInstance]
  split
  · exact (hm.getOrSetSrc src hs).1
  · rename_i i h
    exact ((hm.getOrSetSrc src hs).1.putInstance (decidedIn_accept h)).withDeps _ i

/-- A commit decides the attributes of the copy it is handed, or, handed none,
those of the stored instance: allowed by `D`, it keeps the replica so. -/
theorem DecidedIn.commitInstance (hm : m.DecidedIn D) (src : Src) (hs : src.inst.DecidedIn D)
    (incr : Bool)
    (hD : D src.inst.InstanceID ((m.getOrSetSrc src).2.2.getD (m.getOrSetSrc src).2.1).attributes) :
    (m.commitInstance src incr).1.DecidedIn D := by
  simp only [Manager.commitInstance]
  split
  · exact (hm.getOrSetSrc src hs).1
  · rename_i i h
    obtain ⟨-, -, hid, -, hdeps, hnoop, -⟩ := advanceTo_eq_ok h
    have ha : i.attributes = ((m.getOrSetSrc src).2.2.getD (m.getOrSetSrc src).2.1).attributes := by
      unfold Instance.attributes
      rw [hdeps, hnoop]
      cases (m.getOrSetSrc src).2.2 <;> rfl
    have hid' : i.InstanceID = src.inst.InstanceID := by
      rw [hid, (getOrSetSrc_fst m src).2, getOrSetInstance_id]
    have hi : D i.InstanceID i.attributes := by
      rw [ha, hid']
      exact hD
    have hput := (hm.getOrSetSrc src hs).1.putInstance (i := i) fun _ => hi
    -- the commit is logged, then reported to the dependency tree
    refine DecidedIn.withDeps ?_ _ i
    exact ⟨hput.instances, List.forall_mem_append.mpr ⟨hput.commitLog, List.forall_mem_singleton.mpr hi⟩⟩

/-- The commit phase's commit of the stored instance decides its attributes. -/
theorem DecidedIn.commitInstance_local (hm : m.DecidedIn D) {li : Instance}
    (hli : m.getInstance li.InstanceID = some li) (incr : Bool) :
    (m.commitInstance (.local li) incr).1.DecidedIn (withDecision D li.InstanceID li.attributes) := by
  -- handed the stored object, the commit takes no copy's attributes
  have hsrc : (m.getOrSetSrc (.local li)).2.2.getD (m.getOrSetSrc (.local li)).2.1 = li := by
    simp only [Manager.getOrSetSrc, getOrSetInstance_some m li hli, Option.getD_none]
  refine (hm.mono fun _ _ h => Or.inl h).commitInstance (.local li) (fun _ => Or.inr ⟨rfl, rfl⟩)
    incr ?_
  rw [hsrc]
  exact Or.inr ⟨rfl, rfl⟩

/-- A commit of a copy allowed by `D` keeps the replica so. -/
theorem DecidedIn.commitInstance_other (hm : m.DecidedIn D) {c : Instance} (hc : c.DecidedIn D)
    (hD : D c.InstanceID c.attributes) (incr : Bool) :
    (m.commitInstance (.other c) incr).1.DecidedIn D := by
  refine hm.commitInstance (.other c) hc incr ?_
  rcases getOrSetInstance_cases m c with ⟨-, -, ht⟩ | ⟨-, hr, -, hf⟩
  · simp only [Manager.getOrSetSrc, ht, if_true, Option.getD_some]
    exact hD
  · simp only [Manager.getOrSetSrc, hf, Bool.false_eq_true, if_false, Option.getD_none, hr,
      clampStatus_attributes]
    exact hD

theorem DecidedIn.addMissingInstancesUnsafe (hm : m.DecidedIn D) {instances : List Instance}
    (h : ∀ i ∈ instances, i.DecidedIn D) : (m.addMissingInstancesUnsafe instances).1.DecidedIn D := by
  induction instances generalizing m with
  | nil => exact hm
  | cons inst rest ih =>
    have hrest : ∀ i ∈ rest, i.DecidedIn D := fun i hi => h i (List.mem_cons_of_mem inst hi)
    obtain ⟨hm', hi'⟩ := hm.getOrSetInstance (h inst List.mem_cons_self)
    simp only [Manager.addMissingInstancesUnsafe]
    split
    · exact ih hm' hrest
    · split
      · -- a copy that came committed or executed is stored as committed
        have hc : (if (m.getOrSetInstance inst).2.1.Status = INSTANCE_COMMITTED ∨
            (m.getOrSetInstance inst).2.1.Status = INSTANCE_EXECUTED then
              { (m.getOrSetInstance inst).2.1 with Status := INSTANCE_COMMITTED }
            else (m.getOrSetInstance inst).2.1).DecidedIn D := by
          split
          · rename_i hs
            refine fun _ => hi' ?_
            rcases hs with hs | hs <;> (unfold Instance.Decided; rw [hs]; decide)
          · exact hi'
        have hput : ∀ x : Instance, x.DecidedIn D →
            (((m.getOrSetInstance inst).1.putInstance x).AddDependency x).1.DecidedIn D :=
          fun x hx => (hm'.putInstance hx).withDeps _ x
        split
        · rename_i hd
          exact fst_eq_of_eq hd ▸ hput _ hc
        · rename_i hd
          exact ih (fst_eq_of_eq hd ▸ hput _ hc) hrest
      · exact hm'

theorem DecidedIn.updateInstanceBallotFromResponses (hm : m.DecidedIn D) (iid : InstanceID)
    (ballots : List UInt32) : (m.updateInstanceBallotFromResponses iid ballots).DecidedIn D := by
  unfold Manager.updateInstanceBallotFromResponses
  split
  · rename_i i hi
    exact hm.putInstance ((hm.getInstance hi).updateBallot _)
  · exact hm

theorem DecidedIn.mergePreAcceptAttributes (hm : m.DecidedIn D) (iid : InstanceID)
    (responses : List PreAcceptResponse) (changes : Bool) :
    (m.mergePreAcceptAttributes iid responses changes).1.DecidedIn D := by
  induction responses generalizing m changes with
  | nil => exact hm
  | cons response rest ih =>
    simp only [Manager.mergePreAcceptAttributes]
    split
    · exact hm
    · split
      · exact hm
      · rename_i i' c hmerge
        exact ih (hm.putInstance (decidedIn_mergeAttributes hmerge)) _

end Manager

/-! ### The handlers -/

@[simp] theorem decidedIn_preAcceptResponse {r : PreAcceptResponse} :
    (Message.preAcceptResponse r).DecidedIn D ↔
      r.Instance.DecidedIn D ∧ ∀ i ∈ r.MissingInstances, i.DecidedIn D := by
  simp [Message.DecidedIn, Message.instances, Message.commits]

@[simp] theorem decidedIn_acceptResponse {r : AcceptResponse} :
    (Message.acceptResponse r).DecidedIn D := by
  simp [Message.DecidedIn, Message.instances, Message.commits]

@[simp] theorem decidedIn_commitResponse {r : CommitResponse} :
    (Message.commitResponse r).DecidedIn D := by
  simp [Message.DecidedIn, Message.instances, Message.commits]

@[simp] theorem decidedIn_prepareResponse {r : PrepareResponse} :
    (Message.prepareResponse r).DecidedIn D ↔ ∀ i ∈ r.Instance, i.DecidedIn D := by
  simp [Message.DecidedIn, Message.instances, Message.commits]

@[simp] theorem decidedIn_prepareSuccessorResponse {r : PrepareSuccessorResponse} :
    (Message.prepareSuccessorResponse r).DecidedIn D ↔ ∀ i ∈ r.Instance, i.DecidedIn D := by
  simp [Message.DecidedIn, Message.instances, Message.commits]

@[simp] theorem decidedIn_preAcceptRequest {r : PreAcceptRequest} :
    (Message.preAcceptRequest r).DecidedIn D ↔ r.Instance.DecidedIn D := by
  simp [Message.DecidedIn, Message.instances, Message.commits]

@[simp] theorem decidedIn_acceptRequest {r : AcceptRequest} :
    (Message.acceptRequest r).DecidedIn D ↔
      r.Instance.DecidedIn D ∧ ∀ i ∈ r.MissingInstances, i.DecidedIn D := by
  simp [Message.DecidedIn, Message.instances, Message.commits]

/-- A commit request asks for attributes `D` allows. -/
@[simp] theorem decidedIn_commitRequest {r : CommitRequest} :
    (Message.commitRequest r).DecidedIn D ↔
      r.Instance.DecidedIn D ∧ D r.Instance.InstanceID r.Instance.attributes := by
  simp [Message.DecidedIn, Message.instances, Message.commits]

@[simp] theorem decidedIn_prepareRequest {r : PrepareRequest} :
    (Message.prepareRequest r).DecidedIn D := by
  simp [Message.DecidedIn, Message.instances, Message.commits]

@[simp] theorem decidedIn_prepareSuccessorRequest {r : PrepareSuccessorRequest} :
    (Message.prepareSuccessorRequest r).DecidedIn D := by
  simp [Message.DecidedIn, Message.instances, Message.commits]

namespace Manager
variable {m : Manager}

/-- A copy of an instance the replica holds, if it holds one. -/
theorem DecidedIn.getInstance_copy (hm : m.DecidedIn D) (iid : InstanceID) :
    ∀ i ∈ (m.getInstance iid).map Instance.Copy, i.DecidedIn D := by
  intro i hi
  obtain ⟨j, hj, rfl⟩ := Option.map_eq_some_iff.mp hi
  exact (hm.getInstance hj).copy

theorem DecidedIn.preAcceptReply (hm : m.DecidedIn D) {request : PreAcceptRequest}
    (hr : request.Instance.DecidedIn D) :
    (m.preAcceptReply request).1.DecidedIn D ∧
      (Message.preAcceptResponse (m.preAcceptReply request).2).DecidedIn D := by
  -- the instance the reply is about: the stored one, or the request's
  have hi : ((m.getInstance request.Instance.InstanceID).getD request.Instance).DecidedIn D := by
    cases h : m.getInstance request.Instance.InstanceID with
    | none => exact hr
    | some i => exact hm.getInstance h
  simp only [Manager.preAcceptReply]
  generalize (m.getInstance request.Instance.InstanceID).getD request.Instance = i at hi
  -- only the dependency match changes
  have hm' := hm.putInstance (i := { i with DependencyMatch := (ListSet.equal
    (ListSet.ofList request.Instance.Dependencies) (ListSet.ofList i.Dependencies)) }) hi
  refine ⟨hm', decidedIn_preAcceptResponse.mpr ⟨hi.copy, fun j hj => ?_⟩⟩
  obtain ⟨iid, -, hj⟩ := List.mem_filterMap.mp hj
  exact hm'.getInstance_copy iid j hj

theorem DecidedIn.HandlePreAccept (hm : m.DecidedIn D) {request : PreAcceptRequest}
    (hr : request.Instance.DecidedIn D) :
    (m.HandlePreAccept request).1.DecidedIn D ∧
      ∀ reply, (m.HandlePreAccept request).2 = .ok reply →
        (Message.preAcceptResponse reply).DecidedIn D := by
  have hpa : (m.preAcceptInstance (.other request.Instance) false).1.DecidedIn D :=
    hm.preAcceptInstance (.other request.Instance) hr false
  have hreply := hpa.preAcceptReply hr
  simp only [Manager.HandlePreAccept]
  repeat' split
  all_goals
    first
    | exact ⟨hpa, fun _ h => by cases h⟩
    | exact ⟨hreply.1, fun _ h => Except.ok.inj h ▸ hreply.2⟩
    | -- a refusal answers with a copy of the stored instance
      exact ⟨hm, fun _ h => Except.ok.inj h ▸ decidedIn_preAcceptResponse.mpr
        ⟨(hm.getInstance ‹_›).copy, fun _ h => by cases h⟩⟩

theorem DecidedIn.HandleAccept (hm : m.DecidedIn D) {request : AcceptRequest}
    (hr : request.Instance.DecidedIn D) (hmiss : ∀ i ∈ request.MissingInstances, i.DecidedIn D) :
    (m.HandleAccept request).1.DecidedIn D := by
  -- the missing instances go in first
  have hm' : (if request.MissingInstances.length > 0 then
      (m.addMissingInstancesUnsafe request.MissingInstances).1 else m).DecidedIn D := by
    split
    · exact hm.addMissingInstancesUnsafe hmiss
    · exact hm
  simp only [Manager.HandleAccept]
  generalize (if request.MissingInstances.length > 0 then
    (m.addMissingInstancesUnsafe request.MissingInstances).1 else m) = m' at hm' ⊢
  have hacc := hm'.acceptInstance (.other request.Instance) hr false
  repeat' split
  all_goals first | exact hm' | exact hacc

/-- `HandleCommit` has no ballot check, but it commits the attributes of its
request. -/
theorem DecidedIn.HandleCommit (hm : m.DecidedIn D) {request : CommitRequest}
    (hr : request.Instance.DecidedIn D) (hD : D request.Instance.InstanceID request.Instance.attributes) :
    (m.HandleCommit request).1.DecidedIn D := by
  have hc := hm.commitInstance_other hr hD false
  simp only [Manager.HandleCommit]
  split <;> exact hc

theorem DecidedIn.HandlePrepare (hm : m.DecidedIn D) (request : PrepareRequest) :
    (m.HandlePrepare request).1.DecidedIn D ∧
      ∀ reply, (m.HandlePrepare request).2 = .ok reply →
        (Message.prepareResponse reply).DecidedIn D := by
  simp only [Manager.HandlePrepare]
  split
  · exact ⟨hm, fun _ h => Except.ok.inj h ▸ decidedIn_prepareResponse.mpr fun _ h => by cases h⟩
  · rename_i i hi
    -- the stored instance, its ballot raised or not, goes back and a copy is the reply
    have hi' : (if decide (request.Ballot > i.MaxBallot) = true then (i.updateBallot request.Ballot).1
        else i).DecidedIn D := by
      split
      · exact (hm.getInstance hi).updateBallot _
      · exact hm.getInstance hi
    refine ⟨hm.putInstance hi', fun _ h => Except.ok.inj h ▸ ?_⟩
    exact decidedIn_prepareResponse.mpr fun j hj => (Option.mem_some_iff.mp hj) ▸ hi'.copy

theorem DecidedIn.HandleMessage (hm : m.DecidedIn D) {msg : Message} (hmsg : msg.DecidedIn D) :
    (m.HandleMessage msg).1.DecidedIn D ∧
      ∀ reply, (m.HandleMessage msg).2 = .ok reply → reply.DecidedIn D := by
  cases msg with
  | preAcceptRequest r =>
    obtain ⟨h1, h2⟩ := hm.HandlePreAccept (decidedIn_preAcceptRequest.mp hmsg)
    refine ⟨h1, fun reply h => ?_⟩
    obtain ⟨a, ha, rfl⟩ := Except.map_eq_ok_inv h
    exact h2 a ha
  | acceptRequest r =>
    obtain ⟨hr, hmiss⟩ := decidedIn_acceptRequest.mp hmsg
    refine ⟨hm.HandleAccept hr hmiss, fun reply h => ?_⟩
    obtain ⟨a, -, rfl⟩ := Except.map_eq_ok_inv h
    exact decidedIn_acceptResponse
  | commitRequest r =>
    obtain ⟨hr, hD⟩ := decidedIn_commitRequest.mp hmsg
    refine ⟨hm.HandleCommit hr hD, fun reply h => ?_⟩
    obtain ⟨a, -, rfl⟩ := Except.map_eq_ok_inv h
    exact decidedIn_commitResponse
  | prepareRequest r =>
    obtain ⟨h1, h2⟩ := hm.HandlePrepare r
    refine ⟨h1, fun reply h => ?_⟩
    obtain ⟨a, ha, rfl⟩ := Except.map_eq_ok_inv h
    exact h2 a ha
  | prepareSuccessorRequest r =>
    refine ⟨hm, fun reply h => ?_⟩
    obtain rfl := Except.ok.inj h
    exact decidedIn_prepareSuccessorResponse.mpr (hm.getInstance_copy r.InstanceID)
  | preAcceptResponse r | acceptResponse r | commitResponse r | prepareResponse r
  | prepareSuccessorResponse r => exact ⟨hm, fun _ h => by cases h⟩

theorem DecidedIn.answer (hm : m.DecidedIn D) {e : Envelope} (he : e.msg.DecidedIn D) :
    (m.answer e).1.DecidedIn D ∧ ∀ env ∈ (m.answer e).2, env.msg.DecidedIn D := by
  obtain ⟨h1, h2⟩ := hm.HandleMessage he
  refine ⟨(answer_fst m e).symm ▸ h1, fun env henv => ?_⟩
  unfold Manager.answer at henv
  dsimp only at henv
  split at henv
  · cases henv
  · rename_i reply hr _
    rw [List.mem_singleton.mp henv]
    exact h2 reply hr
  · cases henv

/-! ### Executing -/

theorem DecidedIn.recordSCC (hm : m.DecidedIn D) (scc : List InstanceID) (iid : InstanceID) :
    (m.recordSCC scc iid).DecidedIn D := by
  unfold Manager.recordSCC
  split
  · rename_i i hi
    exact hm.putInstance (i := { i with StronglyConnected := ListSet.ofList scc })
      (hm.getInstance hi : i.DecidedIn D)
  · exact hm

theorem DecidedIn.getExecutionOrder (hm : m.DecidedIn D) (uuidTime : UUID → Int)
    (target : Instance) : (m.getExecutionOrder uuidTime target).1.DecidedIn D := by
  simp only [Manager.getExecutionOrder]
  split
  · exact hm
  · -- each component is recorded on its members, one `recordSCC` after the other
    split <;>
    · refine foldl_invariant (fun r : Manager × List InstanceID => r.1.DecidedIn D) _ _
        (fun r scc _ hr => ?_) _ hm
      simp only
      split
      · exact foldl_invariant (fun m' : Manager => m'.DecidedIn D) _ _
          (fun m' iid _ hm' => hm'.recordSCC scc iid) _ hr
      · exact hr

/-- `applyInstance` marks a committed instance executed: it stays decided, with
its attributes. -/
theorem DecidedIn.applyInstance (hm : m.DecidedIn D) (iid : InstanceID) :
    (m.applyInstance iid).1.DecidedIn D := by
  simp only [Manager.applyInstance]
  split
  · exact hm
  · rename_i i hi
    split
    · exact hm
    · split
      · exact hm
      · rename_i hc
        -- a committed instance: decided, so its attributes are allowed
        have hdec : D i.InstanceID i.attributes := hm.getInstance hi
          (show INSTANCE_COMMITTED ≤ i.Status by rw [not_not.mp hc]; exact UInt8.le_refl _)
        generalize hr : (if (!i.Noop) = true then _ else (m, Except.ok none)) = r
        have hr1 : r.1.DecidedIn D := by
          rw [← hr]
          split
          · exact hm.of_eq rfl rfl
          · exact hm
        have hput := hr1.putInstance (i := { i with Status := INSTANCE_EXECUTED }) fun _ => hdec
        split
        · exact hr1
        · split <;>
          · rename_i hd
            rw [← fst_eq_of_eq hd]
            refine DecidedIn.withDeps ?_ _ _
            exact hput.of_eq rfl rfl

theorem DecidedIn.executeDependencyChain (target : InstanceID) :
    ∀ (order : List InstanceID) {m : Manager}, m.DecidedIn D →
      (m.executeDependencyChain target order).1.DecidedIn D
  | [], _, hm => hm
  | iid :: rest, m, hm => by
    unfold Manager.executeDependencyChain
    split
    · exact hm
    · split
      · split
        · rename_i hd
          exact fst_eq_of_eq hd ▸ hm.applyInstance iid
        · rename_i m' _ hd
          have h' : m'.DecidedIn D := fst_eq_of_eq hd ▸ hm.applyInstance iid
          split
          · exact h'
          · exact DecidedIn.executeDependencyChain target rest h'
      · split
        · exact DecidedIn.executeDependencyChain target rest hm
        · exact hm

theorem DecidedIn.executeInstancePass (hm : m.DecidedIn D) (uuidTime : UUID → Int)
    (iid : InstanceID) : (m.executeInstancePass uuidTime iid).1.DecidedIn D := by
  simp only [Manager.executeInstancePass]
  split
  · exact hm
  · rename_i target _
    have hord := hm.getExecutionOrder uuidTime target
    split
    · rename_i hd
      exact fst_eq_of_eq hd ▸ hord
    · rename_i m' exOrder _ hd
      have h' : m'.DecidedIn D := fst_eq_of_eq hd ▸ hord
      split
      · split <;>
        · rename_i hd'
          exact fst_eq_of_eq hd' ▸ DecidedIn.executeDependencyChain iid exOrder h'
      · exact h'

theorem DecidedIn.localSrc (hm : m.DecidedIn D) {iid : InstanceID} {src : Src}
    (h : m.localSrc iid = some src) : src.inst.DecidedIn D := by
  obtain ⟨i, hi, rfl⟩ := Option.map_eq_some_iff.mp h
  exact hm.getInstance hi

/-- After a commit, the instance is decided: committed, or executed already,
which is why the commit refused it. -/
theorem commitInstance_decided (src : Src) (incr : Bool) {i : Instance}
    (hi : (m.commitInstance src incr).1.getInstance src.inst.InstanceID = some i) : i.Decided := by
  have hget := getOrSetInstance_getInstance m src.inst
  obtain ⟨h1, h2⟩ := getOrSetSrc_fst m src
  simp only [Manager.commitInstance] at hi
  split at hi
  · rename_i e h
    rw [h1, hget] at hi
    cases hi
    rw [← h2]
    exact UInt8.le_of_lt (advanceTo_eq_error h).1
  · rename_i i' h
    obtain ⟨-, hs, hid, -⟩ := advanceTo_eq_ok h
    have hid' : i'.InstanceID = src.inst.InstanceID := by rw [hid, h2, getOrSetInstance_id]
    simp only [Manager.ReportAcknowledged] at hi
    rw [getInstance_of_instances (withDeps_instances _ _ _)] at hi
    change ((m.getOrSetSrc src).1.putInstance i').getInstance src.inst.InstanceID = some i at hi
    rw [getInstance_putInstance, if_pos hid', h1, hget] at hi
    cases hi
    unfold Instance.Decided
    rw [hs]
    exact UInt8.le_refl _

end Manager

/-! ### The phases -/

/-- What a step of a leader's process `p` does: it decides at most its own
instance, it stays a leader, and past its waits it decides nothing and does not
wait again. -/
structure LeaderStep (D : Consensus.InstanceID → Attributes → Prop) (p : Proc) (e : Effect) :
    Prop where
  decides : e.Decides D p.iid
  leads : e.next.leads = true
  settled : p.state.waiting = false → e.DecidedIn D ∧ e.next.waiting = false

theorem Effect.DecidedIn.mono {D' : Consensus.InstanceID → Attributes → Prop} {e : Effect}
    (h : e.DecidedIn D) (hD : ∀ j a, D j a → D' j a) : e.DecidedIn D' :=
  ⟨h.1.mono hD, fun env henv => (h.2 env henv).mono hD⟩

/-- A step from one of the waits has only to decide at most its instance and
stay a leader. -/
theorem LeaderStep.of_waiting {p : Proc} {e : Effect} (hw : p.state.waiting = true)
    (hd : e.Decides D p.iid) (hl : e.next.leads = true) : LeaderStep D p e :=
  ⟨hd, hl, fun h => by rw [hw] at h; cases h⟩

section Phases
variable (tag : Tag) {m : Manager}

/-- An effect that changes nothing and sends nothing. -/
theorem decidedIn_idle (hm : m.DecidedIn D) (next : ProcState) : (⟨m, [], next⟩ : Effect).DecidedIn D :=
  ⟨hm, fun _ h => (List.not_mem_nil h).elim⟩

/-- The start of a phase sends copies of the instance its local step left. -/
theorem beginPhase_decidedIn {op : Manager → Src → Bool → Manager × Except Error Unit} {src : Src}
    (h1 : (op m src true).1.DecidedIn D) (request : Instance → Message)
    (hreq : ∀ i, (op m src true).1.getInstance src.inst.InstanceID = some i →
      (request i.Copy).DecidedIn D) :
    (beginPhase tag op request m src).1.DecidedIn D ∧
      ∀ env ∈ (beginPhase tag op request m src).2.1, env.msg.DecidedIn D := by
  unfold beginPhase
  dsimp only
  split
  · exact ⟨h1, fun _ h => by cases h⟩
  · split
    · rename_i i hi
      exact ⟨h1, fun env henv => mem_sendAll tag henv ▸ hreq i hi⟩
    · exact ⟨h1, fun _ h => by cases h⟩

/-- The commit phase of the stored instance decides its attributes, and its
requests ask for them. -/
theorem enterCommit_decidedIn (mode : Mode) (hm : m.DecidedIn D) {li : Instance}
    (hli : m.getInstance li.InstanceID = some li) :
    (enterCommit tag mode m (.local li)).DecidedIn (withDecision D li.InstanceID li.attributes) := by
  have hc := hm.commitInstance_local hli true
  refine beginPhase_decidedIn tag hc _ fun i hi => ?_
  have hd : i.Decided := commitInstance_decided (.local li) true hi
  have hci := hc.getInstance hi
  exact decidedIn_commitRequest.mpr ⟨hci.copy, hci hd⟩

theorem enterCommit_decides (mode : Mode) (hm : m.DecidedIn D) {iid : InstanceID} {src : Src}
    (hsrc : m.localSrc iid = some src) : (enterCommit tag mode m src).Decides D iid := by
  obtain ⟨li, hli, rfl⟩ := Option.map_eq_some_iff.mp hsrc
  have hid : li.InstanceID = iid := getInstance_id hli
  have h := enterCommit_decidedIn tag mode hm (hid.symm ▸ hli : m.getInstance li.InstanceID = some li)
  rw [hid] at h
  -- a leader goes on to execute, a prepare is over
  exact Or.inr ⟨li.attributes, h, by cases mode <;> rfl⟩

theorem enterAccept_decidedIn (mode : Mode) (hm : m.DecidedIn D) {src : Src}
    (hs : src.inst.DecidedIn D) :
    (enterAccept tag mode m src).DecidedIn D ∧ (enterAccept tag mode m src).next = .accepting mode := by
  have ha := hm.acceptInstance src hs true
  have hb := beginPhase_decidedIn tag ha (fun c => .acceptRequest ⟨c, []⟩) fun i hi =>
    decidedIn_acceptRequest.mpr ⟨(ha.getInstance hi).copy, fun _ h => by cases h⟩
  -- the local step never fails, so the phase goes on to its wait
  obtain ⟨sent, h⟩ := beginPhase_eq tag _ (fun c => .acceptRequest ⟨c, []⟩)
    (acceptInstance_result m src true)
  unfold enterAccept beginAcceptPhase
  rw [h] at hb ⊢
  exact ⟨hb, rfl⟩

theorem enterPreAccept_decidedIn (mode : Mode) (hm : m.DecidedIn D) {src : Src}
    (hs : src.inst.DecidedIn D) :
    (enterPreAccept tag mode m src).DecidedIn D ∧
      (enterPreAccept tag mode m src).next = .preAccepting mode := by
  have ha := hm.preAcceptInstance src hs true
  have hb := beginPhase_decidedIn tag ha (fun c => .preAcceptRequest ⟨c⟩) fun i hi =>
    decidedIn_preAcceptRequest.mpr (ha.getInstance hi).copy
  obtain ⟨sent, h⟩ := beginPhase_eq tag _ (fun c => .preAcceptRequest ⟨c⟩)
    (preAcceptInstance_result m src true)
  unfold enterPreAccept beginPreAcceptPhase
  rw [h] at hb ⊢
  exact ⟨hb, rfl⟩

theorem afterAccept_decides (mode : Mode) (hm : m.DecidedIn D) (iid : InstanceID)
    (result : Except Error Unit) : (afterAccept tag mode m iid result).Decides D iid := by
  unfold afterAccept
  split
  · exact Or.inl (decidedIn_idle hm _)
  · exact enterCommit_decides tag _ hm ‹_›
  · exact Or.inl (decidedIn_idle hm _)

theorem afterPreAccept_decides (mode : Mode) (hm : m.DecidedIn D) (iid : InstanceID)
    (acceptRequired : Bool) (result : Except Error Unit) :
    (afterPreAccept tag mode m iid acceptRequired result).Decides D iid := by
  unfold afterPreAccept
  split
  · exact Or.inl (decidedIn_idle hm _)
  · split
    · exact Or.inl (enterAccept_decidedIn tag _ hm (hm.localSrc ‹_›)).1
    · exact enterCommit_decides tag _ hm ‹_›
  · exact Or.inl (decidedIn_idle hm _)

/-- After an accept phase a leader commits and executes, or is over. -/
theorem afterAccept_leads (m : Manager) (iid : InstanceID) (result : Except Error Unit) :
    (afterAccept tag .leader m iid result).next.leads = true := by
  unfold afterAccept
  split <;> rfl

theorem afterPreAccept_leads (m : Manager) (iid : InstanceID) (acceptRequired : Bool)
    (result : Except Error Unit) :
    (afterPreAccept tag .leader m iid acceptRequired result).next.leads = true := by
  unfold afterPreAccept
  split
  · rfl
  · split
    · rw [(enterAccept_eq tag .leader m _).2]
      rfl
    · rfl
  · rfl

/-- A leader's replies bring missing instances, which it stores. -/
theorem addMissingFromResponses_decidedIn (hm : m.DecidedIn D) {responses : List PreAcceptResponse}
    (h : ∀ r ∈ responses, ∀ i ∈ r.MissingInstances, i.DecidedIn D) :
    (addMissingFromResponses m responses).1.DecidedIn D := by
  induction responses generalizing m with
  | nil => exact hm
  | cons r rs ih =>
    have hrest : ∀ r' ∈ rs, ∀ i ∈ r'.MissingInstances, i.DecidedIn D :=
      fun r' hr' => h r' (List.mem_cons_of_mem r hr')
    have hadd := hm.addMissingInstancesUnsafe (h r List.mem_cons_self)
    unfold addMissingFromResponses
    repeat' split
    all_goals
      first
      | exact ih hm hrest
      | (rename_i hd; exact fst_eq_of_eq hd ▸ hadd)
      | (rename_i hd; exact ih (fst_eq_of_eq hd ▸ hadd) hrest)

theorem preAcceptResult_decidedIn (hm : m.DecidedIn D) (iid : InstanceID)
    {responses : List PreAcceptResponse} (h : ∀ r ∈ responses, ∀ i ∈ r.MissingInstances, i.DecidedIn D) :
    (preAcceptResult m iid responses).1.DecidedIn D := by
  have hadd := addMissingFromResponses_decidedIn hm h
  unfold preAcceptResult
  repeat' split
  all_goals
    first
    | exact hm.updateInstanceBallotFromResponses iid _
    | (rename_i hd; exact fst_eq_of_eq hd ▸ hadd)
    | (rename_i hd; exact (fst_eq_of_eq hd ▸ hadd).mergePreAcceptAttributes iid responses false)

theorem acceptResult_decidedIn (hm : m.DecidedIn D) (iid : InstanceID)
    (responses : List AcceptResponse) : (acceptResult m iid responses).1.DecidedIn D := by
  unfold acceptResult
  split
  · exact hm.updateInstanceBallotFromResponses iid _
  · exact hm

theorem ProcState.leads_preAccepting {mode : Mode} (h : (ProcState.preAccepting mode).leads = true) :
    mode = .leader := by
  cases mode
  · rfl
  · cases h

theorem ProcState.leads_accepting {mode : Mode} (h : (ProcState.accepting mode).leads = true) :
    mode = .leader := by
  cases mode
  · rfl
  · cases h

/-- A leader takes replies whose copies `D` allows. -/
theorem receive_leaderStep (hm : m.DecidedIn D) {p : Proc} {msgs : List Message} {e : Effect}
    (hp : p.state.leads = true) (hmsgs : ∀ msg ∈ msgs, msg.DecidedIn D)
    (h : receive tag m p msgs = some e) : LeaderStep D p e := by
  unfold receive at h
  dsimp only at h
  split at h
  · cases h
  · split at h
    · rename_i mode hst
      rw [hst] at hp
      obtain rfl := ProcState.leads_preAccepting hp
      split at h
      · cases h
        refine .of_waiting (by rw [hst]; rfl)
          (afterPreAccept_decides tag _ (preAcceptResult_decidedIn hm _ fun r hr => ?_) _ _ _)
          (afterPreAccept_leads tag _ _ _ _)
        obtain ⟨msg, hmsg, hr⟩ := List.mem_filterMap.mp hr
        have hc := Message.eq_of_asPreAcceptResponse hr ▸ hmsgs msg hmsg
        exact (decidedIn_preAcceptResponse.mp hc).2
      · cases h
    · rename_i mode hst
      rw [hst] at hp
      obtain rfl := ProcState.leads_accepting hp
      split at h
      · cases h
        exact .of_waiting (by rw [hst]; rfl) (afterAccept_decides tag _ (acceptResult_decidedIn hm _ _) _ _)
          (afterAccept_leads tag _ _ _)
      · cases h
    all_goals first | (rename_i hst; rw [hst] at hp; cases hp) | cases h

theorem timeout_leaderStep (hm : m.DecidedIn D) {p : Proc} {e : Effect}
    (hp : p.state.leads = true) (h : timeout tag m p = some e) : LeaderStep D p e := by
  unfold timeout at h
  split at h
  · rename_i mode hst
    rw [hst] at hp
    obtain rfl := ProcState.leads_preAccepting hp
    cases h
    exact .of_waiting (by rw [hst]; rfl) (afterPreAccept_decides tag _ hm _ _ _)
      (afterPreAccept_leads tag _ _ _ _)
  · rename_i mode hst
    rw [hst] at hp
    obtain rfl := ProcState.leads_accepting hp
    cases h
    exact .of_waiting (by rw [hst]; rfl) (afterAccept_decides tag _ hm _ _) (afterAccept_leads tag _ _ _)
  all_goals first | (rename_i hst; rw [hst] at hp; cases hp) | cases h

end Phases

/-- An effect that changes nothing, sends nothing and leaves the waits for good. -/
theorem leaderStep_idle {m : Manager} (hm : m.DecidedIn D) {p : Proc} {next : ProcState}
    (hl : next.leads = true) (hw : next.waiting = false) : LeaderStep D p ⟨m, [], next⟩ :=
  ⟨Or.inl (decidedIn_idle hm _), hl, fun _ => ⟨decidedIn_idle hm _, hw⟩⟩

/-- Seeing the commit event ends a wait on successors, and changes nothing. -/
theorem wake_leaderStep {m : Manager} (hm : m.DecidedIn D) {p : Proc} {e : Effect}
    (h : wake m p = some e) : LeaderStep D p e := by
  have he : e = ⟨m, [], .done⟩ := by
    unfold wake at h
    repeat' split at h
    all_goals first | exact (Option.some.inj h).symm | cases h
  subst he
  exact leaderStep_idle hm rfl rfl

theorem execute_leaderStep (uuidTime : UUID → Int) {m : Manager} (hm : m.DecidedIn D) {p : Proc}
    {e : Effect} (h : execute uuidTime m p = some e) : LeaderStep D p e := by
  have hx := hm.executeInstancePass uuidTime p.iid
  unfold execute at h
  split at h
  · split at h <;>
    · cases h
      rename_i hd
      exact leaderStep_idle (fst_eq_of_eq hd ▸ hx) rfl rfl
  · cases h

/-! ### The world -/

namespace World
variable {w : World}

theorem DecidedIn.mono {D' : Consensus.InstanceID → Attributes → Prop} (hw : w.DecidedIn D)
    (hD : ∀ j a, D j a → D' j a) : w.DecidedIn D' :=
  ⟨fun m hm => (hw.1 m hm).mono hD, fun e he => (hw.2 e he).mono hD⟩

theorem DecidedIn.manager (hw : w.DecidedIn D) {n : NodeId} {m : Manager}
    (h : w.manager n = some m) : m.DecidedIn D :=
  hw.1 m (lookup_eq_some h).1

theorem DecidedIn.setManager (hw : w.DecidedIn D) {m : Manager} (hm : m.DecidedIn D) :
    ∀ m' ∈ (w.setManager m).managers, m'.DecidedIn D := fun m' h =>
  (mem_replace h).elim (fun h => h ▸ hm) (hw.1 m')

theorem DecidedIn.advance (hw : w.DecidedIn D) {pid : Nat} {p : Proc} {network : List Envelope}
    {e : Effect} (hnet : ∀ env ∈ network, env ∈ w.network) (he : e.DecidedIn D) :
    (w.advance pid p network e).DecidedIn D :=
  ⟨hw.setManager he.1, List.forall_mem_append.mpr ⟨fun env h => hw.2 env (hnet env h), he.2⟩⟩

theorem DecidedIn.spawn (hw : w.DecidedIn D) {p : Proc} {e : Effect} (he : e.DecidedIn D) :
    (w.spawn p e).DecidedIn D :=
  ⟨hw.setManager he.1, List.forall_mem_append.mpr ⟨hw.2, he.2⟩⟩

end World

/-! ### Runs without recovery -/

section Processes
variable {α : Type} {l : List α} {pid : Nat} {p x : α}

theorem set_self_of_getElem? (h : l[pid]? = some p) : l.set pid p = l := by
  obtain ⟨hi, rfl⟩ := List.getElem?_eq_some_iff.mp h
  exact List.set_getElem_self hi

theorem mem_set_self (h : l[pid]? = some p) : x ∈ l.set pid x := by
  obtain ⟨hi, -⟩ := List.getElem?_eq_some_iff.mp h
  exact List.mem_iff_getElem.mpr ⟨pid, by simpa using hi, List.getElem_set_self _⟩

/-- An element other than the one replaced is still there. -/
theorem mem_set_of_ne (h : l[pid]? = some p) {q : α} (hq : q ∈ l) (hqp : q ≠ p) :
    q ∈ l.set pid x := by
  obtain ⟨k, hk, rfl⟩ := List.getElem_of_mem hq
  have hne : pid ≠ k := fun hk' => by
    subst hk'
    exact hqp (Option.some.inj ((List.getElem?_eq_getElem hk).symm.trans h))
  exact List.mem_iff_getElem.mpr ⟨k, by simpa using hk, List.getElem_set_ne hne _⟩

end Processes

/-- A world of a run without recovery: every process leads its instance, no two
processes run the same instance, and `dec` holds a decision for instances whose
leader has left its waits, which every decided copy in the world carries. -/
structure World.Settled (w : World) (dec : InstanceID → Option Attributes) : Prop where
  leads : ∀ p ∈ w.procs, p.state.leads = true
  ids : (w.procs.map (·.iid)).Nodup
  decided : w.DecidedIn fun iid a => dec iid = some a
  decider : ∀ iid a, dec iid = some a → ∃ p ∈ w.procs, p.iid = iid ∧ p.state.waiting = false

namespace World.Settled
variable {w : World} {dec : InstanceID → Option Attributes}

/-- An instance whose leader still waits is undecided. -/
theorem undecided (hw : w.Settled dec) {p : Proc} (hp : p ∈ w.procs)
    (hwait : p.state.waiting = true) : dec p.iid = none := by
  cases h : dec p.iid with
  | none => rfl
  | some a =>
    obtain ⟨q, hq, hid, hqw⟩ := hw.decider _ _ h
    obtain rfl : q = p := List.inj_on_of_nodup_map hw.ids hq hp hid
    rw [hwait] at hqw
    cases hqw

/-- A step of a leader's process keeps the world settled, with the decisions
extended by the one it makes. -/
theorem procStep (hw : w.Settled dec) {pid : Nat} {network : List Envelope}
    {f : Manager → Proc → Option Effect} (hnet : ∀ env ∈ network, env ∈ w.network)
    (hf : ∀ p m e, m.DecidedIn (fun iid a => dec iid = some a) → p.state.leads = true →
      f m p = some e → LeaderStep (fun iid a => dec iid = some a) p e)
    {w' : World} (h : procStep w pid network f = some w') :
    ∃ dec', w'.Settled dec' ∧ ∀ iid a, dec iid = some a → dec' iid = some a := by
  simp only [Consensus.procStep, bind, Option.bind_eq_some_iff, Option.some.injEq] at h
  obtain ⟨p, hp, m, hm, e, he, rfl⟩ := h
  have hpm : p ∈ w.procs := List.mem_of_getElem? hp
  have hstep := hf p m e (hw.decided.manager hm) (hw.leads p hpm) he
  -- the processes after the step: `p` moved on to `p'`, the others as they were
  obtain ⟨p', hiid, hnext, hprocs⟩ : ∃ p' : Proc, p'.iid = p.iid ∧ p'.state = e.next ∧
      (w.advance pid p network e).procs = w.procs.set pid p' :=
    ⟨{ p with round := p.round + 1, state := e.next }, rfl, rfl, rfl⟩
  have hp' : p' ∈ w.procs.set pid p' := mem_set_self hp
  have hids : ((w.procs.set pid p').map (·.iid)).Nodup := by
    rw [List.map_set, hiid, set_self_of_getElem? (by rw [List.getElem?_map, hp]; rfl)]
    exact hw.ids
  have hleads : ∀ q ∈ w.procs.set pid p', q.state.leads = true := fun q hq =>
    (List.mem_or_eq_of_mem_set hq).elim (hw.leads q) fun h => h ▸ hnext ▸ hstep.leads
  -- the decisions made so far keep a leader past its waits
  have hstay : ∀ j a, dec j = some a →
      ∃ q ∈ w.procs.set pid p', q.iid = j ∧ q.state.waiting = false := by
    intro j a hj
    obtain ⟨q, hq, hid, hqw⟩ := hw.decider j a hj
    by_cases hqp : q = p
    · subst hqp
      exact ⟨p', hp', hiid.trans hid, hnext ▸ (hstep.settled hqw).2⟩
    · exact ⟨q, mem_set_of_ne hp hq hqp, hid, hqw⟩
  have hkeep : e.DecidedIn (fun iid a => dec iid = some a) →
      ∃ dec', (w.advance pid p network e).Settled dec' ∧ ∀ iid a, dec iid = some a → dec' iid = some a :=
    fun hd => ⟨dec, ⟨hprocs ▸ hleads, hprocs ▸ hids, hw.decided.advance hnet hd, hprocs ▸ hstay⟩,
      fun _ _ h => h⟩
  rcases hstep.decides with hd | ⟨x, hd, hwait⟩
  · exact hkeep hd
  · cases hpw : p.state.waiting
    · exact hkeep (hstep.settled hpw).1
    · -- `p` was waiting, so its instance was undecided: its decision is new
      have hnone := hw.undecided hpm hpw
      have hext : ∀ j a, dec j = some a → Function.update dec p.iid (some x) j = some a := by
        intro j a hj
        have hne : j ≠ p.iid := fun h => by rw [h, hnone] at hj; cases hj
        rw [Function.update_of_ne hne]
        exact hj
      have hnew : ∀ j b, withDecision (fun iid a => dec iid = some a) p.iid x j b →
          Function.update dec p.iid (some x) j = some b := by
        rintro j b (h | ⟨rfl, rfl⟩)
        · exact hext j b h
        · exact Function.update_self _ _ _
      refine ⟨Function.update dec p.iid (some x), ⟨hprocs ▸ hleads, hprocs ▸ hids,
        (hw.decided.mono hext).advance hnet (hd.mono hnew), ?_⟩, hext⟩
      intro j a hj
      rw [hprocs]
      by_cases hjp : j = p.iid
      · exact ⟨p', hp', hiid.trans hjp.symm, hnext ▸ hwait⟩
      · rw [Function.update_of_ne hjp] at hj
        exact hstay j a hj

end World.Settled

section Runs
variable (uuidTime : UUID → Int)

/-- A world with nothing in it, and no decision. -/
theorem settled_init (nodes : List NodeId) (topology : String → List NodeId) :
    (World.init nodes topology).Settled fun _ => none := by
  refine ⟨fun _ h => (List.not_mem_nil h).elim, List.nodup_nil, ⟨fun m hm => ?_,
    fun _ h => (List.not_mem_nil h).elim⟩, fun _ _ h => by cases h⟩
  obtain ⟨n, -, rfl⟩ := List.mem_map.mp hm
  exact ⟨fun _ h => (List.not_mem_nil h).elim, fun _ h => (List.not_mem_nil h).elim⟩

/-- Every step but a recovery keeps the world settled, extending the decisions. -/
theorem step_settled {w w' : World} {a : Action} {dec : InstanceID → Option Attributes}
    (hw : w.Settled dec) (hnp : ∀ n iid, a ≠ .prepare n iid) (h : step uuidTime w a = some w') :
    ∃ dec', w'.Settled dec' ∧ ∀ iid x, dec iid = some x → dec' iid = some x := by
  cases a with
  | query n iid instruction successors =>
    simp only [step, bind, Option.bind_eq_some_iff, Option.some.injEq] at h
    obtain ⟨m, hm, u, hg, rfl⟩ := h
    have hfresh : w.fresh iid = true := by
      simp only [Bool.and_eq_true] at hg
      exact (by simpa using hg : _ ∧ _).1
    simp only [World.fresh, Bool.and_eq_true, List.all_eq_true, bne_iff_ne] at hfresh
    -- the new leader preaccepts an instance that no process runs, and waits
    have hs : (Src.other (m.makeInstance iid instruction successors)).inst.DecidedIn
        fun iid a => dec iid = some a :=
      decidedIn_of_lt (show (0 : InstanceStatus) < INSTANCE_COMMITTED by decide)
    obtain ⟨he, hnext⟩ := enterPreAccept_decidedIn ⟨w.procs.length, 1⟩ .leader
      (hw.decided.manager hm) hs
    refine ⟨dec, ⟨fun q hq => ?_, ?_, hw.decided.spawn he, fun j x hj => ?_⟩, fun _ _ h => h⟩
    · exact List.forall_mem_append.mpr ⟨hw.leads, List.forall_mem_singleton.mpr (hnext ▸ rfl)⟩ q hq
    · show ((w.procs ++ [_]).map Proc.iid).Nodup
      rw [List.map_append, List.nodup_append]
      exact ⟨hw.ids, List.nodup_singleton _, by simpa using fun q hq => hfresh.2 q hq⟩
    · obtain ⟨q, hq, hid, hqw⟩ := hw.decider j x hj
      exact ⟨q, List.mem_append_left _ hq, hid, hqw⟩
  | prepare n iid => exact absurd rfl (hnp n iid)
  | deliver k =>
    simp only [step, bind, Option.bind_eq_some_iff, Option.some.injEq] at h
    obtain ⟨e, he, m, hm, rfl⟩ := h
    obtain ⟨h1, h2⟩ := (hw.decided.manager hm).answer (hw.decided.2 e (List.mem_of_getElem? he))
    refine ⟨dec, ⟨hw.leads, hw.ids, ⟨hw.decided.setManager h1, fun env henv => ?_⟩, hw.decider⟩,
      fun _ _ h => h⟩
    exact List.forall_mem_append.mpr
      ⟨fun env henv => hw.decided.2 env (List.mem_of_mem_eraseIdx henv), h2⟩ env henv
  | drop k =>
    simp only [step] at h
    split at h
    · cases h
      exact ⟨dec, ⟨hw.leads, hw.ids,
        ⟨hw.decided.1, fun env henv => hw.decided.2 env (List.mem_of_mem_eraseIdx henv)⟩,
        hw.decider⟩, fun _ _ h => h⟩
    · cases h
  | receive pid ks =>
    simp only [step, bind, Option.bind_eq_some_iff] at h
    obtain ⟨p, -, ⟨chosen, rest⟩, htake, -, -, h⟩ := h
    refine hw.procStep (fun env h => takeAt_rest_mem htake h) (fun p' m e hm hp he => ?_) h
    refine receive_leaderStep _ hm hp (fun msg hmsg => ?_) he
    obtain ⟨env, henv, rfl⟩ := List.mem_map.mp hmsg
    exact hw.decided.2 env (takeAt_mem htake henv)
  | timeout pid =>
    exact hw.procStep (fun _ h => h) (fun p m e hm hp he => timeout_leaderStep _ hm hp he) h
  | wake pid =>
    exact hw.procStep (fun _ h => h) (fun p m e hm _ he => wake_leaderStep hm he) h
  | execute pid =>
    exact hw.procStep (fun _ h => h) (fun p m e hm _ he => execute_leaderStep uuidTime hm he) h

theorem run_settled {w w' : World} {acts : List Action} {dec : InstanceID → Option Attributes}
    (hw : w.Settled dec) (hnp : ∀ n iid, Action.prepare n iid ∉ acts)
    (h : run uuidTime w acts = some w') :
    ∃ dec', w'.Settled dec' ∧ ∀ iid x, dec iid = some x → dec' iid = some x := by
  induction acts generalizing w dec with
  | nil =>
    cases h
    exact ⟨dec, hw, fun _ _ h => h⟩
  | cons a as ih =>
    obtain ⟨w₁, h₁, h₂⟩ := Option.bind_eq_some_iff.mp h
    obtain ⟨dec₁, hw₁, hext₁⟩ := step_settled uuidTime hw
      (fun n iid ha => hnp n iid (ha ▸ List.mem_cons_self)) h₁
    obtain ⟨dec₂, hw₂, hext₂⟩ := ih hw₁ (fun n iid ha => hnp n iid (List.mem_cons_of_mem a ha)) h₂
    exact ⟨dec₂, hw₂, fun iid x hx => hext₂ iid x (hext₁ iid x hx)⟩

end Runs

/-- A commit event carries the decision of its instance. -/
theorem World.DecidedIn.commitEvents {w : World} {dec : InstanceID → Option Attributes}
    (hw : w.DecidedIn fun iid a => dec iid = some a) {n : NodeId} {iid : InstanceID} {a : Attributes}
    (ha : a ∈ w.commitEvents n iid) : dec iid = some a := by
  unfold World.commitEvents at ha
  cases hm : w.manager n with
  | none =>
    rw [hm] at ha
    cases ha
  | some m =>
    rw [hm, Option.map_some, Option.getD_some] at ha
    obtain ⟨c, hc, rfl⟩ := List.mem_map.mp ha
    obtain ⟨hc, hid⟩ := List.mem_filter.mp hc
    have hlog := (hw.manager hm).commitLog c hc
    rw [beq_iff_eq.mp hid] at hlog
    exact hlog

section Runs
variable (uuidTime : UUID → Int)

/-- From the initial world, over every run without recovery, an instance a
replica holds as committed or executed stays so, with its dependencies and noop
flag, at every later point of the run. -/
theorem decided_attributes_final {nodes : List NodeId} {topology : String → List NodeId}
    {acts acts' : List Action} {w₁ w₂ : World}
    (h₁ : run uuidTime (World.init nodes topology) acts = some w₁) (h₂ : run uuidTime w₁ acts' = some w₂)
    (hnp : ∀ n iid, Action.prepare n iid ∉ acts ++ acts') {n : NodeId} {m₁ : Manager}
    {iid : InstanceID} {i₁ : Instance} (hm₁ : w₁.manager n = some m₁) (hi₁ : m₁.getInstance iid = some i₁)
    (hd : i₁.Decided) :
    ∃ m₂ i₂, w₂.manager n = some m₂ ∧ m₂.getInstance iid = some i₂ ∧ i₂.Decided ∧
      i₂.attributes = i₁.attributes := by
  obtain ⟨dec₁, hw₁, -⟩ := run_settled uuidTime (settled_init nodes topology)
    (fun n iid h => hnp n iid (List.mem_append_left _ h)) h₁
  obtain ⟨dec₂, hw₂, hext⟩ := run_settled uuidTime hw₁
    (fun n iid h => hnp n iid (List.mem_append_right _ h)) h₂
  -- the instance stays at the replica, no less advanced
  obtain ⟨m₂, hm₂, hadv⟩ := run_advances uuidTime h₂ n m₁ hm₁
  obtain ⟨i₂, hi₂, hg⟩ := hadv.instances iid i₁ hi₁
  have hd₂ : i₂.Decided := UInt8.le_trans hd hg.1
  -- and both copies carry the decision of the instance, which the run kept
  have hdec₁ := (hw₁.decided.manager hm₁).getInstance hi₁ hd
  have hdec₂ := (hw₂.decided.manager hm₂).getInstance hi₂ hd₂
  rw [getInstance_id hi₁] at hdec₁
  rw [getInstance_id hi₂] at hdec₂
  exact ⟨m₂, i₂, hm₂, hi₂, hd₂, Option.some.inj (hdec₂.symm.trans (hext _ _ hdec₁))⟩


/-- `A` executed `iidX` on the fast path; its commit then reaches `B`, and `A`
still holds `iidX` with the attributes it executed it with. -/
theorem decided_attributes_final_fast_path :
    ∃ (w₁ w₂ : World) (m₁ : Manager) (i₁ : Instance),
      run (fun _ => 0) cluster queryFastPath = some w₁ ∧ run (fun _ => 0) w₁ [.deliver 1] = some w₂ ∧
      (∀ n iid, Action.prepare n iid ∉ queryFastPath ++ [.deliver 1]) ∧
      w₁.manager nodeA = some m₁ ∧ m₁.getInstance iidX = some i₁ ∧ i₁.Decided ∧
      ∃ m₂ i₂, w₂.manager nodeA = some m₂ ∧ m₂.getInstance iidX = some i₂ ∧ i₂.Decided ∧
        i₂.attributes = i₁.attributes := by
  obtain ⟨w₁, hw₁⟩ := Option.isSome_iff_exists.mp
    (show (run (fun _ => 0) cluster queryFastPath).isSome by decide +kernel)
  have h₂ : ((run (fun _ => 0) cluster queryFastPath).bind fun w => run (fun _ => 0) w [.deliver 1]).isSome := by
    decide +kernel
  have hA : (((run (fun _ => 0) cluster queryFastPath).bind (·.manager nodeA)).bind
      (·.getInstance iidX)).map (·.Status) = some INSTANCE_EXECUTED := by
    decide +kernel
  rw [hw₁, Option.bind_some] at h₂ hA
  obtain ⟨w₂, hw₂⟩ := Option.isSome_iff_exists.mp h₂
  obtain ⟨i₁, hi₁, hs⟩ := Option.map_eq_some_iff.mp hA
  obtain ⟨m₁, hm₁, hi₁⟩ := Option.bind_eq_some_iff.mp hi₁
  have hd : i₁.Decided := by
    unfold Instance.Decided
    rw [hs]
    decide
  have hnp : ∀ n iid, Action.prepare n iid ∉ queryFastPath ++ [.deliver 1] := by
    intro n iid h
    simp [queryFastPath, fastPath] at h
  exact ⟨w₁, w₂, m₁, i₁, hw₁, hw₂, hnp, hm₁, hi₁, hd,
    decided_attributes_final (fun _ => 0) hw₁ hw₂ hnp hm₁ hi₁ hd⟩

end Runs

end Decisions

end Kickboxer.Consensus
