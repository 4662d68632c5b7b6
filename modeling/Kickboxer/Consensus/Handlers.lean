import Kickboxer.Consensus.Manager

/-! A replica's message handlers (`HandlePreAccept`, `HandleAccept`,
`HandleCommit`, `HandlePrepare`, `HandlePrepareSuccessor`, `HandleMessage`),
and the manager's reading of prepare replies (`analyzePrepareResponses`,
`managerPrepareCheckResponses`).

Three handlers compare ballots before they act: a preaccept or an accept whose
ballot is not above the replica's is refused with the replica's ballot, and a
prepare is accepted only with a higher ballot, which the replica then adopts.
`HandleCommit` checks no ballot (its check is commented out in the source), so
any commit request reaches `commitInstance`. Each handler carries on past an
`InvalidStatusUpdateError`, as the source does (`ignoreInvalidStatus`). -/
namespace Kickboxer.Consensus
open Kickboxer.Types Library

/-- The source's `if _, ok := err.(InvalidStatusUpdateError); !ok { return err }`:
an invalid status update is not an error for the caller. -/
def ignoreInvalidStatus (r : Except Error Unit) : Except Error Unit :=
  match r with
  | .error e => if e.isInvalidStatusUpdate then .ok () else .error e
  | .ok () => .ok ()

namespace Manager

/-- The reply of `HandlePreAccept` once the instance is preaccepted: whether
the leader's dependencies match the replica's (`DependencyMatch`), and copies of
the replica's dependencies the leader's lack. -/
def preAcceptReply (m : Manager) (request : PreAcceptRequest) : Manager × PreAcceptResponse :=
  let extDeps := ListSet.ofList request.Instance.Dependencies
  -- `preAcceptInstance` has stored the instance, so the fallback is never taken
  let i := (m.getInstance request.Instance.InstanceID).getD request.Instance
  let newDeps := ListSet.ofList i.Dependencies
  let i := { i with DependencyMatch := ListSet.equal extDeps newDeps }
  let m := m.putInstance i
  let missingDeps := ListSet.diff newDeps extDeps
  let instanceCopy := i.Copy
  (m, ⟨true, instanceCopy.MaxBallot, instanceCopy,
    missingDeps.filterMap fun iid => (m.getInstance iid).map Instance.Copy⟩)

/-- `HandlePreAccept`. -/
def HandlePreAccept (m : Manager) (request : PreAcceptRequest) :
    Manager × Except Error PreAcceptResponse :=
  let go (m : Manager) : Manager × Except Error PreAcceptResponse :=
    let r := m.preAcceptInstance (.other request.Instance) false
    match ignoreInvalidStatus r.2 with
    | .error e => (r.1, .error e)
    | .ok () =>
      let reply := r.1.preAcceptReply request
      (reply.1, .ok reply.2)
  match m.getInstance request.Instance.InstanceID with
  | some i =>
    if i.MaxBallot ≥ request.Instance.MaxBallot then
      let instCopy := i.Copy
      (m, .ok ⟨false, instCopy.MaxBallot, instCopy, []⟩)
    else go m
  | none => go m

/-- `HandleAccept`: missing instances first (their error is dropped), then the
ballot check, then `acceptInstance`. -/
def HandleAccept (m : Manager) (request : AcceptRequest) : Manager × Except Error AcceptResponse :=
  let m :=
    if request.MissingInstances.length > 0 then (m.addMissingInstancesUnsafe request.MissingInstances).1
    else m
  let go (m : Manager) : Manager × Except Error AcceptResponse :=
    let r := m.acceptInstance (.other request.Instance) false
    match ignoreInvalidStatus r.2 with
    | .error e => (r.1, .error e)
    | .ok () => (r.1, .ok ⟨true, 0⟩)
  match m.getInstance request.Instance.InstanceID with
  | some i => if i.MaxBallot ≥ request.Instance.MaxBallot then (m, .ok ⟨false, i.MaxBallot⟩) else go m
  | none => go m

/-- `HandleCommit`: no ballot check. -/
def HandleCommit (m : Manager) (request : CommitRequest) : Manager × Except Error CommitResponse :=
  let r := m.commitInstance (.other request.Instance) false
  match ignoreInvalidStatus r.2 with
  | .error e => (r.1, .error e)
  | .ok () => (r.1, .ok ⟨⟩)

/-- A replica commits instance `1` with no dependencies, then takes a second
commit of it that depends on instance `2`: the committed instance takes the new
dependencies. -/
theorem HandleCommit_overwrites_committed :
    let commit (deps : List InstanceID) : CommitRequest :=
      ⟨{ Instance.bare (InstanceID.ofNat 1) (NodeId.ofNat 2) ⟨"SET", "k", ["a"], ⟨1⟩⟩ with
          Status := INSTANCE_COMMITTED, Dependencies := deps }⟩
    let m₁ := ((NewManager (NodeId.ofNat 1) fun _ => []).HandleCommit (commit [])).1
    let m₂ := (m₁.HandleCommit (commit [InstanceID.ofNat 2])).1
    (m₁.getInstance (InstanceID.ofNat 1)).map (fun i => (i.Status, i.Dependencies)) =
        some (INSTANCE_COMMITTED, []) ∧
      (m₂.getInstance (InstanceID.ofNat 1)).map (fun i => (i.Status, i.Dependencies)) =
        some (INSTANCE_COMMITTED, [InstanceID.ofNat 2]) := by
  decide +kernel

/-- `HandlePrepare`: an unknown instance is accepted with no instance; a known
one is accepted, and its ballot raised, only for a higher ballot, and a copy is
returned either way. -/
def HandlePrepare (m : Manager) (request : PrepareRequest) : Manager × Except Error PrepareResponse :=
  match m.getInstance request.InstanceID with
  | none => (m, .ok ⟨true, none⟩)
  | some i =>
    let accepted := decide (request.Ballot > i.MaxBallot)
    let i := if accepted then (i.updateBallot request.Ballot).1 else i
    (m.putInstance i, .ok ⟨accepted, some i.Copy⟩)

/-- `HandlePrepareSuccessor`: a copy of the instance if it is known. The
prepare the source then starts in a goroutine is a recovery run of its own in
the protocol model. -/
def HandlePrepareSuccessor (m : Manager) (request : PrepareSuccessorRequest) :
    Manager × Except Error PrepareSuccessorResponse :=
  (m, .ok ⟨(m.getInstance request.InstanceID).map Instance.Copy⟩)

/-- `HandleMessage`: a request to its handler, the handler's response back. -/
def HandleMessage (m : Manager) : Message → Manager × Except Error Message
  | .preAcceptRequest r => let h := m.HandlePreAccept r; (h.1, h.2.map .preAcceptResponse)
  | .acceptRequest r => let h := m.HandleAccept r; (h.1, h.2.map .acceptResponse)
  | .commitRequest r => let h := m.HandleCommit r; (h.1, h.2.map .commitResponse)
  | .prepareRequest r => let h := m.HandlePrepare r; (h.1, h.2.map .prepareResponse)
  | .prepareSuccessorRequest r =>
    let h := m.HandlePrepareSuccessor r
    (h.1, h.2.map .prepareSuccessorResponse)
  | _ => (m, .error (.other "Unhandled request type"))

/-! ### Prepare replies -/

/-- `analyzePrepareResponses`: among the replies that carry the instance, those
at the highest ballot, and of those the first with the highest status; none if
no reply carries it (or all at the highest ballot have status `0`). -/
def analyzePrepareResponses (responses : List PrepareResponse) : Option Instance :=
  let seen := responses.filterMap (·.Instance)
  if seen.isEmpty then none
  else
    let maxBallot := maxOfBallots (seen.map (·.MaxBallot))
    (seen.foldl (fun (acc : InstanceStatus × Option Instance) ri =>
      if ri.MaxBallot < maxBallot then acc
      else if ri.Status > acc.1 then (ri.Status, some ri) else acc) (0, none)).2

/-- The highest status among some instances, from `0`. -/
def maxOfStatuses (statuses : List InstanceStatus) : InstanceStatus :=
  statuses.foldl (fun acc s => if s > acc then s else acc) 0

/-- `managerPrepareCheckResponses`: the local instance takes the highest ballot
of the replies; if any reply refused the prepare, the local instance moves up
to the last reply at both the highest ballot and the highest status, if that is
further on, and the check fails with a `BallotError`. -/
def managerPrepareCheckResponses (m : Manager) (iid : InstanceID)
    (responses : List PrepareResponse) : Manager × Except Error Unit :=
  let seen := responses.filterMap (·.Instance)
  let accepted := responses.all (·.Accepted)
  let maxBallot := maxOfBallots (seen.map (·.MaxBallot))
  let maxStatus := maxOfStatuses (seen.map (·.Status))
  let m := m.updateInstanceBallotFromResponses iid [maxBallot]
  if accepted then (m, .ok ())
  else
    let maxInstance := (seen.filter fun ri => ri.MaxBallot == maxBallot && ri.Status == maxStatus).getLast?
    let rejected := Except.error (Error.BallotError "Prepare request(s) rejected")
    match maxInstance, m.getInstance iid with
    | some mi, some li =>
      if mi.Status > li.Status then
        if mi.Status = INSTANCE_ACCEPTED then
          match m.acceptInstance (.other mi) false with
          | (m, .error e) => (m, .error e)
          | (m, .ok ()) => (m, rejected)
        else if mi.Status = INSTANCE_COMMITTED ∨ mi.Status = INSTANCE_EXECUTED then
          match m.commitInstance (.other mi) false with
          | (m, .error e) => (m, .error e)
          | (m, .ok ()) => (m, rejected)
        else (m, rejected)
      else (m, rejected)
    | _, _ => (m, rejected)

end Manager

end Kickboxer.Consensus
