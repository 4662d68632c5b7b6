import Kickboxer.Consensus.Execute
import Kickboxer.Library.KeyedList

/-! The protocol (`ExecutePaxos`, `managerPreAcceptPhase`, `managerAcceptPhase`,
`managerCommitPhase`, `managerPrepareInstance` and what they call).

A world holds every replica's manager, the messages in flight and the
processes. A process is one goroutine of the source that waits for replies: a
leader running `ExecutePaxos` for an instance it made, or a prepare
(`managerPrepareInstance`) of an instance a replica suspects. `step` takes one
action: a client query starts a leader; a replica starts a prepare of an
instance it holds (the source does so from `executeInstance` and from
`HandlePrepareSuccessor`, here at any time); a request is handled by its
destination and the reply goes back to the process that waits for it; a message
is lost; a waiting process takes the replies it has, times out, or sees the
instance committed; a leader that has committed executes.

`SendMessage` is a synchronous call in the source. Here a request and its reply
are two messages, either of which may be lost, and a reply carries the process
and the round of the wait it answers, which stand for the channel the source
makes for that wait. A quorum counts the process's own replica
(`numReceived := 1`): a preaccept or accept wait ends with `len(replicas) / 2`
replies, a prepare takes at least that many (the source drains what has
arrived), a successor wait one. What a process does between two waits is one
step. Timing is left to the choice of actions: the commit grace period and the
intervals between successor rounds have always passed when a process acts.

Two replicas' managers are told apart by `nodeID`; the world's lookups go
through the keyed lists of `Library.KeyedList`. -/
namespace Kickboxer.Consensus
open Kickboxer.Types Store Library

/-! ### Processes and messages -/

/-- Whether a process runs `ExecutePaxos`, which carries on past a failed
phase, or `managerPrepareApply`, which returns at the first error. -/
inductive Mode where
  | leader
  | prepare
  deriving DecidableEq, Repr

/-- Where a process waits. -/
inductive ProcState where
  /-- the quorum loop of `sendPreAccept` -/
  | preAccepting (mode : Mode)
  /-- the quorum loop of `sendAccept` -/
  | accepting (mode : Mode)
  /-- `executeInstance`, after the leader's commit phase -/
  | executing
  /-- `managerDeferToSuccessor` waiting on a successor, `rest` the ones after it -/
  | deferring (rest : List NodeId)
  /-- the loop of `managerPrepareInstance` between two rounds of successors -/
  | deferWait
  /-- the quorum loop of `managerSendPrepare` -/
  | preparing
  | done
  deriving DecidableEq, Repr

/-- The states in which a prepare holds the instance's `prepareLock`. -/
def ProcState.isPrepare : ProcState → Bool
  | .preAccepting .prepare | .accepting .prepare | .deferring _ | .deferWait | .preparing => true
  | _ => false

structure Proc where
  node : NodeId
  iid : InstanceID
  round : Nat
  state : ProcState
  deriving DecidableEq, Repr

/-- A message in flight; a request names the process and round that wait for
its reply, and the reply names them back. -/
structure Envelope where
  src : NodeId
  dst : NodeId
  pid : Nat
  round : Nat
  msg : Message
  deriving DecidableEq, Repr

/-- The process and round a request is sent for. -/
structure Tag where
  pid : Nat
  round : Nat
  deriving DecidableEq, Repr

structure World where
  managers : List Manager
  network : List Envelope
  procs : List Proc

/-- One step of a process at its node: the node's manager after it, the
messages it sends and where the process goes. -/
structure Effect where
  mgr : Manager
  sent : List Envelope
  next : ProcState

namespace Message

def asPreAcceptResponse : Message → Option PreAcceptResponse
  | .preAcceptResponse r => some r
  | _ => none

def asAcceptResponse : Message → Option AcceptResponse
  | .acceptResponse r => some r
  | _ => none

def asPrepareResponse : Message → Option PrepareResponse
  | .prepareResponse r => some r
  | _ => none

def asPrepareSuccessorResponse : Message → Option PrepareSuccessorResponse
  | .prepareSuccessorResponse r => some r
  | _ => none

end Message

namespace Manager

/-- The message `msg` to each of `dsts`, for the wait `tag`. -/
def sendAll (m : Manager) (tag : Tag) (dsts : List NodeId) (msg : Message) : List Envelope :=
  dsts.map fun d => ⟨m.nodeID, d, tag.pid, tag.round, msg⟩

/-- `quorumSize` of the send loops. -/
def quorumSize (replicas : List NodeId) : Nat := replicas.length / 2 + 1

/-- `makeInstance`, with the id (`NewInstanceID`) and the order of successors
(`rand.Perm` of the replicas) the action chooses. -/
def makeInstance (m : Manager) (iid : InstanceID) (instruction : Instruction)
    (successors : List NodeId) : Instance :=
  { Instance.bare iid m.nodeID instruction with Successors := successors }

/-- The source's pointer to the local instance, which the phases after the first
are handed. -/
def localSrc (m : Manager) (iid : InstanceID) : Option Src := (m.getInstance iid).map .local

/-- A request at its destination: the reply goes back to the wait that sent it.
`sendCommit` does not wait for a reply, and a handler's error reaches the sender
as a failed call. -/
def answer (m : Manager) (e : Envelope) : Manager × List Envelope :=
  let r := m.HandleMessage e.msg
  match r.2, e.msg with
  | .ok _, .commitRequest _ => (r.1, [])
  | .ok reply, _ => (r.1, [⟨e.dst, e.src, e.pid, e.round, reply⟩])
  | .error _, _ => (r.1, [])

end Manager

/-! ### The phases -/

section Phases
variable (tag : Tag)

/-- The shared start of the preaccept, accept and commit phases: the local step
`op` on the instance handed over, with the ballot bumped, then, unless that
failed otherwise than by an invalid status update, `request` with a copy of the
local instance to the instance's replicas. -/
def beginPhase (op : Manager → Src → Bool → Manager × Except Error Unit)
    (request : Instance → Message) (m : Manager) (src : Src) :
    Manager × List Envelope × Except Error Unit :=
  let replicas := m.getInstanceReplicas src.inst
  let r := op m src true
  match ignoreInvalidStatus r.2 with
  | .error e => (r.1, [], .error e)
  | .ok () =>
    -- the source switches to the local instance, which the local step stored
    match r.1.getInstance src.inst.InstanceID with
    | some i => (r.1, r.1.sendAll tag replicas (request i.Copy), .ok ())
    | none => (r.1, [], .ok ())

/-- The start of `managerPreAcceptPhase`, up to `sendPreAccept`'s wait. -/
def beginPreAcceptPhase (m : Manager) (src : Src) : Manager × List Envelope × Except Error Unit :=
  beginPhase tag Manager.preAcceptInstance (fun c => .preAcceptRequest ⟨c⟩) m src

/-- The start of `managerAcceptPhase`; `sendAccept` sends no missing instances. -/
def beginAcceptPhase (m : Manager) (src : Src) : Manager × List Envelope × Except Error Unit :=
  beginPhase tag Manager.acceptInstance (fun c => .acceptRequest ⟨c, []⟩) m src

/-- `managerCommitPhase`: `sendCommit` waits for no reply. -/
def managerCommitPhase (m : Manager) (src : Src) : Manager × List Envelope × Except Error Unit :=
  beginPhase tag Manager.commitInstance (fun c => .commitRequest ⟨c⟩) m src

/-- The `addMissingInstances` closure of `managerPreAcceptPhase`. -/
def addMissingFromResponses (m : Manager) : List PreAcceptResponse → Manager × Except Error Unit
  | [] => (m, .ok ())
  | r :: rs =>
    if r.MissingInstances.length > 0 then
      match m.addMissingInstancesUnsafe r.MissingInstances with
      | (m, .error e) => (m, .error e)
      | (m, .ok ()) => addMissingFromResponses m rs
    else addMissingFromResponses m rs

/-- `sendPreAccept` after its wait, then the rest of `managerPreAcceptPhase`: a
refusal raises the local ballot to the replies' and is a `BallotError`;
otherwise the replies' missing instances are added and their dependencies
merged, and the flag says whether that changed any. -/
def preAcceptResult (m : Manager) (iid : InstanceID) (responses : List PreAcceptResponse) :
    Manager × Bool × Except Error Unit :=
  if !responses.all (·.Accepted) then
    (m.updateInstanceBallotFromResponses iid (responses.map (·.MaxBallot)), false,
      .error (.BallotError "Ballot number rejected"))
  else
    match addMissingFromResponses m responses with
    | (m, .error e) => (m, false, .error e)
    | (m, .ok ()) => m.mergePreAcceptAttributes iid responses false

/-- `sendAccept` after its wait. -/
def acceptResult (m : Manager) (iid : InstanceID) (responses : List AcceptResponse) :
    Manager × Except Error Unit :=
  if !responses.all (·.Accepted) then
    (m.updateInstanceBallotFromResponses iid (responses.map (·.MaxBallot)),
      .error (.BallotError "Ballot number rejected"))
  else (m, .ok ())

/-- The commit phase; then a leader executes and a prepare is over, the phase's
error or not. -/
def enterCommit (mode : Mode) (m : Manager) (src : Src) : Effect :=
  let r := managerCommitPhase tag m src
  ⟨r.1, r.2.1, match mode with | .leader => .executing | .prepare => .done⟩

/-- What follows an accept phase that ended with `result`: a prepare stops at
an error, otherwise the local instance is committed. -/
def afterAccept (mode : Mode) (m : Manager) (iid : InstanceID) (result : Except Error Unit) :
    Effect :=
  match mode, result, m.localSrc iid with
  | .prepare, .error _, _ => ⟨m, [], .done⟩
  | _, _, some src => enterCommit tag mode m src
  | _, _, none => ⟨m, [], .done⟩

/-- The accept phase, waiting for replies unless it fails at the start. -/
def enterAccept (mode : Mode) (m : Manager) (src : Src) : Effect :=
  match beginAcceptPhase tag m src with
  | (m, sent, .ok ()) => ⟨m, sent, .accepting mode⟩
  | (m, _, .error e) => afterAccept tag mode m src.inst.InstanceID (.error e)

/-- What follows a preaccept phase that ended with `acceptRequired` and
`result`: a prepare stops at an error; otherwise the local instance is accepted
if required and committed if not. The leader reads the flag even past an error,
as `ExecutePaxos` does. -/
def afterPreAccept (mode : Mode) (m : Manager) (iid : InstanceID) (acceptRequired : Bool)
    (result : Except Error Unit) : Effect :=
  match mode, result, m.localSrc iid with
  | .prepare, .error _, _ => ⟨m, [], .done⟩
  | _, _, some src => if acceptRequired then enterAccept tag mode m src else enterCommit tag mode m src
  | _, _, none => ⟨m, [], .done⟩

/-- The preaccept phase, waiting for replies unless it fails at the start. -/
def enterPreAccept (mode : Mode) (m : Manager) (src : Src) : Effect :=
  match beginPreAcceptPhase tag m src with
  | (m, sent, .ok ()) => ⟨m, sent, .preAccepting mode⟩
  | (m, _, .error e) => afterPreAccept tag mode m src.inst.InstanceID false (.error e)

/-! ### Prepare -/

/-- `managerPreparePhase`: nothing for a committed instance; otherwise the local
ballot goes up by one and the prepare request at that ballot goes to the
replicas. -/
def preparePhase (m : Manager) (iid : InstanceID) : Effect :=
  match m.getInstance iid with
  | none => ⟨m, [], .done⟩
  | some i =>
    if INSTANCE_COMMITTED ≤ i.Status then ⟨m, [], .done⟩
    else
      let r := i.incrementBallot
      let m := m.putInstance r.1
      ⟨m, m.sendAll tag (m.getInstanceReplicas r.1) (.prepareRequest ⟨r.2, iid⟩), .preparing⟩

/-- The next successor `managerDeferToSuccessor` asks: it skips nodes that are
not replicas of the instance and stops at this node. -/
def nextSuccessor (self : NodeId) (replicas : List NodeId) :
    List NodeId → Option (NodeId × List NodeId)
  | [] => none
  | n :: ns =>
    if n = self then none
    else if n ∈ replicas then some (n, ns)
    else nextSuccessor self replicas ns

/-- `managerDeferToSuccessor` from the successors `succ` on: ask the next one,
or, with none left, stop deferring and go ahead with the prepare. -/
def deferToSuccessor (m : Manager) (iid : InstanceID) (succ : List NodeId) : Effect :=
  match m.getInstance iid with
  | none => ⟨m, [], .done⟩
  | some i =>
    match nextSuccessor m.nodeID (m.getInstanceReplicas i) succ with
    | some (n, rest) => ⟨m, m.sendAll tag [n] (.prepareSuccessorRequest ⟨iid⟩), .deferring rest⟩
    | none => preparePhase tag m iid

/-- The loop of `managerPrepareInstance` after a successor did not take over:
wait for the next round, unless the instance got committed. -/
def waitForSuccessor (m : Manager) (iid : InstanceID) : Effect :=
  match m.getInstance iid with
  | some i => ⟨m, [], if i.Status < INSTANCE_COMMITTED then .deferWait else .done⟩
  | none => ⟨m, [], .done⟩

/-- A successor's reply: an instance it does not know means asking the next
successor; one that is further on here moves the local instance to accepted
(and the loop waits) or to committed (and the prepare is over). The local
instance takes nothing from the reply's. -/
def successorResponse (m : Manager) (iid : InstanceID) (rest : List NodeId)
    (response : PrepareSuccessorResponse) : Effect :=
  match response.Instance, m.getInstance iid with
  | none, _ => deferToSuccessor tag m iid rest
  | some _, none => ⟨m, [], .done⟩
  | some ri, some li =>
    if ri.Status > li.Status then
      if ri.Status = INSTANCE_ACCEPTED then
        match m.acceptInstance (.local li) false with
        | (m, .error _) => ⟨m, [], .done⟩
        | (m, .ok ()) => waitForSuccessor m iid
      else if ri.Status = INSTANCE_COMMITTED ∨ ri.Status = INSTANCE_EXECUTED then
        ⟨(m.commitInstance (.local li) false).1, [], .done⟩
      else waitForSuccessor m iid
    else waitForSuccessor m iid

/-- The phase `managerPrepareApply` starts at for `status`, falling through to
the later ones. -/
def prepareFrom (m : Manager) (src : Src) (status : InstanceStatus) : Effect :=
  if status = INSTANCE_PREACCEPTED then enterPreAccept tag .prepare m src
  else if status = INSTANCE_ACCEPTED then enterAccept tag .prepare m src
  else if status = INSTANCE_COMMITTED ∨ status = INSTANCE_EXECUTED then enterCommit tag .prepare m src
  else ⟨m, [], .done⟩

/-- `managerPrepareApply`: the replies are checked, then the first phase runs
on the reply `analyzePrepareResponses` picks, or on the local instance if that
is further on. An instance no replica knows is preaccepted again, as a noop if
it is not past preaccepted. -/
def prepareApply (m : Manager) (iid : InstanceID) (responses : List PrepareResponse) : Effect :=
  match m.managerPrepareCheckResponses iid responses with
  | (m, .error _) => ⟨m, [], .done⟩
  | (m, .ok ()) =>
    match m.getInstance iid with
    | none => ⟨m, [], .done⟩
    | some li =>
      match Manager.analyzePrepareResponses responses with
      | some ri =>
        if li.Status > ri.Status then prepareFrom tag m (.local li) li.Status
        else prepareFrom tag m (.other ri) ri.Status
      | none =>
        if li.Status ≤ INSTANCE_PREACCEPTED then
          prepareFrom tag (m.putInstance li.setNoop) (.local li.setNoop) INSTANCE_PREACCEPTED
        else prepareFrom tag m (.local li) INSTANCE_PREACCEPTED

/-! ### Process steps -/

/-- A waiting process takes the replies `msgs`: a quorum of its phase's replies,
or one successor's reply. -/
def receive (m : Manager) (p : Proc) (msgs : List Message) : Option Effect :=
  match m.getInstance p.iid with
  | none => none
  | some i =>
    let needed := Manager.quorumSize (m.getInstanceReplicas i) - 1
    match p.state with
    | .preAccepting mode =>
      let rs := msgs.filterMap Message.asPreAcceptResponse
      if rs.length = msgs.length ∧ msgs.length = needed then
        let r := preAcceptResult m p.iid rs
        some (afterPreAccept tag mode r.1 p.iid r.2.1 r.2.2)
      else none
    | .accepting mode =>
      let rs := msgs.filterMap Message.asAcceptResponse
      if rs.length = msgs.length ∧ msgs.length = needed then
        let r := acceptResult m p.iid rs
        some (afterAccept tag mode r.1 p.iid r.2)
      else none
    | .preparing =>
      let rs := msgs.filterMap Message.asPrepareResponse
      if rs.length = msgs.length ∧ needed ≤ msgs.length then some (prepareApply tag m p.iid rs)
      else none
    | .deferring rest =>
      match msgs.filterMap Message.asPrepareSuccessorResponse, msgs.length with
      | [r], 1 => some (successorResponse tag m p.iid rest r)
      | _, _ => none
    | _ => none

/-- A waiting process times out: a leader goes on to the next phase, a prepare
stops, and a successor wait asks the next successor. -/
def timeout (m : Manager) (p : Proc) : Option Effect :=
  match p.state with
  | .preAccepting mode =>
    some (afterPreAccept tag mode m p.iid false
      (.error (.TimeoutError "Timeout while awaiting pre accept responses")))
  | .accepting mode =>
    some (afterAccept tag mode m p.iid (.error (.TimeoutError "Timeout while awaiting accept responses")))
  | .preparing => some ⟨m, [], .done⟩
  | .deferring rest => some (deferToSuccessor tag m p.iid rest)
  | .deferWait => (m.getInstance p.iid).map fun i => deferToSuccessor tag m p.iid i.Successors
  | _ => none

end Phases

/-- A process waiting on successors sees the commit event of its instance. -/
def wake (m : Manager) (p : Proc) : Option Effect :=
  match p.state, m.getInstance p.iid with
  | .deferring _, some i | .deferWait, some i =>
    if INSTANCE_COMMITTED ≤ i.Status then some ⟨m, [], .done⟩ else none
  | _, _ => none

/-- One pass of the leader's `executeInstance`: with uncommitted dependencies it
waits for them to be prepared, otherwise it is over. -/
def execute (uuidTime : UUID → Int) (m : Manager) (p : Proc) : Option Effect :=
  match p.state with
  | .executing =>
    match m.executeInstancePass uuidTime p.iid with
    | (m, .ok (_ :: _)) => some ⟨m, [], .executing⟩
    | (m, _) => some ⟨m, [], .done⟩
  | _ => none

/-! ### The world -/

namespace World

def manager (w : World) (n : NodeId) : Option Manager := lookup Manager.nodeID w.managers n

def setManager (w : World) (m : Manager) : World :=
  { w with managers := replace Manager.nodeID w.managers m }

/-- The world after process `pid` stepped at its node, from the network
`network`. -/
def advance (w : World) (pid : Nat) (p : Proc) (network : List Envelope) (e : Effect) : World :=
  { w.setManager e.mgr with
    network := network ++ e.sent
    procs := w.procs.set pid { p with round := p.round + 1, state := e.next } }

/-- The world with a new process `p`, after its first step. -/
def spawn (w : World) (p : Proc) (e : Effect) : World :=
  { w.setManager e.mgr with
    network := w.network ++ e.sent
    procs := w.procs ++ [{ p with state := e.next }] }

/-- No replica holds `iid` and no process runs it: the uniqueness of
`NewInstanceID`. -/
def fresh (w : World) (iid : InstanceID) : Bool :=
  w.managers.all (fun m => (m.getInstance iid).isNone) && w.procs.all (·.iid != iid)

/-- Some prepare of `iid` at `n` holds the instance's `prepareLock`. -/
def preparing (w : World) (n : NodeId) (iid : InstanceID) : Bool :=
  w.procs.any fun p => p.node == n && p.iid == iid && p.state.isPrepare

/-- Every node with a fresh manager, and nothing in flight. -/
def init (nodes : List NodeId) (topology : String → List NodeId) : World :=
  ⟨nodes.map fun n => Manager.NewManager n topology, [], []⟩

end World

/-- The messages at positions `ks` of the network, in that order, and the
network without them. -/
def takeAt (net : List Envelope) (ks : List Nat) : Option (List Envelope × List Envelope) :=
  let chosen := ks.filterMap (net[·]?)
  if ks.Nodup ∧ chosen.length = ks.length then
    some (chosen, (net.zipIdx.filter fun e => e.2 ∉ ks).map (·.1))
  else none

inductive Action where
  /-- `ExecuteQuery` at `n`: a leader for a new instance of `instruction` -/
  | query (n : NodeId) (iid : InstanceID) (instruction : Instruction) (successors : List NodeId)
  /-- `preparePhase` of `iid` at `n` -/
  | prepare (n : NodeId) (iid : InstanceID)
  /-- the message at position `k` reaches its destination -/
  | deliver (k : Nat)
  /-- the message at position `k` is lost -/
  | drop (k : Nat)
  /-- process `pid` takes the replies at positions `ks` -/
  | receive (pid : Nat) (ks : List Nat)
  | timeout (pid : Nat)
  | wake (pid : Nat)
  | execute (pid : Nat)
  deriving DecidableEq, Repr

section Step
variable (uuidTime : UUID → Int)

/-- A step of process `pid` that reads its node's manager. -/
def procStep (w : World) (pid : Nat) (network : List Envelope)
    (f : Manager → Proc → Option Effect) : Option World := do
  let p ← w.procs[pid]?
  let m ← w.manager p.node
  let e ← f m p
  some (w.advance pid p network e)

def step (w : World) : Action → Option World
  | .query n iid instruction successors => do
    let m ← w.manager n
    let inst := m.makeInstance iid instruction successors
    guard (w.fresh iid && successors.isPerm (m.getInstanceReplicas inst))
    some (w.spawn ⟨n, iid, 1, .done⟩ (enterPreAccept ⟨w.procs.length, 1⟩ .leader m (.other inst)))
  | .prepare n iid => do
    let m ← w.manager n
    let i ← m.getInstance iid
    guard !(w.preparing n iid)
    -- `prepareShouldProceed`: a committed instance needs no prepare
    if INSTANCE_COMMITTED ≤ i.Status then some w
    else some (w.spawn ⟨n, iid, 1, .done⟩ (deferToSuccessor ⟨w.procs.length, 1⟩ m iid i.Successors))
  | .deliver k => do
    let e ← w.network[k]?
    let m ← w.manager e.dst
    let r := m.answer e
    some { w.setManager r.1 with network := w.network.eraseIdx k ++ r.2 }
  | .drop k => if k < w.network.length then some { w with network := w.network.eraseIdx k } else none
  | .receive pid ks => do
    let p ← w.procs[pid]?
    let (chosen, rest) ← takeAt w.network ks
    guard (chosen.all fun e => e.dst == p.node && e.pid == pid && e.round == p.round)
    procStep w pid rest fun m p => receive ⟨pid, p.round + 1⟩ m p (chosen.map (·.msg))
  | .timeout pid => procStep w pid w.network fun m p => timeout ⟨pid, p.round + 1⟩ m p
  | .wake pid => procStep w pid w.network wake
  | .execute pid => procStep w pid w.network (execute uuidTime)

/-- The actions one after the other, as long as each can be taken. -/
def run (w : World) : List Action → Option World
  | [] => some w
  | a :: as => (step uuidTime w a).bind fun w' => run w' as

/-- The worlds a run passes through, each before its step. -/
def trace (w : World) : List Action → List World
  | [] => []
  | a :: as => w :: ((step uuidTime w a).map fun w' => trace w' as).getD []

end Step

/-! ### A cluster of three nodes

The runs of the later modules start from three nodes, each a replica of every
key, with two writes of the key `k`. -/

def nodeA : NodeId := NodeId.ofNat 1
def nodeB : NodeId := NodeId.ofNat 2
def nodeC : NodeId := NodeId.ofNat 3

def cluster : World := World.init [nodeA, nodeB, nodeC] fun _ => [nodeA, nodeB, nodeC]

def iidX : InstanceID := InstanceID.ofNat 1
def iidY : InstanceID := InstanceID.ofNat 2

def setA : Instruction := ⟨"SET", "k", ["a"], ⟨1⟩⟩
def setB : Instruction := ⟨"SET", "k", ["b"], ⟨2⟩⟩

end Kickboxer.Consensus
