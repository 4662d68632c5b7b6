import Kickboxer.Consensus.Instance

/-! The consensus messages (`consensus/message.go`).

Each request and response of the protocol, with the fields it carries. An
instance a message always carries is an `Instance`; the two responses that may
carry none, because the replica does not know the instance, hold an
`Option Instance`, as their encodings mark with a nil flag. -/
namespace Kickboxer.Consensus

structure PreAcceptRequest where
  Instance : Instance
  deriving DecidableEq, Repr

structure PreAcceptResponse where
  Accepted : Bool
  MaxBallot : UInt32
  Instance : Instance
  MissingInstances : List Consensus.Instance
  deriving DecidableEq, Repr

structure AcceptRequest where
  Instance : Instance
  MissingInstances : List Consensus.Instance
  deriving DecidableEq, Repr

structure AcceptResponse where
  Accepted : Bool
  MaxBallot : UInt32
  deriving DecidableEq, Repr

structure CommitRequest where
  Instance : Instance
  deriving DecidableEq, Repr

structure CommitResponse where
  deriving DecidableEq, Repr

structure PrepareRequest where
  Ballot : UInt32
  InstanceID : InstanceID
  deriving DecidableEq, Repr

structure PrepareResponse where
  Accepted : Bool
  Instance : Option Instance
  deriving DecidableEq, Repr

structure PrepareSuccessorRequest where
  InstanceID : InstanceID
  deriving DecidableEq, Repr

structure PrepareSuccessorResponse where
  Instance : Option Instance
  deriving DecidableEq, Repr

structure InstanceRequest where
  InstanceIDs : List InstanceID
  deriving DecidableEq, Repr

structure InstanceResponse where
  Instances : List Instance
  deriving DecidableEq, Repr

/-- The messages `Manager.HandleMessage` and its callers exchange. -/
inductive Message where
  | preAcceptRequest (m : PreAcceptRequest)
  | preAcceptResponse (m : PreAcceptResponse)
  | acceptRequest (m : AcceptRequest)
  | acceptResponse (m : AcceptResponse)
  | commitRequest (m : CommitRequest)
  | commitResponse (m : CommitResponse)
  | prepareRequest (m : PrepareRequest)
  | prepareResponse (m : PrepareResponse)
  | prepareSuccessorRequest (m : PrepareSuccessorRequest)
  | prepareSuccessorResponse (m : PrepareSuccessorResponse)
  deriving DecidableEq, Repr

end Kickboxer.Consensus
