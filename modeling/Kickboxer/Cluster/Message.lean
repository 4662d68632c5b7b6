import Kickboxer.Topology.Ring

/-! The cluster's messages and their encodings (`cluster/message_connect.go`,
`cluster/message_query.go`, `cluster/message_stream.go`).

Each message is its fields in order; a string written with `WriteFieldBytes`
of its bytes is `WriteFieldString`, and `ReadFieldBytes` followed by
`string(b)` is `ReadFieldString`. A list is its count as a `uint32`, then a loop
to that count (`putCountLoop`). The streaming requests and responses other than
`StreamDataRequest` carry nothing.

Two readers check more than the writers guarantee: `PeerData` and
`ConnectionAcceptedResponse` refuse an empty token. The second also ends
without an error, on the fields read so far, when a later field cannot be read
(`return nil` in its error branches; `reads_truncated`): cut anywhere after its
`NodeId`, it is read without an error (`ConnectionAcceptedResponse.cuts`). Every reader reads back its message when
every count and field fits its `uint32` prefix, every timestamp is a
`time.Time` and every token is non-empty (`Fits`), and every `NumBytes` is the
length of what `Serialize` writes. -/
namespace Kickboxer.Cluster
open Kickboxer.Types Library Serializer Store

def CONNECTION_REQUEST : UInt32 := 101
def CONNECTION_ACCEPTED_RESPONSE : UInt32 := 102
def CONNECTION_REFUSED_RESPONSE : UInt32 := 103
def DISCOVER_PEERS_REQUEST : UInt32 := 201
def DISCOVER_PEERS_RESPONSE : UInt32 := 202
def READ_REQUEST : UInt32 := 301
def WRITE_REQUEST : UInt32 := 302
def QUERY_RESPONSE : UInt32 := 303
def STREAM_REQUEST : UInt32 := 401
def STREAM_RESPONSE : UInt32 := 402
def STREAM_COMPLETE_REQUEST : UInt32 := 403
def STREAM_COMPLETE_RESPONSE : UInt32 := 404
def STREAM_DATA_REQUEST : UInt32 := 405
def STREAM_DATA_RESPONSE : UInt32 := 406

variable (gob : GobTime)

/-! ### Connecting -/

/-- `cluster.PeerData`. -/
structure PeerData where
  NodeId : NodeId
  DCId : String
  Addr : String
  Name : String
  Token : Topology.Token
  deriving DecidableEq, Repr

namespace PeerData

def Serialize (m : PeerData) : List UInt8 :=
  m.NodeId.WriteBuffer ++ WriteFieldString m.DCId ++ WriteFieldString m.Addr ++
    WriteFieldString m.Name ++ WriteFieldBytes m.Token

def Deserialize : Decoder PeerData := do
  let nodeId ← NodeId.ReadBuffer
  let dcId ← ReadFieldString
  let addr ← ReadFieldString
  let name ← ReadFieldString
  let b ← ReadFieldBytes
  if b.length < 1 then Decoder.fail "expected at least one byte for Token, got [] (0)"
  else pure ⟨nodeId, dcId, addr, name, b⟩

def NumBytes (m : PeerData) : Nat :=
  UUID_NUM_BYTES + NumStringBytes m.DCId + NumStringBytes m.Addr + NumStringBytes m.Name +
    NumSliceBytes m.Token

/-- The fields fit their prefixes and the token is not empty. -/
def Fits (m : PeerData) : Prop :=
  FitsField m.DCId ∧ FitsField m.Addr ∧ FitsField m.Name ∧ 0 < m.Token.length ∧
    m.Token.length < 2 ^ 32

/-- The token check of a reader, on a token that is not empty. -/
theorem reads_token {α : Type} {t : Topology.Token} (ht : 0 < t.length) (e : String) (a : α) :
    Reads (if t.length < 1 then Decoder.fail e else pure a) [] a := by
  rw [if_neg (by omega)]
  exact reads_pure a

theorem reads {m : PeerData} (h : m.Fits) : Reads Deserialize m.Serialize m := by
  obtain ⟨hd, ha, hn, ht, ht'⟩ := h
  refine Reads.of_eq ?_ ((reads_nodeId _).bind ((reads_fieldString _ hd).bind
    ((reads_fieldString _ ha).bind ((reads_fieldString _ hn).bind
    ((reads_fieldBytes _ ht').bind (reads_token ht _ _))))))
  simp [Serialize]

theorem length_Serialize (m : PeerData) : m.Serialize.length = m.NumBytes := by
  simp only [Serialize, NumBytes, List.length_append, UUID.length_WriteBuffer,
    length_writeFieldString, length_writeFieldBytes]

end PeerData

/-- `cluster.ConnectionRequest`: its methods are those of the embedded `PeerData`. -/
structure ConnectionRequest where
  PeerData : PeerData
  deriving DecidableEq, Repr

namespace ConnectionRequest

def Serialize (m : ConnectionRequest) : List UInt8 := m.PeerData.Serialize

def Deserialize : Decoder ConnectionRequest := do
  let p ← PeerData.Deserialize
  pure ⟨p⟩

def NumBytes (m : ConnectionRequest) : Nat := m.PeerData.NumBytes

def Fits (m : ConnectionRequest) : Prop := m.PeerData.Fits

theorem reads {m : ConnectionRequest} (h : m.Fits) : Reads Deserialize m.Serialize m :=
  (PeerData.reads h).map _

theorem length_Serialize (m : ConnectionRequest) : m.Serialize.length = m.NumBytes :=
  m.PeerData.length_Serialize

end ConnectionRequest

/-- `cluster.ConnectionAcceptedResponse`. -/
structure ConnectionAcceptedResponse where
  NodeId : NodeId
  DCId : String
  Name : String
  Token : Topology.Token
  deriving DecidableEq, Repr

namespace ConnectionAcceptedResponse

def Serialize (m : ConnectionAcceptedResponse) : List UInt8 :=
  m.NodeId.WriteBuffer ++ WriteFieldString m.DCId ++ WriteFieldString m.Name ++ WriteFieldBytes m.Token

/-- A field that cannot be read ends the message, without an error. -/
def Deserialize : Decoder ConnectionAcceptedResponse := do
  let nodeId ← NodeId.ReadBuffer
  ReadFieldString.bindOr ⟨nodeId, "", "", []⟩ fun dcId =>
    ReadFieldString.bindOr ⟨nodeId, dcId, "", []⟩ fun name =>
      ReadFieldBytes.bindOr ⟨nodeId, dcId, name, []⟩ fun b =>
        if b.length < 1 then Decoder.fail "expected at least 1 byte for Token, got [] (0)"
        else pure ⟨nodeId, dcId, name, b⟩

def NumBytes (m : ConnectionAcceptedResponse) : Nat :=
  UUID_NUM_BYTES + NumStringBytes m.DCId + NumStringBytes m.Name + NumSliceBytes m.Token

def Fits (m : ConnectionAcceptedResponse) : Prop :=
  FitsField m.DCId ∧ FitsField m.Name ∧ 0 < m.Token.length ∧ m.Token.length < 2 ^ 32

theorem reads {m : ConnectionAcceptedResponse} (h : m.Fits) : Reads Deserialize m.Serialize m := by
  obtain ⟨hd, hn, ht, ht'⟩ := h
  refine Reads.of_eq ?_ ((reads_nodeId _).bind ((reads_fieldString _ hd).bindOr _
    ((reads_fieldString _ hn).bindOr _ ((reads_fieldBytes _ ht').bindOr _
    (PeerData.reads_token ht _ _)))))
  simp [Serialize]

/-- A response cut off after its node id is read without an error, with every
other field empty. -/
theorem reads_truncated (n : Types.NodeId) : Deserialize n.WriteBuffer = .ok (⟨n, "", "", []⟩, []) := by
  rw [Deserialize, (reads_nodeId n).bind_eq]
  rfl

theorem length_Serialize (m : ConnectionAcceptedResponse) : m.Serialize.length = m.NumBytes := by
  simp only [Serialize, NumBytes, List.length_append, UUID.length_WriteBuffer,
    length_writeFieldString, length_writeFieldBytes]

/-- Cut inside its `NodeId`, a response is refused; cut anywhere after it, it is
read with no error, on the fields read so far. -/
theorem cuts {m : ConnectionAcceptedResponse} (hd : FitsField m.DCId) (hn : FitsField m.Name)
    (ht : m.Token.length < 2 ^ 32) {j : Nat} (hj : j < m.Serialize.length) :
    (j < UUID_NUM_BYTES → ∃ e, Deserialize (m.Serialize.take j) = .error e) ∧
      (UUID_NUM_BYTES ≤ j → ∃ r, Deserialize (m.Serialize.take j) = .ok (r, [])) := by
  have hser : m.Serialize = m.NodeId.WriteBuffer ++ (WriteFieldString m.DCId ++
      (WriteFieldString m.Name ++ (WriteFieldBytes m.Token ++ []))) := by
    simp [Serialize]
  have hw : m.NodeId.WriteBuffer.length = UUID_NUM_BYTES := UUID.length_WriteBuffer _
  rw [hser] at hj ⊢
  rcases take_append_cases hj with ⟨hjb, hcut⟩ | ⟨hjw, hjb, hcut⟩
  · -- the cut falls inside the id
    obtain ⟨e, he⟩ := refusesCuts_nodeId m.NodeId j hjb
    refine ⟨fun _ => ⟨e, ?_⟩, fun h => absurd hjb (by omega)⟩
    rw [hcut, Deserialize, Decoder.bind_of_error he]
  · refine ⟨fun h => absurd hjw (by omega), fun _ => ?_⟩
    rw [hcut, Deserialize, (reads_nodeId m.NodeId).bind_apply]
    -- after the id, each field the cut leaves incomplete ends the reader
    refine StopsOnCuts.bindOr _ (reads_fieldString _ hd) (refusesCuts_fieldString _ hd) ?_ _ hjb
    refine StopsOnCuts.bindOr _ (reads_fieldString _ hn) (refusesCuts_fieldString _ hn) ?_
    exact StopsOnCuts.bindOr _ (reads_fieldBytes _ ht) (refusesCuts_fieldBytes _ ht) (stopsOnCuts_nil _)

end ConnectionAcceptedResponse

/-- `cluster.ConnectionRefusedResponse`. -/
structure ConnectionRefusedResponse where
  Reason : String
  deriving DecidableEq, Repr

namespace ConnectionRefusedResponse

def Serialize (m : ConnectionRefusedResponse) : List UInt8 := WriteFieldString m.Reason

def Deserialize : Decoder ConnectionRefusedResponse := do
  let reason ← ReadFieldString
  pure ⟨reason⟩

def NumBytes (m : ConnectionRefusedResponse) : Nat := NumStringBytes m.Reason

def Fits (m : ConnectionRefusedResponse) : Prop := FitsField m.Reason

theorem reads {m : ConnectionRefusedResponse} (h : m.Fits) : Reads Deserialize m.Serialize m :=
  (reads_fieldString _ h).map _

theorem length_Serialize (m : ConnectionRefusedResponse) : m.Serialize.length = m.NumBytes :=
  length_writeFieldString m.Reason

end ConnectionRefusedResponse

/-- `cluster.DiscoverPeersRequest`. -/
structure DiscoverPeersRequest where
  NodeId : NodeId
  deriving DecidableEq, Repr

namespace DiscoverPeersRequest

def Serialize (m : DiscoverPeersRequest) : List UInt8 := m.NodeId.WriteBuffer

def Deserialize : Decoder DiscoverPeersRequest := do
  let nodeId ← NodeId.ReadBuffer
  pure ⟨nodeId⟩

def NumBytes (_ : DiscoverPeersRequest) : Nat := UUID_NUM_BYTES

theorem reads (m : DiscoverPeersRequest) : Reads Deserialize m.Serialize m :=
  (reads_nodeId _).map _

theorem length_Serialize (m : DiscoverPeersRequest) : m.Serialize.length = m.NumBytes :=
  UUID.length_WriteBuffer _

end DiscoverPeersRequest

/-- `cluster.DiscoverPeerResponse`. -/
structure DiscoverPeerResponse where
  Peers : List PeerData
  deriving DecidableEq, Repr

namespace DiscoverPeerResponse

def Serialize (m : DiscoverPeerResponse) : List UInt8 := putCountLoop PeerData.Serialize m.Peers

def Deserialize : Decoder DiscoverPeerResponse := do
  let peers ← readCounted PeerData.Deserialize
  pure ⟨peers⟩

def NumBytes (m : DiscoverPeerResponse) : Nat := 4 + (m.Peers.map PeerData.NumBytes).sum

def Fits (m : DiscoverPeerResponse) : Prop := m.Peers.length < 2 ^ 32 ∧ ∀ p ∈ m.Peers, p.Fits

theorem reads {m : DiscoverPeerResponse} (h : m.Fits) : Reads Deserialize m.Serialize m :=
  (reads_countLoop m.Peers h.1 fun p hp => PeerData.reads (h.2 p hp)).map _

theorem length_Serialize {m : DiscoverPeerResponse} (h : m.Peers.length < 2 ^ 32) :
    m.Serialize.length = m.NumBytes := by
  simp only [Serialize, length_putCountLoop _ h, PeerData.length_Serialize, NumBytes]

end DiscoverPeerResponse

/-! ### Queries -/

/-- `cluster.ReadRequest`. -/
structure ReadRequest where
  Cmd : String
  Key : String
  Args : List String
  deriving DecidableEq, Repr

namespace ReadRequest

def Serialize (m : ReadRequest) : List UInt8 :=
  WriteFieldString m.Cmd ++ WriteFieldString m.Key ++ putCountLoop WriteFieldString m.Args

def Deserialize : Decoder ReadRequest := do
  let cmd ← ReadFieldString
  let key ← ReadFieldString
  let args ← readCounted ReadFieldString
  pure ⟨cmd, key, args⟩

def NumBytes (m : ReadRequest) : Nat :=
  NumStringBytes m.Cmd + NumStringBytes m.Key + 4 + (m.Args.map NumStringBytes).sum

def Fits (m : ReadRequest) : Prop :=
  FitsField m.Cmd ∧ FitsField m.Key ∧ m.Args.length < 2 ^ 32 ∧ ∀ a ∈ m.Args, FitsField a

theorem reads {m : ReadRequest} (h : m.Fits) : Reads Deserialize m.Serialize m := by
  obtain ⟨hc, hk, hn, ha⟩ := h
  have hargs := reads_countLoop m.Args hn fun a ha' => reads_fieldString a (ha a ha')
  refine Reads.of_eq ?_ ((reads_fieldString _ hc).bind ((reads_fieldString _ hk).bind
    (hargs.map _)))
  simp [Serialize]

theorem length_Serialize {m : ReadRequest} (h : m.Args.length < 2 ^ 32) :
    m.Serialize.length = m.NumBytes := by
  simp only [Serialize, List.length_append, length_putCountLoop _ h, length_writeFieldString, NumBytes,
    Nat.add_assoc]

end ReadRequest

/-- `cluster.WriteRequest`. -/
structure WriteRequest where
  ReadRequest : ReadRequest
  Timestamp : Time
  deriving DecidableEq, Repr

namespace WriteRequest

def Serialize (m : WriteRequest) : List UInt8 := m.ReadRequest.Serialize ++ WriteTime gob m.Timestamp

def Deserialize : Decoder WriteRequest := do
  let r ← ReadRequest.Deserialize
  let timestamp ← ReadTime gob
  pure ⟨r, timestamp⟩

def NumBytes (m : WriteRequest) : Nat := m.ReadRequest.NumBytes + NumTimeBytes

def Fits (m : WriteRequest) : Prop := m.ReadRequest.Fits ∧ gob.Valid m.Timestamp

theorem reads {m : WriteRequest} (h : m.Fits gob) : Reads (Deserialize gob) (m.Serialize gob) m :=
  (ReadRequest.reads h.1).bind ((reads_time gob h.2).map _)

theorem length_Serialize {m : WriteRequest} (h : m.ReadRequest.Args.length < 2 ^ 32) :
    (m.Serialize gob).length = m.NumBytes := by
  rw [Serialize, List.length_append, ReadRequest.length_Serialize h, length_writeTime]
  rfl

end WriteRequest

/-- `cluster.QueryResponse`. -/
structure QueryResponse where
  Data : List (List UInt8)
  deriving DecidableEq, Repr

namespace QueryResponse

def Serialize (m : QueryResponse) : List UInt8 := putCountLoop WriteFieldBytes m.Data

def Deserialize : Decoder QueryResponse := do
  let data ← readCounted ReadFieldBytes
  pure ⟨data⟩

def NumBytes (m : QueryResponse) : Nat := 4 + (m.Data.map NumSliceBytes).sum

def Fits (m : QueryResponse) : Prop := m.Data.length < 2 ^ 32 ∧ ∀ d ∈ m.Data, d.length < 2 ^ 32

theorem reads {m : QueryResponse} (h : m.Fits) : Reads Deserialize m.Serialize m :=
  (reads_countLoop m.Data h.1 fun d hd => reads_fieldBytes d (h.2 d hd)).map _

theorem length_Serialize {m : QueryResponse} (h : m.Data.length < 2 ^ 32) :
    m.Serialize.length = m.NumBytes := by
  simp only [Serialize, length_putCountLoop _ h, length_writeFieldBytes, NumBytes]

end QueryResponse

/-! ### Streaming -/

/-- `cluster.StreamData`. -/
structure StreamData where
  Key : String
  Data : List UInt8
  deriving DecidableEq, Repr

namespace StreamData

def Serialize (m : StreamData) : List UInt8 := WriteFieldString m.Key ++ WriteFieldBytes m.Data

def Deserialize : Decoder StreamData := do
  let key ← ReadFieldString
  let data ← ReadFieldBytes
  pure ⟨key, data⟩

def NumBytes (m : StreamData) : Nat := NumStringBytes m.Key + NumSliceBytes m.Data

def Fits (m : StreamData) : Prop := FitsField m.Key ∧ m.Data.length < 2 ^ 32

theorem reads {m : StreamData} (h : m.Fits) : Reads Deserialize m.Serialize m :=
  (reads_fieldString _ h.1).bind ((reads_fieldBytes _ h.2).map _)

theorem length_Serialize (m : StreamData) : m.Serialize.length = m.NumBytes := by
  simp only [Serialize, NumBytes, List.length_append, length_writeFieldString, length_writeFieldBytes]

end StreamData

/-- `cluster.StreamDataRequest`. -/
structure StreamDataRequest where
  Data : List StreamData
  deriving DecidableEq, Repr

namespace StreamDataRequest

def Serialize (m : StreamDataRequest) : List UInt8 := putCountLoop StreamData.Serialize m.Data

def Deserialize : Decoder StreamDataRequest := do
  let data ← readCounted StreamData.Deserialize
  pure ⟨data⟩

def NumBytes (m : StreamDataRequest) : Nat := 4 + (m.Data.map StreamData.NumBytes).sum

def Fits (m : StreamDataRequest) : Prop := m.Data.length < 2 ^ 32 ∧ ∀ d ∈ m.Data, d.Fits

theorem reads {m : StreamDataRequest} (h : m.Fits) : Reads Deserialize m.Serialize m :=
  (reads_countLoop m.Data h.1 fun d hd => StreamData.reads (h.2 d hd)).map _

theorem length_Serialize {m : StreamDataRequest} (h : m.Data.length < 2 ^ 32) :
    m.Serialize.length = m.NumBytes := by
  simp only [Serialize, length_putCountLoop _ h, StreamData.length_Serialize, NumBytes]

end StreamDataRequest

end Kickboxer.Cluster
