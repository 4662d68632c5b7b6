import Kickboxer.Store.Instruction
import Kickboxer.Kvstore.Store
import Kickboxer.Kvstore.Convergence
import Kickboxer.Kvstore.Reconcile
import Kickboxer.Types.UUID
import Kickboxer.Topology.Ring
import Kickboxer.Topology.Agreement
import Kickboxer.Topology.Routing
import Kickboxer.Topology.Topology
import Kickboxer.Library.ListSet
import Kickboxer.Consensus.Instance
import Kickboxer.Consensus.Dependencies
import Kickboxer.Consensus.DependencyTree
import Kickboxer.Consensus.Message
import Kickboxer.Consensus.Manager
import Kickboxer.Consensus.Handlers
import Kickboxer.Consensus.Execute
import Kickboxer.Library.Components
import Kickboxer.Consensus.TarjanState
import Kickboxer.Consensus.Tarjan
import Kickboxer.Library.KeyedList
import Kickboxer.Consensus.Protocol
import Kickboxer.Consensus.Advance
import Kickboxer.Consensus.FastPath
import Kickboxer.Consensus.Runs
import Kickboxer.Consensus.Executions
import Kickboxer.Consensus.Recovery
import Kickboxer.Consensus.Commands
import Kickboxer.Consensus.Quorum
import Kickboxer.Library.Bytes
import Kickboxer.Serializer.Fields
import Kickboxer.Store.Codec
import Kickboxer.Consensus.Codec
import Kickboxer.Cluster.Message
import Kickboxer.Kvstore.Codec
import Kickboxer.Message.IO
import Kickboxer.Cluster.Read
import Kickboxer.Cluster.Join
import Kickboxer.Cluster.Startup
import Kickboxer.Consensus.Decisions
