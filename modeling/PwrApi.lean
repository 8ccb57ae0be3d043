import PwrApi.Lib.StackCodec
import PwrApi.Types
import PwrApi.Wire.SerialBuf
import PwrApi.Wire.Events
import PwrApi.Lib.ParentTree
import PwrApi.Lib.Runs
import PwrApi.Router.State
import PwrApi.Router.Dispatch
import PwrApi.Router.Sending
import PwrApi.Router.ServerTable
import PwrApi.Router.Delivery
import PwrApi.Router.Transport
import PwrApi.Router.TreeCore
import PwrApi.Router.Reduction
import PwrApi.Router.Requests
import PwrApi.Router.Lifetime
import PwrApi.Router.Exchange
import PwrApi.Router.FanIn
import PwrApi.Router.Replies
import PwrApi.Router.Served
import PwrApi.Lib.Stages
import PwrApi.Router.Order
import PwrApi.Client.Object
import PwrApi.Client.DistObject
import PwrApi.Server.Requests
import PwrApi.Client.RemoteErrors
import PwrApi.Client.XmlConfig
import PwrApi.Client.DistCntxt
import PwrApi.Client.Gather
import PwrApi.Client.TreeSum
import PwrApi.Client.Deployment
import PwrApi.Client.DistGroup
import PwrApi.Lib.Memory
import PwrApi.Client.GroupCalls
import PwrApi.Client.GroupReads
import PwrApi.Lib.Pieces
import PwrApi.Wire.Framing
import PwrApi.Wire.ChannelConfig
import PwrApi.Server.CommMap
import PwrApi.Router.Messages
import PwrApi.Router.Disconnect
import PwrApi.Lib.Queues
import PwrApi.Router.Fleet
import PwrApi.Router.Isolation
import PwrApi.Client.Progress
import PwrApi.Client.Callbacks
import PwrApi.Client.Interference
import PwrApi.Client.Blocking
import PwrApi.Client.Broken
import PwrApi.Lib.Table
import PwrApi.Server.Fini
import PwrApi.Server.Serving
import PwrApi.Server.Answers
import PwrApi.Client.Locations
import PwrApi.Lib.Parts
import PwrApi.Client.Flattening
import PwrApi.Lib.Text
import PwrApi.Router.RouteTable
import PwrApi.Router.Unrouted
import PwrApi.Lib.Slots
import PwrApi.Router.LinkOptions
import PwrApi.Router.CommandLine
import PwrApi.Client.Attempts
import PwrApi.Client.Samples
import PwrApi.Lib.Extremum
import PwrApi.Client.DeviceStat
import PwrApi.Client.StatLogging
import PwrApi.Client.Children
import PwrApi.Client.Objects
import PwrApi.Client.Coherence
import PwrApi.Lib.Walk
import PwrApi.Client.Walks
import PwrApi.Client.GroupByType
import PwrApi.Lib.Distinct
import PwrApi.Tools.NidList
import PwrApi.Tools.PwrDaemon
import PwrApi.Lib.Forest
import PwrApi.Tools.Pwrgen
import PwrApi.Lib.Bits
import PwrApi.Plugins.Apm
import PwrApi.Lib.Tokens
import PwrApi.Plugins.Rapl
import PwrApi.Lib.Reads
import PwrApi.Lib.Relay
import PwrApi.Plugins.Counters
import PwrApi.Plugins.WattsUp
import PwrApi.Logger.Attrs
import PwrApi.Lib.GetOpt
import PwrApi.Router.Opening
import PwrApi.Server.Opening
import PwrApi.Deploy.Machine
import PwrApi.Deploy.Naming
import PwrApi.Deploy.Objects
import PwrApi.Deploy.Daemon
import PwrApi.Deploy.Cluster
import PwrApi.Deploy.Threads
import PwrApi.Deploy.Wiring
import PwrApi.Deploy.Delivery
import PwrApi.Lib.Pattern
import PwrApi.Deploy.NidMap
import PwrApi.Deploy.Launch
import PwrApi.Router.Backlog
import PwrApi.Router.Ledger
import PwrApi.Deploy.Service
import PwrApi.Deploy.Answering
import PwrApi.Deploy.EndToEnd
