import AsyncRust.Runs
import AsyncRust.LineReader
import AsyncRust.Broadcast
import AsyncRust.ChatMessage
import AsyncRust.Broker
import AsyncRust.BrokerSteps
import AsyncRust.BrokerRegistry
import AsyncRust.BrokerTasks
import AsyncRust.BrokerAttribution
import AsyncRust.BrokerCleanup
import AsyncRust.BrokerNotices
import AsyncRust.BrokerFanout
import AsyncRust.BrokerShutdown
import AsyncRust.BrokerConversation
import AsyncRust.BrokerViews
import AsyncRust.BrokerMembership
import AsyncRust.ChatClient
import AsyncRust.SelectReading
import AsyncRust.MessageLines
import AsyncRust.MiniRaft
import AsyncRust.RaftConvergence
import AsyncRust.MatchQueue
import AsyncRust.RaftWorker
import AsyncRust.RaftWorkerSteps
import AsyncRust.RaftPuts
import AsyncRust.RaftGuarantees
import AsyncRust.RaftFaults
import AsyncRust.LineProtocol
import AsyncRust.RaftReads
import AsyncRust.RaftCalls
import AsyncRust.RaftLogs
import AsyncRust.NodeMain
import AsyncRust.RaftNetwork
import AsyncRust.NetworkFaults
import AsyncRust.RaftSnapshots
import AsyncRust.ConsoleApp
import AsyncRust.RemoteWaker
import AsyncRust.PriorityExecutor
import AsyncRust.Lists
import AsyncRust.ExecutorTasks
import AsyncRust.ExecutorJoins
import AsyncRust.TailFile
import AsyncRust.AuditLog
import AsyncRust.AuditReports
import AsyncRust.PeerFraming
import AsyncRust.Words
import AsyncRust.ConsoleGrammar
import AsyncRust.ConsoleScrolling
import AsyncRust.ServerFuture
import AsyncRust.ChatTerminal
import AsyncRust.SharedCounter
import AsyncRust.CounterProgress
import AsyncRust.DemoCluster
import AsyncRust.DemoReports
import AsyncRust.DemoMain
import AsyncRust.LineDrops
import AsyncRust.FairMutex
import AsyncRust.CancelSafety
import AsyncRust.FileWatcher
import AsyncRust.ChatMesh
import AsyncRust.ChatSides
import AsyncRust.ChatDelivery
import AsyncRust.ChatRoom
import AsyncRust.RaftHistory
import AsyncRust.CountingFuture
