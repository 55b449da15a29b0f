import DatacenterNetworking.Htsim.DataSink
import DatacenterNetworking.Dpdk.ReceiverMemory
import DatacenterNetworking.Conga.Feedback
import DatacenterNetworking.Conga.FeedbackTag
import DatacenterNetworking.Conga.TagPath
import DatacenterNetworking.Conga.RouteShape
import DatacenterNetworking.Htsim.FairQueue
import DatacenterNetworking.Htsim.StocFairQueue
import DatacenterNetworking.Htsim.Flow
import DatacenterNetworking.Htsim.Tcp
import DatacenterNetworking.Htsim.TcpResend
import DatacenterNetworking.Htsim.PacketPair
import DatacenterNetworking.Htsim.Timely
import DatacenterNetworking.Htsim.Completion
import DatacenterNetworking.Htsim.InFlight
import DatacenterNetworking.Dpdk.Indices
import DatacenterNetworking.Dpdk.HeaderChecksum
import DatacenterNetworking.Htsim.EventList
import DatacenterNetworking.Htsim.TcpEpisode
import DatacenterNetworking.Htsim.TcpWindow
import DatacenterNetworking.Htsim.TcpTimer
import DatacenterNetworking.Htsim.AprxFairQueue
import DatacenterNetworking.Htsim.AprxCalendar
import DatacenterNetworking.Dpdk.Burst
import DatacenterNetworking.Dpdk.ServerAcks
import DatacenterNetworking.Dpdk.Sender
import DatacenterNetworking.Htsim.Component
import DatacenterNetworking.Lib.DueLine
import DatacenterNetworking.Htsim.Pipe
import DatacenterNetworking.Htsim.FifoQueue
import DatacenterNetworking.Htsim.PairPending
import DatacenterNetworking.Htsim.TimelyRate
import DatacenterNetworking.Htsim.DupAcks
import DatacenterNetworking.Htsim.PairGap
import DatacenterNetworking.Htsim.Element
import DatacenterNetworking.Htsim.PriorityQueue
import DatacenterNetworking.Htsim.FairElements
import DatacenterNetworking.Htsim.Disposal
import DatacenterNetworking.Htsim.Reclaim
import DatacenterNetworking.Htsim.FairLedger
import DatacenterNetworking.Htsim.WorkConservation
import DatacenterNetworking.Htsim.StocRotation
import DatacenterNetworking.Htsim.StocLedger
import DatacenterNetworking.Htsim.AprxSketch
import DatacenterNetworking.Htsim.AprxIdle
import DatacenterNetworking.Conga.CoreQueue
import DatacenterNetworking.Conga.LeastCongested
import DatacenterNetworking.Dpdk.Checksum
import DatacenterNetworking.Htsim.Workloads
import DatacenterNetworking.Dpdk.Host
import DatacenterNetworking.Dpdk.ReceiverPool
import DatacenterNetworking.Htsim.DctcpAlpha
import DatacenterNetworking.Htsim.FlowGenerator
import DatacenterNetworking.Htsim.OfferedLoad
import DatacenterNetworking.Htsim.GeneratedFlows
import DatacenterNetworking.Htsim.FlowCap
import DatacenterNetworking.Htsim.FlowAccounting
import DatacenterNetworking.Lib.Lindley
import DatacenterNetworking.Htsim.BurstBound
import DatacenterNetworking.Htsim.EventView
import DatacenterNetworking.Htsim.Network
import DatacenterNetworking.Htsim.NetworkPlaces
import DatacenterNetworking.Htsim.NetworkView
import DatacenterNetworking.Htsim.NetworkOrder
import DatacenterNetworking.Htsim.NetworkDelay
import DatacenterNetworking.Lib.Walk
import DatacenterNetworking.Htsim.FatTree
import DatacenterNetworking.Htsim.TcpPrompt
import DatacenterNetworking.Htsim.SlowStart
import DatacenterNetworking.Lib.Simulation
import DatacenterNetworking.Htsim.NetworkFlight
import DatacenterNetworking.Htsim.NetworkHost
import DatacenterNetworking.Htsim.Connection
import DatacenterNetworking.Htsim.ConnectionFlow
import DatacenterNetworking.Htsim.AckOrder
import DatacenterNetworking.Htsim.NetworkLoad
import DatacenterNetworking.Lib.PushOut
import DatacenterNetworking.Htsim.ServiceOrder
import DatacenterNetworking.Htsim.LoneFlow
