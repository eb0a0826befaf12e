import AeronRs.Lib.Runs
import AeronRs.Lib.ByteStore
import AeronRs.Lib.Budget
import AeronRs.Lib.MachineInt
import AeronRs.Lib.Scratch
import AeronRs.Lib.RingWindow
import AeronRs.Lib.LineScan
import AeronRs.Lib.ProbeTable
import AeronRs.Frame
import AeronRs.Media.TermBuffer
import AeronRs.Media.NetworkPublication
import AeronRs.Media.ConcurrentPublication
import AeronRs.Media.LogRecord
import AeronRs.Media.PublicationInvariant
import AeronRs.Media.PublicationRun
import AeronRs.Media.PublicationKinds
import AeronRs.Media.PublishedLog
import AeronRs.Media.RetransmitHandler
import AeronRs.Media.UringPoller
import AeronRs.Media.Completions
import AeronRs.Media.Submissions
import AeronRs.Media.ChannelEndpoints
import AeronRs.Media.SharedImage
import AeronRs.Media.PollScan
import AeronRs.Media.GapSkipping
import AeronRs.Media.StreamFrames
import AeronRs.Media.Datagrams
import AeronRs.Agent.Sender
import AeronRs.Agent.SenderPass
import AeronRs.Agent.SenderSlots
import AeronRs.Agent.SenderCycle
import AeronRs.Agent.SenderWindow
import AeronRs.Agent.SenderControl
import AeronRs.Agent.Receiver
import AeronRs.Agent.ImageLog
import AeronRs.Agent.ImageRun
import AeronRs.Agent.ImageDelivery
import AeronRs.Agent.ImageArrival
import AeronRs.Agent.ImageThreads
import AeronRs.Agent.ThreadLog
import AeronRs.Agent.Interleaving
import AeronRs.Agent.SenderStream
import AeronRs.Agent.Handshake
import AeronRs.Agent.Consumption
import AeronRs.Agent.FlowControl
import AeronRs.Agent.OnData
import AeronRs.Agent.Partitions
import AeronRs.Agent.GapReports
import AeronRs.Agent.Reassembly
import AeronRs.Agent.Retransmit
import AeronRs.Agent.GapRepair
import AeronRs.Agent.ImageTable
import AeronRs.Cnc.Record
import AeronRs.Cnc.RingBuffer
import AeronRs.Cnc.RingProducers
import AeronRs.Cnc.RingQueue
import AeronRs.Cnc.Broadcast
import AeronRs.Agent.Conductor
import AeronRs.Agent.CommandStaging
import AeronRs.Agent.ReadyResponses
import AeronRs.Media.RetransmitTiming
import AeronRs.Media.SlotOwnership
import AeronRs.Agent.RetransmitSent
import AeronRs.Media.PublicationThreads
import AeronRs.Media.SubmittedFrames
import AeronRs.Media.OfferRetry
import AeronRs.Cnc.BroadcastDelivery
import AeronRs.Cnc.CncFile
import AeronRs.Agent.StatusMessages
import AeronRs.Media.LimitedScans
import AeronRs.Media.PositionGrowth
import AeronRs.Media.PendingMessages
import AeronRs.Agent.EndpointDispatch
import AeronRs.Agent.ImageHandover
import AeronRs.Client.BridgeThreads
import AeronRs.Client.BridgeExclusion
import AeronRs.Agent.SenderLimit
import AeronRs.Agent.RoundTripTime
import AeronRs.Agent.CommandCodec
import AeronRs.Client.Aeron
import AeronRs.Client.TextFields
import AeronRs.Client.Polling
import AeronRs.Media.FrameCodecs
import AeronRs.Media.ControlInbox
import AeronRs.Agent.Pipeline
import AeronRs.Agent.PipelineArrival
import AeronRs.Agent.SenderDuty
import AeronRs.Agent.DutyRuns
import AeronRs.Agent.DutyPublication
import AeronRs.Client.TransferThreads
