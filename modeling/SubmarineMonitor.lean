import SubmarineMonitor.Reasoning.Memory
import SubmarineMonitor.Reasoning.Stuffing
import SubmarineMonitor.Protocol.Words
import SubmarineMonitor.Protocol.Frame
import SubmarineMonitor.Protocol.FrameWire
import SubmarineMonitor.Protocol.Tlv
import SubmarineMonitor.Protocol.TlvGrammar
import SubmarineMonitor.Bridge.MainLoop
import SubmarineMonitor.Protocol.FindField
import SubmarineMonitor.Bridge.Deframer
import SubmarineMonitor.Reasoning.Receiver
import SubmarineMonitor.Bridge.Uplink
import SubmarineMonitor.Bridge.Resync
import SubmarineMonitor.Bridge.Downlink
import SubmarineMonitor.Bridge.Sessions
import SubmarineMonitor.Reasoning.Retention
import SubmarineMonitor.Reasoning.Text
import SubmarineMonitor.Storage.DataCollection
import SubmarineMonitor.Storage.StoreQuery
import SubmarineMonitor.CentralComputer.CommGs
import SubmarineMonitor.GroundStation.GsQueries
import SubmarineMonitor.CentralComputer.ResponseBuild
import SubmarineMonitor.GroundStation.ResponseCodec
import SubmarineMonitor.CentralComputer.LncLinkClient
import SubmarineMonitor.CentralComputer.ManagementCommand
import SubmarineMonitor.Fleet.CentralComputer
import SubmarineMonitor.Fleet.LinkAlignment
import SubmarineMonitor.Fleet.Fleet
import SubmarineMonitor.Reasoning.Outcomes
import SubmarineMonitor.Fleet.FleetInvariant
import SubmarineMonitor.Fleet.FleetOperations
import SubmarineMonitor.Fleet.FleetRuns
import SubmarineMonitor.Bridge.Accumulator
import SubmarineMonitor.Bridge.CleanClose
import SubmarineMonitor.Bridge.Senders
import SubmarineMonitor.Fleet.RecordWalks
import SubmarineMonitor.CentralComputer.Connection
import SubmarineMonitor.CentralComputer.PagedRetrieval
import SubmarineMonitor.CentralComputer.TelemetryReads
import SubmarineMonitor.GroundStation.RequestCodec
import SubmarineMonitor.Fleet.Snapshot
import SubmarineMonitor.Fleet.SubmarineDirectories
import SubmarineMonitor.GroundStation.CompleteMessages
import SubmarineMonitor.Protocol.BurstErrors
import SubmarineMonitor.Protocol.FrameCapacity
import SubmarineMonitor.Protocol.FrameChunks
import SubmarineMonitor.Protocol.TlvSequence
import SubmarineMonitor.Reasoning.Archive
import SubmarineMonitor.Reasoning.TornText
import SubmarineMonitor.Storage.Appends
import SubmarineMonitor.Storage.CurrentDay
import SubmarineMonitor.Storage.SevenFiles
import SubmarineMonitor.Storage.TornLines
import SubmarineMonitor.Fleet.MissionTelemetry
import SubmarineMonitor.GroundStation.CompleteResponses
import SubmarineMonitor.Protocol.TlvEncoding
import SubmarineMonitor.Bridge.NoisyLine
import SubmarineMonitor.CentralComputer.GsLink
import SubmarineMonitor.GroundStation.GsMain
import SubmarineMonitor.GroundStation.GsSession
import SubmarineMonitor.Bridge.Clients
import SubmarineMonitor.CentralComputer.ClockSync
import SubmarineMonitor.CentralComputer.TelemetryChain
import SubmarineMonitor.GroundStation.EndToEnd
import SubmarineMonitor.Bridge.Commands
import SubmarineMonitor.Fleet.CutConnections
import SubmarineMonitor.Fleet.FleetMain
import SubmarineMonitor.Fleet.FleetTelemetry
import SubmarineMonitor.CentralComputer.GsVisitors
