import Dabba.Bpf.Opcode
import Dabba.Bpf.Machine
import Dabba.SockFilter.Valid
import Dabba.SockFilter.Sound
import Dabba.SockFilter.Terminate
import Dabba.SockFilter.Unchecked
import Dabba.Program.Basic
import Dabba.Posix.Bytes
import Dabba.Posix.File
import Dabba.Pcap.Format
import Dabba.Pcap.Descriptor
import Dabba.Pcap.Session
import Dabba.Pcap.Reading
import Dabba.Pcap.RoundTrip
import Dabba.Pcap.Reader
import Dabba.Pcap.ByteOrder
import Dabba.Pcap.Replay
import Dabba.Pcap.EndOfFile
import Dabba.Posix.Write
import Dabba.Pcap.Attempt
import Dabba.Pcap.Damage
import Dabba.Posix.Footprint
import Dabba.Posix.Numbered
import Dabba.Pcap.Opening
import Dabba.Pcap.Appenders
import Dabba.SockFilter.Convert
import Dabba.Stdio.Numeral
import Dabba.Stdio.Scan
import Dabba.Stdio.Field
import Dabba.Stdio.Stream
import Dabba.Stdio.Listing
import Dabba.Stdio.Print
import Dabba.SockFilter.Insn
import Dabba.SockFilter.Parse
import Dabba.SlotRing.Basic
import Dabba.Transition.Basic
import Dabba.PacketMmap.Slot
import Dabba.PacketRx.Loop
import Dabba.PacketRx.Conservation
import Dabba.PacketRx.Order
import Dabba.PacketTx.Loop
import Dabba.PacketTx.Kernel
import Dabba.PacketTx.Order
import Dabba.Tile.Basic
import Dabba.PacketTx.Bounds
import Dabba.PacketTx.Overrun
import Dabba.Tailq.Basic
import Dabba.Dabbad.World
import Dabba.Dabbad.Mmap
import Dabba.Dabbad.Rpc
import Dabba.Program.Partial
import Dabba.Dabbad.Steady
import Dabba.Dabbad.Handlers
import Dabba.Dabbad.Registry
import Dabba.Dabbad.Get
import Dabba.Dabbad.Run
import Dabba.Dabbad.Stopping
import Dabba.Posix.OpenFds
import Dabba.Dabbad.FailedStart
import Dabba.Program.Interleave
import Dabba.Dabbad.Concurrent
import Dabba.Dabbad.Drift
import Dabba.Dabbad.Lifetime
import Dabba.Dabbad.SafeCall
import Dabba.Dabbad.OpenPcap
import Dabba.Dabbad.SafeRing
import Dabba.Dabbad.SafeStart
import Dabba.Dabbad.SafeStop
import Dabba.Dabbad.ThreadSafety
import Dabba.Dabbad.Geometry
import Dabba.Dabbad.CpuList
import Dabba.Dabbad.CpuTokens
import Dabba.Dabbad.Affinity
import Dabba.Stride.Basic
import Dabba.Dabbad.CpuListEnds
import Dabba.Dabbad.AffinityRuns
import Dabba.Dabbad.AffinityBuffer
import Dabba.Dabbad.ThreadModify
import Dabba.Dabbad.ThreadReply
import Dabba.Dabbad.InterfaceSettings
import Dabba.Dabbad.SettingsReply
import Dabba.Dabbad.Arrivals
import Dabba.Dabbad.CaptureSetup
import Dabba.Dabbad.CaptureWindow
import Dabba.Resource.Ledger
import Dabba.Dabbad.Balance
import Dabba.Dabbad.Memory
import Dabba.Dabbad.InterfaceStatus
import Dabba.Dabbad.Compartments
import Dabba.Dabbad.Acknowledged
import Dabba.Dabbad.Commands
import Dabba.SlotRing.Pool
import Dabba.PacketTx.Conservation
import Dabba.Transition.Labeled
import Dabba.Program.Calls
import Dabba.Program.Separation
import Dabba.PacketRx.Progress
import Dabba.PacketRx.Recorded
import Dabba.PacketTx.Captured
import Dabba.PacketTx.Progress
import Dabba.PacketTx.Following
import Dabba.PacketTx.Live
import Dabba.PacketRx.Logged
import Dabba.Pcap.Growing
import Dabba.Program.Ghost
import Dabba.Dabbad.Reported
import Dabba.Dabbad.PcapFiles
import Dabba.Dabbad.CaptureFiles
import Dabba.Program.Requests
import Dabba.Interface.Device
import Dabba.Dabbad.InterfaceGet
import Dabba.Dabbad.SettingsReadBack
import Dabba.Dabbad.InterfaceOffload
import Dabba.Dabbad.InterfaceCoalesce
import Dabba.Last.Basic
import Dabba.Last.Fold
import Dabba.BitEdit.Basic
import Dabba.Dabbad.InterfaceCapabilities
import Dabba.Dabbad.PortSelection
import Dabba.Resource.Heap
import Dabba.Resource.Blocks
import Dabba.Dabbad.ListBlocks
import Dabba.Dabbad.TaskBlocks
import Dabba.Dabbad.LinkBlocks
import Dabba.Dabbad.ListAgreement
import Dabba.Dabbad.CapabilitiesGet
import Dabba.Dabbad.CapabilitiesBlocks
import Dabba.Dabbad.Advertising
import Dabba.Interface.Naming
import Dabba.Dabbad.Naming
import Dabba.Dabbad.AskedFor
import Dabba.Stdio.Pieces
import Dabba.SockFilter.WholeLines
import Dabba.Cli.Arguments
import Dabba.Cli.CoalesceModify
import Dabba.Cli.Getopt
import Dabba.Cli.Modify
import Dabba.Cli.ModifyCommands
import Dabba.Cli.TaskCommands
import Dabba.Cli.Dispatch
import Dabba.Cli.GetCommands
import Dabba.Cli.GetAlike
import Dabba.Interface.FlagWord
import Dabba.Dabbad.CommandLine
import Dabba.Cli.Print
import Dabba.Dabbad.Printed
import Dabba.Cli.ThreadModify
import Dabba.Dabbad.ThreadCommands
import Dabba.Dabbad.CapabilitiesCommands
import Dabba.Dabbad.Refusal
