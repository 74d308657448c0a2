import Pimc.Lib.ByteMemory
import Pimc.Lib.ByteReader
import Pimc.Lib.OnesComplement
import Pimc.Lib.ErrorLog
import Pimc.Pimsm.FirstFit
import Pimc.Pimsm.StartIndex
import Pimc.Pimsm.Termination
import Pimc.Pimsm.PackSanityExact
import Pimc.Pimsm.InverseSanityCheck
import Pimc.Pimsm.PackVerified
import Pimc.TestGen.PackSimulation
import Pimc.Packets.PIMSMv2
import Pimc.Packets.IPChecksum
import Pimc.Packets.IPChecksumExact
import Pimc.Packets.IPv4PIMPacket
import Pimc.Packets.UpdateEncoding
import Pimc.Packets.PacketChecksum
import Pimc.Net.IPv4Parser
import Pimc.Parsers.IPv4Parsers
import Pimc.Parsers.NumberParsers
import Pimc.Parsers.SignedParsers
import Pimc.Yaml.Structured
import Pimc.Config.MulticastConfigLoader
import Pimc.Config.LoaderRuns
import Pimc.Config.LoaderExact
import Pimc.Config.LoaderOrder
import Pimc.Config.PIMCConfigLoader
import Pimc.Scheduler.HoldTimes
import Pimc.Packets.PacketView
import Pimc.Packets.HdrViews
import Pimc.Mclst.PacketInfo
import Pimc.Mclst.ReceiverBase
import Pimc.Mclst.IPRawReceiver
import Pimc.Mclst.Sender
import Pimc.Mclst.Beacon
import Pimc.Mclst.ReceiveLoop
import Pimc.Mclst.Session
import Pimc.Formatters.Timestamps
import Pimc.Net.IPv4Mask
import Pimc.Lib.BitPrefix
import Pimc.Net.PrefixContainment
import Pimc.Formatters.ConsumeIfUnlessEscaped
import Pimc.Lib.LineFill
import Pimc.Formatters.IndentBlock
import Pimc.Formatters.HexAsciiBlock
import Pimc.Formatters.IPv4Formatters
import Pimc.Lib.ComparisonOps
import Pimc.Core.Result
import Pimc.Packets.IPv4HdrLens
import Pimc.TestGen.InversePack
import Pimc.TestGen.InversePackAgrees
import Pimc.TestGen.InversePackSimulation
import Pimc.Lib.SoftState
import Pimc.Pimsm.Neighbor
import Pimc.Scheduler.NeighborState
import Pimc.Core.ResultStorage
import Pimc.Core.ResultLifetimes
import Pimc.Lib.Throwing
import Pimc.Core.OptionalStorage
import Pimc.Core.OptionalLifetimes
import Pimc.Config.SectionLoaders
import Pimc.Pimsm.InverseVerified
import Pimc.Config.LoadedConfig
import Pimc.Scheduler.LoadedRun
import Pimc.Net.IntfTable
