import FpgaEthernet.Clocked.Run
import FpgaEthernet.Clocked.Fifo
import FpgaEthernet.Clocked.Cut
import FpgaEthernet.Numeric.OnesComplement
import FpgaEthernet.Ethernet.EthCommon
import FpgaEthernet.Ethernet.HeaderChecksum
import FpgaEthernet.Ethernet.ChecksumSync
import FpgaEthernet.Ethernet.FrameLaw
import FpgaEthernet.Ethernet.ArpDetection
import FpgaEthernet.Ethernet.IcmpChecksum
import FpgaEthernet.Ethernet.RoundTrip
import FpgaEthernet.Ethernet.UdpDataBlock
import FpgaEthernet.Ethernet.EthernetDataBlock
import FpgaEthernet.Ethernet.IcmpBlock
import FpgaEthernet.Ethernet.Framing
import FpgaEthernet.Ethernet.ArpBlock
import FpgaEthernet.Ethernet.EthernetBlock
import FpgaEthernet.Controller.CommandResponseGenerator
import FpgaEthernet.Arbiter.Delivery
import FpgaEthernet.Arbiter.ReplyRouting
import FpgaEthernet.Arbiter.ReplyOwners
import FpgaEthernet.Ethernet.FrameSequence
import FpgaEthernet.Interfaces.SequencerErase
import FpgaEthernet.Interfaces.SequencerRestore
import FpgaEthernet.CommonModules.ConfigRegisterBlock
import FpgaEthernet.CommonModules.RegisterMap
import FpgaEthernet.Server.ConfigBlockList
import FpgaEthernet.Server.IniRoundTrip
import FpgaEthernet.Clocked.Delay
import FpgaEthernet.ConfigScanner.CompleteScan
import FpgaEthernet.Ethernet.ArpAddressing
import FpgaEthernet.Flash.ConfigRoundTrip
import FpgaEthernet.Flash.Handshake
import FpgaEthernet.Arbiter.ClientRequests
import FpgaEthernet.Ethernet.CacheCoherence
import FpgaEthernet.Ethernet.MacReady
import FpgaEthernet.Ethernet.IcmpEcho
import FpgaEthernet.Ethernet.StreamSelection
import FpgaEthernet.Ethernet.DisabledStreams
import FpgaEthernet.Ethernet.FifoThrottle
import FpgaEthernet.Arbiter.Timeout
import FpgaEthernet.Ethernet.EndOfPacket
import FpgaEthernet.Flash.PageDecoding
import FpgaEthernet.Ethernet.MdioSettings
import FpgaEthernet.Ethernet.ConfigWatchdog
import FpgaEthernet.Ethernet.VerificationReads
import FpgaEthernet.Flash.WriteConsumption
import FpgaEthernet.Flash.SectorErase
import FpgaEthernet.Flash.Readback
import FpgaEthernet.Interfaces.EthernetCrocBuffer
import FpgaEthernet.Interfaces.EthernetCabacBuffer
import FpgaEthernet.Interfaces.SequencerWrites
import FpgaEthernet.Controller.ReplyStream
import FpgaEthernet.Ethernet.FrameTermination
import FpgaEthernet.Server.WaitForDone
import FpgaEthernet.Server.ReadEpcq
import FpgaEthernet.Server.WriteEpcq
import FpgaEthernet.Server.WriteFirmware
import FpgaEthernet.RemoteUpdate.RemoteUpdateControl
import FpgaEthernet.Server.ConfigEncoding
import FpgaEthernet.Ethernet.EthernetDataRouter
import FpgaEthernet.Controller.CommandPath
import FpgaEthernet.Storage.SectorFill
import FpgaEthernet.Server.FlashContents
import FpgaEthernet.Flash.StartUp
import FpgaEthernet.Controller.FrameCommands
import FpgaEthernet.Ethernet.UdpLink
import FpgaEthernet.Ethernet.ArpNetwork
import FpgaEthernet.Ethernet.DataFrames
import FpgaEthernet.Numeric.HexStream
import FpgaEthernet.Server.AsyncReceive
import FpgaEthernet.Server.Readout
import FpgaEthernet.Server.Replies
