import Ferrum.Shadowsocks.TcpReplayRun
import Ferrum.Shadowsocks.UdpReplayRun
import Ferrum.Tun.ReassemblyExact
import Ferrum.Tun.ReassemblyWrap
import Ferrum.Tun.ReassembledPacket
import Ferrum.Tun.UnsupportedProtocol
import Ferrum.Tun.MemoryDeviceRun
import Ferrum.Tun.PacketRewriteSound
import Ferrum.Tun.SystemTcpRoundTrip
import Ferrum.Crypto.NonceDiscipline
import Ferrum.Tun.UdpResponses
import Ferrum.Shadowsocks.UdpServerThreadsRun
import Ferrum.Dns.CacheRun
import Ferrum.Runtime.NetworkObservation
import Ferrum.Runtime.UdpNetworkReset
import Ferrum.Runtime.UdpBudgetRun
import Ferrum.Config.EgressFirstHops
import Ferrum.Rule.RegistryPublish
import Ferrum.Rocom.FramersAgree
import Ferrum.Runtime.ProcessTransaction
import Ferrum.Runtime.ProcessRelease
import Ferrum.Runtime.SniffPrefix
import Ferrum.Rule.PortRange
import Ferrum.Socks5.UdpCodec
import Ferrum.Sniff.TcpPrefix
import Ferrum.Tun.PeerReservations
import Ferrum.Shadowsocks.TcpReplayCalls
import Ferrum.Shadowsocks.UdpClientBatch
import Ferrum.Crypto.UdpOpenCache
import Ferrum.Tun.UdpExpire
import Ferrum.Shadowsocks.TcpFlowPeers
import Ferrum.Rule.CandidateVisits
import Ferrum.Rule.Srs.IpSet
import Ferrum.Dns.EndpointRun
import Ferrum.Dns.ResponseAnswer
import Ferrum.Config.CaptureRouteCover
import Ferrum.Rule.Srs.Uvarint
import Ferrum.Tun.Checksum
