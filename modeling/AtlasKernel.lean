import AtlasKernel.Adapter.CacheKeys
import AtlasKernel.Adapter.CachedClients
import AtlasKernel.AnyTls.IdlePool
import AtlasKernel.AnyTls.PaddingBounds
import AtlasKernel.AnyTls.SessionClosing
import AtlasKernel.AnyTls.WriteLoop
import AtlasKernel.Dns.CacheFreshness
import AtlasKernel.Dns.FakeIp
import AtlasKernel.HttpProxy.Connection
import AtlasKernel.PacketSession.ReplyKeys
import AtlasKernel.Shadowsocks.EndOfStream
import AtlasKernel.Shadowsocks.Tunnel
import AtlasKernel.Shadowsocks.Legacy
import AtlasKernel.Shadowsocks.PacketLane
import AtlasKernel.Shadowsocks.ShadowTlsHandover
import AtlasKernel.Shadowsocks.SimpleObfsTlsUpload
import AtlasKernel.Shadowsocks.Ssr.Codec
import AtlasKernel.Shadowsocks.TlsTicketHandshake
import AtlasKernel.Shadowsocks.WakeUps
import AtlasKernel.Tun.Inspect
import AtlasKernel.Vless.XmuxUsage
import AtlasKernel.Vless.XmuxReuse
import AtlasKernel.Vless.VisionDirect
import AtlasKernel.Vless.MuxWorker
import AtlasKernel.H2.Download
import AtlasKernel.H2.GrpcProgress
import AtlasKernel.Xhttp.HttpResponse
import AtlasKernel.Xhttp.PacketUp
import AtlasKernel.Xhttp.RequestTargets
import AtlasKernel.Xhttp.StreamBridge
import AtlasKernel.Vless.MuxFrames
import AtlasKernel.AnyTls.ReadLoop
import AtlasKernel.Shadowsocks.Ssr.Udp
import AtlasKernel.Adapter.Authority
import AtlasKernel.Vless.TrafficDetection
import AtlasKernel.Vless.DownlinkDelay
import AtlasKernel.Vless.RecordLimited
import AtlasKernel.Socks.UdpAssociate
import AtlasKernel.HttpProxy.ForwardHead
import AtlasKernel.AnyTls.StreamReads
import AtlasKernel.PacketSession.UotCodec
import AtlasKernel.Adapter.Hy2Clients
import AtlasKernel.Adapter.HttpConnect
import AtlasKernel.Adapter.Registry
import AtlasKernel.Shadowsocks.KcptunSessions
import AtlasKernel.Shadowsocks.PacketIds
import AtlasKernel.Xhttp.PostBatches
import AtlasKernel.Shadowsocks.ShadowTlsClientHello
import AtlasKernel.Shadowsocks.ShadowTlsHandshakeRecords
import AtlasKernel.Shadowsocks.SsrHttpObfs
import AtlasKernel.Shadowsocks.TlsTicketRecords
import AtlasKernel.Shadowsocks.Ssr.AuthChainTurn
import AtlasKernel.Shadowsocks.SeedCfb
import AtlasKernel.Shadowsocks.PluginOptions
import AtlasKernel.Tun.PacketBounds
import AtlasKernel.Routing.Cidr
import AtlasKernel.Vless.RecordBoundaries
import AtlasKernel.Shadowsocks.Ssr.AuthChainPadding
import AtlasKernel.Vless.ShortId
import AtlasKernel.Hysteria2.UdpSessions
import AtlasKernel.Hysteria2.GeckoDelivery
