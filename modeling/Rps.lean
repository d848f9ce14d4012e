import Rps.Base.System
import Rps.Base.Progress
import Rps.Base.Bytes
import Rps.Base.Dialog
import Rps.Base.Duet
import Rps.Base.Crash
import Rps.Base.Table
import Rps.Base.Copy
import Rps.Base.Ledger
import Rps.Base.Lease
import Rps.Base.Text
import Rps.Base.Cursor
import Rps.Base.Base64
import Rps.Base.Hex
import Rps.Base.Bits
import Rps.Base.Base32
import Rps.Mux.Frame
import Rps.Mux.Session
import Rps.Mux.Delivery
import Rps.Mux.Progress
import Rps.Mux.StreamIds
import Rps.Core.Transport
import Rps.Core.Protocol
import Rps.Core.Framing
import Rps.Mux.Sealed
import Rps.Controller.Policy
import Rps.Controller.PolicyDecisions
import Rps.Controller.Db
import Rps.Controller.Migration
import Rps.Controller.ClientRefs
import Rps.Controller.ProxyAuth
import Rps.Core.Psk
import Rps.Controller.Socks5
import Rps.Controller.IpText
import Rps.Controller.Socks5Udp
import Rps.Controller.WebSessions
import Rps.Controller.Totp
import Rps.Controller.ClientKeys
import Rps.Controller.HttpProxy
import Rps.Controller.HttpRequests
import Rps.Controller.HttpRewrite
import Rps.Controller.SessionCookie
import Rps.Controller.HttpTarget
import Rps.Controller.BasicAuth
import Rps.Controller.UdpAssociate
import Rps.Controller.ProxyRevocation
import Rps.Controller.ProxySessions
import Rps.Controller.TunnelStop
import Rps.Controller.UdpAttribution
import Rps.Controller.UdpSessions
import Rps.Controller.UdpCleanup
import Rps.Controller.UdpTunnel
import Rps.Controller.Resources
import Rps.Controller.Accounting
import Rps.Controller.FlushFailures
import Rps.Controller.Snapshots
import Rps.Controller.TunnelRows
import Rps.Controller.Enforcement
import Rps.Controller.Usage
import Rps.Controller.Restarts
import Rps.Controller.Boot
import Rps.Controller.Bridge
import Rps.Controller.Handshake
import Rps.Controller.Registry
import Rps.Controller.OnlineState
import Rps.Pool.Path
import Rps.Pool.Transparency
import Rps.Pool.Metering
import Rps.Pool.Shutdown
import Rps.Pool.Acquire
import Rps.Udp.Stream
import Rps.Udp.FailedOpen
import Rps.Udp.Closing
import Rps.Udp.Isolation
import Rps.Udp.Muxed
import Rps.Udp.OverMux
import Rps.Agent.WarmSlots
import Rps.Loadtest.Socks5
import Rps.Loadtest.Http
