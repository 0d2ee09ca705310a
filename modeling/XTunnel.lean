import XTunnel.Transition
import XTunnel.Net.Text
import XTunnel.Net.HostPort
import XTunnel.Net.IP
import XTunnel.Net.IPText
import XTunnel.Socks5.Packet
import XTunnel.Socks5.PortBlocking
import XTunnel.Socks5.Handshake
import XTunnel.Socks5.Strategy
import XTunnel.Udp.Association
import XTunnel.Udp.Fidelity
import XTunnel.Udp.SharedStream
import XTunnel.Udp.Leak
import XTunnel.MappedDns.Store
import XTunnel.MappedDns.Invariant
import XTunnel.MappedDns.Translation
import XTunnel.Profiles.Store
import XTunnel.Profiles.Preferences
import XTunnel.Profiles.Sync
import XTunnel.Profiles.SyncSpec
import XTunnel.Profiles.Completeness
import XTunnel.Profiles.Manual
import XTunnel.Profiles.Idempotence
import XTunnel.Service.Pool
import XTunnel.Service.System
import XTunnel.Service.Invariant
import XTunnel.Service.Routing
import XTunnel.Service.Launch
import XTunnel.Service.Credentials
import XTunnel.MappedDns.History
import XTunnel.Framing
import XTunnel.Udp.Reply
import XTunnel.Socks5.Codec
import XTunnel.Socks5.Acceptance
import XTunnel.Socks5.Client
import XTunnel.Profiles.Registry
import XTunnel.Profiles.Instances
import XTunnel.Profiles.Interleaving
import XTunnel.Service.HotSwitch
import XTunnel.Service.Slot
import XTunnel.Service.Lifecycle
import XTunnel.Circular
import XTunnel.Session.RingBuffer
import XTunnel.Fragments
import XTunnel.Service.WsNetConn
import XTunnel.Session.Limit
import XTunnel.Session.UdpSource
import XTunnel.Socks5.UdpStream
import XTunnel.Service.ECH
import XTunnel.Dns.Wire
import XTunnel.MappedDns.Handle
import XTunnel.Service.EnableFlag
import XTunnel.MappedDns.Answer
import XTunnel.Net.Uri
import XTunnel.Net.Utf8
import XTunnel.Service.NodeTest
import XTunnel.Service.NodeAgreement
import XTunnel.RoundRobin
import XTunnel.Service.Selection
import XTunnel.Socks5.Authentication
import XTunnel.Udp.Chunk
import XTunnel.Ech.Response
import XTunnel.Ech.Query
import XTunnel.Ech.Extraction
import XTunnel.Socks5.Pipeline
import XTunnel.Profiles.SyncOrder
import XTunnel.Copy
import XTunnel.Service.ProxyConn
import XTunnel.Profiles.CopySettings
import XTunnel.Service.WsAddr
import XTunnel.Socks5.UdpFrames
import XTunnel.MappedDns.Bounds
import XTunnel.MappedDns.NameEncoding
import XTunnel.Session.TcpSplice
import XTunnel.Service.TestAll
import XTunnel.Service.CfOptimizer
import XTunnel.LinkedMap
import XTunnel.Subscription.Ini
import XTunnel.Subscription.Reading
import XTunnel.Subscription.Rendering
import XTunnel.Net.Base64Decoder
import XTunnel.Subscription.TryBase64
import XTunnel.FirstFree
import XTunnel.Profiles.CopyName
import XTunnel.ListMove
import XTunnel.Profiles.DragOrder
import XTunnel.Service.CfScheduler
import XTunnel.Socks5.Reply
import XTunnel.Subscription.Fetch
import XTunnel.Session.UdpRelay
import XTunnel.Session.UdpForward
import XTunnel.Session.UdpDispatch
import XTunnel.Code
import XTunnel.RedBlack
import XTunnel.RbTree.Node
import XTunnel.RbTree.Shape
import XTunnel.RbTree.Insert
import XTunnel.RbTree.Rebalance
import XTunnel.RbTree.Erase
import XTunnel.RbTree.Search
import XTunnel.RbTree.Index
import XTunnel.RbTree.Walk
import XTunnel.HevList
import XTunnel.MappedDns.Memory
import XTunnel.MappedDns.Refinement
import XTunnel.Lwip.Pbuf
import XTunnel.Session.TcpUplink
import XTunnel.Duplex
import XTunnel.Socks5.Dialogue
import XTunnel.Session.TcpTarget
import XTunnel.FairQueue
import XTunnel.RbTree.Cached
import XTunnel.TaskSystem.Schedule
import XTunnel.TaskSystem.Queue
import XTunnel.TaskSystem.Kernel
import XTunnel.TaskSystem.Runs
import XTunnel.TaskSystem.Fairness
