import KcpServer.Lib.Framing
import KcpServer.Lib.Transition
import KcpServer.Lib.CString
import KcpServer.Reassembly
import KcpServer.ReadProgress
import KcpServer.Relay
import KcpServer.ConnRegistry
import KcpServer.NetLink
import KcpServer.GateMirror
import KcpServer.ReadEdges
import KcpServer.SendLog
import KcpServer.Tcp.Reconnect
import KcpServer.Tcp.Registry
import KcpServer.Tcp.Locks
import KcpServer.Kcp.DealMsg
import KcpServer.Kcp.Server
import KcpServer.Kcp.Races
import KcpServer.Core.FrameLog
import KcpServer.Core.Register
import KcpServer.Core.Owner
import KcpServer.Core.Broadcast
import KcpServer.Core.PlayerIndex
import KcpServer.Core.FrameLedger
import KcpServer.Core.Finish
import KcpServer.Core.Replies
import KcpServer.Core.Pacing
import KcpServer.Core.NewRoom
import KcpServer.Core.GateEnter
import KcpServer.Core.MemberRank
import KcpServer.SendBuffer
import KcpServer.Confinement
import KcpServer.ForceClose
import KcpServer.Tcp.Deal
import KcpServer.Tcp.Blocks
import KcpServer.Kcp.Accept
import KcpServer.EndOfStream
import KcpServer.Core.Stranded
import KcpServer.Ikcp.Delivery
import KcpServer.Ikcp.Uptime
import KcpServer.Ikcp.Play
import KcpServer.Ikcp.Starvation
