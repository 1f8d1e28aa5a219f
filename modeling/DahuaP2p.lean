import DahuaP2p.BigEndian
import DahuaP2p.Ptcp
import DahuaP2p.PtcpCodec
import DahuaP2p.Session
import DahuaP2p.Wires
import DahuaP2p.PtcpLink
import DahuaP2p.Programs
import DahuaP2p.Streams
import DahuaP2p.StreamSupply
import DahuaP2p.GoStrings
import DahuaP2p.XmlTokens
import DahuaP2p.Pbkdf2
import DahuaP2p.Ownership
import DahuaP2p.UdpClient
import DahuaP2p.DirectHandshake
import DahuaP2p.DirectSession
import DahuaP2p.DirectIsolation
import DahuaP2p.Response
import DahuaP2p.Crypto
import DahuaP2p.Handshake
import DahuaP2p.HandshakeDialogue
import DahuaP2p.Threads
import DahuaP2p.Broadcast
import DahuaP2p.WaitGraph
import DahuaP2p.TunnelState
import DahuaP2p.TunnelStep
import DahuaP2p.TunnelActions
import DahuaP2p.TunnelLocks
import DahuaP2p.TunnelOrder
import DahuaP2p.TunnelScope
import DahuaP2p.TunnelStream
import DahuaP2p.TunnelDelivery
import DahuaP2p.TunnelReads
import DahuaP2p.TunnelRealms
import DahuaP2p.TunnelIsolation
import DahuaP2p.TunnelGrants
import DahuaP2p.TunnelWrites
import DahuaP2p.TunnelWriters
import DahuaP2p.TunnelInterrupt
import DahuaP2p.TunnelDeadlines
import DahuaP2p.TunnelSetters
import DahuaP2p.TunnelUploads
import DahuaP2p.TunnelRetire
import DahuaP2p.TunnelStall
import DahuaP2p.TunnelTracked
import DahuaP2p.TunnelShutdown
import DahuaP2p.TunnelTeardown
import DahuaP2p.TunnelListing
import DahuaP2p.TunnelOrphans
import DahuaP2p.TunnelWakeups
import DahuaP2p.TunnelDials
import DahuaP2p.TunnelProgress
import DahuaP2p.TunnelHealth
import DahuaP2p.TunnelAcks
import DahuaP2p.SessionLife
import DahuaP2p.Manager
import DahuaP2p.ManagerStep
import DahuaP2p.ManagerActions
import DahuaP2p.ManagerLists
import DahuaP2p.ManagerLeaks
import DahuaP2p.ManagerTickets
import DahuaP2p.ManagerCounts
import DahuaP2p.ManagerIdle
import DahuaP2p.ManagerHandshakes
import DahuaP2p.ManagerCapacity
import DahuaP2p.ManagerPorts
import DahuaP2p.ManagerForget
import DahuaP2p.ManagerExpiry
import DahuaP2p.ManagerTunnel
import DahuaP2p.Fleet
import DahuaP2p.FleetManager
import DahuaP2p.FleetProgress
import DahuaP2p.RtspProxy
import DahuaP2p.RtspGrammar
import DahuaP2p.RtspLockstep
import DahuaP2p.EndToEnd
import DahuaP2p.Negotiation
import DahuaP2p.BridgeLife
import DahuaP2p.BridgeShutdown
import DahuaP2p.BridgeServe
import DahuaP2p.BridgeRealms
import DahuaP2p.BridgeProcess
import DahuaP2p.BridgeRefinement
import DahuaP2p.BridgeStops
