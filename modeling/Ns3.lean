import Ns3.Lib.Machine
import Ns3.Lib.Calls
import Ns3.Lib.Reader
import Ns3.Lib.Tally
import Ns3.Core.Timer
import Ns3.Network.Address
import Ns3.Internet.Ipv6StaticRouting
import Ns3.Pmip6.Tunnel
import Ns3.Pmip6.MobilityMessage
import Ns3.Pmip6.BindingCache
import Ns3.Pmip6.Lma
import Ns3.Pmip6.LmaSteps
import Ns3.Pmip6.LmaHandoff
import Ns3.Pmip6.BindingCacheChains
import Ns3.Pmip6.LmaForwarding
import Ns3.Pmip6.LmaOrder
import Ns3.Pmip6.LmaPrefixes
import Ns3.Pmip6.LmaLifetime
import Ns3.Lib.Store
import Ns3.Pmip6.BindingUpdateList
import Ns3.Pmip6.Mag
import Ns3.Pmip6.MagSteps
import Ns3.Pmip6.MagReferences
import Ns3.Pmip6.MagRoutes
import Ns3.Pmip6.MagForwarding
import Ns3.Pmip6.MagRetransmission
import Ns3.Pmip6.RadvdApplication
import Ns3.Pmip6.RadvdRuns
import Ns3.Pmip6.SharedProfile
import Ns3.Pmip6.OptionCodecs
import Ns3.Pmip6.OptionLayout
import Ns3.Pmip6.LmaAnswers
import Ns3.Pmip6.PrefixPool
import Ns3.Pmip6.TunnelCalls
import Ns3.Network.Iterator
import Ns3.Pmip6.OptionHeaders
import Ns3.Pmip6.MobilityHeaders
import Ns3.Pmip6.Decoders
import Ns3.Pmip6.OptionWalk
import Ns3.Pmip6.OptionTransport
import Ns3.Pmip6.AckTransport
import Ns3.Lib.Block
import Ns3.Network.Buffer
import Ns3.Network.BufferSharing
import Ns3.Network.BufferIsolation
import Ns3.Network.BufferIterator
import Ns3.Network.BufferConcat
import Ns3.Network.IpChecksum
import Ns3.Lib.Spans
import Ns3.Lib.Words
import Ns3.Network.NixVector
import Ns3.Core.HeapScheduler
import Ns3.Core.DefaultSimulatorImpl
import Ns3.Core.EventDiscipline
import Ns3.Lib.Buckets
import Ns3.Core.CalendarScheduler
import Ns3.Core.CalendarOrder
import Ns3.Internet.Ipv4EndPointDemux
import Ns3.Internet.TcpDemux
import Ns3.Internet.TcpReassembly
import Ns3.Internet.TcpSocketBase
import Ns3.Internet.TcpSocketRun
import Ns3.Lib.Octets
import Ns3.Lib.Reentrant
import Ns3.Core.TypeId
import Ns3.Network.PacketMetadata
import Ns3.Network.PacketSerialize
import Ns3.Network.MetadataItems
import Ns3.Network.PacketRoundTrip
import Ns3.Network.PacketParts
import Ns3.Lib.Ring
import Ns3.Wifi.BlockAckHeader
import Ns3.Wifi.BlockAckCache
import Ns3.Wifi.BlockAckTruth
import Ns3.Internet.Ipv4Fragments
import Ns3.Internet.Ipv4Isolation
import Ns3.Internet.Ipv4Reassembly
import Ns3.Internet.Ipv6Fragments
import Ns3.Internet.Ipv6Chunks
import Ns3.Internet.Ipv6ReassemblyRun
import Ns3.Internet.Ipv6ExtensionRouting
import Ns3.Internet.HopLimit
import Ns3.Internet.Ipv6ExtensionHeader
import Ns3.Internet.Ipv6LocalDeliver
import Ns3.Internet.Ipv6HeaderWalk
import Ns3.Wifi.BlockAckManager
import Ns3.Wifi.BlockAckRetry
import Ns3.Wifi.MacRxMiddle
import Ns3.Wifi.Defragmentation
import Ns3.Wifi.BlockAckRecipient
import Ns3.Wifi.BlockAckReordering
import Ns3.Aodv.RoutingTable
import Ns3.Aodv.RoutingProtocol
import Ns3.Aodv.Routes
import Ns3.Aodv.SequenceNumbers
import Ns3.Lib.DistanceVector
import Ns3.Lib.Layers
import Ns3.Lib.Keyed
import Ns3.Aodv.Announcements
import Ns3.Aodv.LoopFreedom
import Ns3.Dsdv.RoutingTable
import Ns3.Dsdv.RoutingProtocol
import Ns3.Dsdv.Updates
import Ns3.Dsdv.Consistency
import Ns3.Dsdv.Labels
import Ns3.Dsdv.LoopFreedom
import Ns3.Olsr.State
import Ns3.Olsr.RoutingTable
import Ns3.Olsr.Routes
import Ns3.Olsr.Topology
import Ns3.Olsr.Freshness
import Ns3.Olsr.Links
import Ns3.Internet.ArpCache
import Ns3.Lib.Attempts
import Ns3.Internet.ArpSafety
import Ns3.Internet.NdiscCache
import Ns3.Internet.NdiscTimers
import Ns3.Internet.NdiscContract
import Ns3.Lib.Parser
import Ns3.Network.PacketBB
import Ns3.Network.AddressCompression
import Ns3.Network.PacketBBCodec
import Ns3.Internet.Ipv6RouteLookup
import Ns3.Internet.Ipv6RouteRemoval
import Ns3.Network.Ipv6Text
import Ns3.Internet.GlobalRouteLinks
import Ns3.Internet.TcpTransmission
import Ns3.Network.SequenceNumberOrder
import Ns3.Internet.Ipv6SourceRoute
import Ns3.Internet.Ipv6Options
import Ns3.Internet.Ipv4Overlaps
import Ns3.Internet.TcpReceiveWindow
import Ns3.Internet.RttSamples
import Ns3.Internet.TcpHandlers
import Ns3.Internet.TcpSendWindow
import Ns3.Internet.TcpNewReno
import Ns3.Internet.Ipv4EphemeralPort
import Ns3.Wifi.BlockAckScans
import Ns3.Aodv.RequestQueue
import Ns3.Wifi.Amsdu
import Ns3.Lib.Cover
import Ns3.Olsr.MprComputation
import Ns3.Aodv.RouteErrors
import Ns3.Aodv.Searches
import Ns3.Aodv.RouteDiscovery
import Ns3.Dsdv.OwnNumbers
import Ns3.Internet.GlobalRouting
import Ns3.Internet.StubNode
import Ns3.Wifi.DcfAccounting
import Ns3.Olsr.MprChoice
import Ns3.Olsr.MprCoverage
import Ns3.Olsr.LinkSet
import Ns3.Core.CairoWideint
import Ns3.Core.FixedPointProduct
import Ns3.Core.FixedPointQuotient
import Ns3.Core.TimeUnits
import Ns3.Internet.NdiscWaiting
import Ns3.Network.AddressBlockCodec
import Ns3.Olsr.HostNetworks
import Ns3.Mesh.PathErrors
