import LeoNdn.InterSatelliteLinks
import LeoNdn.Timeline
import LeoNdn.Loops
import LeoNdn.SimulatedNetwork
import LeoNdn.StationUpdate
import LeoNdn.AttachmentTracking
import LeoNdn.SatelliteFibs
import LeoNdn.RouteTables
import LeoNdn.HandoverManager
import LeoNdn.HandoverBuffer
import LeoNdn.ReversePath
import LeoNdn.HandoverNetwork
import LeoNdn.HandoverTunnel
import LeoNdn.HandoverFlood
import LeoNdn.HandoverDelivery
import LeoNdn.Tlv
import LeoNdn.NdnPacket
import LeoNdn.KiteProtocol
import LeoNdn.Forwarder
import LeoNdn.KiteRoutes
import LeoNdn.LinkService
import LeoNdn.KiteAckErrors
import LeoNdn.Fib
import LeoNdn.NameTree
import LeoNdn.NameTreeIterator
import LeoNdn.ForwardingTables
import LeoNdn.NewNextHop
import LeoNdn.TlvEncoding
import LeoNdn.NdnEncoding
import LeoNdn.KiteRequest
import LeoNdn.KiteAcknowledgment
import LeoNdn.CsvFiles
import LeoNdn.PairRoutes
import LeoNdn.DataForwarding
import LeoNdn.RibTable
import LeoNdn.FibUpdater
import LeoNdn.RibManager
import LeoNdn.Runs
import LeoNdn.RouteRenewal
import LeoNdn.PendingPull
import LeoNdn.KiteCallbacks
import LeoNdn.UserLinks
import LeoNdn.LinkPairing
import LeoNdn.Inheritance
import LeoNdn.RibTree
import LeoNdn.FibChanges
import LeoNdn.RibTraversal
import LeoNdn.RouteInheritance
import LeoNdn.RouteChanges
import LeoNdn.FibSync
import LeoNdn.FibCases
import LeoNdn.FibErasure
import LeoNdn.FibFollowsRib
import LeoNdn.Histories
import LeoNdn.AccessSatellites
import LeoNdn.PathCrossings
import LeoNdn.AttachmentFiles
import LeoNdn.ForwardingHints
import LeoNdn.Schedulers
import LeoNdn.PitPipelines
import LeoNdn.PitTimers
import LeoNdn.ConsumerSequences
import LeoNdn.WeightedPaths
import LeoNdn.GlobalRouting
import LeoNdn.ComputedUpdates
import LeoNdn.FibCommands
import LeoNdn.CommandRetries
import LeoNdn.UpdateQueue
import LeoNdn.TimestampReplies
import LeoNdn.RendezvousFilters
import LeoNdn.PitTable
import LeoNdn.InterestSelectors
import LeoNdn.DataMatches
import LeoNdn.HashChains
import LeoNdn.NameTreeHashtable
import LeoNdn.NameTreeContents
import LeoNdn.TableCleanup
import LeoNdn.ContentStoreTable
import LeoNdn.PriorityFifo
import LeoNdn.LpFragmenter
import LeoNdn.LpReassembler
import LeoNdn.Reassembly
import LeoNdn.OrderedMaps
import LeoNdn.LpReliability
import LeoNdn.PacketAccounts
import LeoNdn.SortedLists
import LeoNdn.Excludes
import LeoNdn.DelegationLists
import LeoNdn.SelectorsCodec
import LeoNdn.InterestCodec
import LeoNdn.CommandInterestPolicy
import LeoNdn.RetxStrategy
import LeoNdn.RequestErrors
import LeoNdn.InterestPulls
import LeoNdn.PulledInterests
import LeoNdn.VectorAccesses
import LeoNdn.HopLimits
import LeoNdn.HandoverHops
import LeoNdn.HandoverEntries
import LeoNdn.ShimCodec
import LeoNdn.InterestLifetimes
import LeoNdn.RibRuns
import LeoNdn.LongestRoutes
import LeoNdn.AnnouncedLifetimes
import LeoNdn.ProcessNackTraits
import LeoNdn.RetxSuppression
import LeoNdn.LongestPrefixes
import LeoNdn.StrategyChoice
import LeoNdn.SatelliteConsumer
import LeoNdn.ClosestSatellites
import LeoNdn.CsvTables
import LeoNdn.RunLengths
import LeoNdn.CzmlIntervals
import LeoNdn.ProducerRoutes
import LeoNdn.CbrConsumer
import LeoNdn.ActivePeriods
import LeoNdn.SatelliteMap
import LeoNdn.TunnelledTraffic
import LeoNdn.PrefixScans
import LeoNdn.RibMap
import LeoNdn.LinkSending
import LeoNdn.LpPacketSizes
import LeoNdn.PiggybackRoom
import LeoNdn.FragmentedPackets
import LeoNdn.InterestReuse
import LeoNdn.PartialEnumeration
import LeoNdn.StoredPit
import LeoNdn.EntryOrder
import LeoNdn.ContentStoreSearch
import LeoNdn.ContentStoreScans
import LeoNdn.ContentStoreLookups
import LeoNdn.AllPossibleRoutes
import LeoNdn.EnabledFaces
import LeoNdn.FlowBalance
import LeoNdn.LinkBalance
import LeoNdn.InOrderDelivery
import LeoNdn.ChunkTransfer
import LeoNdn.ChunkDelivery
import LeoNdn.Framing
import LeoNdn.StreamTransport
import LeoNdn.StreamDelivery
import LeoNdn.RecencyList
import LeoNdn.LruPolicy
import LeoNdn.FaceCallbacks
import LeoNdn.FaceOutcomes
import LeoNdn.Traces
import LeoNdn.KiteTraces
