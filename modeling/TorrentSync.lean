import TorrentSync.Source.NodeByteOrder
import TorrentSync.Source.NodeRead
import TorrentSync.Source.NodeDataText
import TorrentSync.Source.NodeDataOrder
import TorrentSync.Source.NodeBucketSlots
import TorrentSync.Source.NodeTreeFind
import TorrentSync.Source.NodeTreeUnique
import TorrentSync.Source.NodeTreeNearest
import TorrentSync.Source.NodeTreeOffers
import TorrentSync.Source.BEncodeEncoderUnique
import TorrentSync.Source.BEncodeDecoderFraming
import TorrentSync.Source.BEncodeDecoderReaders
import TorrentSync.Source.MessageNesting
import TorrentSync.Source.MessageMake
import TorrentSync.Source.MessageRoundTrip
import TorrentSync.Source.NodeListCodec
import TorrentSync.Source.Callback
import TorrentSync.Source.RoutingTableFrame
import TorrentSync.Source.RoutingTableQuery
import TorrentSync.Source.RoutingTableNodeList
import TorrentSync.Source.RoutingTableReply
import TorrentSync.Source.RoutingTableFreshness
import TorrentSync.Source.NetworkRun
import TorrentSync.Source.AppSends
import TorrentSync.Source.AppOctets
import TorrentSync.Source.AppPortable
import TorrentSync.Source.LoggerRun
