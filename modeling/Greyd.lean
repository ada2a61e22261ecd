import Greyd.CText
import Greyd.Ip
import Greyd.Support.BitCells
import Greyd.Support.AlignedBlocks
import Greyd.Support.LinearProbing
import Greyd.Hash
import Greyd.Config
import Greyd.ConfigLexer
import Greyd.ConfigParser
import Greyd.MessageText
import Greyd.MessageFraming
import Greyd.Cidr
import Greyd.Trie
import Greyd.Blacklist
import Greyd.BlacklistRuns
import Greyd.TrieMembership
import Greyd.MixedFamilies
import Greyd.Spamd
import Greyd.FeedReading
import Greyd.FeedGrammar
import Greyd.TrieWalk
import Greyd.RejectedEntry
import Greyd.Collapse
import Greyd.Greydb
import Greyd.Grey
import Greyd.ScanSteps
import Greyd.GreyRuns
import Greyd.AddressSteps
import Greyd.Lifetimes
import Greyd.ConReply
import Greyd.ReplyEnd
import Greyd.ConDialogue
import Greyd.ConSteps
import Greyd.ConRuns
import Greyd.ProxyGate
import Greyd.OutputWindow
import Greyd.ConAccounting
import Greyd.Envelope
import Greyd.Dialogue
import Greyd.ListedClients
import Greyd.StringLimit
import Greyd.GreyText
import Greyd.HeloIsolation
import Greyd.ConfigPipe
import Greyd.SqlEntries
import Greyd.ScanDrivers
import Greyd.CursorScan
import Greyd.SqlScan
import Greyd.ScanAgreement
import Greyd.HostLists
import Greyd.FwSets
import Greyd.PublishedLists
import Greyd.Sync
import Greyd.SyncRoundTrip
import Greyd.ParserReferences
import Greyd.ConfigIncludes
import Greyd.IncludeRuns
import Greyd.PermittedDomains
import Greyd.RangeCalls
import Greyd.FeedLines
import Greyd.FeedRecords
import Greyd.Setup
import Greyd.SetupLists
import Greyd.NatLookup
import Greyd.RangeBlocks
import Greyd.ListArray
import Greyd.TrieSet
import Greyd.EntryRanges
import Greyd.CidrReaders
import Greyd.MessageEscapes
import Greyd.WireText
import Greyd.ReplyStores
import Greyd.ReplyBounds
import Greyd.ReplyFormat
import Greyd.HashRuns
import Greyd.HashDeletion
import Greyd.SyncRecords
import Greyd.SyncReads
import Greyd.GreyLookups
import Greyd.TextualCidr
import Greyd.TrieSafety
import Greyd.RestBits
import Greyd.ConfigGrammar
import Greyd.ConfigLanguage
import Greyd.PgScan
import Greyd.ScanOrders
import Greyd.BdbRecords
import Greyd.ConStutter
import Greyd.Transactions
import Greyd.SessionRuns
import Greyd.ResetRuns
import Greyd.AddressBuffer
import Greyd.TokenBuffer
import Greyd.DomainFile
import Greyd.Support.SlotTable
import Greyd.PollSlots
import Greyd.MessageLines
import Greyd.EndOfData
import Greyd.Support.SerialRuns
import Greyd.DbWriters
import Greyd.Provenance
import Greyd.GreyPipe
import Greyd.GreyFlow
import Greyd.WriterLifetimes
import Greyd.Cluster
import Greyd.FeedClients
import Greyd.LoopRuns
import Greyd.DbHandle
import Greyd.SqliteDriver
import Greyd.TrappedClients
import Greyd.SeparateAddresses
