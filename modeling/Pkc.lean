import Pkc.Library.Runs
import Pkc.Publish.UpdateFlags
import Pkc.Publish.UpdateTrigger
import Pkc.Library.Patch
import Pkc.Publish.PendingEdits
import Pkc.Challenges.Conditions
import Pkc.Library.Memo
import Pkc.Lifecycle.StartStop
import Pkc.Publications.StoredComment
import Pkc.Publish.StaleCids
import Pkc.Signer.Signatures
import Pkc.Signer.VerificationCaches
import Pkc.Challenges.Rejections
import Pkc.Community.LaterAttempts
import Pkc.Exchanges.Community
import Pkc.Exchanges.Forgeries
import Pkc.Exchanges.Publisher
import Pkc.Exchanges.PublisherEnds
import Pkc.Library.Batches
import Pkc.Library.Protobuf
import Pkc.Library.Results
import Pkc.Pages.ModQueue
import Pkc.Pages.ReplyPageKinds
import Pkc.Pages.StoredPosts
import Pkc.Signer.PageSoundness
import Pkc.Signer.CrosspostChains
import Pkc.Signer.Signing
import Pkc.Challenges.RateLimits
import Pkc.Clients.AuthorNames
import Pkc.Clients.GatewayRace
import Pkc.Clients.Stats
import Pkc.Community.RecordIdentity
import Pkc.Database.Duplicates
import Pkc.Exchanges.StoredOnce
import Pkc.Helia.LruBlockstore
import Pkc.Library.Dictionary
import Pkc.Library.Liveness
import Pkc.Pages.PageSizes
import Pkc.Publications.AliasLocks
import Pkc.Publications.Aliases
import Pkc.Publish.MfsPaths
import Pkc.Publish.PostUpdates
import Pkc.Publish.PostUpdatesCycle
import Pkc.Rpc.Connections
import Pkc.Rpc.DroppedConnections
import Pkc.Rpc.RunningCommunities
import Pkc.Rpc.SettledSubscriptions
import Pkc.Challenges.Scheduling
import Pkc.Database.AuthorMemo
import Pkc.Database.CalculatedUpdates
import Pkc.Database.UpdateCycles
import Pkc.Helia.IpnsRecordCache
import Pkc.Pages.Chunking
import Pkc.Pages.DagSizes
import Pkc.Pages.LeftOutSorts
import Pkc.Pages.Feeds
import Pkc.Pages.PlannedPages
import Pkc.Publications.ReplyLookup
import Pkc.Community.IdentityRule
import Pkc.Database.NestedTransactions
import Pkc.Database.Numbering
import Pkc.Database.Retention
import Pkc.Database.StoredVotes
import Pkc.Library.ForestWalk
import Pkc.Pages.StreamedReplies
import Pkc.Pages.UnixFsTree
import Pkc.Publish.PostUpdatesBuckets
import Pkc.Publish.PurgeFlush
import Pkc.Publish.RepinWalk
import Pkc.Pages.PageBytesBudget
import Pkc.Pages.PageCidWalk
import Pkc.Publications.CrosspostDepth
import Pkc.Community.TrackedInstances
import Pkc.Community.SharedFetches
import Pkc.Publications.ShownUpdate
import Pkc.Lifecycle.Rename
import Pkc.Community.AnchorRecords
import Pkc.Community.ExportRecords
import Pkc.Community.IpnsArrivals
import Pkc.Publications.JudgedPostUpdates
import Pkc.CommunityList.Lifecycle
