import Ascendance.Core.Base64
import Ascendance.Core.Database
import Ascendance.Core.Document
import Ascendance.Core.Files
import Ascendance.Core.Hex
import Ascendance.Core.History
import Ascendance.Core.IpAddress
import Ascendance.Core.Isolation
import Ascendance.Core.Json
import Ascendance.Core.JsonText
import Ascendance.Core.KeyPages
import Ascendance.Core.Keyset
import Ascendance.Core.Keyspace
import Ascendance.Core.Ledger
import Ascendance.Core.Links
import Ascendance.Core.Lists
import Ascendance.Core.Moments
import Ascendance.Core.Number
import Ascendance.Core.OrderedMap
import Ascendance.Core.Ownership
import Ascendance.Core.PosixPath
import Ascendance.Core.PropertyNames
import Ascendance.Core.Quota
import Ascendance.Core.Records
import Ascendance.Core.Regex
import Ascendance.Core.Rely
import Ascendance.Core.Search
import Ascendance.Core.Snapshot
import Ascendance.Core.SortedSet
import Ascendance.Core.Stripped
import Ascendance.Core.Text
import Ascendance.Core.Trait
import Ascendance.Core.Transition
import Ascendance.Models.AuthRefresh.Client
import Ascendance.Models.AuthRefresh.Lawful
import Ascendance.Models.AuthRefresh.Progress
import Ascendance.Models.ContentCleanup.Collections
import Ascendance.Models.ContentCleanup.DeletePostGraph
import Ascendance.Models.Credentials.Invariant
import Ascendance.Models.Credentials.Passwords
import Ascendance.Models.Credentials.Service
import Ascendance.Models.Credentials.World
import Ascendance.Models.ErrorSerialization.Bounded
import Ascendance.Models.ErrorSerialization.Fields
import Ascendance.Models.ErrorSerialization.Reading
import Ascendance.Models.ErrorSerialization.Redaction
import Ascendance.Models.ErrorSerialization.Serializer
import Ascendance.Models.Feed.CursorCodec
import Ascendance.Models.Feed.CursorLifetime
import Ascendance.Models.Feed.CursorPayload
import Ascendance.Models.Feed.CursorRoundTrip
import Ascendance.Models.Feed.CursorVariant
import Ascendance.Models.Feed.DeltaAgreement
import Ascendance.Models.Feed.DeltaFirstPage
import Ascendance.Models.Feed.DeltaLoop
import Ascendance.Models.Feed.DeltaRefresh
import Ascendance.Models.Feed.InterestMixing
import Ascendance.Models.Feed.InterestRanking
import Ascendance.Models.Feed.LoadedPages
import Ascendance.Models.Feed.NewFeed
import Ascendance.Models.Feed.NewFeedInsertion
import Ascendance.Models.Feed.NewFeedPaging
import Ascendance.Models.Feed.Snapshot
import Ascendance.Models.Feed.SnapshotAgreement
import Ascendance.Models.Feed.SnapshotPage
import Ascendance.Models.Feed.SnapshotStore
import Ascendance.Models.Feed.SnapshotWalk
import Ascendance.Models.Feed.Trending
import Ascendance.Models.Feed.TrendingOnce
import Ascendance.Models.Feed.TrendingPages
import Ascendance.Models.Feed.TrendingWalk
import Ascendance.Models.FeedInteraction.Handlers
import Ascendance.Models.FeedInteraction.Once
import Ascendance.Models.FeedInteraction.Scores
import Ascendance.Models.FeedInteraction.UserActions
import Ascendance.Models.FeedMeta.Converged
import Ascendance.Models.FeedMeta.Handler
import Ascendance.Models.FeedRestoration.Entries
import Ascendance.Models.FeedRestoration.Identity
import Ascendance.Models.FeedRestoration.Pending
import Ascendance.Models.FeedRestoration.Sessions
import Ascendance.Models.FeedRestoration.Store
import Ascendance.Models.FeedRestoration.Tracking
import Ascendance.Models.ForensicArchive.Accepted
import Ascendance.Models.ForensicArchive.Agreement
import Ascendance.Models.ForensicArchive.Bundle
import Ascendance.Models.ForensicArchive.Canonical
import Ascendance.Models.ForensicArchive.Envelope
import Ascendance.Models.ForensicArchive.Sealing
import Ascendance.Models.ForensicArchive.Verified
import Ascendance.Models.LocalStorage.Confined
import Ascendance.Models.LocalStorage.RoundTrip
import Ascendance.Models.LocalStorage.Storage
import Ascendance.Models.MediaAssets.Accounting
import Ascendance.Models.MediaAssets.Commands
import Ascendance.Models.MediaAssets.Documents
import Ascendance.Models.MediaAssets.Safety
import Ascendance.Models.Messaging.Conversation
import Ascendance.Models.Messaging.Effects
import Ascendance.Models.Messaging.History
import Ascendance.Models.Messaging.Unread
import Ascendance.Models.Messaging.Visible
import Ascendance.Models.NotificationCache.Cache
import Ascendance.Models.NotificationCache.Integrity
import Ascendance.Models.NotificationCache.Paging
import Ascendance.Models.NotificationCache.Walk
import Ascendance.Models.Notifications.Delivery
import Ascendance.Models.Notifications.Handler
import Ascendance.Models.Notifications.Once
import Ascendance.Models.Notifications.Store
import Ascendance.Models.Outbox.Delivery
import Ascendance.Models.Outbox.Event
import Ascendance.Models.Outbox.EventBus
import Ascendance.Models.Outbox.Handlers
import Ascendance.Models.Outbox.Invariant
import Ascendance.Models.Outbox.Lifecycle
import Ascendance.Models.Outbox.Payload
import Ascendance.Models.Outbox.Repository
import Ascendance.Models.Outbox.Retry
import Ascendance.Models.Outbox.Worker
import Ascendance.Models.PostCache.Cache
import Ascendance.Models.PostCache.Independence
import Ascendance.Models.PostCache.Interactions
import Ascendance.Models.PostCache.Rollback
import Ascendance.Models.PostCache.Runs
import Ascendance.Models.PostViews.Handler
import Ascendance.Models.PostViews.Once
import Ascendance.Models.Presence.Conversation
import Ascendance.Models.ProfileSync.LastWriter
import Ascendance.Models.ProfileSync.Pending
import Ascendance.Models.ProfileSync.Worker
import Ascendance.Models.Sanitizers.Mongo
import Ascendance.Models.SecurityAudit.Chain
import Ascendance.Models.SecurityAudit.Event
import Ascendance.Models.SecurityAudit.Service
import Ascendance.Models.Session.Classification
import Ascendance.Models.Session.Record
import Ascendance.Models.Session.RevokeAll
import Ascendance.Models.Session.Rotation
import Ascendance.Models.Session.Scripts
import Ascendance.Models.Session.Service
import Ascendance.Models.Social.CommentThreads
import Ascendance.Models.Social.CommunityPosts
import Ascendance.Models.Social.Content
import Ascendance.Models.Social.ContentIntegrity
import Ascendance.Models.Social.ContentLinks
import Ascendance.Models.Social.Counters
import Ascendance.Models.Social.Effects
import Ascendance.Models.Social.Engagement
import Ascendance.Models.Social.FollowRuns
import Ascendance.Models.Social.Follows
import Ascendance.Models.Social.Frames
import Ascendance.Models.Social.Handlers
import Ascendance.Models.Social.Identity
import Ascendance.Models.Social.LastAdministrator
import Ascendance.Models.Social.Lifecycle
import Ascendance.Models.Social.Membership
import Ascendance.Models.Social.MembershipBodies
import Ascendance.Models.Social.MembershipRuns
import Ascendance.Models.Social.PendingPosts
import Ascendance.Models.Social.PostCounterRuns
import Ascendance.Models.Social.PostCounters
import Ascendance.Models.Social.PostGraph
import Ascendance.Models.Social.PurgeCompleteness
import Ascendance.Models.Social.PurgedAccounts
import Ascendance.Models.Social.Schema
import Ascendance.Models.Social.UserPostCount
import Ascendance.Models.SocketServer.Admission
import Ascendance.Models.SocketServer.Delivery
import Ascendance.Models.SocketServer.Limit
import Ascendance.Models.SocketServer.RequestIp
import Ascendance.Models.SocketServer.Server
import Ascendance.Models.TaggedCache.Indexing
import Ascendance.Models.TaggedCache.Invalidation
import Ascendance.Models.TaggedCache.Reachability
import Ascendance.Models.TaggedCache.Store
import Ascendance.Models.Telemetry.Balance
import Ascendance.Models.Telemetry.Flows
import Ascendance.Models.Telemetry.Reach
import Ascendance.Models.Telemetry.Scroll
import Ascendance.Models.TransactionQueue.Conservation
import Ascendance.Models.TransactionQueue.Places
import Ascendance.Models.TransactionQueue.Queue
import Ascendance.Models.TransactionQueue.Runs
import Ascendance.Models.TrendingWorker.Acknowledged
import Ascendance.Models.TrendingWorker.Retained
import Ascendance.Models.TrendingWorker.Worker
import Ascendance.Models.UnitOfWork.Accounting
import Ascendance.Models.UnitOfWork.Call
import Ascendance.Models.UnitOfWork.Effects
import Ascendance.Models.UnitOfWork.Errors
import Ascendance.Models.UnitOfWork.Honesty
import Ascendance.Models.UnitOfWork.Limits
import Ascendance.Models.UnitOfWork.Permits
import Ascendance.Models.UnitOfWork.Semaphore
import Ascendance.Models.UnitOfWork.World
import Ascendance.Models.UnitOfWork.Wrapping
