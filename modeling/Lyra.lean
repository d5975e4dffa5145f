import Lyra.Lib.KeyedTable
import Lyra.Lib.Chunks
import Lyra.Lib.Lines
import Lyra.Lib.Like
import Lyra.Store.Schema
import Lyra.Store.Codec
import Lyra.Store.Messages
import Lyra.Imap.Server
import Lyra.Imap.FolderPass
import Lyra.Imap.Answers
import Lyra.Imap.Search
import Lyra.Imap.CursorSafety
import Lyra.Imap.UidValidity
import Lyra.Imap.Condstore
import Lyra.Jobs.Snooze
import Lyra.Http.Requests
import Lyra.Store.Counters
import Lyra.Imap.Identity
import Lyra.Imap.Convergence
import Lyra.Jmap.Loop
import Lyra.Jmap.Server
import Lyra.Jmap.FullQuery
import Lyra.Jmap.Gather
import Lyra.Jmap.Deletions
import Lyra.Backup.Mbox
import Lyra.Dav.Client
import Lyra.Http.Labels
import Lyra.Jobs.Queue
import Lyra.Jobs.Workers
import Lyra.Jobs.Producers
import Lyra.Frontend.Conversation
import Lyra.Imap.AccountPass
import Lyra.Imap.LocalRows
import Lyra.Spam.Engine
import Lyra.Store.JsonText
import Lyra.Imap.Flags
import Lyra.Jmap.Writes
import Lyra.Spam.Verdicts
import Lyra.Backup.Import
import Lyra.Backup.FolderMerge
import Lyra.Backup.Reimport
import Lyra.Dav.Sync
import Lyra.Dav.Rows
import Lyra.Dav.Convergence
import Lyra.Auth.World
import Lyra.Auth.Requests
import Lyra.Auth.Totp
import Lyra.Auth.Tokens
import Lyra.Auth.Revocation
import Lyra.Auth.RateLimit
import Lyra.Frontend.Notifications
import Lyra.Frontend.Expansion
import Lyra.Push.Agreement
import Lyra.Push.Fanout
import Lyra.Net.Addresses
import Lyra.Backup.Uploads
import Lyra.Net.Fetch
import Lyra.Backup.UploadRaces
import Lyra.Backup.Extract
import Lyra.Jobs.Retries
import Lyra.Spam.SenderRaces
import Lyra.Http.RoleRaces
import Lyra.Opengpg.Session
import Lyra.Opengpg.Keys
import Lyra.Ai.Chat
import Lyra.Ai.Replies
import Lyra.Ai.Suggestions
import Lyra.Auth.Cipher
import Lyra.Auth.Rotation
import Lyra.Oauth.Refresh
import Lyra.Opengpg.Send
import Lyra.Opengpg.Read
import Lyra.Opengpg.Coverage
import Lyra.Opengpg.Enrich
import Lyra.Dav.Write
import Lyra.Dav.WriteRoundTrip
import Lyra.Bimi.Vmc
import Lyra.Search.Fts
import Lyra.Search.Like
import Lyra.Spam.SenderAddress
import Lyra.Spam.Purge
import Lyra.Backup.Credentials
import Lyra.Backup.UploadContent
import Lyra.Store.Replay
import Lyra.Store.StaleHeaders
import Lyra.Store.LegacyIds
import Lyra.Opengpg.RoundTrip
import Lyra.Lib.Base64
import Lyra.Lib.EncodedWord
import Lyra.Backup.HeaderText
import Lyra.Backup.Reconstruct
import Lyra.Lib.PercentEncoding
import Lyra.Net.ProxyRoundTrip
import Lyra.Lib.UrlPath
import Lyra.Dav.XmlScan
import Lyra.Dav.XmlForest
import Lyra.Dav.XmlText
import Lyra.Dav.Extraction
import Lyra.Dav.SyncReport
import Lyra.Jobs.Backoff
import Lyra.Imap.MetadataFetch
import Lyra.Jobs.DueTimes
import Lyra.Lib.SortedFields
import Lyra.Store.FetchErrors
import Lyra.Imap.Hierarchy
import Lyra.Dav.CalendarDates
import Lyra.Dav.Feed
import Lyra.Dav.Subscription
import Lyra.Jmap.EventSource
import Lyra.Jmap.Discovery
import Lyra.Auth.Captcha
import Lyra.Imap.IdleWatchers
import Lyra.Opengpg.RawMessages
import Lyra.Frontend.Members
import Lyra.Frontend.FolderTree
import Lyra.Frontend.Placement
import Lyra.Spam.SenderExtractors
import Lyra.Frontend.BaseSubject
import Lyra.Http.LabelSlugs
import Lyra.Imap.UidSets
import Lyra.Imap.CursorText
import Lyra.Lib.Traces
import Lyra.Frontend.MultiSelect
import Lyra.Frontend.MailStore
import Lyra.Frontend.PatchMessages
import Lyra.Frontend.ViewState
import Lyra.Frontend.Reminders
import Lyra.Backup.Reimport
