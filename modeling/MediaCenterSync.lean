import MediaCenterSync.TransferEngine.Correct.Pool
import MediaCenterSync.Bandwidth.Correct.Service
import MediaCenterSync.SyncManager.Correct.Sources
import MediaCenterSync.SyncManager.Correct.Cancel
import MediaCenterSync.TransferManager.Correct.Destination
import MediaCenterSync.TransferManager.Correct.Redirect
import MediaCenterSync.TransferEngine.Correct.ChunkPlanner
import MediaCenterSync.TransferEngine.Correct.Sizes
import MediaCenterSync.TransferEngine.Correct.Requests
import MediaCenterSync.TransferEngine.Correct.Integrity
import MediaCenterSync.PeerRelay.Correct.Frames
import MediaCenterSync.Grouping.Correct.MatchGraph
import MediaCenterSync.Quality.Correct.Comparison
import MediaCenterSync.Cache.Correct.Service
import MediaCenterSync.Cache.Correct.Memory
import MediaCenterSync.PeerLink.Correct.Link
import MediaCenterSync.PeerRelay.Correct.Service
import MediaCenterSync.PeerRelay.Correct.Link
import MediaCenterSync.Correlation.Correct.Decisions
import MediaCenterSync.Correlation.Correct.Twice
import MediaCenterSync.PeerExchange.Correct.Onward
import MediaCenterSync.PeerExchange.Correct.Paths
import MediaCenterSync.PeerExchange.Correct.Refresh
import MediaCenterSync.PeerExchange.Correct.Search
import MediaCenterSync.PeerLink.Correct.Table
import MediaCenterSync.PeerManager.Correct.Friends
import MediaCenterSync.PeerManager.Correct.Bans
import MediaCenterSync.ServiceManager.Correct.Corrections
import MediaCenterSync.Planning.Correct.Space
import MediaCenterSync.SyncManager.Correct.Run
import MediaCenterSync.Planning.Correct.Claimed
import MediaCenterSync.Planning.Correct.Pins
import MediaCenterSync.Planning.Correct.Translation
import MediaCenterSync.Handlers.Correct.Refresh
import MediaCenterSync.MediaManager.Correct.DeleteFile
import MediaCenterSync.Transport.Correct.Swarm
import MediaCenterSync.Transport.Correct.Streams
import MediaCenterSync.ServiceManager.Correct.Indexing
import MediaCenterSync.Releases.Correct.Together
import MediaCenterSync.Releases.Correct.Wanted
import MediaCenterSync.Releases.Correct.Recovery
import MediaCenterSync.MediaGroups.Correct.MissingCount
import MediaCenterSync.PeerReconnect.Correct.Redial
import MediaCenterSync.Fingerprint.Correct.Identity
import MediaCenterSync.Placement.Correct.Service
import MediaCenterSync.Placement.Correct.Within
import MediaCenterSync.Filesystem.Correct.PathContainment
import MediaCenterSync.Libraries.Correct.Categories
import MediaCenterSync.Libraries.Correct.Filing
import MediaCenterSync.Landings.Correct.Indexed
import MediaCenterSync.Landings.Correct.Settled
import MediaCenterSync.Quality.Correct.Summary
import MediaCenterSync.Matching.Correct.Coordinates
import MediaCenterSync.PeerRelay.Correct.Carriage
import MediaCenterSync.TransferEngine.Correct.RoundTrip
import MediaCenterSync.Matching.Correct.Numbering
import MediaCenterSync.TransferEngine.Correct.Progress
import MediaCenterSync.TransferEngine.Correct.Pausing
import MediaCenterSync.SettingsService.Correct.Valid
import MediaCenterSync.PeerExchange.Correct.Holders
import MediaCenterSync.Releases.Correct.Plan
import MediaCenterSync.ServiceManager.Correct.Overridable
import MediaCenterSync.Releases.Correct.Choosing
import MediaCenterSync.Releases.Correct.OwnFiles
import MediaCenterSync.Releases.Correct.PeerSuggestions
import MediaCenterSync.CatalogueCache.Correct.Service
import MediaCenterSync.Naming.Correct.Another
import MediaCenterSync.Naming.Correct.Episodes
import MediaCenterSync.Releases.Correct.Grouping
import MediaCenterSync.Auth.Correct.Accounts
