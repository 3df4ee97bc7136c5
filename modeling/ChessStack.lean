import ChessStack.Auth.Account
import ChessStack.Auth.Revocation
import ChessStack.Client.AIPlay
import ChessStack.Client.Clock
import ChessStack.Client.Fen
import ChessStack.Client.Play
import ChessStack.Client.Replay
import ChessStack.Client.Representation
import ChessStack.Client.Saved
import ChessStack.Client.Stockfish
import ChessStack.Client.Sync
import ChessStack.Client.Undo
import ChessStack.Friends.Consent
import ChessStack.Friends.Friendship
import ChessStack.Js.Map
import ChessStack.Js.Text
import ChessStack.Library.Async
import ChessStack.Library.Interference
import ChessStack.Library.Promise
import ChessStack.Library.ReadCommitted
import ChessStack.Library.Relock
import ChessStack.Library.Solo
import ChessStack.Library.Upkeep
import ChessStack.Log.Clean
import ChessStack.Log.Hidden
import ChessStack.Log.Passes
import ChessStack.Log.Patterns
import ChessStack.Log.Scrubbed
import ChessStack.Log.Url
import ChessStack.Metrics.Faithful
import ChessStack.Metrics.Format
import ChessStack.Metrics.Lines
import ChessStack.Metrics.Registry
import ChessStack.Metrics.Series
import ChessStack.Migrations.Run
import ChessStack.Server.Authority
import ChessStack.Server.Awards
import ChessStack.Server.Cleared
import ChessStack.Server.Concession
import ChessStack.Server.Conduct
import ChessStack.Server.Elo
import ChessStack.Server.GameLog
import ChessStack.Server.Handlers
import ChessStack.Server.Lingering
import ChessStack.Server.Memory
import ChessStack.Server.Minding
import ChessStack.Server.Outcome
import ChessStack.Server.Players
import ChessStack.Server.Process
import ChessStack.Server.Quiet
import ChessStack.Server.Quorum
import ChessStack.Server.Ratings
import ChessStack.Server.Rebuild
import ChessStack.Server.Rematch
import ChessStack.Server.RoomTask
import ChessStack.Server.Seated
import ChessStack.Server.Seats
import ChessStack.Server.Serving
import ChessStack.Server.Settlement
import ChessStack.Server.Shutdown
import ChessStack.Server.Tidy
import ChessStack.Tournament.Deadlock
import ChessStack.Tournament.Finish
import ChessStack.Upload.Avatar
import ChessStack.Upload.Container
