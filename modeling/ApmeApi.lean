import ApmeApi.Lib.Base64
import ApmeApi.Lib.Broadcast
import ApmeApi.Lib.Embedding
import ApmeApi.Lib.Interaction
import ApmeApi.Lib.Json
import ApmeApi.Lib.JsonGrammar
import ApmeApi.Lib.JsonText
import ApmeApi.Lib.LastMatch
import ApmeApi.Lib.Lines
import ApmeApi.Lib.Lockstep
import ApmeApi.Lib.Loop
import ApmeApi.Lib.MessageStream
import ApmeApi.Lib.Ownership
import ApmeApi.Lib.Pool
import ApmeApi.Lib.Refinement
import ApmeApi.Lib.Shell
import ApmeApi.Lib.ShellScript
import ApmeApi.Lib.StringLiteral
import ApmeApi.Lib.Text
import ApmeApi.Lib.Trace
import ApmeApi.Lib.Traversal
import ApmeApi.Lib.UnicodeEscape
import ApmeApi.Lib.Unwinding
import ApmeApi.Lib.Utf8
import ApmeApi.Lib.Versioned
import ApmeApi.Lib.WebOrigin
import ApmeApi.Secrets.Agreement
import ApmeApi.Secrets.Checkout
import ApmeApi.Secrets.Consumers
import ApmeApi.Secrets.Dotenv
import ApmeApi.Secrets.Emitters
import ApmeApi.Secrets.Entrypoint
import ApmeApi.Secrets.Environments
import ApmeApi.Secrets.Folding
import ApmeApi.Secrets.Loaders
import ApmeApi.Secrets.Recipes
import ApmeApi.Secrets.Rereading
import ApmeApi.Secrets.WorkingCopies
import ApmeApi.Service.AccessControl
import ApmeApi.Service.Auth
import ApmeApi.Service.Authorization
import ApmeApi.Service.BearerToken
import ApmeApi.Service.Calls
import ApmeApi.Service.CaseAnswers
import ApmeApi.Service.CaseHistory
import ApmeApi.Service.CaseVersions
import ApmeApi.Service.Cases
import ApmeApi.Service.Commit
import ApmeApi.Service.DefiniteErrors
import ApmeApi.Service.Durability
import ApmeApi.Service.EventOrder
import ApmeApi.Service.Fingerprint
import ApmeApi.Service.Handlers
import ApmeApi.Service.Http
import ApmeApi.Service.Isolation
import ApmeApi.Service.Listing
import ApmeApi.Service.Mutations
import ApmeApi.Service.Noninterference
import ApmeApi.Service.Origins
import ApmeApi.Service.Provenance
import ApmeApi.Service.Publication
import ApmeApi.Service.Reference
import ApmeApi.Service.Replay
import ApmeApi.Service.Router
import ApmeApi.Service.Scoping
import ApmeApi.Service.Snapshot
import ApmeApi.Service.Socket
import ApmeApi.Service.Sockets
import ApmeApi.Service.Standing
import ApmeApi.Service.Stream
import ApmeApi.Service.System
import ApmeApi.Startup.Process
import ApmeApi.Startup.Serving
import ApmeApi.Startup.Settings
import ApmeApi.Store.Confinement
import ApmeApi.Store.Optimistic
import ApmeApi.Store.Reference
import ApmeApi.Store.Sql
import ApmeApi.Store.Tables
import ApmeApi.Store.Versions
import ApmeApi.Transport.Availability
import ApmeApi.Transport.Avenues
import ApmeApi.Transport.ConnectionBudget
import ApmeApi.Transport.Disclosure
import ApmeApi.Transport.FrameGrammar
import ApmeApi.Transport.Framing
import ApmeApi.Transport.Listener
import ApmeApi.Transport.Nats
import ApmeApi.Transport.Signals
import ApmeApi.Transport.StatusProtocol
import ApmeApi.Transport.Tcp
import ApmeApi.Types
import ApmeApi.UuidNotation
