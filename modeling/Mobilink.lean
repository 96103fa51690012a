import Mobilink.Library.Transition
import Mobilink.Library.Mutex
import Mobilink.Library.Recency
import Mobilink.Library.Codec
import Mobilink.Library.Bincode
import Mobilink.Core.Message
import Mobilink.Core.Http
import Mobilink.Server.Registry
import Mobilink.Server.HostOwnership
import Mobilink.Server.Tunnels
import Mobilink.Server.HandleConnection
import Mobilink.Cli.Tunnel
import Mobilink.Library.Header
import Mobilink.Server.Http
import Mobilink.Server.FrameLimits
import Mobilink.Deployment.State
import Mobilink.Deployment.Consistency
import Mobilink.Deployment.Handshake
import Mobilink.Deployment.Routing
import Mobilink.Deployment.Ownership
import Mobilink.Deployment.Options
import Mobilink.Deployment.Cleanup
import Mobilink.Cli.Local
import Mobilink.Cli.Replay
import Mobilink.Cli.Target
import Mobilink.Server.ActiveSession
import Mobilink.Core.Frames
import Mobilink.Server.Response
import Mobilink.Server.Transform
import Mobilink.Server.Rewrites
import Mobilink.Library.Fetch
import Mobilink.Server.Cors
import Mobilink.Server.Vary
import Mobilink.Cli.Stream
import Mobilink.Deployment.Transparency
import Mobilink.Library.Provenance
import Mobilink.Server.Forwarded
import Mobilink.Server.RegistryRuns
import Mobilink.Library.Locks
import Mobilink.Server.RegistryLocks
import Mobilink.Library.Cookie
import Mobilink.Server.Cookies
import Mobilink.Library.Simulation
import Mobilink.Cli.Serve
import Mobilink.Cli.HandleStream
import Mobilink.Deployment.Traffic
import Mobilink.Deployment.Exchanges
import Mobilink.Deployment.Responses
import Mobilink.Deployment.EndToEnd
import Mobilink.Library.TwoPhase
import Mobilink.Server.RegistryAtomic
import Mobilink.Library.Ranked
import Mobilink.Library.LockBounds
import Mobilink.Server.RegistryReturns
import Mobilink.Deployment.Progress
import Mobilink.Deployment.Lossless
import Mobilink.Deployment.Outcomes
import Mobilink.Deployment.Connections
