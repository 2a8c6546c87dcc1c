import IronTraffic.Bench.Schedule
import IronTraffic.Concurrency.Gradient
import IronTraffic.Config.Load
import IronTraffic.Conn.BufferPool
import IronTraffic.Conn.Exchanges
import IronTraffic.Dataplane.Delivery
import IronTraffic.Health.Grpc
import IronTraffic.Health.GrpcMode
import IronTraffic.Health.SchedulerRun
import IronTraffic.Http.Arrival
import IronTraffic.Http.Emission
import IronTraffic.Http.Framing
import IronTraffic.Http.PathSpelling
import IronTraffic.Http.PathStack
import IronTraffic.Limits.LeasedSemaphore
import IronTraffic.Policy.Soundness
import IronTraffic.Router.HostKeys
import IronTraffic.Router.Ordinals
import IronTraffic.Router.PathTrie.Independence
import IronTraffic.Router.PrefixIndex
import IronTraffic.Router.QueryCut
import IronTraffic.Router.ScratchReuse
import IronTraffic.Tls.Effects
import IronTraffic.Upstream.Reuse
import IronTraffic.Upstream.Stability
