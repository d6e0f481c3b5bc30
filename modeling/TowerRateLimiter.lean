import TowerRateLimiter.Common.Coupling
import TowerRateLimiter.Common.ExpiringCache
import TowerRateLimiter.Common.FixedWindow
import TowerRateLimiter.Common.Ip
import TowerRateLimiter.Common.Observe
import TowerRateLimiter.Common.Readiness
import TowerRateLimiter.Common.Redis
import TowerRateLimiter.Common.Remote
import TowerRateLimiter.Common.Session
import TowerRateLimiter.Common.StructuredFields
import TowerRateLimiter.Common.Task
import TowerRateLimiter.Common.Time
import TowerRateLimiter.Limiter.Advertised
import TowerRateLimiter.Limiter.Builder
import TowerRateLimiter.Limiter.Decoration
import TowerRateLimiter.Limiter.Fields
import TowerRateLimiter.Limiter.Future
import TowerRateLimiter.Limiter.KeyExtractor
import TowerRateLimiter.Limiter.Lifecycle
import TowerRateLimiter.Limiter.Observed
import TowerRateLimiter.Limiter.Panics
import TowerRateLimiter.Limiter.Policy
import TowerRateLimiter.Limiter.Readiness
import TowerRateLimiter.Limiter.Response
import TowerRateLimiter.Limiter.ScopedKey
import TowerRateLimiter.Limiter.Service
import TowerRateLimiter.Limiter.Stack
import TowerRateLimiter.Limiter.Tracing
import TowerRateLimiter.Store.Coherence
import TowerRateLimiter.Store.Memory
import TowerRateLimiter.Store.MemoryHistory
import TowerRateLimiter.Store.MemoryReference
import TowerRateLimiter.Store.Namespaces
import TowerRateLimiter.Store.Parity
import TowerRateLimiter.Store.Redis
import TowerRateLimiter.Store.RedisFuture
import TowerRateLimiter.Store.RedisKeyspace
import TowerRateLimiter.Store.RedisReference
import TowerRateLimiter.System.Admission
import TowerRateLimiter.System.ClientIp
import TowerRateLimiter.System.Isolation
import TowerRateLimiter.System.Memory
import TowerRateLimiter.System.ReplicaAdmission
import TowerRateLimiter.System.ReplicaIsolation
import TowerRateLimiter.System.ReplicaOutage
import TowerRateLimiter.System.ReplicaProgress
import TowerRateLimiter.System.ReplicaResponse
import TowerRateLimiter.System.ReplicaStory
import TowerRateLimiter.System.ReplicaWindows
import TowerRateLimiter.System.Replicas
import TowerRateLimiter.System.Requests
import TowerRateLimiter.System.Responses
import TowerRateLimiter.System.StoreFailure
import TowerRateLimiter.System.Story
