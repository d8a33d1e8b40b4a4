import NestFastify.Foundation.Transition
import NestFastify.Foundation.Async
import NestFastify.Config.EnvSchema
import NestFastify.Foundation.Amqp
import NestFastify.Foundation.JavaScript
import NestFastify.Foundation.Binary64
import NestFastify.Foundation.KeyValue
import NestFastify.Foundation.RowStore
import NestFastify.Messaging.Constants
import NestFastify.Messaging.Contracts
import NestFastify.Messaging.Topology
import NestFastify.Redis.Scripts
import NestFastify.Redis.LockService
import NestFastify.Foundation.Lease
import NestFastify.Redis.LockSystem
import NestFastify.Redis.LockSafety
import NestFastify.Redis.Fencing
import NestFastify.Redis.Interference
import NestFastify.Redis.WithLock
import NestFastify.Messaging.Consume
import NestFastify.Messaging.FailurePaths
import NestFastify.Redis.Server
import NestFastify.Redis.SharedEntries
import NestFastify.Messaging.ConsumerSystem
import NestFastify.Messaging.OwnQueues
import NestFastify.Messaging.ConsumerSteps
import NestFastify.Messaging.Conservation
import NestFastify.Messaging.Unwedged
import NestFastify.Messaging.EveryCopy
import NestFastify.Messaging.FanOut
import NestFastify.Messaging.DeadLettering
import NestFastify.Messaging.SingleCopy
import NestFastify.Messaging.Idempotency
import NestFastify.Foundation.SortedSet
import NestFastify.Redis.RateLimit
import NestFastify.Redis.RateLimitSteps
import NestFastify.Redis.SlidingWindow
import NestFastify.Redis.Reordering
import NestFastify.Mail.Jobs
import NestFastify.Mail.WelcomeMail
import NestFastify.Foundation.JsString
import NestFastify.Auth.BullBoardAuth
import NestFastify.Messaging.RetryTiers
import NestFastify.Prisma.Transactions
import NestFastify.Redis.Watchdog
import NestFastify.Outbox.Relay
import NestFastify.Outbox.RelaySystem
import NestFastify.Outbox.RelayInvariant
import NestFastify.Outbox.RelaySteps
import NestFastify.Outbox.RelayOutcomes
import NestFastify.Outbox.RelaySafety
import NestFastify.Outbox.Batches
import NestFastify.Outbox.Progress
import NestFastify.Outbox.Recovery
import NestFastify.Auth.SignUp
import NestFastify.Foundation.ArrayMap
import NestFastify.Redis.PubSub
import NestFastify.Redis.Registration
import NestFastify.Redis.Dispatch
import NestFastify.Redis.Extend
import NestFastify.Redis.Transparency
import NestFastify.Redis.RenewalLoop
import NestFastify.Redis.RetryLoop
import NestFastify.Common.Guards
import NestFastify.Common.ResponseInterceptor
import NestFastify.Users.Pagination
import NestFastify.Foundation.Pages
import NestFastify.Outbox.SessionTime
import NestFastify.Redis.CacheAside
import NestFastify.Events.Flow
import NestFastify.Events.Delivery
import NestFastify.Messaging.Correlation
import NestFastify.Outbox.RelayLoop
import NestFastify.Redis.CacheSharing
import NestFastify.Redis.CacheFreshness
import NestFastify.Common.RequestLifecycle
import NestFastify.Redis.RateLimitRetry
import NestFastify.Redis.HeldLock
import NestFastify.Redis.CriticalSections
import NestFastify.Redis.Subscriptions
import NestFastify.Events.Registrations
import NestFastify.Events.Recovery
