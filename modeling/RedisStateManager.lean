import RedisStateManager.TransitionSystem
import RedisStateManager.ThreadPool
import RedisStateManager.ThreadPoolStep
import RedisStateManager.ThreadPoolQueue
import RedisStateManager.ThreadPoolManager
import RedisStateManager.ThreadPoolShutdown
import RedisStateManager.ThreadPoolScaling
import RedisStateManager.Program
import RedisStateManager.RedisServer
import RedisStateManager.RedisStorage
import RedisStateManager.StorageLock
import RedisStateManager.StorageLeak
import RedisStateManager.StorageLinear
import RedisStateManager.Json
import RedisStateManager.StateManager
import RedisStateManager.RedisChannel
import RedisStateManager.ChannelLock
import RedisStateManager.ChannelState
import RedisStateManager.ChannelDelivery
import RedisStateManager.StorageFrame
import RedisStateManager.ThreadPoolNotify
import RedisStateManager.ThreadPoolWakeup
import RedisStateManager.ThreadPoolFloor
import RedisStateManager.ChannelCalls
import RedisStateManager.ChannelForget
import RedisStateManager.ChannelPresence
import RedisStateManager.ChannelRestart
import RedisStateManager.ChannelServing
import RedisStateManager.Subscription
import RedisStateManager.SubscriptionDelivery
import RedisStateManager.SubscriptionEnd
import RedisStateManager.SubscriptionForget
import RedisStateManager.StateManagerRead
import RedisStateManager.ThreadPoolAccounting
import RedisStateManager.ThreadPoolDrain
import RedisStateManager.Callers
import RedisStateManager.RedisClient
import RedisStateManager.ClientCalls
import RedisStateManager.ClientConfig
import RedisStateManager.ClientGeneration
import RedisStateManager.ClientRefinement
import RedisStateManager.CallBounds
import RedisStateManager.ClientProgress
import RedisStateManager.StateManagerSchema
import RedisStateManager.SubscriptionPublish
import RedisStateManager.StateManagerRuns
import RedisStateManager.ObjectStore
import RedisStateManager.Logging
import RedisStateManager.LoggingProgress
import RedisStateManager.Auxiliary
import RedisStateManager.LoggingEntries
import RedisStateManager.LoggingFiles
import RedisStateManager.LoggerFactory
import RedisStateManager.ChannelDestructor
import RedisStateManager.ThreadPoolTermination
