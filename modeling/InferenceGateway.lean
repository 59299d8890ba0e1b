import InferenceGateway.Queue.HeapRebuild
import InferenceGateway.Queue.Histories
import InferenceGateway.Registry.StaticBands
import InferenceGateway.Processor.Shutdown
import InferenceGateway.Processor.Limits
import InferenceGateway.Registry.Pinning
import InferenceGateway.Registry.LiveQueues
import InferenceGateway.Parsers.VllmGrpc
import InferenceGateway.Predictor.Alignment
import InferenceGateway.RequestControl.CachedLookups
import InferenceGateway.RequestControl.Repackaging
import InferenceGateway.Datastore.Precedence
import InferenceGateway.Handlers.Delivery
import InferenceGateway.Handlers.Requests
import InferenceGateway.Handlers.ModelNames
import InferenceGateway.Handlers.UsageRecords
import InferenceGateway.Bbr.Forwarding
import InferenceGateway.ApproximatePrefix.Matching
import InferenceGateway.InFlightLoad.Balance
import InferenceGateway.InFlightLoad.Notifications
import InferenceGateway.Datastore.PoolUpdates
import InferenceGateway.Datalayer.EndpointEvents
import InferenceGateway.Bbr.AdaptersStore
import InferenceGateway.Scheduling.Picks
import InferenceGateway.Predictor.Deliveries
import InferenceGateway.Predictor.TokenBalance
import InferenceGateway.Registry.ScaleUp
import InferenceGateway.Processor.DispatchCycle
import InferenceGateway.Processor.Cycles
import InferenceGateway.Processor.Verdicts
import InferenceGateway.Registry.Draining
import InferenceGateway.Controller.NotRunning
import InferenceGateway.Eviction.Plugin
import InferenceGateway.Fairness.RoundRobin
import InferenceGateway.Lib.Instants
import InferenceGateway.Ordering.SloDeadline
import InferenceGateway.ApproximatePrefix.Hashing
import InferenceGateway.Bbr.ConfigMapReconciler
import InferenceGateway.Datastore.RewriteIndex
import InferenceGateway.Handlers.Chunks
import InferenceGateway.Lib.Draws
import InferenceGateway.Predictor.CompositeScores
import InferenceGateway.Predictor.RandomSample
import InferenceGateway.Registry.ShardOrder
import InferenceGateway.RequestControl.Destinations
import InferenceGateway.RequestControl.WeightedModels
