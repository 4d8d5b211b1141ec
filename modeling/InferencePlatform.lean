import InferencePlatform.CallRuns
import InferencePlatform.OrderedDict
import InferencePlatform.DictHistory
import InferencePlatform.PythonBuiltins
import InferencePlatform.Timelines
import InferencePlatform.Readings
import InferencePlatform.GroupPacking
import InferencePlatform.CommonPrefix
import InferencePlatform.LongestPrefix
import InferencePlatform.NearestRank
import InferencePlatform.PrefixSelection
import InferencePlatform.Admission
import InferencePlatform.AdmissionLedger
import InferencePlatform.AdmissionRecords
import InferencePlatform.AdmissionHistory
import InferencePlatform.Reservation
import InferencePlatform.AdmissionBursts
import InferencePlatform.AdmissionClients
import InferencePlatform.WhileLoop
import InferencePlatform.LaneSchedule
import InferencePlatform.LaneRecurrence
import InferencePlatform.LaneBatches
import InferencePlatform.LaneWorkload
import InferencePlatform.LaneBlocks
import InferencePlatform.Batching
import InferencePlatform.BatchingPass
import InferencePlatform.BatchingServing
import InferencePlatform.BatchingIteration
import InferencePlatform.BatchingSchedule
import InferencePlatform.BatchingModes
import InferencePlatform.BatchingStatic
import InferencePlatform.BatchingRecurrence
import InferencePlatform.BatchingWaiting
import InferencePlatform.BatchingComparison
import InferencePlatform.BatchingAccounting
import InferencePlatform.BatchingComposition
import InferencePlatform.BatchingBlocking
import InferencePlatform.SeparatedText
import InferencePlatform.JsonText
import InferencePlatform.PrefixCache
import InferencePlatform.PrefixCacheKeys
import InferencePlatform.PrefixCacheRuns
import InferencePlatform.PrefixCacheMerging
import InferencePlatform.PrefixCacheContents
import InferencePlatform.PrefixCacheTurns
import InferencePlatform.Capacity
import InferencePlatform.CapacitySizing
import InferencePlatform.CapacityGrowth
import InferencePlatform.CapacityPooling
import InferencePlatform.CapacityCost
import InferencePlatform.Memory
import InferencePlatform.AdmissionMemory
import InferencePlatform.Parallelism
import InferencePlatform.ParallelClosedForm
import InferencePlatform.ParallelReplicas
import InferencePlatform.MemoryLayout
import InferencePlatform.Placement
import InferencePlatform.PlacementSelection
import InferencePlatform.PlacementPrefix
import InferencePlatform.PlacementStability
import InferencePlatform.Autoscaling
import InferencePlatform.AutoscalingMoves
import InferencePlatform.AutoscalingEvidence
import InferencePlatform.AutoscalingSizing
import InferencePlatform.AutoscalingLoop
import InferencePlatform.AutoscalingObservations
import InferencePlatform.AutoscalingRuns
import InferencePlatform.Rollouts
import InferencePlatform.Metrics
import InferencePlatform.MetricsPooling
import InferencePlatform.MetricsComparison
import InferencePlatform.Quantization
import InferencePlatform.GateComparison
import InferencePlatform.Speculation
import InferencePlatform.UndefinedReadings
import InferencePlatform.PlanFleet
import InferencePlatform.PlanFleetRelease
import InferencePlatform.PlanFleetAgreement
import InferencePlatform.PlanFleetHosting
import InferencePlatform.PlanFleetComparison
import InferencePlatform.PlanFleetReport
