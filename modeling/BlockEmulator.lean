import BlockEmulator.Replay
import BlockEmulator.Agreement
import BlockEmulator.ViewChange
import BlockEmulator.ConsensusLocks
import BlockEmulator.StageTruth
import BlockEmulator.RelayDuty
import BlockEmulator.AbandonedProposal
import BlockEmulator.RelayValue
import BlockEmulator.MigratedPhase
import BlockEmulator.MigrationBarrier
import BlockEmulator.AccountMigration
import BlockEmulator.ReplicaValidity
import BlockEmulator.SpringFeedback
import BlockEmulator.LoadAccounting
import BlockEmulator.PlacementTable
import BlockEmulator.PlacementNet
import BlockEmulator.BrokerValue
import BlockEmulator.GuardBounds
import BlockEmulator.SignedAmounts
import BlockEmulator.BlockVerdict
import BlockEmulator.HashChain
import BlockEmulator.AddressParity
import BlockEmulator.DatasetRows
import BlockEmulator.OfflineEpisode
import BlockEmulator.NodeShutdown
import BlockEmulator.SpringTraining
import BlockEmulator.TrainedOnce
import BlockEmulator.Proposal
import BlockEmulator.RewardParity
import BlockEmulator.StateParity
import BlockEmulator.LocalRewardParity
import BlockEmulator.Rollback
import BlockEmulator.BlockInsertion
import BlockEmulator.OldRequests
import BlockEmulator.MerkleProof
import BlockEmulator.Counters
import BlockEmulator.LabelledGraph
import BlockEmulator.PartitionClpa
import BlockEmulator.PartitionCount
import BlockEmulator.PartitionResult
import BlockEmulator.Dispatch
import BlockEmulator.BrokerRoutes
import BlockEmulator.ClpaBrokerCommittee
import BlockEmulator.BrokerOnce
import BlockEmulator.BatchNonces
import BlockEmulator.Batching
import BlockEmulator.GracePeriod
import BlockEmulator.QueueSplit
import BlockEmulator.MaskGuarantees
import BlockEmulator.MsgSending
import BlockEmulator.FeatureParity
import BlockEmulator.AnchorParity
import BlockEmulator.SceneParity
import BlockEmulator.CapacityBacklog
import BlockEmulator.ParetoFrontier
import BlockEmulator.CheckpointSelection
import BlockEmulator.NSShardCapacity
import BlockEmulator.RolloutReturns
import BlockEmulator.RewardAttribution
import BlockEmulator.OnlineUpdate
import BlockEmulator.DecisionReplay
import BlockEmulator.V2Parity
import BlockEmulator.SlicePool
import BlockEmulator.RelaySending
import BlockEmulator.SceneChunks
import BlockEmulator.WindowLoading
import BlockEmulator.EarliestFlows
import BlockEmulator.MultiAnchorMerge
import BlockEmulator.MeasureQuotients
import BlockEmulator.ChainDetails
import BlockEmulator.EpisodeEnd
import BlockEmulator.MessageFraming
import BlockEmulator.MeasureTotals
import BlockEmulator.SupervisorStop
import BlockEmulator.RelayRounds
import BlockEmulator.InferReplies
