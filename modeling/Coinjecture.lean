import Coinjecture.Adzdb.Maintenance
import Coinjecture.Adzdb.Recovery
import Coinjecture.Adzdb.Reopen
import Coinjecture.Adzdb.Store
import Coinjecture.ApiServer.IndexRuns
import Coinjecture.ApiServer.Indexer
import Coinjecture.ApiServer.Matching.Book
import Coinjecture.ApiServer.Matching.CancelAuthority
import Coinjecture.ApiServer.Matching.Engine
import Coinjecture.ApiServer.Matching.FillOrKill
import Coinjecture.ApiServer.Matching.Ladders
import Coinjecture.ApiServer.Matching.Overflow
import Coinjecture.ApiServer.Matching.PriceTime
import Coinjecture.ApiServer.Matching.Reference
import Coinjecture.ApiServer.Matching.Representation
import Coinjecture.ApiServer.Matching.Sweep
import Coinjecture.ApiServer.SignInRuns
import Coinjecture.Consensus.BlockBuilder
import Coinjecture.Consensus.Coordinator.Cluster
import Coinjecture.Consensus.Coordinator.Commit
import Coinjecture.Consensus.Coordinator.Epoch
import Coinjecture.Consensus.Coordinator.Epochs
import Coinjecture.Consensus.Coordinator.Machine
import Coinjecture.Consensus.Coordinator.Quorum
import Coinjecture.Consensus.Coordinator.Salts
import Coinjecture.Consensus.Coordinator.Stalls
import Coinjecture.Consensus.Difficulty
import Coinjecture.Consensus.Miner
import Coinjecture.Consensus.SatSolver
import Coinjecture.Consensus.Solvability
import Coinjecture.Consensus.StepBounds
import Coinjecture.Consensus.SubsetSumSolver
import Coinjecture.Consensus.TspSolver
import Coinjecture.Consensus.WorkScore
import Coinjecture.Core.Blocks
import Coinjecture.Core.Commitments
import Coinjecture.Core.Crypto
import Coinjecture.Core.Extern
import Coinjecture.Core.MerkleTree
import Coinjecture.Core.MessageCodes
import Coinjecture.Core.Privacy
import Coinjecture.Core.Problem
import Coinjecture.Core.ProblemChecks
import Coinjecture.Core.ProofForgery
import Coinjecture.Core.TourSafety
import Coinjecture.Core.Transactions
import Coinjecture.Core.Types
import Coinjecture.Core.Validation
import Coinjecture.Lib.Ancestry
import Coinjecture.Lib.Bincode
import Coinjecture.Lib.Codes
import Coinjecture.Lib.Effect
import Coinjecture.Lib.Float64
import Coinjecture.Lib.Heaps
import Coinjecture.Lib.Merkle
import Coinjecture.Lib.MountainRange
import Coinjecture.Lib.Postings
import Coinjecture.Lib.Rank
import Coinjecture.Lib.RecentKeys
import Coinjecture.Lib.Records
import Coinjecture.Lib.Saturating
import Coinjecture.Lib.Selection
import Coinjecture.Lib.Table
import Coinjecture.Lib.Trace
import Coinjecture.Mempool.Admission
import Coinjecture.Mempool.BaseFee
import Coinjecture.Mempool.Runs
import Coinjecture.Mempool.Template
import Coinjecture.Network.Cpp.Announcements
import Coinjecture.Network.Cpp.Authentication
import Coinjecture.Network.Cpp.Bans
import Coinjecture.Network.Cpp.Connections
import Coinjecture.Network.Cpp.Encryption
import Coinjecture.Network.Cpp.Framing
import Coinjecture.Network.Cpp.Handshake
import Coinjecture.Network.Cpp.SyncResponses
import Coinjecture.Network.Cpp.WireCompat
import Coinjecture.Network.Mesh.CommitDelivery
import Coinjecture.Network.Mesh.ConnectionTable
import Coinjecture.Network.Mesh.GossipDelivery
import Coinjecture.Network.Mesh.Origin
import Coinjecture.Network.Mesh.Reconnection
import Coinjecture.Network.Security
import Coinjecture.Node.AccountTransfers
import Coinjecture.Node.AdzdbChain
import Coinjecture.Node.Appliers
import Coinjecture.Node.Atomicity
import Coinjecture.Node.Authorisation
import Coinjecture.Node.Backends
import Coinjecture.Node.BlockProcessing
import Coinjecture.Node.BoundWork
import Coinjecture.Node.CandidateWork
import Coinjecture.Node.Chain
import Coinjecture.Node.ChainMetadata
import Coinjecture.Node.ChainRules
import Coinjecture.Node.ClockFreedom
import Coinjecture.Node.CommonAncestor
import Coinjecture.Node.Conservation
import Coinjecture.Node.CrashedApply
import Coinjecture.Node.EscrowRuns
import Coinjecture.Node.FailedReorgs
import Coinjecture.Node.ForkAdoption
import Coinjecture.Node.ForkChoice
import Coinjecture.Node.ForkHandler
import Coinjecture.Node.ForkPaths
import Coinjecture.Node.ForkScan
import Coinjecture.Node.HeaderCommits
import Coinjecture.Node.HeaderSync
import Coinjecture.Node.HeightClusters
import Coinjecture.Node.Initialisation
import Coinjecture.Node.Interleavings
import Coinjecture.Node.LightClient
import Coinjecture.Node.LightProofs
import Coinjecture.Node.LightSoundness
import Coinjecture.Node.LightSync
import Coinjecture.Node.MapOrder
import Coinjecture.Node.MerkleProofs
import Coinjecture.Node.MountainShape
import Coinjecture.Node.NoWrap
import Coinjecture.Node.Outcomes
import Coinjecture.Node.PeerConsensus
import Coinjecture.Node.PeerTracking
import Coinjecture.Node.PoolFrame
import Coinjecture.Node.PrefixWork
import Coinjecture.Node.Production
import Coinjecture.Node.Pruning
import Coinjecture.Node.ReorgAcceptance
import Coinjecture.Node.Reorganisation
import Coinjecture.Node.Replay
import Coinjecture.Node.Replicas
import Coinjecture.Node.Runs
import Coinjecture.Node.ScoreFreedom
import Coinjecture.Node.Service
import Coinjecture.Node.ServiceCalls
import Coinjecture.Node.SignedEffects
import Coinjecture.Node.Sync
import Coinjecture.Node.SyncConvergence
import Coinjecture.Node.SyncGate
import Coinjecture.Node.SyncRounds
import Coinjecture.Node.SyncWindow
import Coinjecture.Node.TemplateNonces
import Coinjecture.Node.TipSwitch
import Coinjecture.Node.Transfers
import Coinjecture.Node.UnwindApply
import Coinjecture.Node.Unwinding
import Coinjecture.Node.Validator
import Coinjecture.Node.Verdicts
import Coinjecture.Node.WorkSummands
import Coinjecture.Rpc.CallEffects
import Coinjecture.Rpc.Server
import Coinjecture.State.AccountFiles
import Coinjecture.State.Accounts
import Coinjecture.State.AdzdbPersistence
import Coinjecture.State.ChannelRuns
import Coinjecture.State.Channels
import Coinjecture.State.DimensionalPools
import Coinjecture.State.EscrowAuth
import Coinjecture.State.Escrows
import Coinjecture.State.Marketplace
import Coinjecture.State.MarketplaceRuns
import Coinjecture.State.PoolMaintenance
import Coinjecture.State.PoolRuns
import Coinjecture.State.Stores
import Coinjecture.State.Timelocks
import Coinjecture.State.TrustLineRuns
import Coinjecture.State.TrustLines
import Coinjecture.Tokenomics.AmmRuns
import Coinjecture.Tokenomics.GovernanceRuns
import Coinjecture.Tokenomics.Rewards
import Coinjecture.Tokenomics.StakingRuns
