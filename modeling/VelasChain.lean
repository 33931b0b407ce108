import VelasChain.Lib.Transition
import VelasChain.Lib.ForkTree
import VelasChain.Evm.State
import VelasChain.Evm.Context
import VelasChain.Evm.Precompiles
import VelasChain.Runtime.BankEvm
import VelasChain.Vote.VoteState
import VelasChain.Consensus.Tower
import VelasChain.Lib.FiniteMap
import VelasChain.Runtime.StatusCache
import VelasChain.Lib.Ledger
import VelasChain.EvmLoader.TxChunks
import VelasChain.EvmLoader.Processor
import VelasChain.Lib.Except
import VelasChain.EvmLoader.Backing
import VelasChain.Lib.Fallible
import VelasChain.ProgramRuntime.PreAccount
import VelasChain.ProgramRuntime.InvokeContext
import VelasChain.ProgramRuntime.Properties
import VelasChain.ProgramRuntime.AccountChecks
import VelasChain.Runtime.NonceInstructions
import VelasChain.Lib.Wrapping
import VelasChain.Stake.State
import VelasChain.Stake.Rewards
import VelasChain.Stake.Instructions
import VelasChain.Stake.Backing
import VelasChain.Stake.Payout
import VelasChain.Lib.Saturating
import VelasChain.Lib.Segments
import VelasChain.Sdk.EpochSchedule
import VelasChain.Evm.BlockHashes
import VelasChain.Evm.Logs
import VelasChain.Evm.PrecompileImpls
import VelasChain.Evm.Executor
import VelasChain.Vote.NewVoteState
import VelasChain.Runtime.RentCollection
import VelasChain.Turbine.ClusterNodes
import VelasChain.Lib.GreedyMatch
import VelasChain.Vote.SlotChecks
import VelasChain.Lib.BinarySearch
import VelasChain.Vote.UpdateSlotChecks
import VelasChain.Stake.Points
import VelasChain.Lib.Duration
import VelasChain.Lib.Signed
import VelasChain.Lib.SortedMap
import VelasChain.Runtime.StakeWeightedTimestamp
import VelasChain.Evm.TransactionRlp
import VelasChain.Gossip.WeightedShuffle
import VelasChain.Ledger.Blockstore
import VelasChain.Lib.KeyTable
import VelasChain.Sdk.Message
import VelasChain.Sdk.MessageCompile
import VelasChain.Stake.Merge
import VelasChain.Vote.AuthorizedVoters
import VelasChain.Vote.EpochCredits
import VelasChain.Runtime.BlockhashQueue
import VelasChain.Stake.Lamports
import VelasChain.Vote.StateUpdate
import VelasChain.LookupTable.State
import VelasChain.LookupTable.Processor
import VelasChain.LookupTable.Fork
import VelasChain.LookupTable.Resolution
