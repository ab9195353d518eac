import Macbeth.Abci.ActivationManager
import Macbeth.Abci.BatchExecute
import Macbeth.Abci.BuildBlock
import Macbeth.Abci.CacheRebuild
import Macbeth.Abci.ChunkOrder
import Macbeth.Abci.Client
import Macbeth.Abci.HeaderRules
import Macbeth.Abci.NonDeterministicData
import Macbeth.Abci.OfferSnapshot
import Macbeth.Abci.StateSync
import Macbeth.Abci.UpgradeRestarts
import Macbeth.Abci.UpgradeVotes
import Macbeth.Authority.BoundedLoss
import Macbeth.Authority.CheckpointDelivery
import Macbeth.Authority.FrostTask
import Macbeth.Authority.PeginUtxos
import Macbeth.Authority.PegoutLookup
import Macbeth.Authority.PsbtAgreement
import Macbeth.Authority.PsbtValidation
import Macbeth.Authority.Retention
import Macbeth.Authority.SyncCycle
import Macbeth.Authority.WalletSync
import Macbeth.Authority.WalletSyncSafety
import Macbeth.Bitcoin.Encode
import Macbeth.Bitcoin.Types
import Macbeth.BtcServer.App
import Macbeth.BtcServer.CoinChecks
import Macbeth.BtcServer.ConflictComplete
import Macbeth.BtcServer.Consistency
import Macbeth.BtcServer.Coordinator
import Macbeth.BtcServer.Database
import Macbeth.BtcServer.DeadTransactions
import Macbeth.BtcServer.DoublePayment
import Macbeth.BtcServer.FinalizeFailure
import Macbeth.BtcServer.MakeTxLoop
import Macbeth.BtcServer.Missing
import Macbeth.BtcServer.Moves
import Macbeth.BtcServer.NoLoss
import Macbeth.BtcServer.Node
import Macbeth.BtcServer.NonceUse
import Macbeth.BtcServer.PaidPending
import Macbeth.BtcServer.PeerMaterial
import Macbeth.BtcServer.PegoutId
import Macbeth.BtcServer.PsbtChecks
import Macbeth.BtcServer.Relied
import Macbeth.BtcServer.RequestMoves
import Macbeth.BtcServer.Scheduler
import Macbeth.BtcServer.Signer
import Macbeth.BtcServer.Signing
import Macbeth.BtcServer.SigningBinding
import Macbeth.BtcServer.Sync
import Macbeth.BtcServer.SyncFork
import Macbeth.BtcServer.SyncTarget
import Macbeth.BtcServer.TrackedAgreement
import Macbeth.BtcServer.TrackedIndex
import Macbeth.BtcServer.Utxo
import Macbeth.Checkpoint.Chain
import Macbeth.Checkpoint.Reorg
import Macbeth.Checkpoint.Resume
import Macbeth.Checkpoint.RpcFailure
import Macbeth.Checkpoint.Syncer
import Macbeth.Checkpoint.Window
import Macbeth.Dkg.Coupling
import Macbeth.Dkg.Delivery
import Macbeth.Dkg.Encryption
import Macbeth.Dkg.FailedTransition
import Macbeth.Dkg.Layers
import Macbeth.Dkg.Member
import Macbeth.Dkg.Network
import Macbeth.Dkg.Rounds
import Macbeth.Dkg.StateMachine
import Macbeth.Evm.DoubleMint
import Macbeth.Evm.Executor
import Macbeth.Evm.Fees
import Macbeth.Evm.Provider
import Macbeth.Evm.Replay
import Macbeth.Evm.State
import Macbeth.Evm.Undo
import Macbeth.Lib.Bytes
import Macbeth.Lib.Checked
import Macbeth.Lib.Counters
import Macbeth.Lib.FinMap
import Macbeth.Lib.Handler
import Macbeth.Lib.HashChain
import Macbeth.Lib.InvertedIndex
import Macbeth.Lib.Latest
import Macbeth.Lib.Loop
import Macbeth.Lib.Lru
import Macbeth.Lib.Outbox
import Macbeth.Lib.Outcome
import Macbeth.Lib.Reader
import Macbeth.Lib.Run
import Macbeth.Lib.Table
import Macbeth.Lib.Wp
import Macbeth.Peg.CrashFreedom
import Macbeth.Peg.Framing
import Macbeth.Peg.MintChecks
import Macbeth.Peg.MintHeights
import Macbeth.Peg.MintValidation
import Macbeth.Peg.Minting
import Macbeth.Peg.PegContract
import Macbeth.Peg.Solvency
import Macbeth.Peg.Soundness
import Macbeth.Peg.Validate
import Macbeth.Snapshot.ExactlyOnce
import Macbeth.Snapshot.Immutable
import Macbeth.Snapshot.Manager
import Macbeth.Snapshot.Store
import Macbeth.Wallet.Address
import Macbeth.Wallet.CoinSelection
import Macbeth.Wallet.Conservation
import Macbeth.Wallet.DustFilter
import Macbeth.Wallet.MinimumChange
import Macbeth.Wallet.Psbt
import Macbeth.Wallet.RefundCheck
