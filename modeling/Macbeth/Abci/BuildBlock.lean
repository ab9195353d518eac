import Macbeth.Abci.ActivationManager
import Macbeth.Evm.Executor

/-!
# Building a block (`excecution_utils.rs`)

A node builds the next block from the transactions of a proposal and a few more arguments: it
fills in a header on top of the best block of its database, executes the transactions on the
state after that block, and completes the header with what the execution gave.  Hashing,
sender recovery and the base-fee rule are parameters; otherwise the block is determined by
the arguments and by what the node has committed.
-/

namespace Macbeth

open Outcome Checked

/-- A header that is complete: with the roots and the gas the execution gave. -/
structure SealedHeader where
  header : EthHeader
  transactionsRoot : BitVec 256
  receiptsRoot : BitVec 256
  logsBloom : BitVec 2048
  stateRoot : BitVec 256
  gasUsed : BitVec 64
  deriving DecidableEq, Repr

/-- What the database of a node has committed. -/
structure CommittedChain where
  best : SealedHeader
  bestHash : BitVec 256
  state : ChainState

/-- Where blocks are built: the executor and the rules for headers. -/
structure BlockBuilder where
  exec : Executor
  isCancunActive : BitVec 64 → Bool
  /-- `next_block_base_fee`, with the parameters at a time. -/
  nextBlockBaseFee : SealedHeader → BitVec 64 → Option (BitVec 64)
  /-- `calculate_excess_blob_gas`. -/
  calculateExcessBlobGas : BitVec 64 → BitVec 64 → BitVec 64
  /-- `recover_signer`. -/
  recoverSigner : TransactionSigned → Option Address
  transactionsRoot : List TransactionSigned → BitVec 256
  /-- The receipts root and the bloom filter of the logs. -/
  receiptsRoot : List Receipt → BitVec 256 × BitVec 2048
  stateRoot : ChainState → BitVec 256
  /-- `hash_slow`. -/
  hash : SealedHeader → BitVec 256

/-- The arguments of `build_and_execute` that a proposal decides. -/
structure BuildArgs where
  transactions : List TransactionSigned
  runtimeVersion : RuntimeVersion
  networkUpgradePayload : Option NetworkUpgradePayload
  floorBaseFee : Option (BitVec 64)
  blockFeeRecipientAddress : Address
  bitcoinCheckpointBlockHash : BlockHash
  aggPk : PublicKey
  timestamp : BitVec 64

/-- `BlockWithContext`; of the execution outcome the receipts and the state. -/
structure BlockWithContext where
  header : SealedHeader
  hash : BitVec 256
  body : List (Address × TransactionSigned)
  pegins : List PeginData
  pegouts : List PegoutWithId
  runtimeVersion : RuntimeVersion
  networkUpgradePayload : Option NetworkUpgradePayload
  receipts : List Receipt
  state : ChainState

inductive BuildError where
  | senderRecoveryError
  | execution (e : BlockExecutionError)
  deriving DecidableEq, Repr

/-- `ETHEREUM_BLOCK_GAS_LIMIT`. -/
def ethereumBlockGasLimit : BitVec 64 := 30000000

namespace BlockBuilder

variable (builder : BlockBuilder) (chain : CommittedChain)

/-- The excess and the used blob gas of the parent, if it has any by its time. -/
def parentBlobGas (parent : EthHeader) : BitVec 64 × BitVec 64 :=
  if builder.isCancunActive parent.timestamp then
    (parent.excessBlobGas.getD 0, parent.blobGasUsed.getD 0)
  else (0, 0)

/-- `build_header_template`: the block follows the best block of the database. -/
def buildHeaderTemplate (args : BuildArgs) : Outcome BuildError EthHeader := do
  let number ← addWord builder.exec.checks chain.best.header.number 1
  return {
    parentHash := chain.bestHash
    number
    timestamp := args.timestamp
    gasLimit := ethereumBlockGasLimit
    baseFeePerGas := builder.nextBlockBaseFee chain.best args.timestamp
    beneficiary := 0
    difficulty := 0
    mixHash := 0
    parentBeaconBlockRoot :=
      if builder.isCancunActive args.timestamp then chain.best.header.parentBeaconBlockRoot else none
    blobGasUsed := if builder.isCancunActive args.timestamp then some 0 else none
    excessBlobGas :=
      if builder.isCancunActive args.timestamp then
        let (excess, used) := builder.parentBlobGas chain.best.header
        some (builder.calculateExcessBlobGas excess used)
      else none
    extraData := some ⟨args.bitcoinCheckpointBlockHash, args.aggPk, args.blockFeeRecipientAddress⟩ }

/-- The base fee is raised to the floor, if there is one. -/
def applyFloor (floor : Option (BitVec 64)) (header : EthHeader) : EthHeader :=
  { header with baseFeePerGas := header.baseFeePerGas.map fun fee =>
      match floor with
      | some floor => if fee < floor then floor else fee
      | none => fee }

/-- `complete_header`. -/
def completeHeader (header : EthHeader) (transactions : List TransactionSigned)
    (output : Executor.ExecuteOutput) (state : ChainState) : SealedHeader where
  header := header
  transactionsRoot := builder.transactionsRoot transactions
  receiptsRoot := (builder.receiptsRoot output.receipts).1
  logsBloom := (builder.receiptsRoot output.receipts).2
  stateRoot := builder.stateRoot state
  gasUsed := output.gasUsed

/-- `build_and_execute`. -/
def buildAndExecute (args : BuildArgs) : Outcome BuildError BlockWithContext := do
  let header ← builder.buildHeaderTemplate chain args
  let header := applyFloor args.floorBaseFee header
  let senders ← ofOption (args.transactions.mapM builder.recoverSigner) .senderRecoveryError
  let body := senders.zip args.transactions
  let (output, state) ←
    (builder.exec.executeWithoutVerification chain.state ⟨header, body, none⟩).mapErr .execution
  let sealed := builder.completeHeader header args.transactions output state
  return {
    header := sealed
    hash := builder.hash sealed
    body
    pegins := output.pegins
    pegouts := output.pegouts
    runtimeVersion := args.runtimeVersion
    networkUpgradePayload := args.networkUpgradePayload
    receipts := output.receipts
    state }

/-! ## What the arguments decide -/

section
variable {builder} {chain} {args : BuildArgs} {block : BlockWithContext}

/-- The header of a block is the template with the base fee raised to the floor. -/
theorem header_of_buildAndExecute (h : builder.buildAndExecute chain args = ok block) :
    ∃ header, builder.buildHeaderTemplate chain args = ok header ∧
      block.header.header = applyFloor args.floorBaseFee header ∧
      block.runtimeVersion = args.runtimeVersion ∧
      block.networkUpgradePayload = args.networkUpgradePayload := by
  obtain ⟨header, hheader, h⟩ := bind_eq_ok.mp h
  obtain ⟨senders, -, h⟩ := bind_eq_ok.mp h
  obtain ⟨⟨output, state⟩, -, h⟩ := bind_eq_ok.mp h
  rw [← ok.inj h]
  exact ⟨header, hheader, rfl, rfl, rfl⟩

/-- A block carries the arguments it was built from. -/
theorem buildAndExecute_eq_ok (h : builder.buildAndExecute chain args = ok block) :
    block.runtimeVersion = args.runtimeVersion ∧
      block.networkUpgradePayload = args.networkUpgradePayload ∧
      block.header.header.number = chain.best.header.number + 1 ∧
      block.header.header.beneficiary = 0 ∧
      block.header.header.extraData = some
        ⟨args.bitcoinCheckpointBlockHash, args.aggPk, args.blockFeeRecipientAddress⟩ := by
  obtain ⟨header, hheader, hblock, hversion, hpayload⟩ := header_of_buildAndExecute h
  obtain ⟨number, hnumber, hheader⟩ := bind_eq_ok.mp hheader
  rw [hblock, ← ok.inj hheader]
  exact ⟨hversion, hpayload, addWord_eq_ok hnumber, rfl, rfl⟩

end

end BlockBuilder

end Macbeth
