import Macbeth.Abci.BuildBlock
import Macbeth.Abci.NonDeterministicData
import Macbeth.Checkpoint.Chain
import Macbeth.Lib.Lru

/-!
# The consensus application (`abci.rs`)

CometBFT asks a node whether a proposal is fine (`process_proposal`) and later tells it which
proposal was decided (`finalize_block`).  A node that finds a proposal fine keeps the block it
built under the proposal's hash; when the proposal is decided it takes the block from there,
or builds it again.  Both ways the block's version and vote go to the activation manager, and
the hash of the block is the answer.

What all nodes of a network share are the parameters; a node has its own database, key,
checkpoints and cache.  A panic ends the process.
-/

namespace Macbeth

open Outcome Checked

/-! ## Requests -/

/-- `RequestProcessProposal` and `RequestFinalizeBlock`, as far as they are read; heights and
times are the signed words of the message, reinterpreted as the code does.  The address of a
proposer is that of a validator of CometBFT and has twenty bytes. -/
structure Proposal where
  height : BitVec 64
  hash : List UInt8
  time : Option (BitVec 64)
  txs : List (List UInt8)
  proposerAddress : Address
  deriving DecidableEq, Repr

/-- `VERIFY_ACCEPTED` and `VERIFY_REJECT`. -/
inductive VerifyStatus where
  | accepted
  | reject
  deriving DecidableEq, Repr

/-- `ResponseFinalizeBlock`: the data of each result and the hash of the block. -/
structure ResponseFinalizeBlock where
  txResults : List (List UInt8)
  appHash : BitVec 256
  deriving DecidableEq, Repr

/-! ## Nodes -/

/-- What the nodes of a network share. -/
structure AbciParams where
  builder : BlockBuilder
  /-- `TransactionSigned::decode_enveloped`. -/
  decodeEnveloped : List UInt8 → Option TransactionSigned
  /-- `validate_block_pre_execution`. -/
  validateBlockPreExecution : BlockWithContext → Bool
  /-- `validate_header`. -/
  validateHeader : SealedHeader → Bool
  /-- The length and the versions of the extra data. -/
  validateExtraData : ExtraDataHeader → Bool
  isTestnet : Bool

/-- `ABCIClient`, with the cache of the built blocks. -/
structure AbciNode where
  chain : CommittedChain
  aggregatePublicKey : Option PublicKey
  isFedNode : Bool
  /-- Whether warnings are logged. -/
  warnEnabled : Bool
  checkpoints : BitcoinCheckpointsChain
  activation : ActivationManager
  cache : LruMap (List UInt8) BlockWithContext 5
  trackedFinal : Option (List UInt8)

def runtimeVersionV2 : RuntimeVersion := ⟨0, 2⟩

def runtimeVersionV3 : RuntimeVersion := ⟨0, 3⟩

/-- `FLOOR_BASE_FEE_PER_GAS_V2`. -/
def floorBaseFeePerGasV2 : BitVec 64 := 5000000

/-- `FLOOR_BASE_FEE_PER_GAS_V3`. -/
def floorBaseFeePerGasV3 : BitVec 64 := 500000

/-- The floor of a version this software knows. -/
def knownFloor (version : RuntimeVersion) : Option (Option (BitVec 64)) :=
  if version = runtimeVersionGenesis then some none
  else if version = runtimeVersionV2 then some (some floorBaseFeePerGasV2)
  else if version = runtimeVersionV3 then some (some floorBaseFeePerGasV3)
  else none

/-- `nums_secp256k1_pk`. -/
def numsSecp256k1Pk : PublicKey :=
  ⟨false, 0x79be667ef9dcbbac55a06295ce870b07029bfcdb2dce28d959f2815b16f81798⟩

/-- `FixedBytes::<32>::from_slice`. -/
def fixedBytes32 {ε : Type} (bytes : List UInt8) : Outcome ε (List UInt8) :=
  if bytes.length = 32 then ok bytes else panic

namespace AbciParams

variable (params : AbciParams)

/-- `transactions_signed_from_bytes`. -/
def transactionsSignedFromBytes (txs : List (List UInt8)) : Option (List TransactionSigned) :=
  txs.mapM params.decodeEnveloped

/-- `validate_extra_data_header`. -/
def validateExtraDataHeader (header : EthHeader) (key : PublicKey) : Bool :=
  if header.number = 0 then true
  else match header.extraData with
    | none => false
    | some edh =>
      params.validateExtraData edh && edh.aggregatedPublicKey ≠ numsSecp256k1Pk &&
        edh.aggregatedPublicKey = key

/-- `validate_header_standalone`. -/
def validateHeaderStandalone (header : EthHeader) (key : PublicKey) : Bool :=
  params.validateExtraDataHeader header key && header.beneficiary = 0

/-- `validate_block`, with the key of the node. -/
def validateBlock (key : Option PublicKey) (block : BlockWithContext) : Bool :=
  params.validateBlockPreExecution block && params.validateHeader block.header &&
    match key with
    | some key => params.validateHeaderStandalone block.header.header key
    | none => false

/-- What `finalize_block` does if it has no block. -/
def rebuildBlock (chain : CommittedChain) (r : Proposal) : Outcome Empty BlockWithContext := do
  let first ← expect r.txs.head?
  let ndd ← expect (NonDeterministicData.deserialize params.builder.exec.btc first).toOption
  -- version 0 has no recipient and is supported for the history of the testnet
  let recipient ← expect (match ndd.blockFeeRecipientAddress with
    | some address => some address
    | none => if params.isTestnet then some r.proposerAddress else none)
  let timestamp ← expect r.time
  let transactions ← expect
    (if r.txs.tail.isEmpty then some [] else params.transactionsSignedFromBytes r.txs.tail)
  -- a version that is not known has the latest floor; the activation manager refuses it later
  let floor := (knownFloor ndd.runtimeVersion).getD (some floorBaseFeePerGasV3)
  let args : BuildArgs :=
    ⟨transactions, ndd.runtimeVersion, ndd.networkUpgradePayload, floor, recipient,
      ndd.bitcoinBlockHash, ndd.aggregatedPublicKey, timestamp⟩
  match params.builder.buildAndExecute chain args with
  | .ok block => ok block
  | _ => panic

end AbciParams

/-! ## Proposals -/

/-- A rejected proposal; most rejections are logged with the number of transactions. -/
inductive Rejection where
  | plain
  | logged
  deriving DecidableEq, Repr

namespace AbciNode

variable (params : AbciParams) (node : AbciNode)

/-- The activation manager's part of `process_proposal`: the floor to build with. -/
def processFloor (height : BitVec 64) (version : RuntimeVersion) :
    Outcome Rejection (Option (BitVec 64)) :=
  match node.activation.onProcessProposal height version with
  | .ok (.process version _) => expect (knownFloor version)
  | .ok (.rejectBlock _ _) => err .plain
  | _ => panic

/-- The checks of `process_proposal`, up to the cache. -/
def examineProposal (r : Proposal) : Outcome Rejection (List UInt8 × BlockWithContext) := do
  let aggPk ← ofOption node.aggregatePublicKey .plain
  let timestamp ← ofOption r.time .plain
  let hash ← fixedBytes32 r.hash
  let first ← ofOption r.txs.head? .logged
  let ndd ← ofExcept (NonDeterministicData.deserialize params.builder.exec.btc first)
    fun _ => .logged
  let recipient ← ofOption ndd.blockFeeRecipientAddress .logged
  ensure (node.checkpoints.containsByHash ndd.bitcoinBlockHash = true) .logged
  ensure (aggPk = ndd.aggregatedPublicKey) .logged
  let transactions ← ofOption (params.transactionsSignedFromBytes r.txs.tail) .logged
  let floor ← node.processFloor r.height ndd.runtimeVersion
  let args : BuildArgs :=
    ⟨transactions, ndd.runtimeVersion, ndd.networkUpgradePayload, floor, recipient,
      ndd.bitcoinBlockHash, aggPk, timestamp⟩
  let block ← (params.builder.buildAndExecute node.chain args).mapErr fun _ => .logged
  ensure (params.validateBlock node.aggregatePublicKey block = true) .logged
  return (hash, block)

/-- `process_proposal`.  The log of a rejection subtracts one from the number of
transactions. -/
def processProposal (r : Proposal) : Outcome Empty (VerifyStatus × AbciNode) :=
  match node.examineProposal params r with
  | .ok (hash, block) => ok (.accepted, { node with cache := node.cache.insert hash block })
  | .err .plain => ok (.reject, node)
  | .err .logged =>
    if node.warnEnabled = true ∧ params.builder.exec.checks = true ∧ r.txs = [] then panic
    else ok (.reject, node)
  | .panic => panic

/-! ## Decided proposals -/

/-- The block of a decided proposal, from the cache or built again. -/
def decidedBlock (r : Proposal) : Outcome Empty (BlockWithContext × AbciNode) := do
  let hash ← fixedBytes32 r.hash
  match node.cache.get hash with
  | (some block, cache) => return (block, { node with cache })
  | (none, cache) =>
    let block ← params.rebuildBlock node.chain r
    return (block, { node with cache := cache.insert hash block })

/-- What the activation manager is told about a finalized block. -/
structure ActivationInput where
  runtimeVersion : RuntimeVersion
  height : BitVec 64
  proposerAddress : Address
  proposerVote : Option NetworkUpgradePayload
  deriving DecidableEq, Repr

def activationInput (r : Proposal) (block : BlockWithContext) : ActivationInput :=
  ⟨block.runtimeVersion, r.height, r.proposerAddress, block.networkUpgradePayload⟩

/-- The call of `on_finalize_block`; a dead end panics. -/
def activate (input : ActivationInput) : Outcome Empty AbciNode :=
  match node.activation.onFinalizeBlock input.runtimeVersion input.height input.proposerAddress
      input.proposerVote with
  | (.finalize _, activation) => ok { node with activation }
  | (.rejectBlockDeadEnd _, _) => panic

/-- An RPC node takes its key from the first block. -/
def adoptKey (block : BlockWithContext) : Outcome Empty AbciNode :=
  if node.isFedNode = false ∧ block.header.header.number = 1 then do
    let edh ← expect block.header.header.extraData
    return { node with aggregatePublicKey := some edh.aggregatedPublicKey }
  else ok node

/-- `finalize_block` once the block is there. -/
def finalizeDecided (r : Proposal) (block : BlockWithContext) :
    Outcome Empty (ResponseFinalizeBlock × AbciNode) := do
  let node ← node.activate (activationInput r block)
  let node := { node with trackedFinal := some r.hash }
  let node ← node.adoptKey block
  if params.validateBlock node.aggregatePublicKey block then do
    let first ← expect r.txs.head?
    return (⟨first :: block.body.map fun _ => [], block.hash⟩, node)
  else panic

/-- `finalize_block`. -/
def finalizeBlock (r : Proposal) : Outcome Empty (ResponseFinalizeBlock × AbciNode) :=
  if r.txs.isEmpty then panic
  else do
    let (block, node) ← node.decidedBlock params r
    node.finalizeDecided params r block

/-- What `finalize_block` tells the activation manager, if it gets so far. -/
def fedToActivation (r : Proposal) : Outcome Empty ActivationInput :=
  if r.txs.isEmpty then panic
  else do
    let (block, _) ← node.decidedBlock params r
    return activationInput r block

end AbciNode

/-! ## Starting a node -/

/-- `is_poa_epoch`. -/
def EthHeader.isPoaEpoch (header : EthHeader) (epochLength : BitVec 64) : Bool :=
  header.number % epochLength = 0

/-- The key a node starts with: that of the last epoch header of its chain, the best block
first; at the genesis block there is none.  The error is `FailedToRetrieveEopchHeader`. -/
def startAggregateKey (epochLength : BitVec 64) (headers : List EthHeader) :
    Outcome Unit (Option PublicKey) := do
  let header ← ofOption (headers.find? fun header => header.isPoaEpoch epochLength) ()
  if header.number > 0 then do
    -- "latest header is greater than genesis"
    let edh ← expect header.extraData
    return some edh.aggregatedPublicKey
  else return none

end Macbeth
