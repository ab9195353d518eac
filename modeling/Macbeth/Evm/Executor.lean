import Macbeth.Evm.State

/-!
# Execution of a block (`execute.rs`, `state_change.rs`)

A block is executed transaction by transaction.  After a transaction that succeeds the
executor looks at its peg events; if it refuses one of them, it throws the changes of the
transaction away and writes only the sender with its new nonce and the gas taken off its
balance.  At the end the fees of the block are split between three accounts.

The EVM itself, the system calls around the transactions, bitcoind and the database are
parameters of the executor.  Arithmetic on primitive words panics or wraps on overflow,
depending on the build.
-/

namespace Macbeth

open Outcome Checked

/-! ## Blocks -/

/-- `ExtraDataHeader`, as far as the executor reads it. -/
structure ExtraDataHeader where
  bitcoinBlockHash : BlockHash
  aggregatedPublicKey : PublicKey
  blockFeeRecipientAddress : Address
  deriving DecidableEq, Repr

/-- The header of a block; the extra data is `none` if it does not decode. -/
structure EthHeader where
  parentHash : BitVec 256
  number : BitVec 64
  timestamp : BitVec 64
  gasLimit : BitVec 64
  baseFeePerGas : Option (BitVec 64)
  beneficiary : Address
  difficulty : U256
  mixHash : BitVec 256
  parentBeaconBlockRoot : Option (BitVec 256)
  blobGasUsed : Option (BitVec 64)
  excessBlobGas : Option (BitVec 64)
  extraData : Option ExtraDataHeader
  deriving DecidableEq, Repr

/-- `BlockWithSenders`; withdrawals are amounts in wei. -/
structure EthBlock where
  header : EthHeader
  transactions : List (Address × TransactionSigned)
  withdrawals : Option (List (Address × BitVec 128))
  deriving DecidableEq, Repr

/-- `BlockEnv`. -/
structure BlockEnv where
  number : U256
  coinbase : Address
  timestamp : U256
  gasLimit : U256
  basefee : U256
  difficulty : U256
  prevrandao : Option (BitVec 256)
  deriving DecidableEq, Repr

/-- `fill_block_env`. -/
def EthHeader.fillBlockEnv (header : EthHeader) (afterMerge : Bool) : BlockEnv where
  number := header.number.setWidth 256
  coinbase := header.beneficiary
  timestamp := header.timestamp.setWidth 256
  gasLimit := header.gasLimit.setWidth 256
  basefee := (header.baseFeePerGas.getD 0).setWidth 256
  difficulty := if afterMerge then 0 else header.difficulty
  prevrandao := if afterMerge then some header.mixHash else none

/-- `Receipt`. -/
structure Receipt where
  txType : TxType
  success : Bool
  cumulativeGasUsed : BitVec 64
  logs : List Log
  deriving DecidableEq, Repr

/-- `ExecutionResult`. -/
inductive ExecutionResult where
  | success (gasUsed : BitVec 64) (logs : List Log)
  | revert (gasUsed : BitVec 64)
  | halt (gasUsed : BitVec 64)
  deriving DecidableEq, Repr

namespace ExecutionResult

def gasUsed : ExecutionResult → BitVec 64
  | .success gasUsed _ | .revert gasUsed | .halt gasUsed => gasUsed

def isSuccess : ExecutionResult → Bool
  | .success _ _ => true
  | _ => false

def logs : ExecutionResult → List Log
  | .success _ logs => logs
  | _ => []

end ExecutionResult

/-! ## Parameters -/

/-- `EVMError`. -/
inductive EvmError where
  | transaction (msg : String)
  | header (msg : String)
  | database (msg : String)
  | custom (msg : String)
  | precompile (msg : String)
  deriving DecidableEq, Repr

/-- `BotanixConsensusPackageError`. -/
inductive ConsensusPackageError where
  | failedToDeserializeExtraDataHeader
  | failedToCreateBitcoindClient
  | failedToRetrieveBitcoinCheckpointHeader
  | failedToRetrieveBitcoinCheckpointHeight
  deriving DecidableEq, Repr

/-- `BlockExecutionError`. -/
inductive BlockExecutionError where
  | extraDataSerializeError
  | botanixConsensusPkgError (e : ConsensusPackageError)
  | transactionGasLimitMoreThanAvailableBlockGas (transactionGasLimit blockAvailableGas : BitVec 64)
  | evm (hash : BitVec 256) (error : EvmError)
  /-- "Sender not found in state" -/
  | senderNotFound (sender : Address)
  /-- "Sender balance underflow" -/
  | senderBalanceUnderflow
  | systemCall (msg : String)
  deriving DecidableEq, Repr

/-- The EVM: one transaction, and the system calls before and after the transactions. -/
structure Evm where
  transact : BlockEnv → ChainState → Address → TransactionSigned →
    Except EvmError (ExecutionResult × EvmState)
  /-- `apply_beacon_root_contract_call` and `apply_blockhashes_update`. -/
  preExecution : EthHeader → ChainState → Except BlockExecutionError ChainState
  /-- The requests that are collected when Prague is active. -/
  collectRequests : EthHeader → List Receipt → ChainState →
    Except BlockExecutionError (List (List UInt8) × ChainState)

/-- What the executor reads of the chain's specification. -/
structure ChainSpec where
  isSpuriousDragonActive : BitVec 64 → Bool
  isPragueActive : BitVec 64 → Bool
  isShanghaiActive : BitVec 64 → Bool
  afterMerge : EthHeader → Bool
  /-- The rewards for the block and its ommers: none after the merge. -/
  blockRewards : EthBlock → List (Address × BitVec 128)
  /-- The configured text, as an address if it is one. -/
  lstFeeReceiver : Option (Option Address)
  botanixFeeRecipient : Option (Option Address)

/-- What bitcoind answers. -/
structure BitcoindClient where
  connects : Bool
  getBlockHeader : BlockHash → Option Header
  getBlockHeight : BlockHash → Option (BitVec 32)

/-- `EthEvmExecutor`. -/
structure Executor where
  evm : Evm
  spec : ChainSpec
  btc : BitcoinLib
  frost : FrostLib
  addressFromStr : List UInt8 → Option UncheckedAddress
  bitcoinNetwork : Network
  bitcoind : BitcoindClient
  /-- The header of a block in the database; `none` is a database error. -/
  findBlockByHash : BitVec 256 → Option (Option EthHeader)
  /-- Whether the build has overflow checks. -/
  checks : Bool

namespace Executor

variable (exec : Executor)

/-- `botanix_consensus_package`. -/
def botanixConsensusPackage (header : EthHeader) :
    Except ConsensusPackageError ConsensusPackage :=
  match header.extraData with
  | none => .error .failedToDeserializeExtraDataHeader
  | some edh =>
    if !exec.bitcoind.connects then .error .failedToCreateBitcoindClient
    else match exec.bitcoind.getBlockHeader edh.bitcoinBlockHash with
      | none => .error .failedToRetrieveBitcoinCheckpointHeader
      | some checkpoint =>
        match exec.bitcoind.getBlockHeight edh.bitcoinBlockHash with
        | none => .error .failedToRetrieveBitcoinCheckpointHeight
        | some height => .ok ⟨(checkpoint, height), edh.aggregatedPublicKey, exec.bitcoinNetwork⟩

/-- What `botanix_mint_contract_checks` reads besides the logs. -/
def mintEnv : MintEnv where
  btc := exec.btc
  frost := exec.frost
  checks := exec.checks
  findBlockByHash hash := match exec.findBlockByHash hash with
    | none => .databaseError
    | some none => .notFound
    | some (some header) => .found (exec.botanixConsensusPackage header).toOption
  addressFromStr := exec.addressFromStr

/-! ## One transaction -/

/-- What is carried from transaction to transaction. -/
structure Progress where
  state : ChainState
  cumulativeGasUsed : BitVec 64
  totalBlockFees : BitVec 128
  receipts : List Receipt
  pegins : List PeginData
  pegouts : List PegoutWithId

/-- A transaction after the peg checks. -/
structure CheckedTransaction where
  result : ExecutionResult
  changes : EvmState
  pegins : List PeginData
  pegouts : List PegoutWithId

/-- A transaction whose peg events are refused: only the gas and the nonce remain. -/
def undo (sender : Address) (original : AccountInfo) (price : BitVec 128) (gasUsed : BitVec 64)
    (changes : EvmState) : Outcome BlockExecutionError CheckedTransaction := do
  let totalGasCost : U256 := gasUsed.setWidth 256 * price.setWidth 256
  let account ← ofOption (changes.lookup sender) (.senderNotFound sender)
  let balance ← ofOption (checkedSub original.balance totalGasCost) .senderBalanceUnderflow
  let reverted : Account :=
    ⟨{ original with nonce := account.info.nonce, balance }, ∅, .onlyTouched⟩
  return ⟨.revert gasUsed, (∅ : EvmState).insert sender reverted, [], []⟩

/-- The peg checks on a transaction that has run. -/
def checkPegs (pkg : ConsensusPackage) (sender : Address) (tx : TransactionSigned)
    (original : AccountInfo) (price : BitVec 128) (result : ExecutionResult)
    (changes : EvmState) : Outcome BlockExecutionError CheckedTransaction :=
  match result with
  | .success gasUsed logs =>
    match exec.mintEnv.botanixMintContractChecks pkg tx.hash logs with
    | .ok (pegins, pegouts) => ok ⟨result, changes, pegins, pegouts⟩
    | .err _ => undo sender original price gasUsed changes
    | .panic => panic
  | _ => ok ⟨result, changes, [], []⟩

/-- The loop body of `execute_state_transitions`. -/
def executeTransaction (header : EthHeader) (pkg : ConsensusPackage) (p : Progress)
    (signed : Address × TransactionSigned) : Outcome BlockExecutionError Progress := do
  let (sender, tx) := signed
  let blockAvailableGas ← sub exec.checks header.gasLimit p.cumulativeGasUsed
  ensure (¬ tx.gasLimit > blockAvailableGas)
    (.transactionGasLimitMoreThanAvailableBlockGas tx.gasLimit blockAvailableGas)
  let original ← ofOption (p.state.basic sender) (.senderNotFound sender)
  let env := header.fillBlockEnv (exec.spec.afterMerge header)
  let (result, changes) ← ofExcept (exec.evm.transact env p.state sender tx) (.evm tx.hash)
  -- "base fee exists"
  let tip ← expect (tx.type.effectiveTipPerGas header.baseFeePerGas)
  let transactionFee ← addWord exec.checks tip ((header.baseFeePerGas.getD 0).setWidth 128)
  let fees ← mulWord exec.checks transactionFee (result.gasUsed.setWidth 128)
  let totalBlockFees ← addWord exec.checks p.totalBlockFees fees
  let cumulativeGasUsed ← addWord exec.checks p.cumulativeGasUsed result.gasUsed
  let price := tx.type.effectiveGasPrice header.baseFeePerGas
  let checked ← exec.checkPegs pkg sender tx original price result changes
  let stateClear := exec.spec.isSpuriousDragonActive header.number
  let receipt : Receipt :=
    ⟨tx.type, checked.result.isSuccess, cumulativeGasUsed, checked.result.logs⟩
  return {
    state := p.state.commit stateClear checked.changes
    cumulativeGasUsed
    totalBlockFees
    receipts := p.receipts ++ [receipt]
    pegins := p.pegins ++ checked.pegins
    pegouts := p.pegouts ++ checked.pegouts }

/-! ## A block -/

/-- `EthExecuteOutput`. -/
structure ExecuteOutput where
  receipts : List Receipt
  requests : List (List UInt8)
  gasUsed : BitVec 64
  totalBlockFees : BitVec 128
  pegins : List PeginData
  pegouts : List PegoutWithId

/-- The requests of the block, if Prague is active. -/
def collectRequests (header : EthHeader) (receipts : List Receipt) (s : ChainState) :
    Outcome BlockExecutionError (List (List UInt8) × ChainState) :=
  if exec.spec.isPragueActive header.timestamp then
    ofExcept (exec.evm.collectRequests header receipts s) id
  else ok ([], s)

/-- `execute_state_transitions`. -/
def executeStateTransitions (block : EthBlock) (pkg : ConsensusPackage) (s : ChainState) :
    Outcome BlockExecutionError (ExecuteOutput × ChainState) := do
  let s ← ofExcept (exec.evm.preExecution block.header s) id
  let p ← block.transactions.foldlM (exec.executeTransaction block.header pkg) ⟨s, 0, 0, [], [], []⟩
  let (requests, s) ← exec.collectRequests block.header p.receipts p.state
  return (⟨p.receipts, requests, p.cumulativeGasUsed, p.totalBlockFees, p.pegins, p.pegouts⟩, s)

/-- `block_fees_split`: half, two fifths and the rest. -/
def blockFeesSplit (totalBlockFees : BitVec 128) :
    Outcome BlockExecutionError (BitVec 128 × BitVec 128 × BitVec 128) := do
  let lst ← expect ((checkedMul totalBlockFees 50).bind (checkedDiv · 100))
  let botanix ← expect ((checkedMul totalBlockFees 40).bind (checkedDiv · 100))
  let recipient ← expect ((checkedSub totalBlockFees lst).bind (checkedSub · botanix))
  return (lst, botanix, recipient)

/-- `entry(a).and_modify(checked_add).or_insert(amount)`. -/
def creditChecked (increments : FinMap Address (BitVec 128)) (a : Address) (amount : BitVec 128) :
    Outcome BlockExecutionError (FinMap Address (BitVec 128)) :=
  match increments.lookup a with
  | some before => do
    let sum ← expect (checkedAdd before amount)
    return increments.insert a sum
  | none => ok (increments.insert a amount)

/-- `*entry(a).or_default() += amount`. -/
def credit (increments : FinMap Address (BitVec 128)) (entry : Address × BitVec 128) :
    Outcome BlockExecutionError (FinMap Address (BitVec 128)) := do
  let sum ← addWord exec.checks ((increments.lookup entry.1).getD 0) entry.2
  return increments.insert entry.1 sum

/-- The three shares of the fees, if there are fees, a recipient and both configured
receivers. -/
def creditFees (totalBlockFees : BitVec 128) (blockFeeRecipient : Address)
    (increments : FinMap Address (BitVec 128)) :
    Outcome BlockExecutionError (FinMap Address (BitVec 128)) :=
  match exec.spec.lstFeeReceiver, exec.spec.botanixFeeRecipient with
  | some lstText, some botanixText =>
    if totalBlockFees > 0 ∧ blockFeeRecipient ≠ 0 then do
      let (lst, botanix, recipient) ← blockFeesSplit totalBlockFees
      -- "Valid FeeReceiver"
      let lstFeeReceiver ← expect lstText
      let increments ← creditChecked increments lstFeeReceiver lst
      let botanixFeeRecipient ← expect botanixText
      let increments ← creditChecked increments botanixFeeRecipient botanix
      creditChecked increments blockFeeRecipient recipient
    else ok increments
  | _, _ => ok increments

/-- `post_block_balance_increments`. -/
def postBlockBalanceIncrements (block : EthBlock) (totalBlockFees : BitVec 128)
    (blockFeeRecipient : Address) : Outcome BlockExecutionError (FinMap Address (BitVec 128)) := do
  let increments ← (exec.spec.blockRewards block).foldlM exec.credit ∅
  let increments ← exec.creditFees totalBlockFees blockFeeRecipient increments
  if exec.spec.isShanghaiActive block.header.timestamp then
    ((block.withdrawals.getD []).filter fun w => w.2 > 0).foldlM exec.credit increments
  else ok increments

/-- `execute_without_verification`. -/
def executeWithoutVerification (s : ChainState) (block : EthBlock) :
    Outcome BlockExecutionError (ExecuteOutput × ChainState) := do
  let edh ← ofOption block.header.extraData .extraDataSerializeError
  let pkg ← ofExcept (exec.botanixConsensusPackage block.header) .botanixConsensusPkgError
  let (output, s) ← exec.executeStateTransitions block pkg s
  let increments ← exec.postBlockBalanceIncrements block output.totalBlockFees
    edh.blockFeeRecipientAddress
  return (output, s.incrementBalances increments)

/-! ## What a transaction leaves -/

section
variable {exec} {header : EthHeader} {pkg : ConsensusPackage} {sender : Address}
variable {tx : TransactionSigned} {original : AccountInfo} {price : BitVec 128}
variable {result : ExecutionResult} {changes : EvmState} {checked : CheckedTransaction}

/-- An undone transaction changes the sender only. -/
theorem undo_eq_ok {gasUsed : BitVec 64}
    (h : undo sender original price gasUsed changes = ok checked) :
    ∃ account balance, changes.lookup sender = some account ∧
      checkedSub original.balance (gasUsed.setWidth 256 * price.setWidth 256) = some balance ∧
      checked = ⟨.revert gasUsed, (∅ : EvmState).insert sender
        ⟨{ original with nonce := account.info.nonce, balance }, ∅, .onlyTouched⟩, [], []⟩ := by
  obtain ⟨account, haccount, h⟩ := bind_eq_ok.mp h
  obtain ⟨balance, hbalance, h⟩ := bind_eq_ok.mp h
  rw [ofOption_eq_ok] at haccount hbalance
  exact ⟨account, balance, haccount, hbalance, (ok.inj h).symm⟩

/-- A transaction is accepted with its peg events, undone, or had failed before. -/
theorem checkPegs_cases
    (h : exec.checkPegs pkg sender tx original price result changes = ok checked) :
    (∃ gasUsed logs pegins pegouts, result = .success gasUsed logs ∧
      exec.mintEnv.botanixMintContractChecks pkg tx.hash logs = ok (pegins, pegouts) ∧
      checked = ⟨result, changes, pegins, pegouts⟩) ∨
    (∃ gasUsed logs e, result = .success gasUsed logs ∧
      exec.mintEnv.botanixMintContractChecks pkg tx.hash logs = err e ∧
      undo sender original price gasUsed changes = ok checked) ∨
    (result.isSuccess = false ∧ checked = ⟨result, changes, [], []⟩) := by
  cases result with
  | success gasUsed logs =>
    cases hchecks : exec.mintEnv.botanixMintContractChecks pkg tx.hash logs with
    | ok pegs =>
      simp only [checkPegs, hchecks] at h
      exact .inl ⟨gasUsed, logs, pegs.1, pegs.2, rfl, hchecks, (ok.inj h).symm⟩
    | err e =>
      simp only [checkPegs, hchecks] at h
      exact .inr (.inl ⟨gasUsed, logs, e, rfl, hchecks, h⟩)
    | panic =>
      simp only [checkPegs, hchecks] at h
      cases h
  | revert gasUsed => exact .inr (.inr ⟨rfl, (ok.inj h).symm⟩)
  | halt gasUsed => exact .inr (.inr ⟨rfl, (ok.inj h).symm⟩)

/-- A transaction that is executed has run on the EVM and passed the peg checks. -/
theorem executeTransaction_eq_ok {p p' : Progress}
    (h : exec.executeTransaction header pkg p (sender, tx) = ok p') :
    ∃ original result changes checked cumulativeGasUsed totalBlockFees,
      p.state.basic sender = some original ∧
      exec.evm.transact (header.fillBlockEnv (exec.spec.afterMerge header)) p.state sender tx =
        .ok (result, changes) ∧
      exec.checkPegs pkg sender tx original (tx.type.effectiveGasPrice header.baseFeePerGas) result
        changes = ok checked ∧
      p' = {
        state := p.state.commit (exec.spec.isSpuriousDragonActive header.number) checked.changes
        cumulativeGasUsed
        totalBlockFees
        receipts := p.receipts ++
          [⟨tx.type, checked.result.isSuccess, cumulativeGasUsed, checked.result.logs⟩]
        pegins := p.pegins ++ checked.pegins
        pegouts := p.pegouts ++ checked.pegouts } := by
  obtain ⟨available, -, h⟩ := bind_eq_ok.mp h
  obtain ⟨-, -, h⟩ := bind_eq_ok.mp h
  obtain ⟨original, horiginal, h⟩ := bind_eq_ok.mp h
  obtain ⟨⟨result, changes⟩, htransact, h⟩ := bind_eq_ok.mp h
  obtain ⟨tip, -, h⟩ := bind_eq_ok.mp h
  obtain ⟨fee, -, h⟩ := bind_eq_ok.mp h
  obtain ⟨fees, -, h⟩ := bind_eq_ok.mp h
  obtain ⟨totalBlockFees, -, h⟩ := bind_eq_ok.mp h
  obtain ⟨cumulativeGasUsed, -, h⟩ := bind_eq_ok.mp h
  obtain ⟨checked, hchecked, h⟩ := bind_eq_ok.mp h
  exact ⟨original, result, changes, checked, cumulativeGasUsed, totalBlockFees,
    ofOption_eq_ok.mp horiginal, ofExcept_eq_ok.mp htransact, hchecked, (ok.inj h).symm⟩

end

end Executor

end Macbeth
