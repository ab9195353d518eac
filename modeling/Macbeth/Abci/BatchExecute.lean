import Macbeth.Abci.CacheRebuild
import Macbeth.Evm.DoubleMint
import Macbeth.Evm.Provider

/-!
# Executing the blocks of a snapshot (`excecution_utils.rs`, `validation.rs`)

`batch_execute` executes blocks that were built elsewhere and compares what comes out with
their headers.  Blocks are built with a view of the database that is opened for the block; the
batch executor has the view that was opened when the process was started.  A block that was
built on a state gives the same receipts and the same state again exactly when Prague is not
active, as the built header has no requests root, and every pegin of version 1 in the block
refers to a block that was there when the process was started
(`batchExecute_eq_consensus_iff`).
-/

namespace Macbeth

open Outcome Checked List Option

/-- `BlockWithSenders`, with its whole header. -/
structure SnapshotBlock where
  header : SealedHeader
  requestsRoot : Option (BitVec 256)
  transactions : List (Address × TransactionSigned)
  withdrawals : Option (List (Address × BitVec 128))
  deriving DecidableEq, Repr

/-- The part of a block that is executed. -/
def SnapshotBlock.toEthBlock (block : SnapshotBlock) : EthBlock :=
  ⟨block.header.header, block.transactions, block.withdrawals⟩

/-- A block that was built, without what its execution gave. -/
def BlockWithContext.toSnapshot (block : BlockWithContext) : SnapshotBlock where
  header := block.header
  requestsRoot := none
  transactions := block.body
  withdrawals := none

/-- What `validate_block_post_execution` finds. -/
inductive PostExecutionError where
  | blockGasUsed (got expected : BitVec 64) (gasSpentByTx : List (Nat × BitVec 64))
  | bodyReceiptRootDiff (got expected : BitVec 256)
  | bodyBloomLogDiff (got expected : BitVec 2048)
  | requestsRootMissing
  | bodyRequestsRootDiff (got expected : BitVec 256)
  deriving DecidableEq, Repr

inductive BatchError where
  /-- "cannot execute empty batch" -/
  | emptyBatch
  /-- There is no state for the block before the first. -/
  | stateUnavailable (number : BitVec 64)
  | execution (e : BlockExecutionError)
  | consensus (e : PostExecutionError)
  deriving DecidableEq, Repr

/-- What the checks after the execution read besides the builder's rules. -/
structure PostExecutionRules where
  isByzantiumActive : BitVec 64 → Bool
  /-- `calculate_requests_root`. -/
  requestsRoot : List (List UInt8) → BitVec 256

/-- `ExecutionOutcome`. -/
structure ExecutionOutcome where
  state : ChainState
  receipts : List (List Receipt)
  firstBlock : BitVec 64
  requests : List (List (List UInt8))

/-- `gas_spent_by_transactions`. -/
def gasSpentByTransactions (receipts : List Receipt) : List (Nat × BitVec 64) :=
  receipts.zipIdx.map fun r => (r.2, r.1.cumulativeGasUsed)

/-- A read-only provider on a database with these blocks. -/
def providerOf (blocks : List (BitVec 256 × EthHeader)) (hash : BitVec 256) :
    Option (Option EthHeader) :=
  some (blocks.lookup hash)

namespace BlockBuilder

variable (builder : BlockBuilder) (rules : PostExecutionRules)

/-- The builder with a provider that was opened on these blocks. -/
def onDatabase (blocks : List (BitVec 256 × EthHeader)) : BlockBuilder :=
  { builder with exec := builder.exec.withProvider (providerOf blocks) }

/-- `verify_receipts`. -/
def verifyReceipts (header : SealedHeader) (receipts : List Receipt) :
    Outcome PostExecutionError Unit := do
  let (receiptsRoot, logsBloom) := builder.receiptsRoot receipts
  ensure (receiptsRoot = header.receiptsRoot) (.bodyReceiptRootDiff receiptsRoot header.receiptsRoot)
  ensure (logsBloom = header.logsBloom) (.bodyBloomLogDiff logsBloom header.logsBloom)

/-- The requests root of the header is the one of the requests. -/
def verifyRequests (block : SnapshotBlock) (requests : List (List UInt8)) :
    Outcome PostExecutionError Unit := do
  let headerRequestsRoot ← ofOption block.requestsRoot .requestsRootMissing
  let requestsRoot := rules.requestsRoot requests
  ensure (requestsRoot = headerRequestsRoot) (.bodyRequestsRootDiff requestsRoot headerRequestsRoot)

/-- `validate_block_post_execution`. -/
def validateBlockPostExecution (block : SnapshotBlock) (receipts : List Receipt)
    (requests : List (List UInt8)) : Outcome PostExecutionError Unit := do
  let cumulativeGasUsed := Executor.lastGasUsed receipts
  ensure (block.header.gasUsed = cumulativeGasUsed) (.blockGasUsed cumulativeGasUsed
    block.header.gasUsed (gasSpentByTransactions receipts))
  if rules.isByzantiumActive block.header.header.number then
    builder.verifyReceipts block.header receipts
  else ok ()
  if builder.exec.spec.isPragueActive block.header.header.timestamp then
    verifyRequests rules block requests
  else ok ()

/-- `execute_and_verify_one`. -/
def executeAndVerifyOne (record : ExecutionOutcome) (block : SnapshotBlock) :
    Outcome BatchError ExecutionOutcome := do
  let (output, state) ←
    (builder.exec.executeWithoutVerification record.state block.toEthBlock).mapErr .execution
  (builder.validateBlockPostExecution rules block output.receipts output.requests).mapErr .consensus
  return { record with
    state
    receipts := record.receipts ++ [output.receipts]
    requests := record.requests ++ [output.requests] }

/-- `batch_execute`; `stateAt` is the state after a block of the database. -/
def batchExecute (stateAt : BitVec 64 → Option ChainState) (blocks : List SnapshotBlock) :
    Outcome BatchError ExecutionOutcome :=
  match blocks with
  | [] => err .emptyBatch
  | first :: _ => do
    let startingBlockNumber := first.header.header.number
    let parent ← sub builder.exec.checks startingBlockNumber 1
    let state ← ofOption (stateAt parent) (.stateUnavailable parent)
    blocks.foldlM (builder.executeAndVerifyOne rules) ⟨state, [], startingBlockNumber, []⟩

/-! ## One block again -/

section
variable {builder rules} {chain : CommittedChain} {args : BuildArgs} {block : BlockWithContext}
variable {committed earlier : List (BitVec 256 × EthHeader)}
variable {stateAt : BitVec 64 → Option ChainState}

/-- The parts of a block that was built. -/
theorem execution_of_buildAndExecute (h : builder.buildAndExecute chain args = ok block) :
    ∃ output, builder.exec.executeWithoutVerification chain.state
        block.toSnapshot.toEthBlock = ok (output, block.state) ∧
      block.receipts = output.receipts ∧ block.pegins = output.pegins ∧
      block.header.gasUsed = output.gasUsed ∧
      block.header.receiptsRoot = (builder.receiptsRoot output.receipts).1 ∧
      block.header.logsBloom = (builder.receiptsRoot output.receipts).2 ∧
      block.header.header.timestamp = args.timestamp := by
  obtain ⟨header, hheader, h⟩ := bind_eq_ok.mp h
  obtain ⟨number, -, hheader⟩ := bind_eq_ok.mp hheader
  obtain ⟨senders, -, h⟩ := bind_eq_ok.mp h
  obtain ⟨⟨output, state⟩, hexec, h⟩ := bind_eq_ok.mp h
  obtain rfl := ok.inj h
  obtain rfl := ok.inj hheader
  exact ⟨output, mapErr_eq_ok.mp hexec, rfl, rfl, rfl, rfl, rfl, rfl⟩

/-- The block before a built one is the best block. -/
theorem parent_of_buildAndExecute (h : builder.buildAndExecute chain args = ok block) :
    (sub builder.exec.checks block.header.header.number 1 : Outcome BatchError _) =
      ok chain.best.header.number := by
  obtain ⟨header, hheader, hblock, -⟩ := header_of_buildAndExecute h
  obtain ⟨number, hnumber, hheader⟩ := bind_eq_ok.mp hheader
  have hnumber' : block.header.header.number = number := by rw [hblock, ← ok.inj hheader]; rfl
  rw [hnumber']
  obtain rfl := addWord_eq_ok hnumber
  unfold addWord at hnumber
  split at hnumber
  case isTrue => cases hnumber
  case isFalse hoverflow =>
    unfold sub
    rw [if_neg, BitVec.add_sub_cancel]
    rintro ⟨hchecks, hlt⟩
    refine hoverflow ⟨hchecks, ?_⟩
    rw [BitVec.toNat_add] at hlt
    simp at hlt ⊢
    omega

/-- A batch of one block, on the state of its parent. -/
theorem batchExecute_singleton (hbuild : (builder.onDatabase committed).buildAndExecute chain args =
      ok block) (hstate : stateAt chain.best.header.number = some chain.state)
    {outcome : ExecutionOutcome} :
    (builder.onDatabase earlier).batchExecute rules stateAt [block.toSnapshot] = ok outcome ↔
      ∃ output state, (builder.onDatabase earlier).exec.executeWithoutVerification chain.state
          block.toSnapshot.toEthBlock = ok (output, state) ∧
        (builder.onDatabase earlier).validateBlockPostExecution rules block.toSnapshot
          output.receipts output.requests = ok () ∧
        outcome = ⟨state, [output.receipts], block.header.header.number, [output.requests]⟩ := by
  have hparent := parent_of_buildAndExecute hbuild
  show (sub builder.exec.checks block.header.header.number 1 >>= _) = _ ↔ _
  rw [show sub builder.exec.checks block.header.header.number 1 = _ from hparent, ok_bind, hstate]
  simp only [ofOption, ok_bind, foldlM_cons, foldlM_nil, executeAndVerifyOne,
    bind_eq_ok, mapErr_eq_ok, pure_eq_ok, ok.injEq, Prod.exists, nil_append]
  constructor
  · rintro ⟨_, ⟨output, state, hexec, _, hvalid, rfl⟩, rfl⟩
    exact ⟨output, state, hexec, hvalid, rfl⟩
  · rintro ⟨output, state, hexec, hvalid, rfl⟩
    exact ⟨_, ⟨output, state, hexec, (), hvalid, rfl⟩, rfl⟩

/-- A provider that was opened earlier has nothing but blocks of the database. -/
theorem older_of_earlier (hearlier : earlier <+: committed) :
    (builder.onDatabase committed).exec.Older (providerOf earlier) := by
  intro hash
  obtain ⟨later, rfl⟩ := hearlier
  show some (earlier.lookup hash) = some ((earlier ++ later).lookup hash) ∨
    some (earlier.lookup hash) = some none
  rw [lookup_append]
  cases earlier.lookup hash with
  | none => exact .inr rfl
  | some header => exact .inl rfl

/-- A provider says the same about a block of the database exactly if it has the block. -/
theorem sees_iff_of_earlier (hearlier : earlier <+: committed) {pegin : PeginData}
    (hfound : ∀ hash ∈ pegin.reference, ∃ header,
      (builder.onDatabase committed).exec.findBlockByHash hash = some (some header)) :
    (builder.onDatabase committed).exec.Sees (providerOf earlier) pegin ↔
      ∀ hash ∈ pegin.reference, hash ∈ earlier.map Prod.fst := by
  refine forall₂_congr fun hash hhash => ?_
  obtain ⟨header, hheader⟩ := hfound hash hhash
  have hcommitted : committed.lookup hash = some header := some.inj hheader
  have hmem : hash ∈ earlier.map Prod.fst ↔ earlier.lookup hash ≠ none := by
    simp only [ne_eq, List.lookup_eq_none_iff, List.mem_map, not_forall]
    constructor
    · rintro ⟨entry, hentry, rfl⟩
      exact ⟨entry, hentry, by simp⟩
    · rintro ⟨entry, hentry, heq⟩
      have heq : hash = entry.1 := by simpa using heq
      exact ⟨entry, hentry, heq.symm⟩
  rw [hmem]
  have holder : (builder.onDatabase committed).exec.Older (providerOf earlier) :=
    older_of_earlier hearlier
  rcases holder hash with hsame | hnone
  · have hearlier : earlier.lookup hash = some header :=
      (some.inj hsame).trans hcommitted
    simp only [Executor.mintEnv, Executor.withProvider, onDatabase, providerOf, hearlier, hcommitted]
    simp
    rfl
  · have hearlier : earlier.lookup hash = none := some.inj hnone
    simp only [Executor.mintEnv, Executor.withProvider, onDatabase, providerOf, hearlier, hcommitted]
    simp

/-- The receipts of a built block and their gas pass the checks after the execution. -/
theorem validateBlockPostExecution_of_receipts {receipts : List Receipt}
    {requests : List (List UInt8)}
    (hgas : block.header.gasUsed = Executor.lastGasUsed receipts)
    (hroot : block.header.receiptsRoot = (builder.receiptsRoot receipts).1)
    (hbloom : block.header.logsBloom = (builder.receiptsRoot receipts).2) :
    builder.validateBlockPostExecution rules block.toSnapshot receipts requests = ok () ↔
      builder.exec.spec.isPragueActive block.header.header.timestamp = false := by
  have hverify : builder.verifyReceipts block.header receipts = ok () := by
    simp [verifyReceipts, hroot, hbloom, ensure]
  simp only [validateBlockPostExecution, BlockWithContext.toSnapshot, hgas, ensure, if_true,
    ok_bind, hverify, ite_self]
  by_cases hprague : builder.exec.spec.isPragueActive block.header.header.timestamp = true
  · simp [hprague, verifyRequests, ofOption]
  · simp [hprague]

/-- A built block is executed again with the same receipts and the same state exactly when it
needs no requests root and the database had, when the process was started, every block that a
pegin of the block refers to. -/
theorem batchExecute_eq_consensus_iff (hearlier : earlier <+: committed)
    (hstate : stateAt chain.best.header.number = some chain.state)
    (hbuild : (builder.onDatabase committed).buildAndExecute chain args = ok block) :
    (∃ outcome, (builder.onDatabase earlier).batchExecute rules stateAt [block.toSnapshot] =
        ok outcome ∧ outcome.receipts = [block.receipts] ∧ outcome.state = block.state) ↔
      builder.exec.spec.isPragueActive args.timestamp = false ∧
        ∀ pegin ∈ block.pegins, ∀ hash ∈ pegin.reference, hash ∈ earlier.map Prod.fst := by
  obtain ⟨output, hexec, hreceipts, hpegins, hgas, hroot, hbloom, htime⟩ :=
    execution_of_buildAndExecute hbuild
  have hspec := Executor.executeWithoutVerification_spec hexec
  rw [hspec.1] at hgas
  have hvalid : (builder.onDatabase earlier).validateBlockPostExecution rules block.toSnapshot
      output.receipts output.requests = ok () ↔
        builder.exec.spec.isPragueActive args.timestamp = false := by
    rw [← htime]
    exact validateBlockPostExecution_of_receipts hgas hroot hbloom
  obtain ⟨hsame, hdiffers⟩ := Executor.executeWithoutVerification_withProvider
    (older_of_earlier hearlier) hexec
  have hsees : (∀ pegin ∈ output.pegins,
        (builder.onDatabase committed).exec.Sees (providerOf earlier) pegin) ↔
      ∀ pegin ∈ block.pegins, ∀ hash ∈ pegin.reference, hash ∈ earlier.map Prod.fst := by
    rw [hpegins]
    exact forall₂_congr fun pegin hmem => sees_iff_of_earlier hearlier (hspec.2 pegin hmem)
  rw [← hsees]
  simp only [batchExecute_singleton hbuild hstate]
  constructor
  · rintro ⟨_, ⟨output', state', hexec', hvalid', rfl⟩, hsameReceipts, hsameState⟩
    have hreceipts' : output'.receipts = output.receipts := by simpa [hreceipts] using hsameReceipts
    have hall := by_contra fun hunseen => hdiffers hunseen output' state' hexec' hreceipts'
    obtain ⟨rfl, -⟩ := Prod.mk.inj (ok.inj (hexec'.symm.trans (hsame hall)))
    exact ⟨hvalid.mp hvalid', hall⟩
  · rintro ⟨hprague, hall⟩
    refine ⟨_, ⟨output, block.state, hsame hall, hvalid.mpr hprague, rfl⟩, ?_, rfl⟩
    rw [hreceipts]

end

end BlockBuilder

/-! ## A pegin that refers to a block committed after the start

Empty blocks with the lowest base fee on a state with one account.  The roots and hashes are
those of these headers and receipts, tabulated. -/

def quietHeader (parentHash : BitVec 256) (number timestamp : BitVec 64) : SealedHeader :=
  let empty := emptyHeader parentHash number timestamp
  { empty with
    header := { empty.header with baseFeePerGas := some 7 }
    stateRoot := 0x9e97fe8b6b9988bb2daa2393c0284a6d35b2e30c40d2ed0d2675c84d18d40eed }

def quietGenesisHash : BitVec 256 :=
  0x6b3053962949c7deeaed8fe6f1f911171bd9f8b7f2c1f379fd32c3c46ee1f840

def quietFirstHash : BitVec 256 :=
  0xf2ff5c63efccc1d747de53d582418d7059e8b9f977c8320ef51f1d740feca1d3

def quietSecondHash : BitVec 256 :=
  0x17f18c7d6673b3ed80b498a20ea98a394489cce08823536f7ed83917a6c5261c

/-- The chain after its second block. -/
def quietChain : CommittedChain where
  best := quietHeader quietFirstHash 2 1700000020
  bestHash := quietSecondHash
  state := depositState

def quietBlocks : List (BitVec 256 × EthHeader) :=
  [(quietGenesisHash, (quietHeader 0 0 1700000000).header),
    (quietFirstHash, (quietHeader quietGenesisHash 1 1700000010).header),
    (quietSecondHash, quietChain.best.header)]

/-- The proof of the sample deposit in version 1, with the second block as its reference. -/
def referringMetadata : List UInt8 :=
  Bytes.toLE 4 1 ++ encodeOutPoint ⟨otherTxid, 0⟩ ++ Address.toBytes 8 ++
    PublicKey.serialize ⟨false, 1⟩ ++ [1] ++ encodeHeader sampleBlock.header ++
    (Bytes.toLE 4 1 ++ [1] ++ serializeTxid otherTxid ++ [1, 1]) ++ encodeStripped otherTx ++
    Bytes.toBE 32 quietSecondHash.toNat

def referringEvent : Log := MintCall.event ⟨8, 20000000000, 1, referringMetadata, 8⟩ 7

/-- An EVM on which every transaction emits the event; the sender pays for the gas. -/
def referringEvm : Evm where
  transact _ s sender _ :=
    match s.basic sender with
    | none => .error (.transaction "LackOfFundForMaxFee")
    | some info => .ok (.success 100000 [referringEvent], (∅ : EvmState).insert sender
        ⟨{ info with nonce := info.nonce + 1, balance := info.balance - 700000 }, ∅, .onlyTouched⟩)
  preExecution _ s := .ok s
  collectRequests _ _ s := .ok ([], s)

def acceptedReceipt : Receipt := ⟨.legacy 7, true, 100000, [referringEvent]⟩

def revertedReceipt : Receipt := ⟨.legacy 7, false, 100000, []⟩

def acceptedRoot : BitVec 256 := 0x82736ad87a365cd733c2b23136ecb3cc61dc5482bf76c0228190b99e7aa05e20

def revertedRoot : BitVec 256 := 0x777f1c1c378807634128348e4f0eeca6a0e7f516ea411690ca04266323f671a4

def referringBuilder : BlockBuilder :=
  { idleParams.builder with
    exec := { depositExecutor with evm := referringEvm }
    nextBlockBaseFee := fun _ _ => some 7
    recoverSigner := fun _ => some 5
    receiptsRoot := fun receipts =>
      if receipts = [acceptedReceipt] then
        (acceptedRoot, ([33, 120, 214, 260, 510, 1015, 1615, 1962].map (BitVec.twoPow 2048)).sum)
      else if receipts = [revertedReceipt] then (revertedRoot, 0)
      else (emptyRoot, 0) }

def referringArgs : BuildArgs where
  transactions := [⟨0, 200000, .legacy 7, []⟩]
  runtimeVersion := runtimeVersionV3
  networkUpgradePayload := none
  floorBaseFee := none
  blockFeeRecipientAddress := 5
  bitcoinCheckpointBlockHash := sampleBlockHash
  aggPk := ⟨false, 1⟩
  timestamp := 1700000030

/-- Byzantium is active; there are no requests. -/
def byzantiumRules : PostExecutionRules := ⟨fun _ => true, fun _ => emptyRoot⟩

/-- The state of the sample chain: only that of its best block is asked for. -/
def quietStateAt (number : BitVec 64) : Option ChainState :=
  if number = 2 then some depositState else none

/-- A node that was started before the second block was committed builds the block with the
pegin, and refuses the same block when it is executed again. -/
theorem referring_block_refused_again : quietBlocks.take 2 <+: quietBlocks ∧
    ∃ block, (referringBuilder.onDatabase quietBlocks).buildAndExecute quietChain referringArgs =
        ok block ∧
      quietStateAt quietChain.best.header.number = some quietChain.state ∧
      (referringBuilder.onDatabase (quietBlocks.take 2)).batchExecute byzantiumRules quietStateAt
        [block.toSnapshot] = err (.consensus (.bodyReceiptRootDiff revertedRoot acceptedRoot)) := by
  obtain ⟨block, hblock, hbatch⟩ := returns_eq_true.mp (show returns
    ((referringBuilder.onDatabase quietBlocks).buildAndExecute quietChain referringArgs)
    (fun block => ((referringBuilder.onDatabase (quietBlocks.take 2)).batchExecute byzantiumRules
      quietStateAt [block.toSnapshot]).getErr? =
        some (.consensus (.bodyReceiptRootDiff revertedRoot acceptedRoot))) = true by decide +kernel)
  exact ⟨List.take_prefix 2 _, block, hblock, rfl,
    eq_err_of_getErr? (of_decide_eq_true hbatch)⟩

/-- A node that was started after the second block executes the same block again. -/
theorem referring_block_executed_again : ∃ block outcome,
    (referringBuilder.onDatabase quietBlocks).buildAndExecute quietChain referringArgs = ok block ∧
      block.pegins.map PeginData.reference = [some quietSecondHash] ∧
      (referringBuilder.onDatabase quietBlocks).batchExecute byzantiumRules quietStateAt
        [block.toSnapshot] = ok outcome ∧
      outcome.receipts = [block.receipts] ∧ outcome.state = block.state := by
  obtain ⟨block, hblock, hpegin⟩ := returns_eq_true.mp (show returns
    ((referringBuilder.onDatabase quietBlocks).buildAndExecute quietChain referringArgs)
    (fun block => block.pegins.map PeginData.reference = [some quietSecondHash]) = true
    by decide +kernel)
  have hpegin := of_decide_eq_true hpegin
  have hreferences : ∀ pegin ∈ block.pegins, ∀ hash ∈ pegin.reference,
      hash ∈ quietBlocks.map Prod.fst := by
    intro pegin hmem hash hhash
    have hreference := mem_map_of_mem (f := PeginData.reference) hmem
    rw [hpegin, mem_singleton, mem_def.mp hhash] at hreference
    rw [some.inj hreference]
    decide
  have hstate : quietStateAt quietChain.best.header.number = some quietChain.state := rfl
  obtain ⟨outcome, houtcome⟩ := (BlockBuilder.batchExecute_eq_consensus_iff (prefix_refl _)
    hstate hblock).mpr ⟨rfl, hreferences⟩
  exact ⟨block, outcome, hblock, hpegin, houtcome⟩

end Macbeth
