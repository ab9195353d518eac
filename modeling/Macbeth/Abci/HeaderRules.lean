import Macbeth.Abci.CacheRebuild

/-!
# The rules a header has to meet against its parent (`lib.rs`, `validation.rs`)

`AuthorityConsensus::validate_header_against_parent` is the chain's own check of a header and
its parent.  The node that builds a block fills in the header by rules of its own.  A built
header always has the right number and parent hash.  It meets the other rules exactly when the
block is in a later second than its parent, the parent's gas limit is close to the fixed one,
the floor does not raise the base fee, and the blob gas of the parent is read the same way
(`built_header_valid_iff`).
-/

namespace Macbeth

open Outcome Checked

/-- `ConsensusError`, as far as a header is compared with its parent. -/
inductive ConsensusError where
  | parentBlockNumberMismatch (parentBlockNumber blockNumber : BitVec 64)
  | parentHashMismatch (got expected : BitVec 256)
  | timestampIsInPast (presentTimestamp timestamp : BitVec 64)
  | gasLimitInvalidIncrease (parentGasLimit childGasLimit : BitVec 64)
  | gasLimitInvalidDecrease (parentGasLimit childGasLimit : BitVec 64)
  | gasLimitInvalidMinimum (childGasLimit : BitVec 64)
  | baseFeeMissing
  | baseFeeDiff (got expected : BitVec 64)
  | blobGasUsedMissing
  | excessBlobGasMissing
  | excessBlobGasDiff (got expected parentExcessBlobGas parentBlobGasUsed : BitVec 64)
  deriving DecidableEq, Repr

/-- `MINIMUM_GAS_LIMIT`. -/
def minimumGasLimit : BitVec 64 := 5000

/-- `EIP1559_INITIAL_BASE_FEE`. -/
def eip1559InitialBaseFee : BitVec 64 := 1000000000

/-- `AuthorityConsensus`.  Of the chain specification the builder has the fork times and the
fee rules; the London fork is at a block. -/
structure AuthorityConsensus where
  spec : BlockBuilder
  londonBlock : Option (BitVec 64)
  elasticityMultiplier : BitVec 64 → BitVec 64

namespace AuthorityConsensus

variable (c : AuthorityConsensus)

def londonActiveAtBlock (number : BitVec 64) : Bool := c.londonBlock.any (· ≤ number)

def londonTransitionsAtBlock (number : BitVec 64) : Bool := c.londonBlock = some number

/-- `validate_against_parent_hash_number`. -/
def validateAgainstParentHashNumber (header parent : EthHeader) (parentHash : BitVec 256) :
    Outcome ConsensusError PUnit := do
  let number ← addWord c.spec.exec.checks parent.number 1
  ensure (number = header.number) (.parentBlockNumberMismatch parent.number header.number)
  ensure (parentHash = header.parentHash) (.parentHashMismatch header.parentHash parentHash)

/-- `validate_against_parent_timestamp`. -/
def validateAgainstParentTimestamp (header parent : EthHeader) : Outcome ConsensusError PUnit :=
  ensure (¬ header.timestamp ≤ parent.timestamp)
    (.timestampIsInPast parent.timestamp header.timestamp)

/-- The parent's gas limit, which the London fork multiplies. -/
def parentGasLimit (number timestamp : BitVec 64) (parent : EthHeader) :
    Outcome ConsensusError (BitVec 64) :=
  if c.londonTransitionsAtBlock number then
    mulWord c.spec.exec.checks parent.gasLimit (c.elasticityMultiplier timestamp)
  else ok parent.gasLimit

/-- `validate_against_parent_gas_limit`. -/
def validateAgainstParentGasLimit (header parent : EthHeader) : Outcome ConsensusError PUnit := do
  let parentGasLimit ← c.parentGasLimit header.number header.timestamp parent
  if header.gasLimit > parentGasLimit then
    ensure (¬ header.gasLimit - parentGasLimit ≥ parentGasLimit / 1024)
      (.gasLimitInvalidIncrease parentGasLimit header.gasLimit)
  else do
    ensure (¬ parentGasLimit - header.gasLimit ≥ parentGasLimit / 1024)
      (.gasLimitInvalidDecrease parentGasLimit header.gasLimit)
    ensure (¬ header.gasLimit < minimumGasLimit) (.gasLimitInvalidMinimum header.gasLimit)

/-- The base fee the rules of EIP-1559 give. -/
def expectedBaseFee (header : EthHeader) (parent : SealedHeader) :
    Outcome ConsensusError (BitVec 64) :=
  if c.londonTransitionsAtBlock header.number then ok eip1559InitialBaseFee
  else ofOption (c.spec.nextBlockBaseFee parent header.timestamp) .baseFeeMissing

/-- `validate_against_parent_eip1559_base_fee`. -/
def validateAgainstParentEip1559BaseFee (header : EthHeader) (parent : SealedHeader) :
    Outcome ConsensusError PUnit :=
  if c.londonActiveAtBlock header.number then do
    let baseFee ← ofOption header.baseFeePerGas .baseFeeMissing
    let expected ← c.expectedBaseFee header parent
    ensure (expected = baseFee) (.baseFeeDiff baseFee expected)
  else ok ()

/-- `validate_against_parent_4844`. -/
def validateAgainstParent4844 (header parent : EthHeader) : Outcome ConsensusError PUnit := do
  let parentBlobGasUsed := parent.blobGasUsed.getD 0
  let parentExcessBlobGas := parent.excessBlobGas.getD 0
  ensure (header.blobGasUsed.isSome = true) .blobGasUsedMissing
  let excessBlobGas ← ofOption header.excessBlobGas .excessBlobGasMissing
  let expected := c.spec.calculateExcessBlobGas parentExcessBlobGas parentBlobGasUsed
  ensure (expected = excessBlobGas)
    (.excessBlobGasDiff excessBlobGas expected parentExcessBlobGas parentBlobGasUsed)

/-- `validate_header_against_parent`. -/
def validateHeaderAgainstParent (header : EthHeader) (parent : SealedHeader)
    (parentHash : BitVec 256) : Outcome ConsensusError PUnit := do
  c.validateAgainstParentHashNumber header parent.header parentHash
  validateAgainstParentTimestamp header parent.header
  c.validateAgainstParentGasLimit header parent.header
  c.validateAgainstParentEip1559BaseFee header parent
  if c.spec.isCancunActive header.timestamp then c.validateAgainstParent4844 header parent.header
  else ok ()

/-! ## Built headers -/

/-- A base fee with a floor. -/
def raised (floor : Option (BitVec 64)) (fee : BitVec 64) : BitVec 64 :=
  match floor with
  | some floor => if fee < floor then floor else fee
  | none => fee

theorem raised_eq_self {floor : Option (BitVec 64)} {fee : BitVec 64} :
    fee = raised floor fee ↔ ∀ f, floor = some f → f ≤ fee := by
  cases floor with
  | none => simp [raised]
  | some f =>
    simp only [raised, Option.some.injEq, forall_eq']
    split
    · next hlt =>
      constructor
      · intro heq
        exact heq ▸ BitVec.le_refl f
      · intro hle
        exact absurd hlt (BitVec.not_lt.mpr hle)
    · next hge => simpa using hge

/-- What a parent has to be like for the block built on it to meet the rules. -/
structure ParentAdmits (c : AuthorityConsensus) (parent : SealedHeader) (args : BuildArgs) :
    Prop where
  later : parent.header.timestamp < args.timestamp
  gasLimit : ∃ limit,
    c.parentGasLimit (parent.header.number + 1) args.timestamp parent.header = ok limit ∧
      limit.toNat - 30000000 < limit.toNat / 1024 ∧ 30000000 - limit.toNat < limit.toNat / 1024
  baseFee : c.londonActiveAtBlock (parent.header.number + 1) = true →
    ∃ fee, c.spec.nextBlockBaseFee parent args.timestamp = some fee ∧
      if c.londonTransitionsAtBlock (parent.header.number + 1) then
        raised args.floorBaseFee fee = eip1559InitialBaseFee
      else ∀ floor, args.floorBaseFee = some floor → floor ≤ fee
  blobGas : c.spec.isCancunActive args.timestamp = true →
    c.spec.isCancunActive parent.header.timestamp = true ∨
      c.spec.calculateExcessBlobGas 0 0 = c.spec.calculateExcessBlobGas
        (parent.header.excessBlobGas.getD 0) (parent.header.blobGasUsed.getD 0)

section
variable {c : AuthorityConsensus} {header parent : EthHeader} {best : SealedHeader}

theorem validateAgainstParentGasLimit_eq_ok (hlimit : header.gasLimit = ethereumBlockGasLimit) :
    c.validateAgainstParentGasLimit header parent = ok () ↔ ∃ limit,
      c.parentGasLimit header.number header.timestamp parent = ok limit ∧
        limit.toNat - 30000000 < limit.toNat / 1024 ∧
        30000000 - limit.toNat < limit.toNat / 1024 := by
  unfold validateAgainstParentGasLimit
  rw [bind_eq_ok]
  refine exists_congr fun limit => and_congr_right fun _ => ?_
  have hvalue : ethereumBlockGasLimit.toNat = 30000000 := rfl
  have hdiv : (limit / 1024).toNat = limit.toNat / 1024 := by simp [BitVec.toNat_udiv]
  rw [hlimit]
  split
  · next hgt =>
    rw [ensure_eq_ok, ge_iff_le, BitVec.not_le, BitVec.lt_def, hdiv]
    rw [gt_iff_lt, BitVec.lt_def, hvalue] at hgt
    rw [BitVec.toNat_sub_of_le (BitVec.le_def.mpr (by omega)), hvalue]
    omega
  · next hle =>
    rw [gt_iff_lt, BitVec.not_lt, BitVec.le_def, hvalue] at hle
    have hminimum : ¬ ethereumBlockGasLimit < minimumGasLimit := by decide
    rw [bind_eq_ok]
    simp only [ensure_eq_ok, ge_iff_le, BitVec.not_le, hminimum, not_false_eq_true, and_true,
      exists_const, BitVec.lt_def, hdiv]
    rw [BitVec.toNat_sub_of_le (BitVec.le_def.mpr (by omega)), hvalue]
    omega

/-- The base fee of a built header is the one of EIP-1559 with the floor. -/
theorem validateAgainstParentEip1559BaseFee_eq_ok {floor : Option (BitVec 64)}
    (hfee : header.baseFeePerGas =
      (c.spec.nextBlockBaseFee best header.timestamp).map (raised floor)) :
    c.validateAgainstParentEip1559BaseFee header best = ok () ↔
      (c.londonActiveAtBlock header.number = true →
        ∃ fee, c.spec.nextBlockBaseFee best header.timestamp = some fee ∧
          if c.londonTransitionsAtBlock header.number then
            raised floor fee = eip1559InitialBaseFee
          else ∀ f, floor = some f → f ≤ fee) := by
  unfold validateAgainstParentEip1559BaseFee expectedBaseFee
  rw [hfee]
  cases c.londonActiveAtBlock header.number with
  | false => simp
  | true =>
    cases c.spec.nextBlockBaseFee best header.timestamp with
    | none => simp [bind_eq_ok]
    | some fee =>
      cases c.londonTransitionsAtBlock header.number with
      | true =>
        simp [bind_eq_ok]
        exact eq_comm
      | false => simp [bind_eq_ok, raised_eq_self]

/-- The builder and the check differ in whose blob gas they count. -/
theorem validateAgainstParent4844_eq_ok (hused : header.blobGasUsed = some 0)
    (hexcess : header.excessBlobGas = some (c.spec.calculateExcessBlobGas
      (c.spec.parentBlobGas parent).1 (c.spec.parentBlobGas parent).2)) :
    c.validateAgainstParent4844 header parent = ok () ↔
      c.spec.isCancunActive parent.timestamp = true ∨
        c.spec.calculateExcessBlobGas 0 0 = c.spec.calculateExcessBlobGas
          (parent.excessBlobGas.getD 0) (parent.blobGasUsed.getD 0) := by
  unfold validateAgainstParent4844
  rw [hused, hexcess]
  unfold BlockBuilder.parentBlobGas
  cases c.spec.isCancunActive parent.timestamp with
  | true => simp [bind_eq_ok]
  | false =>
    simp [bind_eq_ok]
    exact eq_comm

end

/-- What the checks read of a built header. -/
structure BuiltOn (c : AuthorityConsensus) (chain : CommittedChain) (args : BuildArgs)
    (header : EthHeader) : Prop where
  number : addWord c.spec.exec.checks chain.best.header.number 1 =
    (ok header.number : Outcome ConsensusError (BitVec 64))
  parentHash : header.parentHash = chain.bestHash
  timestamp : header.timestamp = args.timestamp
  gasLimit : header.gasLimit = ethereumBlockGasLimit
  baseFee : header.baseFeePerGas =
    (c.spec.nextBlockBaseFee chain.best header.timestamp).map (raised args.floorBaseFee)
  blobGasUsed : c.spec.isCancunActive args.timestamp = true → header.blobGasUsed = some 0
  excessBlobGas : c.spec.isCancunActive args.timestamp = true →
    header.excessBlobGas = some (c.spec.calculateExcessBlobGas
      (c.spec.parentBlobGas chain.best.header).1 (c.spec.parentBlobGas chain.best.header).2)

theorem builtOn_of_buildAndExecute {c : AuthorityConsensus} {chain : CommittedChain}
    {args : BuildArgs} {block : BlockWithContext}
    (h : c.spec.buildAndExecute chain args = ok block) :
    c.BuiltOn chain args block.header.header := by
  obtain ⟨header, hheader, hblock, -, -⟩ := BlockBuilder.header_of_buildAndExecute h
  obtain ⟨number, hnumber, hheader⟩ := bind_eq_ok.mp hheader
  rw [hblock, ← ok.inj hheader]
  refine ⟨?_, rfl, rfl, rfl, ?_, fun hcancun => if_pos hcancun, fun hcancun => if_pos hcancun⟩
  · unfold addWord at hnumber ⊢
    split at hnumber
    · cases hnumber
    · next hfits =>
      rw [if_neg hfits]
      exact congrArg ok (ok.inj hnumber)
  · cases args.floorBaseFee <;> rfl

/-- A built header meets the rules against its parent exactly when the parent admits it. -/
theorem built_header_valid_iff (c : AuthorityConsensus) (chain : CommittedChain)
    (args : BuildArgs) (block : BlockWithContext)
    (h : c.spec.buildAndExecute chain args = ok block) :
    c.validateHeaderAgainstParent block.header.header chain.best chain.bestHash = ok () ↔
      c.ParentAdmits chain.best args := by
  have hbuilt := builtOn_of_buildAndExecute h
  have hnumber := addWord_eq_ok hbuilt.number
  have hlink : c.validateAgainstParentHashNumber block.header.header chain.best.header
      chain.bestHash = ok () := by
    unfold validateAgainstParentHashNumber
    rw [hbuilt.number, ok_bind, andThen_eq_ok, ensure_eq_ok, ensure_eq_ok]
    exact ⟨rfl, hbuilt.parentHash.symm⟩
  unfold validateHeaderAgainstParent
  rw [andThen_eq_ok, andThen_eq_ok, andThen_eq_ok, andThen_eq_ok,
    validateAgainstParentTimestamp, ensure_eq_ok, BitVec.not_le,
    validateAgainstParentGasLimit_eq_ok hbuilt.gasLimit,
    validateAgainstParentEip1559BaseFee_eq_ok hbuilt.baseFee, hbuilt.timestamp, hnumber]
  constructor
  · intro ⟨_, hlater, hlimit, hfee, hblob⟩
    refine ⟨hlater, hlimit, hfee, fun hcancun => ?_⟩
    rw [if_pos hcancun] at hblob
    exact (validateAgainstParent4844_eq_ok (hbuilt.blobGasUsed hcancun)
      (hbuilt.excessBlobGas hcancun)).mp hblob
  · intro hadmits
    refine ⟨hlink, hadmits.later, hadmits.gasLimit, hadmits.baseFee, ?_⟩
    split
    · next hcancun =>
      exact (validateAgainstParent4844_eq_ok (hbuilt.blobGasUsed hcancun)
        (hbuilt.excessBlobGas hcancun)).mpr (hadmits.blobGas hcancun)
    · rfl

/-- The rules of the sample chain: the London fork is at its start. -/
def idleConsensus : AuthorityConsensus := ⟨idleParams.builder, some 0, fun _ => 2⟩

/-- An empty third block of a version, with the floor of the version. -/
def thirdArgs (version : RuntimeVersion) (timestamp : BitVec 64) : BuildArgs where
  transactions := []
  runtimeVersion := version
  networkUpgradePayload := none
  floorBaseFee := (knownFloor version).getD none
  blockFeeRecipientAddress := 5
  bitcoinCheckpointBlockHash := sampleBlockHash
  aggPk := ⟨false, 1⟩
  timestamp

/-- After an empty block the base fee falls below the floor of version 0.2 and is raised to it;
and a block in the second of its parent is not later. -/
theorem third_block_against_rules :
    (∃ block, idleParams.builder.buildAndExecute secondCommitted
        (thirdArgs runtimeVersionV2 1700000030) = ok block ∧
      idleConsensus.validateHeaderAgainstParent block.header.header secondHeader
        secondCommitted.bestHash = err (.baseFeeDiff 5000000 4375000)) ∧
    ∃ block, idleParams.builder.buildAndExecute secondCommitted
        (thirdArgs runtimeVersionV3 1700000020) = ok block ∧
      idleConsensus.validateHeaderAgainstParent block.header.header secondHeader
        secondCommitted.bestHash = err (.timestampIsInPast 1700000020 1700000020) := by
  constructor
  · obtain ⟨block, hblock, hheader⟩ := returns_eq_true.mp (show returns
      (idleParams.builder.buildAndExecute secondCommitted (thirdArgs runtimeVersionV2 1700000030))
      (fun block => idleConsensus.validateHeaderAgainstParent block.header.header secondHeader
        secondCommitted.bestHash = err (.baseFeeDiff 5000000 4375000)) = true by decide +kernel)
    exact ⟨block, hblock, of_decide_eq_true hheader⟩
  · obtain ⟨block, hblock, hheader⟩ := returns_eq_true.mp (show returns
      (idleParams.builder.buildAndExecute secondCommitted (thirdArgs runtimeVersionV3 1700000020))
      (fun block => idleConsensus.validateHeaderAgainstParent block.header.header secondHeader
        secondCommitted.bestHash = err (.timestampIsInPast 1700000020 1700000020)) = true
      by decide +kernel)
    exact ⟨block, hblock, of_decide_eq_true hheader⟩

/-- With the lower floor of version 0.3 the block meets the rules. -/
theorem third_block_valid : ∃ block,
    idleParams.builder.buildAndExecute secondCommitted (thirdArgs runtimeVersionV3 1700000030) =
        ok block ∧
      idleConsensus.ParentAdmits secondHeader (thirdArgs runtimeVersionV3 1700000030) ∧
      idleConsensus.validateHeaderAgainstParent block.header.header secondHeader
        secondCommitted.bestHash = ok () := by
  obtain ⟨block, hblock, -⟩ := returns_eq_true.mp (show returns
    (idleParams.builder.buildAndExecute secondCommitted (thirdArgs runtimeVersionV3 1700000030))
    (fun _ => true) = true by decide +kernel)
  have hadmits : idleConsensus.ParentAdmits secondHeader (thirdArgs runtimeVersionV3 1700000030) :=
    ⟨by decide, ⟨30000000, by decide, by decide, by decide⟩,
      fun _ => ⟨4375000, rfl, fun f hf => Option.some.inj hf ▸ by decide⟩, nofun⟩
  exact ⟨block, hblock, hadmits, (built_header_valid_iff idleConsensus secondCommitted _ block
    hblock).mpr hadmits⟩

end AuthorityConsensus

end Macbeth
