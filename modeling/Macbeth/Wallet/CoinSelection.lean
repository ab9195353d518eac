import Macbeth.Wallet.Psbt

/-!
# Building the pegout transaction (`wallet/coin_selection.rs`, `wallet/util.rs`)

The coordinator picks inputs with the wallet library's algorithm, gives the change what
the inputs exceed the gross pegouts by, and takes the fee from the pegouts.  The fee is
split evenly; what the division leaves goes one satoshi each to the largest pegouts.
Pegouts the fee pushes below the dust limit are dropped, and the fee is computed once
more for those that stay.

The selection algorithm is not part of this repository: it is a parameter that returns
outpoints or fails, and outpoints that were not offered to it are dropped, as the source
does.
-/

namespace Macbeth

open Checked Outcome List Outcome

/-- A fee rate in satoshis per thousand weight units (`u64`). -/
abbrev FeeRate := BitVec 64

/-- A pegout output with the bytes of its id. -/
abbrev Pegout := TxOut × List UInt8

/-! ## Errors -/

inductive SanityCheckError where
  | badRefundBalance (changeOutputValue totalInputValue targetAmount : Amount)
  | recalculationFilteredMoreOutputs
  deriving DecidableEq, Repr

inductive WalletCalculationError where
  | weightOverflow
  deriving DecidableEq, Repr

inductive CoinSelectionError where
  | coinSelectionBdk (needed available : Amount)
  | outputsCannotBeEmpty
  | feeRateOverflow
  | totalUtxosValueOverflow
  | sanityCheckError (e : SanityCheckError)
  | noViableOutputs
  | walletCalculationError (e : WalletCalculationError)
  deriving DecidableEq, Repr

/-! ## Weights and fees -/

def taprootKeyspendSighashDefaultWeight : BitVec 64 := 65
def segwitFlagWeight : BitVec 64 := 1
def segwitMarkerWeight : BitVec 64 := 1

/-- `calculate_signed_tx_weight`: every input gets a key-path signature. -/
def calculateSignedTxWeight (psbt : Psbt) : Outcome WalletCalculationError (BitVec 64) := do
  let signatures ← ofOption
    (checkedMul (taprootKeyspendSighashDefaultWeight + 1) (BitVec.ofNat 64 psbt.inputs.length))
    .weightOverflow
  ofOption
    (((checkedAdd (BitVec.ofNat 64 psbt.unsignedTx.weight) signatures).bind
      (checkedAdd · segwitFlagWeight)).bind (checkedAdd · segwitMarkerWeight)) .weightOverflow

/-- The sum, exact above what is taken as words. -/
theorem calculateSignedTxWeight_eq_ok {psbt : Psbt} {weight : BitVec 64} :
    calculateSignedTxWeight psbt = .ok weight ↔ weight.toNat =
      psbt.unsignedTx.weight % 2 ^ 64 + 66 * (psbt.inputs.length % 2 ^ 64) + 2 := by
  have h66 : (taprootKeyspendSighashDefaultWeight + 1).toNat = 66 := rfl
  have h1 : segwitFlagWeight.toNat = 1 ∧ segwitMarkerWeight.toNat = 1 := ⟨rfl, rfl⟩
  simp only [calculateSignedTxWeight, bind_eq_ok, ofOption_eq_ok, Option.bind_eq_some_iff,
    checkedAdd_eq_some, checkedMul_eq_some, BitVec.toNat_ofNat, h66, h1]
  constructor
  · rintro ⟨signatures, hsignatures, flagged, ⟨total, htotal, hflagged⟩, hweight⟩
    omega
  · intro hweight
    have hlt := weight.isLt
    refine ⟨BitVec.ofNat 64 (66 * (psbt.inputs.length % 2 ^ 64)), ?_, weight - 1,
      ⟨weight - 2, ?_, ?_⟩, ?_⟩ <;> bv_omega

/-- `FeeRate::fee_wu`: rounded up. -/
def feeWu (rate : FeeRate) (weight : BitVec 64) : Option Amount :=
  ((checkedMul rate weight).bind (checkedAdd · 999)).map (· / 1000)

/-- `calculate_required_fee`. -/
def calculateRequiredFee (inputs : List InputDTO) (outputs : List Pegout) (change : Option TxOut)
    (feeRate : FeeRate) : Outcome CoinSelectionError Amount := do
  let weight ← (calculateSignedTxWeight (createPsbt inputs outputs change)).mapErr
    .walletCalculationError
  ofOption (feeWu feeRate weight) .feeRateOverflow

/-! ## Dust -/

/-- `is_op_return`. -/
def isOpReturn (script : ScriptBuf) : Bool := script.head? = some 0x6a

/-- `is_witness_program`: a version opcode and one push of 2 to 40 bytes. -/
def isWitnessProgram (script : ScriptBuf) : Bool :=
  match script with
  | version :: push :: program =>
    (version == 0 || (0x51 ≤ version && version ≤ 0x60)) &&
      2 ≤ program.length && program.length ≤ 40 && push.toNat == program.length
  | _ => false

/-- `minimal_non_dust`: three times the cost of creating and spending the output at one
satoshi per byte. -/
def minimalNonDust (script : ScriptBuf) : Nat :=
  3000 * (if isOpReturn script then 0
    else if isWitnessProgram script then
      32 + 4 + 1 + 107 / 4 + 4 + 8 + (serializeScript script).length
    else 32 + 4 + 1 + 107 + 4 + 8 + (serializeScript script).length) / 1000

/-- Only an unspendable output has no dust limit. -/
theorem minimalNonDust_pos {script : ScriptBuf} (h : isOpReturn script = false) :
    0 < minimalNonDust script := by
  rw [minimalNonDust, if_neg (by simp [h])]
  by_cases hw : isWitnessProgram script = true
  · rw [if_pos hw]; omega
  · rw [if_neg hw]; omega

/-! ## Sharing the fee -/

/-- The body of the remainder loop: one satoshi more for the pegout at `index`. -/
def addSat (fees : List Amount) (index : Nat) : Outcome CoinSelectionError (List Amount) := do
  let fee ← Outcome.index fees index
  let fee ← ofOption (checkedAdd fee 1) .feeRateOverflow
  pure (fees.set index fee)

/-- The positions of the pegouts by decreasing value, equal values in their own order. -/
def sortedIndices (pegouts : List Pegout) : List Nat :=
  (List.range pegouts.length).insertionSort fun i j =>
    ((pegouts[j]?.map (·.1.value.toNat)).getD 0) ≤ ((pegouts[i]?.map (·.1.value.toNat)).getD 0)

/-- `calculate_fee_distribution`. -/
def calculateFeeDistribution (pegouts : List Pegout) (absoluteFee : Amount) :
    Outcome CoinSelectionError (List Amount) := do
  let numOutputs := pegouts.length
  ensure (numOutputs ≠ 0) .outputsCannotBeEmpty
  let baseFeePerOutput ←
    ofOption (checkedDiv absoluteFee numOutputs) .feeRateOverflow
  let remainder := absoluteFee.toNat % numOutputs
  -- the remainder goes one satoshi at a time to the highest value outputs
  ((sortedIndices pegouts).take remainder).foldlM addSat
    (List.replicate numOutputs baseFeePerOutput)

/-- `FilterResult`. -/
inductive FilterResult where
  | allRemaining (pegouts : List Pegout)
  | someFiltered (filteredPegoutIds : List (List UInt8))
  deriving DecidableEq, Repr

/-- A pegout less its share of the fee, or zero. -/
def Pegout.afterFee (pegout : Pegout) (fee : Amount) : Pegout :=
  (⟨(checkedSub pegout.1.value fee).getD 0, pegout.1.scriptPubkey⟩, pegout.2)

/-- Whether an output stays above the dust limit of its script. -/
def Pegout.isViable (pegout : Pegout) : Bool :=
  minimalNonDust pegout.1.scriptPubkey ≤ pegout.1.value.toNat

/-- `try_apply_fees_and_filter_dust`. -/
def tryApplyFeesAndFilterDust (pegouts : List Pegout) (absoluteFee : Amount) :
    Outcome CoinSelectionError FilterResult := do
  ensure (pegouts ≠ []) .noViableOutputs
  let fees ← calculateFeeDistribution pegouts absoluteFee
  let updated := List.zipWith Pegout.afterFee pegouts fees
  let result := updated.filter Pegout.isViable
  let filteredPegoutIds := (updated.filter (!Pegout.isViable ·)).map (·.2)
  if result.length = pegouts.length then pure (.allRemaining result)
  else if result.isEmpty then .err .noViableOutputs
  else pure (.someFiltered filteredPegoutIds)

/-! ## Change -/

/-- The value of a list of inputs, as a plain sum. -/
def totalInputs (checks : Bool) (inputs : List InputDTO) : Outcome CoinSelectionError Amount :=
  sumWord checks (inputs.map (·.output.value))

/-- `create_change`: what the inputs exceed the gross pegouts by. -/
def createChange (checks : Bool) (selectedInputs : List InputDTO) (pegouts : List Pegout)
    (changeScript : ScriptBuf) : Outcome CoinSelectionError (Option TxOut) := do
  let totalSelectedInputs ← totalInputs checks selectedInputs
  let totalPegoutTarget ← sumWord checks (pegouts.map (·.1.value))
  let finalChangeAmount ← ofOption (checkedSub totalSelectedInputs totalPegoutTarget)
    (.coinSelectionBdk totalSelectedInputs totalPegoutTarget)
  pure (some ⟨finalChangeAmount, changeScript⟩)

def targetChangePercent : BitVec 64 := 50
def maxChangePercent : BitVec 64 := 5
def minChangeSats : Amount := 10000

/-- A percentage with checked operations. -/
def percentOf (percent amount : BitVec 64) : Outcome CoinSelectionError Amount := do
  let scaled ← ofOption (checkedMul amount percent) .feeRateOverflow
  ofOption (checkedDiv scaled 100) .feeRateOverflow

/-- `calculate_target_change`. -/
def calculateTargetChange (totalPegoutValue remainingUtxosValue : Amount) :
    Outcome CoinSelectionError Amount := do
  let targetChange ← percentOf targetChangePercent totalPegoutValue
  let maxChangeValue ← percentOf maxChangePercent remainingUtxosValue
  pure (BitVec.ofNat 64 (min (max (min targetChange.toNat maxChangeValue.toNat)
    minChangeSats.toNat) remainingUtxosValue.toNat))

/-! ## Selection -/

/-- The selection algorithm of the wallet library: required and optional coins, the fee
rate, the target and the script of the change; the error holds the needed and the
available amount. -/
abbrev CoinSelectionAlgorithm :=
  List Utxo → List Utxo → FeeRate → Amount → ScriptBuf → Except (Amount × Amount) (List OutPoint)

/-- The record `perform_coin_selection` makes of a selected coin. -/
def InputDTO.ofUtxo (utxo : Utxo) : InputDTO :=
  ⟨utxo.outpoint, utxo.output, utxo.ethAddress, (UtxoVersion.tryFrom utxo.version).getD .v1⟩

/-- `perform_coin_selection`. -/
def performCoinSelection (algorithm : CoinSelectionAlgorithm)
    (optionalUtxos requiredUtxos : FinMap OutPoint Utxo) (feeRate : FeeRate)
    (coinSelectionTarget : Amount) (changeScript : ScriptBuf) :
    Outcome CoinSelectionError (List InputDTO) := do
  let selection ← ofExcept
    (algorithm requiredUtxos.values optionalUtxos.values feeRate coinSelectionTarget changeScript)
    fun e => .coinSelectionBdk e.1 e.2
  let selected := selection.filterMap fun outpoint =>
    (optionalUtxos.lookup outpoint).or (requiredUtxos.lookup outpoint)
  pure (selected.map InputDTO.ofUtxo)

/-! ## The two passes -/

/-- The pegouts a first pass leaves. -/
def withoutIds (pegouts : List Pegout) (ids : List (List UInt8)) : List Pegout :=
  pegouts.filter fun p => !ids.contains p.2

/-- `apply_fees_and_create_psbt`. -/
def applyFeesAndCreatePsbt (checks : Bool) (selectedInputs : List InputDTO)
    (pegouts : List Pegout) (changeScript : ScriptBuf) (feeRate : FeeRate) :
    Outcome CoinSelectionError (Psbt × List (List UInt8)) := do
  let change ← createChange checks selectedInputs pegouts changeScript
  let absoluteFee ← calculateRequiredFee selectedInputs pegouts change feeRate
  match ← tryApplyFeesAndFilterDust pegouts absoluteFee with
  | .allRemaining finalPegouts => pure (createPsbt selectedInputs finalPegouts change, [])
  | .someFiltered filteredPegoutIds =>
    let remainingPegouts := withoutIds pegouts filteredPegoutIds
    let recalculatedChange ← createChange checks selectedInputs remainingPegouts changeScript
    let recalculatedAbsoluteFee ←
      calculateRequiredFee selectedInputs remainingPegouts recalculatedChange feeRate
    match ← tryApplyFeesAndFilterDust remainingPegouts recalculatedAbsoluteFee with
    | .allRemaining finalOutputs =>
      pure (createPsbt selectedInputs finalOutputs recalculatedChange, filteredPegoutIds)
    | .someFiltered _ => .err (.sanityCheckError .recalculationFilteredMoreOutputs)

/-- `sanity_check_psbt`; both `unwrap`s panic. -/
def sanityCheckPsbt (checks : Bool) (psbt : Psbt) (selectedInputs : List InputDTO)
    (changeScript : ScriptBuf) (totalPegoutTarget : Amount) : Outcome CoinSelectionError Unit :=
  match psbt.extractTx with
  | .ok tx => do
    let totalInputValue ← totalInputs checks selectedInputs
    match tx.output.find? (·.scriptPubkey = changeScript) with
    | none => .panic
    | some changeOutput =>
      let expected ← ofOption (checkedSub totalInputValue totalPegoutTarget) .feeRateOverflow
      ensure (changeOutput.value = expected)
        (.sanityCheckError
          (.badRefundBalance changeOutput.value totalInputValue totalPegoutTarget))
  | _ => .panic

/-- The sum of a list of values, or the overflow error. -/
def totalValue (values : List Amount) : Outcome CoinSelectionError Amount :=
  ofOption (checkedSum values) .totalUtxosValueOverflow

/-- The inputs `coin_selection` picks: its steps up to the selection. -/
def selectInputs (algorithm : CoinSelectionAlgorithm)
    (optionalUtxos requiredUtxos : FinMap OutPoint Utxo) (pegouts : List Pegout)
    (feeRate : FeeRate) (changeScript : ScriptBuf) :
    Outcome CoinSelectionError (List InputDTO) := do
  let requiredUtxosValue ← totalValue (requiredUtxos.values.map (·.output.value))
  let optionalUtxosValue ← totalValue (optionalUtxos.values.map (·.output.value))
  let totalUtxosValue ←
    ofOption (checkedAdd requiredUtxosValue optionalUtxosValue) .totalUtxosValueOverflow
  let totalPegoutTarget ← totalValue (pegouts.map (·.1.value))
  let remainingUtxosValue ← ofOption (checkedSub totalUtxosValue totalPegoutTarget)
    (.coinSelectionBdk totalPegoutTarget totalUtxosValue)
  let targetChange ← calculateTargetChange totalPegoutTarget remainingUtxosValue
  let coinSelectionTarget ← ofOption (checkedAdd totalPegoutTarget targetChange) .feeRateOverflow
  performCoinSelection algorithm optionalUtxos requiredUtxos feeRate coinSelectionTarget changeScript

/-- The pegouts with the bytes of their ids. -/
def toPegouts (outputs : List (TxOut × PegoutId)) : List Pegout :=
  outputs.map fun o => (o.1, o.2.asBytes)

@[simp] theorem length_toPegouts (outputs : List (TxOut × PegoutId)) :
    (toPegouts outputs).length = outputs.length := length_map ..

/-- `coin_selection`. -/
def coinSelection (checks : Bool) (algorithm : CoinSelectionAlgorithm)
    (optionalUtxos requiredUtxos : FinMap OutPoint Utxo) (outputs : List (TxOut × PegoutId))
    (feeRate : FeeRate) (changeScript : ScriptBuf) : Outcome CoinSelectionError Psbt := do
  ensure (outputs ≠ []) .outputsCannotBeEmpty
  let pegouts := toPegouts outputs
  let selectedInputs ←
    selectInputs algorithm optionalUtxos requiredUtxos pegouts feeRate changeScript
  let (psbt, filteredPegoutIds) ←
    applyFeesAndCreatePsbt checks selectedInputs pegouts changeScript feeRate
  let updatedPegoutTarget ←
    sumWord checks ((withoutIds pegouts filteredPegoutIds).map (·.1.value))
  sanityCheckPsbt checks psbt selectedInputs changeScript updatedPegoutTarget
  pure psbt

/-! ## What the builder returns -/

variable {fees : List Amount}

theorem addSat_eq_ok {fees' : List Amount} {i : Nat} (h : addSat fees i = .ok fees') :
    fees'.length = fees.length ∧ natSum fees' = natSum fees + 1 := by
  obtain ⟨fee, hfee, h⟩ := bind_eq_ok.mp h
  obtain ⟨fee', hadd, h⟩ := bind_eq_ok.mp h
  obtain rfl := ok.inj h
  have hset := natSum_set (y := fee') (index_eq_ok.mp hfee)
  have hfee' := checkedAdd_eq_some.mp (ofOption_eq_ok.mp hadd)
  have hone : (1 : Amount).toNat = 1 := rfl
  exact ⟨length_set, by omega⟩

variable {pegouts : List Pegout} {fee : Amount}

/-- The shares: one per pegout, summing to the fee. -/
theorem calculateFeeDistribution_eq_ok (h : calculateFeeDistribution pegouts fee = .ok fees) :
    fees.length = pegouts.length ∧ natSum fees = fee.toNat := by
  obtain ⟨_, hne, h⟩ := bind_eq_ok.mp h
  obtain ⟨base, hbase, h⟩ := bind_eq_ok.mp h
  have hn : pegouts.length ≠ 0 := ensure_eq_ok.mp hne
  have hbase := (checkedDiv_eq_some.mp (ofOption_eq_ok.mp hbase)).2
  have hloop := foldlM_ok_induction
    (fun done fees => fees.length = pegouts.length ∧
      natSum fees = pegouts.length * base.toNat + done.length)
    (fun done i s s' hs hstep => by
      obtain ⟨hlen, hsum⟩ := addSat_eq_ok hstep
      rw [hlen, hsum, hs.1, hs.2, length_append, length_singleton]
      exact ⟨rfl, by omega⟩)
    [] _ _ fees (by simp [natSum]) h
  have hrem : fee.toNat % pegouts.length < pegouts.length := Nat.mod_lt _ (by omega)
  have htake : ((sortedIndices pegouts).take (fee.toNat % pegouts.length)).length =
      fee.toNat % pegouts.length := by
    rw [length_take, sortedIndices, length_insertionSort, length_range]
    omega
  rw [nil_append, htake, hbase, Nat.div_add_mod] at hloop
  exact hloop

/-- The shares are all equal exactly when the division leaves nothing. -/
theorem fees_even_iff (h : calculateFeeDistribution pegouts fee = .ok fees) :
    (∀ f ∈ fees, f.toNat = fee.toNat / pegouts.length) ↔ pegouts.length ∣ fee.toNat := by
  obtain ⟨hlen, hsum⟩ := calculateFeeDistribution_eq_ok h
  constructor
  · intro hall
    have heq : fees.map BitVec.toNat =
        List.replicate pegouts.length (fee.toNat / pegouts.length) := by
      rw [eq_replicate_iff, length_map]
      exact ⟨hlen, fun n hn => by obtain ⟨f, hf, rfl⟩ := mem_map.mp hn; exact hall f hf⟩
    rw [natSum, heq, sum_replicate, smul_eq_mul] at hsum
    exact ⟨_, hsum.symm⟩
  · intro hdvd f hf
    obtain ⟨-, -, h⟩ := bind_eq_ok.mp h
    obtain ⟨base, hbase, h⟩ := bind_eq_ok.mp h
    -- nothing is left over, so the loop is not entered
    dsimp only at h
    rw [Nat.mod_eq_zero_of_dvd hdvd, take_zero, foldlM_nil] at h
    obtain rfl := ok.inj h
    rw [eq_of_mem_replicate hf]
    exact (checkedDiv_eq_some.mp (ofOption_eq_ok.mp hbase)).2

/-- A pass that keeps everything returns the pegouts less their shares, all viable. -/
theorem tryApplyFeesAndFilterDust_eq_all {result : List Pegout}
    (h : tryApplyFeesAndFilterDust pegouts fee = .ok (.allRemaining result)) :
    ∃ fees, calculateFeeDistribution pegouts fee = .ok fees ∧
      result = List.zipWith Pegout.afterFee pegouts fees ∧ ∀ p ∈ result, p.isViable = true := by
  obtain ⟨-, -, h⟩ := bind_eq_ok.mp h
  obtain ⟨fees, hfees, h⟩ := bind_eq_ok.mp h
  refine ⟨fees, hfees, ?_⟩
  have hlen : (zipWith Pegout.afterFee pegouts fees).length = pegouts.length := by
    rw [length_zipWith, (calculateFeeDistribution_eq_ok hfees).1, Nat.min_self]
  dsimp only at h
  split at h
  case isTrue hall =>
    obtain rfl : _ = result := by simpa using h
    have hself := length_filter_eq_length_iff.mp (hall.trans hlen.symm)
    exact ⟨filter_eq_self.mpr hself, fun p hp => (mem_filter.mp hp).2⟩
  case isFalse => split at h <;> simp at h

@[simp] theorem withoutIds_nil (pegouts : List Pegout) : withoutIds pegouts [] = pegouts := by
  simp [withoutIds]

section passes
variable {checks : Bool} {selectedInputs : List InputDTO} {pegouts : List Pegout}
  {changeScript : ScriptBuf} {feeRate : FeeRate}

/-- The pegouts the first pass keeps. -/
def keptPegouts (checks : Bool) (selectedInputs : List InputDTO) (pegouts : List Pegout)
    (changeScript : ScriptBuf) (feeRate : FeeRate) :
    Outcome CoinSelectionError (List Pegout) := do
  let change ← createChange checks selectedInputs pegouts changeScript
  let absoluteFee ← calculateRequiredFee selectedInputs pegouts change feeRate
  match ← tryApplyFeesAndFilterDust pegouts absoluteFee with
  | .allRemaining _ => pure pegouts
  | .someFiltered filteredPegoutIds => pure (withoutIds pegouts filteredPegoutIds)

/-- What a built PSBT is: the selected inputs, the kept pegouts less their shares of the
required fee, each viable, and the change. -/
structure BuiltFrom (checks : Bool) (selectedInputs : List InputDTO) (kept : List Pegout)
    (changeScript : ScriptBuf) (feeRate : FeeRate) (fee : Amount) (fees : List Amount)
    (change : Amount) (psbt : Psbt) : Prop where
  created : createChange checks selectedInputs kept changeScript = .ok (some ⟨change, changeScript⟩)
  required : calculateRequiredFee selectedInputs kept (some ⟨change, changeScript⟩) feeRate = .ok fee
  shared : calculateFeeDistribution kept fee = .ok fees
  viable : ∀ p ∈ List.zipWith Pegout.afterFee kept fees, p.isViable = true
  psbt_eq : psbt = createPsbt selectedInputs (List.zipWith Pegout.afterFee kept fees)
    (some ⟨change, changeScript⟩)

/-- There is always a change output, and it pays to the change script. -/
theorem createChange_eq_ok {change : Option TxOut}
    (h : createChange checks selectedInputs pegouts changeScript = .ok change) :
    ∃ amount ins outs : Amount, change = some ⟨amount, changeScript⟩ ∧
      totalInputs checks selectedInputs = .ok ins ∧
      (sumWord checks (pegouts.map (·.1.value)) : Outcome CoinSelectionError _) = .ok outs ∧
      amount.toNat + outs.toNat = ins.toNat := by
  obtain ⟨ins, hins, h⟩ := bind_eq_ok.mp h
  obtain ⟨outs, houts, h⟩ := bind_eq_ok.mp h
  obtain ⟨amount, hamount, h⟩ := bind_eq_ok.mp h
  obtain rfl := ok.inj h
  exact ⟨amount, ins, outs, rfl, hins, houts, checkedSub_eq_some.mp (ofOption_eq_ok.mp hamount)⟩

variable {fee : Amount}

/-- One accepted pass over the pegouts builds the PSBT. -/
theorem BuiltFrom.of_pass {change : Option TxOut} {result : List Pegout}
    (hchange : createChange checks selectedInputs pegouts changeScript = .ok change)
    (hfee : calculateRequiredFee selectedInputs pegouts change feeRate = .ok fee)
    (htry : tryApplyFeesAndFilterDust pegouts fee = .ok (.allRemaining result)) :
    ∃ fees amount, BuiltFrom checks selectedInputs pegouts changeScript feeRate fee fees amount
      (createPsbt selectedInputs result change) := by
  obtain ⟨amount, -, -, rfl, -⟩ := createChange_eq_ok hchange
  obtain ⟨fees, hfees, rfl, hviable⟩ := tryApplyFeesAndFilterDust_eq_all htry
  exact ⟨fees, amount, hchange, hfee, hfees, hviable, rfl⟩

variable {psbt : Psbt}

theorem applyFeesAndCreatePsbt_eq_ok {filtered : List (List UInt8)}
    (h : applyFeesAndCreatePsbt checks selectedInputs pegouts changeScript feeRate =
      .ok (psbt, filtered)) :
    keptPegouts checks selectedInputs pegouts changeScript feeRate =
      .ok (withoutIds pegouts filtered) ∧
    ∃ fee fees amount, BuiltFrom checks selectedInputs (withoutIds pegouts filtered) changeScript
      feeRate fee fees amount psbt := by
  obtain ⟨change, hchange, h⟩ := bind_eq_ok.mp h
  obtain ⟨fee, hfee, h⟩ := bind_eq_ok.mp h
  obtain ⟨first, hfirst, h⟩ := bind_eq_ok.mp h
  have hkept : keptPegouts checks selectedInputs pegouts changeScript feeRate = match first with
      | .allRemaining _ => .ok pegouts
      | .someFiltered ids => .ok (withoutIds pegouts ids) := by
    simp only [keptPegouts, hchange, hfee, hfirst, ok_bind]
    cases first <;> rfl
  cases first with
  | allRemaining result =>
    obtain ⟨rfl, rfl⟩ := Prod.mk.inj (ok.inj h)
    rw [withoutIds_nil]
    obtain ⟨fees, amount, hbuilt⟩ := BuiltFrom.of_pass hchange hfee hfirst
    exact ⟨hkept, fee, fees, amount, hbuilt⟩
  | someFiltered ids =>
    obtain ⟨change', hchange', h⟩ := bind_eq_ok.mp h
    obtain ⟨fee', hfee', h⟩ := bind_eq_ok.mp h
    obtain ⟨second, hsecond, h⟩ := bind_eq_ok.mp h
    cases second with
    | allRemaining result =>
      obtain ⟨rfl, rfl⟩ := Prod.mk.inj (ok.inj h)
      obtain ⟨fees, amount, hbuilt⟩ := BuiltFrom.of_pass hchange' hfee' hsecond
      exact ⟨hkept, fee', fees, amount, hbuilt⟩
    | someFiltered _ => contradiction

/-- The extraction check of the library accepts only a PSBT with a fee. -/
theorem Psbt.fee_of_extractTx {tx : Transaction} (h : psbt.extractTx = .ok tx) :
    ∃ fee, psbt.fee = .ok fee := by
  unfold Psbt.extractTx at h
  split at h
  case h_1 fee hfee => exact ⟨fee, hfee⟩
  all_goals contradiction

theorem sanityCheckPsbt_eq_ok {target : Amount}
    (h : sanityCheckPsbt checks psbt selectedInputs changeScript target = .ok ()) :
    ∃ fee, psbt.fee = .ok fee := by
  unfold sanityCheckPsbt at h
  split at h
  case h_1 tx htx => exact Psbt.fee_of_extractTx htx
  case h_2 => contradiction

/-- The gross pegouts of an accepted selection fit a word. -/
theorem natSum_lt_of_selectInputs {algorithm : CoinSelectionAlgorithm}
    {optionalUtxos requiredUtxos : FinMap OutPoint Utxo}
    (h : selectInputs algorithm optionalUtxos requiredUtxos pegouts feeRate changeScript =
      .ok selectedInputs) : natSum (pegouts.map (·.1.value)) < 2 ^ 64 := by
  obtain ⟨_, -, h⟩ := bind_eq_ok.mp h
  obtain ⟨_, -, h⟩ := bind_eq_ok.mp h
  obtain ⟨_, -, h⟩ := bind_eq_ok.mp h
  obtain ⟨target, htarget, -⟩ := bind_eq_ok.mp h
  rw [← checkedSum_eq_some.mp (ofOption_eq_ok.mp htarget)]
  exact target.isLt

/-- Dropping pegouts does not raise their sum. -/
theorem natSum_withoutIds_le (pegouts : List Pegout) (ids : List (List UInt8)) :
    natSum ((withoutIds pegouts ids).map (·.1.value)) ≤ natSum (pegouts.map (·.1.value)) :=
  ((filter_sublist.map _).map _).sum_le_sum (by simp)

/-- A viable output of a spendable script is the exact difference: had the share exceeded
the pegout, the output would be zero and below its dust limit. -/
theorem Pegout.value_afterFee {p : Pegout} (hspendable : isOpReturn p.1.scriptPubkey = false)
    (h : (p.afterFee fee).isViable = true) :
    (p.afterFee fee).1.value.toNat + fee.toNat = p.1.value.toNat := by
  have hdust := minimalNonDust_pos hspendable
  unfold isViable afterFee at *
  cases hsub : checkedSub p.1.value fee with
  | some value => exact checkedSub_eq_some.mp hsub
  | none =>
    rw [hsub] at h
    have hzero : minimalNonDust p.1.scriptPubkey ≤ (0 : Amount).toNat := of_decide_eq_true h
    exact absurd (Nat.lt_of_lt_of_le hdust hzero) (by decide)

/-- Outputs and shares together are the gross pegouts. -/
theorem natSum_afterFee : ∀ {kept : List Pegout} {fees : List Amount},
    fees.length = kept.length → (∀ p ∈ kept, isOpReturn p.1.scriptPubkey = false) →
    (∀ p ∈ List.zipWith Pegout.afterFee kept fees, p.isViable = true) →
    natSum ((List.zipWith Pegout.afterFee kept fees).map (·.1.value)) + natSum fees =
      natSum (kept.map (·.1.value))
  | [], [], _, _, _ => rfl
  | p :: kept, fee :: fees, hlen, hspendable, hviable => by
    rw [forall_mem_cons] at hspendable
    rw [zipWith_cons_cons, forall_mem_cons] at hviable
    have ih := natSum_afterFee (by simpa using hlen) hspendable.2 hviable.2
    have hp := Pegout.value_afterFee hspendable.1 hviable.1
    rw [zipWith_cons_cons, map_cons, map_cons, natSum_cons, natSum_cons, natSum_cons]
    omega

/-- The built PSBT pays exactly the required fee: the change gets what the inputs exceed
the gross pegouts by, and the shares sum to the fee. -/
theorem BuiltFrom.fee_eq {kept : List Pegout} {paid change : Amount} {fees : List Amount}
    (h : BuiltFrom checks selectedInputs kept changeScript feeRate fee fees change psbt)
    (hspendable : ∀ p ∈ kept, isOpReturn p.1.scriptPubkey = false)
    (hfit : natSum (kept.map (·.1.value)) < 2 ^ 64) (hpaid : psbt.fee = .ok paid) : paid = fee := by
  obtain ⟨hlen, hshares⟩ := calculateFeeDistribution_eq_ok h.shared
  obtain ⟨amount, ins, outs, hamount, hins, houts, hsub⟩ := createChange_eq_ok h.created
  obtain rfl : change = amount := congrArg TxOut.value (Option.some.inj hamount)
  rw [h.psbt_eq, fee_createPsbt] at hpaid
  obtain ⟨hlt, hpaid⟩ := hpaid
  have hins := toNat_of_sumWord hins hlt
  have houts := toNat_of_sumWord houts hfit
  have hgross := natSum_afterFee hlen hspendable h.viable
  rw [map_append, map_map, natSum_append] at hpaid
  change paid.toNat + (natSum ((zipWith Pegout.afterFee kept fees).map (·.1.value)) +
    (change.toNat + 0)) = _ at hpaid
  exact BitVec.eq_of_toNat_eq (by omega)

/-! ## A whole run of the builder -/

/-- The fee of the transaction `coin_selection` is asked for and the number of pegouts
that bear it. -/
def requiredFee (checks : Bool) (algorithm : CoinSelectionAlgorithm)
    (optionalUtxos requiredUtxos : FinMap OutPoint Utxo) (outputs : List (TxOut × PegoutId))
    (feeRate : FeeRate) (changeScript : ScriptBuf) : Outcome CoinSelectionError (Amount × Nat) := do
  let selectedInputs ←
    selectInputs algorithm optionalUtxos requiredUtxos (toPegouts outputs) feeRate changeScript
  let kept ← keptPegouts checks selectedInputs (toPegouts outputs) changeScript feeRate
  let change ← createChange checks selectedInputs kept changeScript
  let fee ← calculateRequiredFee selectedInputs kept change feeRate
  pure (fee, kept.length)

/-- What an accepted run of the builder went through. -/
theorem coinSelection_eq_ok {algorithm : CoinSelectionAlgorithm}
    {optionalUtxos requiredUtxos : FinMap OutPoint Utxo} {outputs : List (TxOut × PegoutId)}
    (h : coinSelection checks algorithm optionalUtxos requiredUtxos outputs feeRate changeScript =
      .ok psbt) :
    ∃ selectedInputs kept fee fees change paid,
      selectInputs algorithm optionalUtxos requiredUtxos (toPegouts outputs) feeRate changeScript =
        .ok selectedInputs ∧
      List.Sublist kept outputs ∧
      natSum ((toPegouts kept).map (·.1.value)) < 2 ^ 64 ∧
      requiredFee checks algorithm optionalUtxos requiredUtxos outputs feeRate changeScript =
        .ok (fee, kept.length) ∧
      BuiltFrom checks selectedInputs (toPegouts kept) changeScript feeRate fee fees change psbt ∧
      psbt.fee = .ok paid := by
  obtain ⟨_, -, h⟩ := bind_eq_ok.mp h
  obtain ⟨selectedInputs, hsel, h⟩ := bind_eq_ok.mp h
  obtain ⟨⟨psbt', filtered⟩, happly, h⟩ := bind_eq_ok.mp h
  obtain ⟨target, -, h⟩ := bind_eq_ok.mp h
  obtain ⟨_, hsanity, h⟩ := bind_eq_ok.mp h
  obtain rfl := ok.inj h
  obtain ⟨paid, hpaid⟩ := sanityCheckPsbt_eq_ok hsanity
  obtain ⟨hkept, fee, fees, change, hbuilt⟩ := applyFeesAndCreatePsbt_eq_ok happly
  -- the kept pegouts, under their ids
  have hfilter : withoutIds (toPegouts outputs) filtered =
      toPegouts (outputs.filter fun o => !filtered.contains o.2.asBytes) :=
    filter_map
  have hfit := Nat.lt_of_le_of_lt (natSum_withoutIds_le (toPegouts outputs) filtered)
    (natSum_lt_of_selectInputs hsel)
  refine ⟨selectedInputs, outputs.filter fun o => !filtered.contains o.2.asBytes, fee, fees,
    change, paid, hsel, filter_sublist, hfilter ▸ hfit, ?_, hfilter ▸ hbuilt, hpaid⟩
  rw [requiredFee, hsel, ok_bind, hkept, ok_bind, hbuilt.created, ok_bind, hbuilt.required, ok_bind,
    hfilter, length_toPegouts]
  rfl

end passes

end Macbeth
