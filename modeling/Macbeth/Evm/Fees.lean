import Macbeth.Evm.Provider
import Macbeth.Evm.Undo

/-!
# The fees of a block (`execute.rs`, `state_change.rs`, `utils.rs`)

The executor adds up, transaction by transaction,

```
(effective tip + base fee) * gas used
```

before it looks at the peg events, and credits the sum at the end of the block in three shares:
half of it, two fifths, and the rest.  Senders pay for gas in two ways: the EVM takes the gas
from the sender of a transaction it runs, and a transaction that is undone afterwards is
charged by the executor, at `effective_gas_price`.

With a base fee in the header the three prices are one price, so what is paid is what is
credited.  Without one they part: the tip is then the priority fee, and `effective_gas_price`
the cap.
-/

namespace Macbeth

open Outcome Checked Option BitVec

/-! ## Prices -/

namespace TxType

/-- The price the EVM charges: what is offered, or the base fee and the tip up to the cap. -/
def evmGasPrice (tx : TxType) (basefee : U256) : Nat :=
  match tx with
  | .legacy gasPrice | .eip2930 gasPrice => gasPrice.toNat
  | .eip1559 maxFee maxPriority | .eip4844 maxFee maxPriority | .eip7702 maxFee maxPriority =>
    min maxFee.toNat (basefee.toNat + maxPriority.toNat)

variable {tx : TxType} {baseFee : BitVec 64} {tip : BitVec 128}

/-- The price with a tip, if the cap covers the base fee. -/
theorem toNat_dynamicGasPrice {maxFee maxPriority : BitVec 128}
    (h : baseFee.toNat ≤ maxFee.toNat) :
    (dynamicGasPrice maxFee maxPriority (some baseFee)).toNat =
      min maxFee.toNat (baseFee.toNat + maxPriority.toNat) := by
  have hmax := maxFee.isLt
  have htip : (BitVec.ofNat 128 (maxFee.toNat - baseFee.toNat)).toNat =
      maxFee.toNat - baseFee.toNat := by
    rw [toNat_ofNat, Nat.mod_eq_of_lt (by omega)]
  simp only [dynamicGasPrice, gt_iff_lt, lt_def, htip]
  by_cases hlt : maxPriority.toNat < maxFee.toNat - baseFee.toNat
  · rw [if_pos hlt, toNat_add, toNat_setWidth_of_le (by decide),
      Nat.mod_eq_of_lt (by omega)]
    omega
  · rw [if_neg hlt]
    omega

/-- A tip is offered if the cap covers the base fee; it is what is left of the cap, or less. -/
theorem effectiveTipPerGas_eq_some
    (h : tx.effectiveTipPerGas (some baseFee) = some tip) :
    baseFee.toNat ≤ tx.maxFeePerGas.toNat ∧
      tip.toNat = min (tx.maxFeePerGas.toNat - baseFee.toNat)
        ((tx.maxPriorityFeePerGas.map BitVec.toNat).getD tx.maxFeePerGas.toNat) := by
  have hbase : (baseFee.setWidth 128).toNat = baseFee.toNat :=
    toNat_setWidth_of_le (by decide)
  simp only [effectiveTipPerGas, lt_def, hbase] at h
  split at h
  · cases h
  · next hge =>
    have hle : baseFee.toNat ≤ tx.maxFeePerGas.toNat := Nat.not_lt.mp hge
    have hfee : (tx.maxFeePerGas - baseFee.setWidth 128).toNat =
        tx.maxFeePerGas.toNat - baseFee.toNat := by
      rw [toNat_sub_of_le (le_def.mpr (by rwa [hbase])), hbase]
    refine ⟨hle, ?_⟩
    cases hpriority : tx.maxPriorityFeePerGas with
    | none =>
      simp only [hpriority, some.injEq] at h
      rw [← h, hfee]
      simp
    | some priorityFee =>
      simp only [hpriority, some.injEq] at h
      rw [← h]
      split
      · next hlt =>
        rw [le_def, hfee] at hlt
        simp only [map_some, getD_some]
        omega
      · next hlt =>
        rw [le_def, hfee] at hlt
        simp only [map_some, getD_some]
        omega

/-- With a base fee, the tip and the base fee together are the price. -/
theorem tip_add_baseFee (h : tx.effectiveTipPerGas (some baseFee) = some tip) :
    tip.toNat + baseFee.toNat = (tx.effectiveGasPrice (some baseFee)).toNat := by
  obtain ⟨hle, htip⟩ := effectiveTipPerGas_eq_some h
  cases tx <;>
    simp only [maxFeePerGas, maxPriorityFeePerGas, map_none, map_some,
      getD_none, getD_some] at hle htip <;>
    simp only [effectiveGasPrice, toNat_dynamicGasPrice hle] <;> omega

/-- With a base fee, the EVM charges the price. -/
theorem evmGasPrice_eq (h : tx.effectiveTipPerGas (some baseFee) = some tip) :
    tx.evmGasPrice (baseFee.setWidth 256) = (tx.effectiveGasPrice (some baseFee)).toNat := by
  obtain ⟨hle, -⟩ := effectiveTipPerGas_eq_some h
  have hbase : (baseFee.setWidth 256).toNat = baseFee.toNat :=
    toNat_setWidth_of_le (by decide)
  cases tx <;> simp only [maxFeePerGas] at hle <;>
    simp only [evmGasPrice, effectiveGasPrice, toNat_dynamicGasPrice hle, hbase]

end TxType

/-! ## The shares -/

/-- What a map of increments adds to all balances. -/
def totalIncrement (increments : FinMap Address (BitVec 128)) : Nat :=
  (increments.values.map BitVec.toNat).sum

namespace Executor

variable {exec : Executor} {increments increments' : FinMap Address (BitVec 128)}

/-- The three shares are the whole. -/
theorem blockFeesSplit_eq_ok {fees lst botanix recipient : BitVec 128}
    (h : blockFeesSplit fees = ok (lst, botanix, recipient)) :
    lst.toNat + botanix.toNat + recipient.toNat = fees.toNat := by
  obtain ⟨lst', -, h⟩ := bind_eq_ok.mp h
  obtain ⟨botanix', -, h⟩ := bind_eq_ok.mp h
  obtain ⟨recipient', hrecipient, h⟩ := bind_eq_ok.mp h
  obtain ⟨rfl, rfl, rfl⟩ : lst' = lst ∧ botanix' = botanix ∧ recipient' = recipient := by
    simpa using h
  obtain ⟨rest, hrest, hrecipient⟩ := bind_eq_some_iff.mp (expect_eq_ok.mp hrecipient)
  rw [checkedSub_eq_some] at hrest hrecipient
  omega

/-- A share is added to the total, also where the account has one already. -/
theorem totalIncrement_creditChecked {a : Address} {amount : BitVec 128}
    (h : creditChecked increments a amount = ok increments') :
    totalIncrement increments' = totalIncrement increments + amount.toNat := by
  unfold creditChecked at h
  split at h
  · next before hbefore =>
    obtain ⟨sum, hsum, h⟩ := bind_eq_ok.mp h
    obtain rfl := ok.inj h
    have hadd := checkedAdd_eq_some.mp (expect_eq_ok.mp hsum)
    have hvalues := FinMap.sum_values_insert increments a sum BitVec.toNat
    rw [hbefore, map_some, getD_some] at hvalues
    simp only [totalIncrement]
    omega
  · next hnone =>
    obtain rfl := ok.inj h
    have hvalues := FinMap.sum_values_insert increments a amount BitVec.toNat
    rw [hnone] at hvalues
    simpa [totalIncrement] using hvalues

/-- The fees of a block are credited in full. -/
theorem totalIncrement_creditFees {fees : BitVec 128} {recipient : Address}
    (hlst : exec.spec.lstFeeReceiver.isSome = true)
    (hbotanix : exec.spec.botanixFeeRecipient.isSome = true) (hrecipient : recipient ≠ 0)
    (h : exec.creditFees fees recipient increments = ok increments') :
    totalIncrement increments' = totalIncrement increments + fees.toNat := by
  obtain ⟨lstText, hlst⟩ := isSome_iff_exists.mp hlst
  obtain ⟨botanixText, hbotanix⟩ := isSome_iff_exists.mp hbotanix
  simp only [creditFees, hlst, hbotanix] at h
  split at h
  · obtain ⟨⟨lst, botanix, rest⟩, hsplit, h⟩ := bind_eq_ok.mp h
    obtain ⟨lstFeeReceiver, -, h⟩ := bind_eq_ok.mp h
    obtain ⟨increments₁, h₁, h⟩ := bind_eq_ok.mp h
    obtain ⟨botanixFeeRecipient, -, h⟩ := bind_eq_ok.mp h
    obtain ⟨increments₂, h₂, h⟩ := bind_eq_ok.mp h
    rw [totalIncrement_creditChecked h, totalIncrement_creditChecked h₂,
      totalIncrement_creditChecked h₁, ← blockFeesSplit_eq_ok hsplit]
    simp only [Nat.add_assoc]
  · next hzero =>
    have hle : ¬ fees > 0 := fun hpos => hzero ⟨hpos, hrecipient⟩
    have hfees : fees.toNat = 0 := by
      rw [gt_iff_lt, lt_def] at hle
      exact Nat.eq_zero_of_not_pos hle
    obtain rfl := ok.inj h
    rw [hfees, Nat.add_zero]

/-- Without rewards and withdrawals the increments of a block are its fees. -/
theorem totalIncrement_postBlock {block : EthBlock} {fees : BitVec 128} {recipient : Address}
    (hlst : exec.spec.lstFeeReceiver.isSome = true)
    (hbotanix : exec.spec.botanixFeeRecipient.isSome = true) (hrecipient : recipient ≠ 0)
    (hrewards : exec.spec.blockRewards block = []) (hwithdrawals : block.withdrawals.getD [] = [])
    (h : exec.postBlockBalanceIncrements block fees recipient = ok increments) :
    totalIncrement increments = fees.toNat := by
  simp only [postBlockBalanceIncrements, hrewards, List.foldlM_nil, pure_bind] at h
  obtain ⟨increments₁, hfees, h⟩ := bind_eq_ok.mp h
  have hsame : increments₁ = increments := by
    simpa [hwithdrawals] using h
  rw [← hsame, totalIncrement_creditFees hlst hbotanix hrecipient hfees]
  exact Nat.zero_add _

end Executor

/-! ## What the senders pay -/

namespace ChainState

/-- The balance of an account; an account that is not there has none. -/
def balanceOf (s : ChainState) (a : Address) : Nat :=
  ((s.basic a).map fun info => info.balance.toNat).getD 0

/-- A touched account has the balance that is written, also if it is removed as empty. -/
theorem balanceOf_commit_touched (s : ChainState) (stateClear : Bool) (a : Address)
    (info : AccountInfo) :
    (s.commit stateClear ((∅ : EvmState).insert a ⟨info, ∅, .onlyTouched⟩)).balanceOf a =
      info.balance.toNat := by
  have hbasic : (s.commit stateClear ((∅ : EvmState).insert a ⟨info, ∅, .onlyTouched⟩)).basic a =
      if info.isEmpty && stateClear then none else some info := by
    simp only [commit, AList.lookup_insert]
    rfl
  rw [balanceOf, hbasic]
  by_cases hempty : info.isEmpty && stateClear
  · have hzero : info.balance = 0 := by
      simp only [AccountInfo.isEmpty, Bool.and_eq_true, decide_eq_true_eq] at hempty
      exact hempty.1.2.1
    rw [if_pos hempty, hzero]
    rfl
  · rw [if_neg hempty]
    rfl

end ChainState

namespace Executor

variable (exec : Executor) (taken : BlockEnv → ChainState → Address → TransactionSigned → Nat)
variable (header : EthHeader) (pkg : ConsensusPackage)

/-- Whether a transaction succeeds on the EVM and the peg checks then refuse it. -/
def refuses (p : Progress) (sender : Address) (tx : TransactionSigned) : Bool :=
  match exec.evm.transact (header.fillBlockEnv (exec.spec.afterMerge header)) p.state sender tx with
  | .ok (.success _ logs, _) =>
    match exec.mintEnv.botanixMintContractChecks pkg tx.hash logs with
    | .err _ => true
    | _ => false
  | _ => false

/-- What a transaction has cost its sender in gas: what the EVM has taken or, if it was
undone, what is missing from the balance. -/
def gasDebit (p p' : Progress) (sender : Address) (tx : TransactionSigned) : Nat :=
  if exec.refuses header pkg p sender tx then p.state.balanceOf sender - p'.state.balanceOf sender
  else taken (header.fillBlockEnv (exec.spec.afterMerge header)) p.state sender tx

/-- What the transactions of a block have cost their senders in gas. -/
def gasDebits : Progress → List (Address × TransactionSigned) → Nat
  | _, [] => 0
  | p, (sender, tx) :: txs =>
    match exec.executeTransaction header pkg p (sender, tx) with
    | .ok p' => exec.gasDebit taken header pkg p p' sender tx + gasDebits p' txs
    | _ => 0

/-- The EVM takes the gas it uses from the sender, at its price. -/
def TakesGas (evm : Evm) : Prop :=
  ∀ {env s sender tx result changes}, evm.transact env s sender tx = .ok (result, changes) →
    taken env s sender tx = result.gasUsed.toNat * tx.type.evmGasPrice env.basefee

variable {exec taken header pkg} {p p' : Progress} {sender : Address} {tx : TransactionSigned}
variable {baseFee : BitVec 64}

/-- A transaction that has run adds the tip and the base fee for its gas. -/
theorem totalBlockFees_runTransaction {run : TransactionRun}
    (h : exec.runTransaction header p sender tx = ok run) :
    ∃ tip, tx.type.effectiveTipPerGas header.baseFeePerGas = some tip ∧
      exec.evm.transact (header.fillBlockEnv (exec.spec.afterMerge header)) p.state sender tx =
        .ok (run.result, run.changes) ∧
      run.totalBlockFees = p.totalBlockFees +
        (tip + (header.baseFeePerGas.getD 0).setWidth 128) * run.result.gasUsed.setWidth 128 := by
  obtain ⟨available, -, h⟩ := bind_eq_ok.mp h
  obtain ⟨-, -, h⟩ := bind_eq_ok.mp h
  obtain ⟨original, -, h⟩ := bind_eq_ok.mp h
  obtain ⟨⟨result, changes⟩, htransact, h⟩ := bind_eq_ok.mp h
  obtain ⟨tip, htip, h⟩ := bind_eq_ok.mp h
  obtain ⟨fee, hfee, h⟩ := bind_eq_ok.mp h
  obtain ⟨fees, hfees, h⟩ := bind_eq_ok.mp h
  obtain ⟨totalBlockFees, htotal, h⟩ := bind_eq_ok.mp h
  obtain ⟨cumulativeGasUsed, -, h⟩ := bind_eq_ok.mp h
  obtain rfl := ok.inj h
  rw [addWord_eq_ok hfee] at hfees
  rw [mulWord_eq_ok hfees] at htotal
  exact ⟨tip, expect_eq_ok.mp htip, ofExcept_eq_ok.mp htransact, addWord_eq_ok htotal⟩

/-- What the gas of a transaction costs its sender, at the price of the transaction. -/
theorem gasDebit_eq (hevm : TakesGas taken exec.evm) (hbase : header.baseFeePerGas = some baseFee)
    {tip : BitVec 128} (htip : tx.type.effectiveTipPerGas (some baseFee) = some tip)
    {result : ExecutionResult} {changes : EvmState}
    (hrun : exec.evm.transact (header.fillBlockEnv (exec.spec.afterMerge header)) p.state sender
      tx = .ok (result, changes))
    (h : exec.executeTransaction header pkg p (sender, tx) = ok p') :
    exec.gasDebit taken header pkg p p' sender tx =
      result.gasUsed.toNat * (tx.type.effectiveGasPrice (some baseFee)).toNat := by
  by_cases hrefuses : exec.refuses header pkg p sender tx
  · rw [gasDebit, if_pos hrefuses]
    -- the transaction was undone: the balance that was written is the old one without the gas
    simp only [refuses, hrun] at hrefuses
    cases result with
    | success gasUsed logs =>
      cases hchecks : exec.mintEnv.botanixMintContractChecks pkg tx.hash logs with
      | err e =>
        obtain ⟨original, account, balance, horiginal, -, hpaid, hstate, -⟩ :=
          executeTransaction_refused hrun hchecks h
        have hbefore : p.state.balanceOf sender = original.balance.toNat := by
          rw [ChainState.balanceOf, horiginal]
          rfl
        rw [hstate, ChainState.balanceOf_commit_touched, hbefore, ← hpaid, hbase,
          ExecutionResult.gasUsed]
        exact Nat.add_sub_cancel_left _ _
      | ok pegs => simp [hchecks] at hrefuses
      | panic => simp [hchecks] at hrefuses
    | revert gasUsed => simp at hrefuses
    | halt gasUsed => simp at hrefuses
  · rw [gasDebit, if_neg hrefuses, hevm hrun]
    have hbasefee : (header.fillBlockEnv (exec.spec.afterMerge header)).basefee =
        baseFee.setWidth 256 := by
      simp [EthHeader.fillBlockEnv, hbase]
    rw [hbasefee, TxType.evmGasPrice_eq htip]

/-- The fees grow by what the sender pays, up to what a word can hold. -/
theorem totalBlockFees_executeTransaction (hevm : TakesGas taken exec.evm)
    (hbase : header.baseFeePerGas = some baseFee)
    (h : exec.executeTransaction header pkg p (sender, tx) = ok p') :
    p'.totalBlockFees.toNat =
      (p.totalBlockFees.toNat + exec.gasDebit taken header pkg p p' sender tx) % 2 ^ 128 := by
  obtain ⟨run, checked, hrun, -, hp'⟩ := executeTransaction_iff.mp h
  obtain ⟨tip, htip, htransact, htotal⟩ := totalBlockFees_runTransaction hrun
  rw [hbase] at htip
  have hprice := TxType.tip_add_baseFee htip
  have hlt := (tx.type.effectiveGasPrice (some baseFee)).isLt
  have hfee : (tip + (header.baseFeePerGas.getD 0).setWidth 128).toNat =
      (tx.type.effectiveGasPrice (some baseFee)).toNat := by
    rw [hbase, getD_some, toNat_add, toNat_setWidth_of_le (by decide), hprice,
      Nat.mod_eq_of_lt hlt]
  rw [gasDebit_eq hevm hbase htip htransact h, ← hp']
  show run.totalBlockFees.toNat = _
  rw [htotal, toNat_add, toNat_mul, hfee, toNat_setWidth_of_le (by decide),
    Nat.add_mod_mod, Nat.mul_comm]

/-- The fees of the transactions of a block are what their senders pay. -/
theorem totalBlockFees_foldlM (hevm : TakesGas taken exec.evm)
    (hbase : header.baseFeePerGas = some baseFee) (txs : List (Address × TransactionSigned)) :
    ∀ p, txs.foldlM (exec.executeTransaction header pkg) p = ok p' →
      p'.totalBlockFees.toNat =
        (p.totalBlockFees.toNat + exec.gasDebits taken header pkg p txs) % 2 ^ 128 := by
  induction txs with
  | nil =>
    intro p h
    obtain rfl := ok.inj h
    rw [gasDebits, Nat.add_zero, Nat.mod_eq_of_lt p.totalBlockFees.isLt]
  | cons signed txs ih =>
    intro p h
    obtain ⟨sender, tx⟩ := signed
    rw [List.foldlM_cons] at h
    obtain ⟨p₁, hstep, hrest⟩ := bind_eq_ok.mp h
    have hgas : exec.gasDebits taken header pkg p ((sender, tx) :: txs) =
        exec.gasDebit taken header pkg p p₁ sender tx + exec.gasDebits taken header pkg p₁ txs := by
      rw [gasDebits, hstep]
    rw [ih p₁ hrest, totalBlockFees_executeTransaction hevm hbase hstep, hgas, Nat.mod_add_mod,
      Nat.add_assoc]

/-- The increments at the end of a block with a base fee are together what the senders of its
transactions have paid for gas. -/
theorem increments_eq_gasDebits {s s' s₀ : ChainState} {block : EthBlock} {output : ExecuteOutput}
    {edh : ExtraDataHeader} (hevm : TakesGas taken exec.evm)
    (h : exec.executeWithoutVerification s block = ok (output, s'))
    (hedh : block.header.extraData = some edh)
    (hpkg : exec.botanixConsensusPackage block.header = .ok pkg)
    (hpre : exec.evm.preExecution block.header s = .ok s₀)
    (hlst : exec.spec.lstFeeReceiver.isSome = true)
    (hbotanix : exec.spec.botanixFeeRecipient.isSome = true)
    (hrecipient : edh.blockFeeRecipientAddress ≠ 0)
    (hrewards : exec.spec.blockRewards block = []) (hwithdrawals : block.withdrawals.getD [] = [])
    (hbase : block.header.baseFeePerGas = some baseFee)
    (hbound : 50 * exec.gasDebits taken block.header pkg ⟨s₀, 0, 0, [], [], []⟩
      block.transactions < 2 ^ 128) :
    ∃ increments, exec.postBlockBalanceIncrements block output.totalBlockFees
        edh.blockFeeRecipientAddress = ok increments ∧
      totalIncrement increments =
        exec.gasDebits taken block.header pkg ⟨s₀, 0, 0, [], [], []⟩ block.transactions := by
  obtain ⟨edh', pkg', s₁, p, s₂, requests, increments, hedh', hpkg', hpre', hfold, -, rfl,
    hincrements, -⟩ := executeWithoutVerification_eq_ok.mp h
  obtain rfl : edh = edh' := some.inj (hedh.symm.trans hedh')
  obtain rfl : pkg = pkg' := Except.ok.inj (hpkg.symm.trans hpkg')
  obtain rfl : s₀ = s₁ := Except.ok.inj (hpre.symm.trans hpre')
  refine ⟨increments, hincrements, ?_⟩
  rw [totalIncrement_postBlock hlst hbotanix hrecipient hrewards hwithdrawals hincrements,
    totalBlockFees_foldlM hevm hbase _ _ hfold, Nat.mod_eq_of_lt]
  · exact Nat.zero_add _
  · show 0 + _ < _
    omega

end Executor

/-! ## Two blocks -/

/-- What the EVM of the two burns takes: its gas, at the EVM's price. -/
def burningTaken (env : BlockEnv) (_ : ChainState) (_ : Address) (tx : TransactionSigned) : Nat :=
  50000 * tx.type.evmGasPrice env.basefee

theorem burningEvm_takesGas : Executor.TakesGas burningTaken burningEvm := by
  intro env s sender tx result changes hrun
  simp only [burningEvm] at hrun
  split at hrun
  · cases hrun
  · split at hrun
    · cases hrun
    · split at hrun
      · simp only [Except.ok.injEq, Prod.mk.injEq] at hrun
        rw [← hrun.1]
        rfl
      · cases hrun

/-- The executor of the two burns, where one account receives two of the shares. -/
def sharingExecutor : Executor :=
  { burningExecutor with
    spec := ⟨fun _ => true, fun _ => false, fun _ => true, fun _ => true, fun _ => [],
      some (some 9), some (some 9)⟩
    bitcoind := ⟨true, fun _ => some sampleBlock.header, fun _ => some 1⟩ }

/-- A block with two calls, with or without a base fee. -/
def burningBlock (baseFee : Option (BitVec 64)) : EthBlock where
  header := { burningHeader with
    baseFeePerGas := baseFee
    extraData := some ⟨sampleBlockHash, ⟨false, 1⟩, 10⟩ }
  transactions := [(5, ⟨11, 200000, .legacy 9, []⟩), (5, ⟨13, 200000, .eip1559 9 1, []⟩)]
  withdrawals := none

def sharingPackage : ConsensusPackage := ⟨(sampleBlock.header, 1), ⟨false, 1⟩, .bitcoin⟩

/-- The block, executed from a state where account 5 has a coin. -/
def runBurningBlock (baseFee : Option (BitVec 64)) :
    Outcome BlockExecutionError (Executor.ExecuteOutput × ChainState) :=
  sharingExecutor.executeWithoutVerification burningStart.state (burningBlock baseFee)

def afterBurningBlock (baseFee : Option (BitVec 64)) : Executor.ExecuteOutput × ChainState :=
  (runBurningBlock baseFee).getD (⟨[], [], 0, 0, [], []⟩, burningStart.state)

theorem runBurningBlock_eq (baseFee : Option (BitVec 64))
    (h : (runBurningBlock baseFee).isOk = true) :
    sharingExecutor.executeWithoutVerification burningStart.state (burningBlock baseFee) =
      ok ((afterBurningBlock baseFee).1, (afterBurningBlock baseFee).2) :=
  eq_ok_getD h _

/-- What the senders of the block pay. -/
def burningDebits (baseFee : Option (BitVec 64)) : Nat :=
  sharingExecutor.gasDebits burningTaken (burningBlock baseFee).header sharingPackage
    ⟨burningStart.state, 0, 0, [], [], []⟩ (burningBlock baseFee).transactions

/-- Both calls are undone, at prices 9 and 8, and all of the gas is credited. -/
theorem burningBlock_conserves : burningDebits (some 7) = 50000 * 9 + 50000 * 8 ∧
    ∃ increments, sharingExecutor.postBlockBalanceIncrements (burningBlock (some 7))
        (afterBurningBlock (some 7)).1.totalBlockFees 10 = ok increments ∧
      totalIncrement increments = burningDebits (some 7) := by
  have hdebits : burningDebits (some 7) = 50000 * 9 + 50000 * 8 := by decide +kernel
  have hbound : 50 * burningDebits (some 7) < 2 ^ 128 := by
    rw [hdebits]
    decide
  have hrun := runBurningBlock_eq (some 7) (by decide +kernel)
  have hedh : (burningBlock (some 7)).header.extraData = some ⟨sampleBlockHash, ⟨false, 1⟩, 10⟩ := rfl
  have hpkg : sharingExecutor.botanixConsensusPackage (burningBlock (some 7)).header =
      .ok sharingPackage := rfl
  have hpre : sharingExecutor.evm.preExecution (burningBlock (some 7)).header burningStart.state =
      .ok burningStart.state := rfl
  have hevm : Executor.TakesGas burningTaken sharingExecutor.evm := burningEvm_takesGas
  refine ⟨hdebits, ?_⟩
  unfold burningDebits at hbound ⊢
  have hbase : (burningBlock (some 7)).header.baseFeePerGas = some 7 := rfl
  have hmain := Executor.increments_eq_gasDebits hevm hrun hedh hpkg hpre rfl rfl (by decide) rfl rfl
    hbase
  exact hmain hbound

/-- Without a base fee the second call is undone at its cap of 9, and its tip of 1 is credited. -/
theorem burningBlock_loses :
    sharingExecutor.executeWithoutVerification burningStart.state (burningBlock none) =
      ok ((afterBurningBlock none).1, (afterBurningBlock none).2) ∧
    sharingExecutor.botanixConsensusPackage (burningBlock none).header = .ok sharingPackage ∧
    sharingExecutor.spec.lstFeeReceiver = some (some 9) ∧
    sharingExecutor.spec.botanixFeeRecipient = some (some 9) ∧
    burningDebits none = 50000 * 9 + 50000 * 9 ∧
    ∃ increments, sharingExecutor.postBlockBalanceIncrements (burningBlock none)
        (afterBurningBlock none).1.totalBlockFees 10 = ok increments ∧
      totalIncrement increments = 50000 * 9 + 50000 * 1 ∧
      totalIncrement increments ≠ burningDebits none := by
  have hdebits : burningDebits none = 50000 * 9 + 50000 * 9 := by decide +kernel
  refine ⟨runBurningBlock_eq none (by decide +kernel), rfl, rfl, rfl, hdebits, ?_⟩
  have hok : (sharingExecutor.postBlockBalanceIncrements (burningBlock none)
      (afterBurningBlock none).1.totalBlockFees 10).isOk = true := by decide +kernel
  have hsum : totalIncrement ((sharingExecutor.postBlockBalanceIncrements (burningBlock none)
      (afterBurningBlock none).1.totalBlockFees 10).getD ∅) = 50000 * 9 + 50000 * 1 := by
    decide +kernel
  refine ⟨_, eq_ok_getD hok ∅, hsum, ?_⟩
  rw [hsum, hdebits]
  decide

end Macbeth
