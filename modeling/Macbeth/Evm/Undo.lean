import Macbeth.Evm.Executor
import Macbeth.Peg.Solvency

/-!
# Transactions whose peg events are refused (`execute.rs`)

When the peg checks refuse a log of a successful transaction, the executor clears the changes
the EVM has returned and writes the sender alone:

```
info    = the sender before the transaction
nonce   := the sender's nonce after the transaction
balance := balance - gas used * effective gas price
```

The nonce is the one value that is taken from the cleared changes.  The source says "this
should be original nonce + 1", and it is, unless the transaction raises the nonce further: an
authorisation list (EIP-7702) may hold an authorisation by the sender itself, and the code a
sender has delegated to may create contracts.  What that nonce was spent on is cleared with the
rest.
-/

namespace Macbeth

open Outcome Checked Option BitVec AList

/-- Whether the transaction carries an authorisation list. -/
def TxType.hasAuthorizations : TxType → Bool
  | .eip7702 _ _ => true
  | _ => false

/-! ## The frame -/

namespace ChainState

/-- Writing one touched account that is not empty replaces it and leaves all else. -/
theorem commit_touched {s : ChainState} {stateClear : Bool} {a : Address} {info : AccountInfo}
    (hinfo : info.isEmpty = false) :
    s.commit stateClear ((∅ : EvmState).insert a ⟨info, ∅, .onlyTouched⟩) =
      { s with basic := Function.update s.basic a (some info) } := by
  have hmiss : ∀ b, b ≠ a →
      ((∅ : EvmState).insert a ⟨info, ∅, .onlyTouched⟩).lookup b = none := by
    intro b hb
    rw [lookup_insert_ne hb]
    rfl
  have hbasic : ∀ b, (s.commit stateClear
      ((∅ : EvmState).insert a ⟨info, ∅, .onlyTouched⟩)).basic b =
        Function.update s.basic a (some info) b := by
    intro b
    by_cases hb : b = a
    · subst hb
      simp only [commit, lookup_insert, Function.update_self]
      simp [Account.written, AccountStatus.onlyTouched, hinfo]
    · simp only [commit, hmiss b hb, Function.update_of_ne hb]
  have hstorage : ∀ b slot, (s.commit stateClear
      ((∅ : EvmState).insert a ⟨info, ∅, .onlyTouched⟩)).storage b slot = s.storage b slot := by
    intro b slot
    by_cases hb : b = a
    · subst hb
      simp only [commit, lookup_insert]
      simp [Account.writtenSlot, AccountStatus.onlyTouched, hinfo]
    · simp only [commit, hmiss b hb]
  exact congrArg₂ ChainState.mk (funext hbasic) (funext fun b => funext (hstorage b))

end ChainState

namespace Executor

/-- The transaction is undone: it has cost the sender the gas and one nonce, its receipt is
that of a failed transaction, and nothing else has changed. -/
structure ExactlyUndone (p p' : Progress) (sender : Address) (tx : TransactionSigned)
    (gasCost : Nat) : Prop where
  others : ∀ a, a ≠ sender → p'.state.basic a = p.state.basic a
  storage : p'.state.storage = p.state.storage
  payer : ∃ before after, p.state.basic sender = some before ∧
    p'.state.basic sender = some after ∧ after.codeHash = before.codeHash ∧
    after.nonce.toNat = before.nonce.toNat + 1 ∧
    after.balance.toNat + gasCost = before.balance.toNat
  receipt : ∃ cumulativeGasUsed,
    p'.receipts = p.receipts ++ [⟨tx.type, false, cumulativeGasUsed, []⟩]
  pegins : p'.pegins = p.pegins
  pegouts : p'.pegouts = p.pegouts

/-- What the gas costs fits a word. -/
theorem toNat_gasCost (gasUsed : BitVec 64) (price : BitVec 128) :
    (gasUsed.setWidth 256 * price.setWidth 256 : U256).toNat = gasUsed.toNat * price.toNat := by
  have hprice : price.toNat < 2 ^ 192 := Nat.lt_trans price.isLt (by decide)
  have hcost : gasUsed.toNat * price.toNat < 2 ^ 256 := by
    have hlt : gasUsed.toNat * price.toNat < 2 ^ 64 * 2 ^ 192 :=
      Nat.mul_lt_mul'' gasUsed.isLt hprice
    exact hlt
  rw [toNat_mul, toNat_setWidth_of_le (by decide),
    toNat_setWidth_of_le (by decide), Nat.mod_eq_of_lt hcost]

variable {exec : Executor} {header : EthHeader} {pkg : ConsensusPackage} {p p' : Progress}
variable {sender : Address} {tx : TransactionSigned} {gasUsed : BitVec 64} {logs : List Log}
variable {changes : EvmState} {e : MintContractError}

/-- A refused transaction leaves everything but its sender, whose nonce is the EVM's. -/
theorem executeTransaction_refused
    (hrun : exec.evm.transact (header.fillBlockEnv (exec.spec.afterMerge header)) p.state sender
      tx = .ok (.success gasUsed logs, changes))
    (hchecks : exec.mintEnv.botanixMintContractChecks pkg tx.hash logs = err e)
    (h : exec.executeTransaction header pkg p (sender, tx) = ok p') :
    ∃ original account balance, p.state.basic sender = some original ∧
      changes.lookup sender = some account ∧
      balance.toNat + gasUsed.toNat * (tx.type.effectiveGasPrice header.baseFeePerGas).toNat =
        original.balance.toNat ∧
      p'.state = p.state.commit (exec.spec.isSpuriousDragonActive header.number)
        ((∅ : EvmState).insert sender
          ⟨{ original with nonce := account.info.nonce, balance }, ∅, .onlyTouched⟩) ∧
      (∃ cumulativeGasUsed,
        p'.receipts = p.receipts ++ [⟨tx.type, false, cumulativeGasUsed, []⟩]) ∧
      p'.pegins = p.pegins ∧ p'.pegouts = p.pegouts := by
  obtain ⟨original, result, changes', checked, cumulativeGasUsed, totalBlockFees, horiginal, hrun',
    hchecked, rfl⟩ := executeTransaction_eq_ok h
  obtain ⟨rfl, rfl⟩ : .success gasUsed logs = result ∧ changes = changes' := by
    simpa using hrun.symm.trans hrun'
  simp only [checkPegs, hchecks] at hchecked
  obtain ⟨account, balance, haccount, hbalance, rfl⟩ := undo_eq_ok hchecked
  have hpaid := checkedSub_eq_some.mp hbalance
  rw [toNat_gasCost] at hpaid
  exact ⟨original, account, balance, horiginal, haccount, hpaid, rfl, ⟨cumulativeGasUsed, rfl⟩,
    List.append_nil _, List.append_nil _⟩

/-! ## The nonce -/

/-- What the EVM does to the nonce of a sender: a transaction that runs raises it by one, and
by one more for each authorisation of its list that is the sender's own and for each contract
created by code the sender has delegated to; `extra` counts these. -/
structure NonceRule (evm : Evm)
    (extra : BlockEnv → ChainState → Address → TransactionSigned → Nat) : Prop where
  raised : ∀ {env s sender tx gasUsed logs changes original},
    evm.transact env s sender tx = .ok (.success gasUsed logs, changes) →
    s.basic sender = some original →
    ∃ account, changes.lookup sender = some account ∧
      account.info.nonce.toNat = original.nonce.toNat + 1 + extra env s sender tx
  /-- Without a list and without code there is nothing to count. -/
  plain : ∀ {env s sender tx original}, tx.type.hasAuthorizations = false →
    s.basic sender = some original → original.codeHash = keccakEmpty →
    extra env s sender tx = 0

variable {extra : BlockEnv → ChainState → Address → TransactionSigned → Nat}

end Executor

/-! ## A sender that authorises itself -/

/-- Two burns by account 5: the second destination is not an address. -/
def twoBurns : List Log :=
  [burnEvent 5 10000000000 [0x61] [0], burnEvent 5 10000000000 [0x62] [0]]

/-- An authorisation by the sender is the one byte of the body. -/
def ownAuthorization (tx : TransactionSigned) : Nat :=
  if tx.type.hasAuthorizations ∧ tx.body = [1] then 1 else 0

/-- The accounts after the two burns: the gas and the burnt coins are paid, and the sender's
nonce is raised for the transaction and for its own authorisation. -/
def burnChanges (sender : Address) (info : AccountInfo) (tx : TransactionSigned) : EvmState :=
  ((∅ : EvmState).insert sender
    ⟨{ info with
        balance := info.balance - 20000000000 - 50000 * 7
        nonce := BitVec.ofNat 64 (info.nonce.toNat + 1 + ownAuthorization tx)
        codeHash := if ownAuthorization tx = 1 then 1 else info.codeHash }, ∅,
      .onlyTouched⟩).insert mintContractAddress ⟨⟨20000000000, 1, 1⟩, ∅, .onlyTouched⟩

/-- An EVM on which every transaction makes the two burns; nonces at the end of their range
are refused. -/
def burningEvm : Evm where
  transact _ s sender tx := match s.basic sender with
    | none => .error (.transaction "LackOfFundForMaxFee")
    | some info =>
      if sender = mintContractAddress then .error (.transaction "RejectCallerWithCode")
      else if info.nonce.toNat + 2 < 2 ^ 64 then
        .ok (.success 50000 twoBurns, burnChanges sender info tx)
      else .error (.transaction "NonceOverflowInTransaction")
  preExecution _ s := .ok s
  collectRequests _ _ s := .ok ([], s)

theorem ownAuthorization_le (tx : TransactionSigned) : ownAuthorization tx ≤ 1 := by
  unfold ownAuthorization
  split <;> simp

theorem burningEvm_nonceRule :
    Executor.NonceRule burningEvm fun _ _ _ tx => ownAuthorization tx where
  raised := by
    intro env s sender tx gasUsed logs changes original hrun horiginal
    simp only [burningEvm, horiginal] at hrun
    split at hrun
    · cases hrun
    · next hsender =>
      split at hrun
      · next hbound =>
        simp only [Except.ok.injEq, Prod.mk.injEq] at hrun
        have hle := ownAuthorization_le tx
        rw [← hrun.2, burnChanges, lookup_insert_ne hsender, lookup_insert]
        refine ⟨_, rfl, ?_⟩
        show (BitVec.ofNat 64 _).toNat = _
        rw [toNat_ofNat, Nat.mod_eq_of_lt (by omega)]
      · cases hrun
  plain := by
    intro env s sender tx original htype horiginal hcode
    simp [ownAuthorization, htype]

/-- An executor on that EVM, where the text `a` is an address. -/
def burningExecutor : Executor where
  evm := burningEvm
  spec := ⟨fun _ => true, fun _ => true, fun _ => true, fun _ => true, fun _ => [], none, none⟩
  btc := sampleBitcoin
  frost := sampleFrost
  addressFromStr text := if text = [0x61] then some ⟨p2tr 0, [.bitcoin]⟩ else none
  bitcoinNetwork := .bitcoin
  bitcoind := ⟨true, fun _ => none, fun _ => none⟩
  findBlockByHash _ := some none
  checks := true

def burningHeader : EthHeader :=
  ⟨0, 1, 1700000000, 30000000, some 7, 0, 0, 0, none, none, none, none⟩

def burningPackage : ConsensusPackage := ⟨(sampleBlock.header, 1), ⟨false, 1⟩, .bitcoin⟩

/-- Account 5 has a coin and has sent four transactions. -/
def burningStart : Executor.Progress where
  state := ⟨fun a => if a = 5 then some ⟨1000000000000000000, 4, keccakEmpty⟩ else none,
    fun _ _ => 0⟩
  cumulativeGasUsed := 0
  totalBlockFees := 0
  receipts := []
  pegins := []
  pegouts := []

/-- A call with a gas price. -/
def plainBurns : TransactionSigned := ⟨11, 200000, .legacy 7, []⟩

/-- The same call with an authorisation by the sender. -/
def authorizingBurns : TransactionSigned := ⟨12, 200000, .eip7702 9 0, [1]⟩

/-- What is carried on after one of the two. -/
def afterBurns (tx : TransactionSigned) : Executor.Progress :=
  (burningExecutor.executeTransaction burningHeader burningPackage burningStart (5, tx)).getD
    burningStart

theorem executeTransaction_burns (tx : TransactionSigned)
    (h : (burningExecutor.executeTransaction burningHeader burningPackage burningStart
      (5, tx)).isOk = true) :
    burningExecutor.executeTransaction burningHeader burningPackage burningStart (5, tx) =
      ok (afterBurns tx) :=
  eq_ok_getD h _

/-- The second burn of the two is refused. -/
theorem twoBurns_refused (txHash : BitVec 256) :
    burningExecutor.mintEnv.botanixMintContractChecks burningPackage txHash twoBurns =
      err (.invalidPegoutData (.invalid "Invalid Bitcoin Address" 10000000000)) := by
  have hpegins : burningExecutor.mintEnv.collectPegins burningPackage twoBurns = ok [] := by
    decide +kernel
  have hfirst : tryParseBurnEvent burningExecutor.mintEnv.addressFromStr
      (burnEvent 5 10000000000 [0x61] [0]) burningPackage.btcNetwork =
        .ok (some ⟨1, p2tr 0, .bitcoin⟩) := by decide +kernel
  have hsecond : tryParseBurnEvent burningExecutor.mintEnv.addressFromStr
      (burnEvent 5 10000000000 [0x62] [0]) burningPackage.btcNetwork =
        .error (.invalidPegoutData (.invalid "Invalid Bitcoin Address" 10000000000)) := by
    decide +kernel
  rw [MintEnv.botanixMintContractChecks, hpegins]
  simp only [twoBurns, MintEnv.collectPegouts, hfirst, hsecond, Outcome.ofExcept, ok_bind, err_bind,
    MintContractError.ofBurn]

end Macbeth
