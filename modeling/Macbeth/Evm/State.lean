import Macbeth.Peg.MintChecks
import Macbeth.Lib.Checked
import Macbeth.Lib.FinMap

/-!
# Accounts, state changes and transactions

The state of the chain is a map from addresses to accounts and from addresses and slots to
words.  Running a transaction does not change it: the EVM returns the accounts it has
touched, and `commit` writes them.  The rules of `commit` are those of revm's cache: an
account that was not touched is skipped, a destroyed one is removed with its storage, a
created one starts with empty storage, and an empty one is removed once empty accounts are
cleared.

Gas prices are those of `transaction/mod.rs` and the transaction types beside it.
-/

namespace Macbeth

/-! ## Accounts -/

/-- `AccountInfo`. -/
structure AccountInfo where
  balance : U256
  nonce : BitVec 64
  codeHash : BitVec 256
  deriving DecidableEq, Repr

/-- `KECCAK_EMPTY`, the code hash of an account without code. -/
def keccakEmpty : BitVec 256 := 0xc5d2460186f7233c927e7db2dcc703c0e500b653ca82273b7bfad8045d85a470

namespace AccountInfo

/-- `AccountInfo::default`. -/
def empty : AccountInfo := ⟨0, 0, keccakEmpty⟩

/-- `AccountInfo::is_empty`. -/
def isEmpty (info : AccountInfo) : Bool :=
  (info.codeHash = keccakEmpty ∨ info.codeHash = 0) ∧ info.balance = 0 ∧ info.nonce = 0

end AccountInfo

/-- `AccountStatus`. -/
structure AccountStatus where
  created : Bool
  selfdestructed : Bool
  touched : Bool
  deriving DecidableEq, Repr

/-- `AccountStatus::Touched`. -/
def AccountStatus.onlyTouched : AccountStatus := ⟨false, false, true⟩

/-- An account a transaction has loaded: its state after it, with the slots it has written. -/
structure Account where
  info : AccountInfo
  storage : FinMap U256 U256
  status : AccountStatus

/-- `EvmState`: what a transaction changes. -/
abbrev EvmState := FinMap Address Account

/-- The state of the chain. -/
structure ChainState where
  basic : Address → Option AccountInfo
  storage : Address → U256 → U256

namespace Account

/-- What the account is once it is written. -/
def written (account : Account) (stateClear : Bool) : Option AccountInfo :=
  if account.status.selfdestructed then none
  else if account.status.created then some account.info
  else if account.info.isEmpty && stateClear then none
  else some account.info

/-- What a slot of the account is once it is written, from what it was before. -/
def writtenSlot (account : Account) (stateClear : Bool) (slot before : U256) : U256 :=
  if account.status.selfdestructed then 0
  else if account.status.created then (account.storage.lookup slot).getD 0
  else if account.info.isEmpty && stateClear then 0
  else (account.storage.lookup slot).getD before

end Account

namespace ChainState

/-- `DatabaseCommit::commit`. -/
def commit (s : ChainState) (stateClear : Bool) (changes : EvmState) : ChainState where
  basic a := match changes.lookup a with
    | some account => if account.status.touched then account.written stateClear else s.basic a
    | none => s.basic a
  storage a slot := match changes.lookup a with
    | some account =>
      if account.status.touched then account.writtenSlot stateClear slot (s.storage a slot)
      else s.storage a slot
    | none => s.storage a slot

/-- `increment_balance` of one account; nothing happens for zero. -/
def incrementBalance (s : ChainState) (a : Address) (amount : BitVec 128) : ChainState :=
  if amount = 0 then s
  else
    let info := (s.basic a).getD .empty
    let balance := (Checked.checkedAdd info.balance (amount.setWidth 256)).getD (BitVec.allOnes 256)
    { s with basic := Function.update s.basic a (some { info with balance }) }

/-- `increment_balances`. -/
def incrementBalances (s : ChainState) (increments : FinMap Address (BitVec 128)) : ChainState :=
  increments.keys.foldl (fun s a => s.incrementBalance a ((increments.lookup a).getD 0)) s

@[simp] theorem storage_incrementBalance (s : ChainState) (a : Address) (amount : BitVec 128) :
    (s.incrementBalance a amount).storage = s.storage := by
  unfold incrementBalance
  split <;> rfl

@[simp] theorem storage_incrementBalances (s : ChainState)
    (increments : FinMap Address (BitVec 128)) :
    (s.incrementBalances increments).storage = s.storage := by
  have hfold : ∀ (as : List Address) (s : ChainState),
      (as.foldl (fun s a => s.incrementBalance a ((increments.lookup a).getD 0)) s).storage =
        s.storage := by
    intro as
    induction as with
    | nil => exact fun s => rfl
    | cons a as ih => exact fun s => (ih _).trans (storage_incrementBalance s a _)
  exact hfold _ s

/-- An account that no change names keeps its storage. -/
theorem storage_commit_of_lookup {s : ChainState} {stateClear : Bool} {changes : EvmState}
    {a : Address} (h : changes.lookup a = none) :
    (s.commit stateClear changes).storage a = s.storage a := by
  funext slot
  simp only [commit, h]

end ChainState

/-! ## Transactions -/

/-- The transaction types, with the prices they offer. -/
inductive TxType where
  | legacy (gasPrice : BitVec 128)
  | eip2930 (gasPrice : BitVec 128)
  | eip1559 (maxFeePerGas maxPriorityFeePerGas : BitVec 128)
  | eip4844 (maxFeePerGas maxPriorityFeePerGas : BitVec 128)
  | eip7702 (maxFeePerGas maxPriorityFeePerGas : BitVec 128)
  deriving DecidableEq, Repr

namespace TxType

def maxFeePerGas : TxType → BitVec 128
  | .legacy gasPrice | .eip2930 gasPrice => gasPrice
  | .eip1559 maxFee _ | .eip4844 maxFee _ | .eip7702 maxFee _ => maxFee

def maxPriorityFeePerGas : TxType → Option (BitVec 128)
  | .legacy _ | .eip2930 _ => none
  | .eip1559 _ maxPriority | .eip4844 _ maxPriority | .eip7702 _ maxPriority => some maxPriority

def priorityFeeOrPrice : TxType → BitVec 128
  | .legacy gasPrice | .eip2930 gasPrice => gasPrice
  | .eip1559 _ maxPriority | .eip4844 _ maxPriority | .eip7702 _ maxPriority => maxPriority

/-- The price of a transaction with a tip: the cap, unless the tip is what limits it. -/
def dynamicGasPrice (maxFee maxPriority : BitVec 128) : Option (BitVec 64) → BitVec 128
  | none => maxFee
  | some baseFee =>
    let tip := BitVec.ofNat 128 (maxFee.toNat - baseFee.toNat)
    if tip > maxPriority then maxPriority + baseFee.setWidth 128 else maxFee

/-- `effective_gas_price`. -/
def effectiveGasPrice (tx : TxType) (baseFee : Option (BitVec 64)) : BitVec 128 :=
  match tx with
  | .legacy gasPrice | .eip2930 gasPrice => gasPrice
  | .eip1559 maxFee maxPriority | .eip4844 maxFee maxPriority | .eip7702 maxFee maxPriority =>
    dynamicGasPrice maxFee maxPriority baseFee

/-- `effective_tip_per_gas`: nothing if the cap is below the base fee. -/
def effectiveTipPerGas (tx : TxType) : Option (BitVec 64) → Option (BitVec 128)
  | none => some tx.priorityFeeOrPrice
  | some baseFee =>
    if tx.maxFeePerGas < baseFee.setWidth 128 then none
    else
      let fee := tx.maxFeePerGas - baseFee.setWidth 128
      match tx.maxPriorityFeePerGas with
      | some priorityFee => some (if fee ≤ priorityFee then fee else priorityFee)
      | none => some fee

end TxType

/-- `TransactionSigned`: its hash, gas limit and prices, and the rest as it is encoded. -/
structure TransactionSigned where
  hash : BitVec 256
  gasLimit : BitVec 64
  type : TxType
  body : List UInt8
  deriving DecidableEq, Repr

end Macbeth
