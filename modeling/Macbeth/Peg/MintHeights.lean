import Macbeth.Peg.Minting
import Macbeth.Lib.Counters

/-!
# Heights of the mint events

Whatever a transaction does, it acts on the minting contract by calling it, sending it money
or leaving it alone (`ContractRun`); the accounts that `mint` pays may call the contract
again before its event is written.  Each event carries a height that was issued for its
account once: the account's entry is raised to it before anything else runs.
-/

namespace Macbeth

open Option

/-- What code that runs on the EVM can do to the contract and to the logs. -/
inductive ContractRun (basefee : U256) : World → World → Prop
  | refl (w : World) : ContractRun basefee w w
  | trans {w w' w'' : World} :
      ContractRun basefee w w' → ContractRun basefee w' w'' → ContractRun basefee w w''
  /-- The contract's balance changes otherwise. -/
  | balance (w : World) (balance : U256) : ContractRun basefee w { w with balance }
  /-- Another contract writes a log. -/
  | log (w : World) (log : Log) :
      log.address ≠ mintContractAddress → ContractRun basefee w { w with logs := w.logs ++ [log] }
  | burn {w w' : World} (sender : Address) (value : U256) (destination data : List UInt8) :
      burn sender value destination data w = some w' → ContractRun basefee w w'
  | mint {w w' : World} {payments : List (Address × U256)} (callee : Callee) (c : MintCall) :
      (∀ recipient value w₁ w₂, callee recipient value w₁ = some w₂ → ContractRun basefee w₁ w₂) →
      mint callee basefee c w = some (payments, w') → ContractRun basefee w w'

/-- A height map on the integers. -/
def toHeights (heights : Address → BitVec 32) (a : Address) : Nat := (heights a).toNat

theorem toHeights_update (heights : Address → BitVec 32) (a : Address) (height : BitVec 32) :
    toHeights (Function.update heights a height) =
      Function.update (toHeights heights) a height.toNat := by
  funext b
  exact Function.apply_update (fun _ => BitVec.toNat) heights a height b

variable (btc : BitcoinLib)

/-- The pegin of a log, if it is a mint event that parses. -/
def parsedPegin (log : Log) : Option PeginData :=
  match tryParseMintEvent btc log with
  | .ok parsed => parsed
  | _ => none

/-- The account and the height of a pegin. -/
def PeginData.key (pegin : PeginData) : Address × Nat :=
  (pegin.account, pegin.bitcoinBlockHeight.toNat)

/-- The accounts and heights of the mint events among logs. -/
def mintKeys (logs : List Log) : List (Address × Nat) :=
  (logs.filterMap (parsedPegin btc)).map PeginData.key

variable {btc}

theorem mintKeys_append (logs logs' : List Log) :
    mintKeys btc (logs ++ logs') = mintKeys btc logs ++ mintKeys btc logs' := by
  simp [mintKeys]

theorem parsedPegin_of_address {log : Log} (h : log.address ≠ mintContractAddress) :
    parsedPegin btc log = none := by
  simp [parsedPegin, tryParseMintEvent, h]

theorem parsedPegin_burnEvent (account : Address) (amount : U256)
    (destination metadata : List UInt8) :
    parsedPegin btc (burnEvent account amount destination metadata) = none := by
  have htopic : burnTopic ≠ mintTopic := by decide
  simp [parsedPegin, tryParseMintEvent, burnEvent, htopic]

/-- The contract's event is for the account and the height of the call, if it parses. -/
theorem mintKeys_mintEvent (account : Address) (amount : U256) (height : BitVec 32)
    (metadata : List UInt8) :
    mintKeys btc [mintEvent account amount height metadata] = [] ∨
      mintKeys btc [mintEvent account amount height metadata] = [(account, height.toNat)] := by
  cases hparse : tryParseMintEvent btc (mintEvent account amount height metadata) with
  | ok parsed =>
    obtain ⟨metas, rfl⟩ := exists_of_tryParseMintEvent hparse
    right
    simp [mintKeys, parsedPegin, hparse, PeginData.key]
  | err e => simp [mintKeys, parsedPegin, hparse]
  | panic => simp [mintKeys, parsedPegin, hparse]

/-- Sending money runs the recipient's code on the contract less the money. -/
theorem sendValue_eq_some {callee : Callee} {recipient : Address} {value : U256} {w w' : World}
    (h : sendValue callee recipient value w = some w') :
    callee recipient value { w with balance := w.balance - value } = some w' := by
  unfold sendValue at h
  split at h
  · exact h
  · cases h

/-- A call of `mint` raises the account's height, pays twice, and writes its event. -/
theorem mint_run {callee : Callee} {basefee : U256} {c : MintCall} {w w' : World}
    {payments : List (Address × U256)} (h : mint callee basefee c w = some (payments, w')) :
    w.peginBitcoinBlockHeight c.destination < c.bitcoinBlockHeight ∧ ∃ amount txCost w₁ w₂,
      sendValue callee c.destination amount { w with
        peginBitcoinBlockHeight := Function.update w.peginBitcoinBlockHeight c.destination
          c.bitcoinBlockHeight } = some w₁ ∧
      sendValue callee c.refundAddress txCost w₁ = some w₂ ∧
      w' = { w₂ with
        logs := w₂.logs ++ [mintEvent c.destination amount c.bitcoinBlockHeight c.metadata] } := by
  unfold mint at h
  split at h
  case isFalse => contradiction
  case isTrue hheight =>
    obtain ⟨txCost, -, h⟩ := bind_eq_some_iff.mp h
    split at h
    case isFalse => contradiction
    case isTrue =>
      obtain ⟨w₁, hpay, h⟩ := bind_eq_some_iff.mp h
      obtain ⟨w₂, hrefund, h⟩ := bind_eq_some_iff.mp h
      simp only [pure_def, some.injEq, Prod.mk.injEq] at h
      exact ⟨hheight, _, txCost, w₁, w₂, hpay, hrefund, h.2.symm⟩

variable (btc) in
/-- Logs are only added, and the heights of the mint events among them are issued by the
contract's map. -/
theorem ContractRun.issued {basefee : U256} {w w' : World} (h : ContractRun basefee w w') :
    ∃ new, w'.logs = w.logs ++ new ∧
      Issued (toHeights w.peginBitcoinBlockHeight) (toHeights w'.peginBitcoinBlockHeight)
        (mintKeys btc new) := by
  induction h with
  | refl w => exact ⟨[], by simp, .nil _⟩
  | balance w balance => exact ⟨[], by simp, .nil _⟩
  | trans _ _ ih ih' =>
    obtain ⟨new, hlogs, hissued⟩ := ih
    obtain ⟨new', hlogs', hissued'⟩ := ih'
    refine ⟨new ++ new', by rw [hlogs', hlogs, List.append_assoc], ?_⟩
    rw [mintKeys_append]
    exact hissued.append hissued'
  | log w log haddress =>
    refine ⟨[log], rfl, ?_⟩
    have hkeys : mintKeys btc [log] = [] := by simp [mintKeys, parsedPegin_of_address haddress]
    rw [hkeys]
    exact .nil _
  | burn sender value destination data hburn =>
    rw [Macbeth.burn] at hburn
    split at hburn
    · obtain rfl := some.inj hburn
      refine ⟨[burnEvent sender value destination data], rfl, ?_⟩
      have hkeys : mintKeys btc [burnEvent sender value destination data] = [] := by
        simp [mintKeys, parsedPegin_burnEvent]
      rw [hkeys]
      exact .nil _
    · cases hburn
  | mint callee c _ hmint ih =>
    obtain ⟨hheight, amount, txCost, w₁, w₂, hpay, hrefund, rfl⟩ := mint_run hmint
    obtain ⟨new, hlogs, hissued⟩ := ih _ _ _ _ (sendValue_eq_some hpay)
    obtain ⟨new', hlogs', hissued'⟩ := ih _ _ _ _ (sendValue_eq_some hrefund)
    refine ⟨new ++ new' ++ [mintEvent c.destination amount c.bitcoinBlockHeight c.metadata],
      by simp [hlogs', hlogs], ?_⟩
    have hruns := hissued.append hissued'
    rw [← mintKeys_append, toHeights_update] at hruns
    rw [mintKeys_append]
    rcases mintKeys_mintEvent c.destination amount c.bitcoinBlockHeight c.metadata with
      hkeys | hkeys
    · rw [hkeys, List.append_nil]
      -- the event does not parse: the height is used up all the same
      have hissue := hruns.issue hheight
      exact ⟨hissue.le, fun p hp => hissue.between p (List.mem_append_left _ hp), hruns.nodup⟩
    · rw [hkeys]
      exact hruns.issue hheight

end Macbeth
