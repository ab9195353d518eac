import Macbeth.Evm.Undo

/-!
# A block holds no transaction twice

The EVM runs a transaction only if its nonce is the sender's, and raises the sender's nonce.
The executor keeps that nonce also when it undoes the transaction, so within a block a nonce of
a sender that is spent stays spent, and a transaction that comes twice fails the second time.
-/

namespace Macbeth

open Outcome Option

/-- What the EVM does with nonces.  `signs` are the accounts that sign transactions: their
accounts are not destroyed, and their nonces do not fall. -/
structure ReplayProtected (evm : Evm) (nonceOf : TransactionSigned → BitVec 64)
    (signs : Address → Prop) : Prop where
  checked : ∀ {env s sender tx result changes},
    evm.transact env s sender tx = .ok (result, changes) →
    signs sender ∧ ∃ info, s.basic sender = some info ∧ info.nonce = nonceOf tx
  raised : ∀ {env s sender tx result changes},
    evm.transact env s sender tx = .ok (result, changes) →
    ∃ account, changes.lookup sender = some account ∧ account.status.touched = true ∧
      (nonceOf tx).toNat < account.info.nonce.toNat
  kept : ∀ {env s sender tx result changes a info account},
    evm.transact env s sender tx = .ok (result, changes) → signs a → s.basic a = some info →
    changes.lookup a = some account →
    account.status.selfdestructed = false ∧ info.nonce.toNat ≤ account.info.nonce.toNat

/-- The nonce of the account is above `n`. -/
def ChainState.Spent (s : ChainState) (a : Address) (n : BitVec 64) : Prop :=
  ∃ info, s.basic a = some info ∧ n.toNat < info.nonce.toNat

namespace Executor

variable {exec : Executor} {header : EthHeader} {pkg : ConsensusPackage} {p p' : Progress}
variable {nonceOf : TransactionSigned → BitVec 64} {signs : Address → Prop}
variable {a sender : Address} {tx : TransactionSigned} {n : BitVec 64}

/-- A transaction that is executed writes what the EVM has changed, or of it the sender's
nonce. -/
theorem state_executeTransaction (h : exec.executeTransaction header pkg p (sender, tx) = ok p') :
    ∃ env result changes stateClear, exec.evm.transact env p.state sender tx =
        .ok (result, changes) ∧
      (p'.state = p.state.commit stateClear changes ∨
        ∃ account info, changes.lookup sender = some account ∧
          info.nonce = account.info.nonce ∧
          p'.state = p.state.commit stateClear
            ((∅ : EvmState).insert sender ⟨info, ∅, .onlyTouched⟩)) := by
  obtain ⟨original, result, changes, checked, gas, fees, -, hrun, hchecked, rfl⟩ :=
    executeTransaction_eq_ok h
  refine ⟨_, result, changes, exec.spec.isSpuriousDragonActive header.number, hrun, ?_⟩
  rcases checkPegs_cases hchecked with ⟨gasUsed, logs, pegins, pegouts, -, -, rfl⟩ |
    ⟨gasUsed, logs, e, -, -, hundo⟩ | ⟨-, rfl⟩
  · exact .inl rfl
  · obtain ⟨account, balance, haccount, -, rfl⟩ := undo_eq_ok hundo
    exact .inr ⟨account, { original with nonce := account.info.nonce, balance }, haccount, rfl, rfl⟩
  · exact .inl rfl

/-- An account with a nonce is not removed as empty. -/
theorem written_of_nonce {account : Account} {stateClear : Bool}
    (hdestroyed : account.status.selfdestructed = false)
    (hnonce : n.toNat < account.info.nonce.toNat) :
    account.written stateClear = some account.info := by
  have hempty : account.info.isEmpty = false := by
    have hne : account.info.nonce ≠ 0#64 := by
      intro hzero
      rw [hzero] at hnonce
      simp at hnonce
    simp [AccountInfo.isEmpty, hne]
  simp [Account.written, hdestroyed, hempty]

/-- A nonce that is above `n` when the changes are made, and in the changes, is so after them. -/
theorem spent_commit {s : ChainState} {stateClear : Bool} {changes : EvmState}
    (hspent : s.Spent a n)
    (hchanges : ∀ account, changes.lookup a = some account →
      account.status.selfdestructed = false ∧ n.toNat < account.info.nonce.toNat) :
    (s.commit stateClear changes).Spent a n := by
  cases hlookup : changes.lookup a with
  | none =>
    obtain ⟨info, hinfo, hlt⟩ := hspent
    exact ⟨info, by simp only [ChainState.commit, hlookup, hinfo], hlt⟩
  | some account =>
    obtain ⟨hdestroyed, hlt⟩ := hchanges account hlookup
    by_cases htouched : account.status.touched
    · refine ⟨account.info, ?_, hlt⟩
      simp only [ChainState.commit, hlookup, if_pos htouched]
      exact written_of_nonce hdestroyed hlt
    · obtain ⟨info, hinfo, hlt'⟩ := hspent
      exact ⟨info, by simp only [ChainState.commit, hlookup, if_neg htouched, hinfo], hlt'⟩

/-- A spent nonce stays spent, whatever transaction is executed. -/
theorem spent_executeTransaction (hevm : ReplayProtected exec.evm nonceOf signs) (ha : signs a)
    (h : exec.executeTransaction header pkg p (sender, tx) = ok p')
    (hspent : p.state.Spent a n) : p'.state.Spent a n := by
  obtain ⟨env, result, changes, stateClear, hrun, hstate⟩ := state_executeTransaction h
  obtain ⟨before, hbefore, hlt⟩ := hspent
  have hchanges : ∀ account, changes.lookup a = some account →
      account.status.selfdestructed = false ∧ n.toNat < account.info.nonce.toNat := by
    intro account hlookup
    obtain ⟨hdestroyed, hle⟩ := hevm.kept hrun ha hbefore hlookup
    exact ⟨hdestroyed, Nat.lt_of_lt_of_le hlt hle⟩
  rcases hstate with hstate | ⟨account, info, haccount, hnonce, hstate⟩
  · rw [hstate]
    exact spent_commit ⟨before, hbefore, hlt⟩ hchanges
  · rw [hstate]
    refine spent_commit ⟨before, hbefore, hlt⟩ fun written hwritten => ?_
    by_cases hsender : a = sender
    · subst hsender
      rw [AList.lookup_insert] at hwritten
      rw [← some.inj hwritten]
      exact ⟨rfl, hnonce ▸ (hchanges account haccount).2⟩
    · rw [AList.lookup_insert_ne hsender] at hwritten
      cases hwritten

/-- Executing a transaction spends its nonce. -/
theorem spent_of_executeTransaction (hevm : ReplayProtected exec.evm nonceOf signs)
    (h : exec.executeTransaction header pkg p (sender, tx) = ok p') :
    signs sender ∧ ¬ p.state.Spent sender (nonceOf tx) ∧ p'.state.Spent sender (nonceOf tx) := by
  obtain ⟨env, result, changes, stateClear, hrun, hstate⟩ := state_executeTransaction h
  obtain ⟨hsigns, before, hbefore, hnonce⟩ := hevm.checked hrun
  obtain ⟨account, haccount, htouched, hraised⟩ := hevm.raised hrun
  obtain ⟨hdestroyed, -⟩ := hevm.kept hrun hsigns hbefore haccount
  have hunspent : ¬ p.state.Spent sender (nonceOf tx) := by
    intro hspent
    obtain ⟨info, hinfo, hlt⟩ := hspent
    rw [← some.inj (hbefore.symm.trans hinfo), hnonce] at hlt
    exact Nat.lt_irrefl _ hlt
  refine ⟨hsigns, hunspent, ?_⟩
  rcases hstate with hstate | ⟨account', info, haccount', hinfo, hstate⟩
  · refine ⟨account.info, ?_, hraised⟩
    simp only [hstate, ChainState.commit, haccount, if_pos htouched]
    exact written_of_nonce hdestroyed hraised
  · obtain rfl : account = account' := some.inj (haccount.symm.trans haccount')
    rw [← hinfo] at hraised
    have hwritten : (⟨info, ∅, .onlyTouched⟩ : Account).written stateClear = some info :=
      written_of_nonce rfl hraised
    exact ⟨info, by simp only [hstate, ChainState.commit, AList.lookup_insert, hwritten]; rfl, hraised⟩

/-- No transaction of the list has the nonce of a signer that is spent. -/
theorem not_mem_of_spent (hevm : ReplayProtected exec.evm nonceOf signs) (ha : signs a)
    {txs : List (Address × TransactionSigned)} :
    ∀ p, txs.foldlM (exec.executeTransaction header pkg) p = ok p' → p.state.Spent a (nonceOf tx) →
      (a, tx) ∉ txs := by
  induction txs with
  | nil => simp
  | cons signed txs ih =>
    intro p h hspent
    obtain ⟨sender', tx'⟩ := signed
    rw [List.foldlM_cons] at h
    obtain ⟨p₁, hstep, hrest⟩ := bind_eq_ok.mp h
    have hne : (a, tx) ≠ (sender', tx') := by
      intro heq
      rw [← heq] at hstep
      exact (spent_of_executeTransaction hevm hstep).2.1 hspent
    have htail := ih p₁ hrest (spent_executeTransaction hevm ha hstep hspent)
    simp [hne, htail]

/-- The transactions that are executed one after the other are distinct. -/
theorem nodup_of_executed (hevm : ReplayProtected exec.evm nonceOf signs)
    {txs : List (Address × TransactionSigned)} :
    ∀ p, txs.foldlM (exec.executeTransaction header pkg) p = ok p' → txs.Nodup := by
  induction txs with
  | nil => simp
  | cons signed txs ih =>
    intro p h
    obtain ⟨sender, tx⟩ := signed
    rw [List.foldlM_cons] at h
    obtain ⟨p₁, hstep, hrest⟩ := bind_eq_ok.mp h
    obtain ⟨hsigns, -, hspent⟩ := spent_of_executeTransaction hevm hstep
    exact List.nodup_cons.mpr ⟨not_mem_of_spent hevm hsigns p₁ hrest hspent, ih p₁ hrest⟩

end Executor

end Macbeth
