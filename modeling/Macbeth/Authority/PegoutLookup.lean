import Macbeth.Authority.WalletSync
import Macbeth.Evm.Provider
import Macbeth.Evm.Replay

/-!
# The ids of the pegouts of a block (`execute.rs`, `consensus/authority/src/utils.rs`)

A pegout is named by the hash of its transaction and the position of its log among the logs of
the receipt.  Three places build or follow such a name:

1. the executor, for the burns of a transaction that passes the peg checks;
2. `get_block_pegouts`, for the burns in the stored receipts of a block, past the receipts of
   failed transactions and the logs that do not parse;
3. `validate_psbt_by_ids`, which looks the receipt up by the hash and the log by the position.

A transaction that is undone has a receipt without logs, so the three agree on every block
that is executed.
-/

namespace Macbeth

open Outcome List Option

/-! ## The burns of a receipt -/

section
variable (addressFromStr : List UInt8 → Option UncheckedAddress) (network : Network)

/-- The pegout of a log at a position, if it is a burn that parses. -/
def burnAt (txHash : BitVec 256) (entry : Log × Nat) : Option PegoutWithId :=
  match tryParseBurnEvent addressFromStr entry.1 network with
  | .ok (some data) => some ⟨data, ⟨txHash, BitVec.ofNat 32 entry.2⟩⟩
  | _ => none

/-- The pegouts of a receipt. -/
def Receipt.burns (receipt : Receipt) (txHash : BitVec 256) : List PegoutWithId :=
  if receipt.success then receipt.logs.zipIdx.filterMap (burnAt addressFromStr network txHash)
  else []

variable {addressFromStr network} {txHash : BitVec 256}

theorem burnAt_eq_some {entry : Log × Nat} {pegout : PegoutWithId} :
    burnAt addressFromStr network txHash entry = some pegout ↔
      tryParseBurnEvent addressFromStr entry.1 network = .ok (some pegout.data) ∧
        pegout.id = ⟨txHash, BitVec.ofNat 32 entry.2⟩ := by
  obtain ⟨data, id⟩ := pegout
  unfold burnAt
  split
  · next found hfound => simp [hfound, eq_comm]
  · next hmiss =>
    simp only [reduceCtorEq, false_iff, not_and]
    exact fun hparse => absurd hparse (hmiss data)

/-- A burn is a log of the minting contract with the topic of burns. -/
theorem burnTopic_of_tryParseBurnEvent {log : Log} {data : PegoutData}
    (h : tryParseBurnEvent addressFromStr log network = .ok (some data)) :
    log.address = mintContractAddress ∧ burnTopic ∈ log.topics := by
  unfold tryParseBurnEvent at h
  split at h
  · simp at h
  · next haddress =>
    refine ⟨not_not.mp haddress, ?_⟩
    split at h
    · simp at h
    · next topic topics htopics =>
      split at h
      · simp at h
      · next htopic =>
        rw [htopics, not_not.mp htopic]
        exact mem_cons_self

/-- Where a pegout of a receipt stands. -/
theorem exists_log_of_mem_burns {receipt : Receipt} {pegout : PegoutWithId}
    (hlogs : receipt.logs.length ≤ 2 ^ 32)
    (h : pegout ∈ receipt.burns addressFromStr network txHash) :
    pegout.id.txid = txHash ∧ ∃ log, receipt.logs[pegout.id.idx.toNat]? = some log ∧
      tryParseBurnEvent addressFromStr log network = .ok (some pegout.data) := by
  unfold Receipt.burns at h
  split at h
  · obtain ⟨entry, hentry, hburn⟩ := mem_filterMap.mp h
    obtain ⟨hparse, hid⟩ := burnAt_eq_some.mp hburn
    have hget := mem_zipIdx_iff_getElem?.mp hentry
    have hlt : entry.2 < receipt.logs.length := (List.getElem?_eq_some_iff.mp hget).1
    have hidx : (BitVec.ofNat 32 entry.2).toNat = entry.2 := by
      rw [BitVec.toNat_ofNat, Nat.mod_eq_of_lt (by omega)]
    rw [hid]
    exact ⟨rfl, entry.1, by rw [hidx, hget], hparse⟩
  · simp at h

/-- The pegouts of a receipt are named apart. -/
theorem nodup_burns {receipt : Receipt} (hlogs : receipt.logs.length ≤ 2 ^ 32) :
    ((receipt.burns addressFromStr network txHash).map (·.id)).Nodup := by
  unfold Receipt.burns
  split
  · have hindices : receipt.logs.zipIdx.Pairwise fun x y => x.2 ≠ y.2 := by
      have hnodup : (receipt.logs.zipIdx.map (·.2)).Nodup := by
        rw [zipIdx_map_snd]
        exact nodup_range'
      exact pairwise_map.mp hnodup
    have hbound : ∀ x ∈ receipt.logs.zipIdx, x.2 < 2 ^ 32 := by
      intro x hx
      have hget := mem_zipIdx_iff_getElem?.mp hx
      have := (List.getElem?_eq_some_iff.mp hget).1
      omega
    refine pairwise_map.mpr (pairwise_filterMap.mpr ?_)
    refine hindices.imp_of_mem fun {x y} hx hy hne pegout hpegout pegout' hpegout' heq => hne ?_
    rw [(burnAt_eq_some.mp hpegout).2, (burnAt_eq_some.mp hpegout').2, PegoutId.mk.injEq] at heq
    have hword := congrArg BitVec.toNat heq.2
    rwa [BitVec.toNat_ofNat, BitVec.toNat_ofNat, Nat.mod_eq_of_lt (hbound x hx),
      Nat.mod_eq_of_lt (hbound y hy)] at hword
  · simp

end

/-! ## The pegouts of the executor -/

/-- The pegouts the checks collect are the burns of the logs, in order. -/
theorem MintEnv.collectPegouts_eq {env : MintEnv} {pkg : ConsensusPackage} {txHash : BitVec 256}
    {logs : List Log} : ∀ {index : Nat} {pegouts : List PegoutWithId},
      env.collectPegouts pkg txHash index logs = ok pegouts →
      pegouts = (logs.zipIdx index).filterMap (burnAt env.addressFromStr pkg.btcNetwork txHash) := by
  induction logs with
  | nil =>
    intro index pegouts h
    simpa [collectPegouts] using h.symm
  | cons log logs ih =>
    intro index pegouts h
    obtain ⟨parsed, hparsed, h⟩ := bind_eq_ok.mp h
    rw [ofExcept_eq_ok] at hparsed
    rw [zipIdx_cons]
    cases parsed with
    | none =>
      have hburn : burnAt env.addressFromStr pkg.btcNetwork txHash (log, index) = none := by
        simp [burnAt, hparsed]
      rw [filterMap_cons_none hburn]
      exact ih h
    | some data =>
      have hburn : burnAt env.addressFromStr pkg.btcNetwork txHash (log, index) =
          some ⟨data, ⟨txHash, BitVec.ofNat 32 index⟩⟩ := by
        simp [burnAt, hparsed]
      obtain ⟨rest, hrest, h⟩ := bind_eq_ok.mp h
      rw [filterMap_cons_some hburn, ← ih hrest]
      exact (ok.inj h).symm

/-- The positions of the logs of a transaction fit 32 bits.  A log costs gas, and gas limits
are far below what as many logs would cost. -/
def LogsCounted (evm : Evm) : Prop :=
  ∀ {env s sender tx gasUsed logs changes},
    evm.transact env s sender tx = .ok (.success gasUsed logs, changes) → logs.length ≤ 2 ^ 32

namespace Executor

variable {exec : Executor} {header : EthHeader} {pkg : ConsensusPackage} {p p' : Progress}

/-- A transaction adds a receipt and the burns of that receipt. -/
theorem burns_executeTransaction (hlogs : LogsCounted exec.evm) {sender : Address}
    {tx : TransactionSigned} (h : exec.executeTransaction header pkg p (sender, tx) = ok p') :
    ∃ receipt, p'.receipts = p.receipts ++ [receipt] ∧ receipt.logs.length ≤ 2 ^ 32 ∧
      p'.pegouts = p.pegouts ++ receipt.burns exec.addressFromStr pkg.btcNetwork tx.hash := by
  obtain ⟨original, result, changes, checked, gas, fees, -, hrun, hchecked, rfl⟩ :=
    executeTransaction_eq_ok h
  refine ⟨_, rfl, ?_⟩
  rcases checkPegs_cases hchecked with ⟨gasUsed, logs, pegins, pegouts, rfl, hchecks, rfl⟩ |
    ⟨gasUsed, logs, e, rfl, -, hundo⟩ | ⟨hfailed, rfl⟩
  · obtain ⟨pegins', -, hchecks⟩ := bind_eq_ok.mp hchecks
    obtain ⟨pegouts', hpegouts, hchecks⟩ := bind_eq_ok.mp hchecks
    obtain rfl : pegouts' = pegouts := congrArg Prod.snd (ok.inj hchecks)
    refine ⟨hlogs hrun, ?_⟩
    show p.pegouts ++ pegouts' = _
    rw [MintEnv.collectPegouts_eq hpegouts]
    simp [Receipt.burns, ExecutionResult.isSuccess, ExecutionResult.logs, mintEnv]
  · obtain ⟨account, balance, -, -, rfl⟩ := undo_eq_ok hundo
    simp [Receipt.burns, ExecutionResult.isSuccess, ExecutionResult.logs]
  · have hempty : result.logs = [] := by
      cases result with
      | success gasUsed logs => cases hfailed
      | revert gasUsed => rfl
      | halt gasUsed => rfl
    simp [Receipt.burns, hfailed, hempty]

/-- The transactions of a block add a receipt each, and the burns of these receipts. -/
theorem burns_foldlM (hlogs : LogsCounted exec.evm) (txs : List (Address × TransactionSigned)) :
    ∀ p, txs.foldlM (exec.executeTransaction header pkg) p = ok p' →
      ∃ receipts, p'.receipts = p.receipts ++ receipts ∧ receipts.length = txs.length ∧
        (∀ receipt ∈ receipts, receipt.logs.length ≤ 2 ^ 32) ∧
        p'.pegouts = p.pegouts ++ (receipts.zip (txs.map (·.2.hash))).flatMap fun x =>
          x.1.burns exec.addressFromStr pkg.btcNetwork x.2 := by
  induction txs with
  | nil =>
    intro p h
    obtain rfl := ok.inj h
    exact ⟨[], by simp, rfl, by simp, by simp⟩
  | cons signed txs ih =>
    intro p h
    obtain ⟨sender, tx⟩ := signed
    rw [foldlM_cons] at h
    obtain ⟨p₁, hstep, hrest⟩ := bind_eq_ok.mp h
    obtain ⟨receipt, hreceipts, hlength, hpegouts⟩ := burns_executeTransaction hlogs hstep
    obtain ⟨receipts, hreceipts', hcount, hlengths, hpegouts'⟩ := ih p₁ hrest
    refine ⟨receipt :: receipts, ?_, ?_, ?_, ?_⟩
    · rw [hreceipts', hreceipts, append_assoc, singleton_append]
    · rw [length_cons, length_cons, hcount]
    · exact forall_mem_cons.mpr ⟨hlength, hlengths⟩
    · rw [hpegouts', hpegouts, append_assoc, map_cons, zip_cons_cons,
        flatMap_cons]

/-- The network of the checks is the executor's. -/
theorem btcNetwork_of_package (h : exec.botanixConsensusPackage header = .ok pkg) :
    pkg.btcNetwork = exec.bitcoinNetwork := by
  unfold botanixConsensusPackage at h
  repeat' split at h
  all_goals first | cases h; done | (rw [← Except.ok.inj h])

/-- The pegouts of an executed block are the burns of its receipts, whose transactions are
distinct. -/
theorem burns_executeWithoutVerification {nonceOf : TransactionSigned → BitVec 64}
    {signs : Address → Prop} (hevm : ReplayProtected exec.evm nonceOf signs)
    (hlogs : LogsCounted exec.evm) {s s' : ChainState} {block : EthBlock} {output : ExecuteOutput}
    (h : exec.executeWithoutVerification s block = ok (output, s')) :
    block.transactions.Nodup ∧ output.receipts.length = block.transactions.length ∧
      (∀ receipt ∈ output.receipts, receipt.logs.length ≤ 2 ^ 32) ∧
      output.pegouts = (output.receipts.zip (block.transactions.map (·.2.hash))).flatMap fun x =>
        x.1.burns exec.addressFromStr exec.bitcoinNetwork x.2 := by
  obtain ⟨edh, pkg, s₀, p, s₁, requests, increments, -, hpkg, -, hfold, -, rfl, -, -⟩ :=
    executeWithoutVerification_eq_ok.mp h
  obtain ⟨receipts, hreceipts, hcount, hlengths, hpegouts⟩ := burns_foldlM hlogs _ _ hfold
  rw [nil_append] at hreceipts hpegouts
  rw [btcNetwork_of_package hpkg] at hpegouts
  simp only [hreceipts]
  exact ⟨nodup_of_executed hevm _ hfold, hcount, hlengths, hpegouts⟩

end Executor

/-! ## The lookups -/

/-- The node has stored a block with its receipts.  A bloom filter may tell of a burn that is
not there, but never hides one. -/
structure StoredBlock (reader : BlockReader) (client : Client) (block : EthBlock)
    (receipts : List Receipt) : Prop where
  header : ∃ summary, reader.blockByNumber block.header.number = .ok (some summary) ∧
    summary.number = block.header.number ∧
    ((∃ receipt ∈ receipts, ∃ log ∈ receipt.logs,
      log.address = mintContractAddress ∧ burnTopic ∈ log.topics) →
        summary.bloomContainsPegout = true)
  transactions : reader.transactionsByBlock block.header.number =
    .ok (some (block.transactions.map (·.2.hash)))
  outcomes : reader.receiptsByBlock block.header.number =
    .ok (some (receipts.map fun receipt => ⟨receipt.success, receipt.logs⟩))
  byHash : ∀ (i : Nat) (signed : Address × TransactionSigned) (receipt : Receipt),
    block.transactions[i]? = some signed → receipts[i]? = some receipt →
    client.receiptByHash signed.2.hash = .ok (some receipt.logs)

section
variable {reader : BlockReader} {client : Client} {block : EthBlock} {receipts : List Receipt}

/-- `get_block_pegouts` names the burns of a receipt as the executor does. -/
theorem receiptPegouts_eq (timestamp : BitVec 64) (receipt : Receipt) (txHash : BitVec 256) :
    (reader.receiptPegouts timestamp ⟨receipt.success, receipt.logs⟩ txHash).map (·.1) =
      (receipt.burns reader.addressFromStr reader.btcNetwork txHash).map (·.id) := by
  unfold BlockReader.receiptPegouts Receipt.burns
  by_cases hsuccess : receipt.success
  · rw [if_pos hsuccess, if_pos hsuccess, map_filterMap, map_filterMap]
    refine filterMap_congr fun entry _ => ?_
    simp only [burnAt]
    rcases tryParseBurnEvent reader.addressFromStr entry.1 reader.btcNetwork with e | _ | data <;> rfl
  · rw [if_neg hsuccess, if_neg hsuccess]
    rfl

/-- `get_block_pegouts` finds the burns of the receipts, in order. -/
theorem getBlockPegouts_eq (hstored : StoredBlock reader client block receipts) :
    ∃ found, reader.getBlockPegouts none block.header.number = .ok found ∧
      found.map (·.1) = ((receipts.zip (block.transactions.map (·.2.hash))).flatMap fun x =>
        x.1.burns reader.addressFromStr reader.btcNetwork x.2).map (·.id) := by
  obtain ⟨summary, hsummary, hnumber, hbloom⟩ := hstored.header
  simp only [BlockReader.getBlockPegouts, hsummary, hnumber, hstored.transactions,
    hstored.outcomes, any_none]
  by_cases hpegout : summary.bloomContainsPegout
  · refine ⟨_, by rw [hpegout]; rfl, ?_⟩
    rw [zip_map_left, flatMap_map, map_flatMap, map_flatMap]
    exact flatMap_congr fun x _ => receiptPegouts_eq summary.timestamp x.1 x.2
  · -- the filter tells of no burn, so there is none
    refine ⟨[], by simp [hpegout], ?_⟩
    have hnone : ∀ x ∈ receipts.zip (block.transactions.map (·.2.hash)),
        x.1.burns reader.addressFromStr reader.btcNetwork x.2 = [] := by
      intro x hx
      refine eq_nil_iff_forall_not_mem.mpr fun pegout hmem => hpegout (hbloom ?_)
      unfold Receipt.burns at hmem
      split at hmem
      · obtain ⟨entry, hentry, hburn⟩ := mem_filterMap.mp hmem
        exact ⟨x.1, (of_mem_zip hx).1, entry.1, fst_mem_of_mem_zipIdx hentry,
          burnTopic_of_tryParseBurnEvent (burnAt_eq_some.mp hburn).1⟩
      · simp at hmem
    rw [flatMap_eq_nil_iff.mpr hnone]
    rfl

variable {addressFromStr : List UInt8 → Option UncheckedAddress} {network : Network}

/-- The ids of the burns of receipts with distinct transactions are distinct. -/
theorem nodup_pegoutIds {hashes : List (BitVec 256)} (hhashes : hashes.Nodup)
    (hcount : receipts.length = hashes.length)
    (hlogs : ∀ receipt ∈ receipts, receipt.logs.length ≤ 2 ^ 32) :
    (((receipts.zip hashes).flatMap fun x =>
      x.1.burns addressFromStr network x.2).map (·.id)).Nodup := by
  rw [map_flatMap, nodup_flatMap]
  refine ⟨fun x hx => nodup_burns (hlogs x.1 (of_mem_zip hx).1), ?_⟩
  have hdistinct : (receipts.zip hashes).Pairwise fun x y => x.2 ≠ y.2 := by
    have hsnd : (receipts.zip hashes).map Prod.snd = hashes := map_snd_zip (by omega)
    exact pairwise_map.mp (by rwa [hsnd])
  refine hdistinct.imp_of_mem fun {x y} hx hy hne => ?_
  intro id hid hid'
  obtain ⟨pegout, hpegout, rfl⟩ := mem_map.mp hid
  obtain ⟨pegout', hpegout', heq⟩ := mem_map.mp hid'
  have htxid := (exists_log_of_mem_burns (hlogs x.1 (of_mem_zip hx).1) hpegout).1
  have htxid' := (exists_log_of_mem_burns (hlogs y.1 (of_mem_zip hy).1) hpegout').1
  exact hne (htxid.symm.trans ((congrArg PegoutId.txid heq.symm).trans htxid'))

/-- A burn of the receipts is found by its id. -/
theorem pegoutOfReceipt_of_mem (hstored : StoredBlock reader client block receipts)
    (hlogs : ∀ receipt ∈ receipts, receipt.logs.length ≤ 2 ^ 32) {pegout : PegoutWithId}
    (h : pegout ∈ (receipts.zip (block.transactions.map (·.2.hash))).flatMap fun x =>
      x.1.burns addressFromStr network x.2) :
    ∃ (i : Nat) (signed : Address × TransactionSigned) (receipt : Receipt) (log : Log),
      block.transactions[i]? = some signed ∧ receipts[i]? = some receipt ∧
      signed.2.hash = pegout.id.txid ∧ receipt.logs[pegout.id.idx.toNat]? = some log ∧
      tryParseBurnEvent addressFromStr log network = .ok (some pegout.data) ∧
      pegoutOfReceipt client addressFromStr network pegout.id = ok pegout.data := by
  obtain ⟨x, hx, hpegout⟩ := mem_flatMap.mp h
  obtain ⟨i, hi⟩ := mem_iff_getElem?.mp hx
  rw [getElem?_zip_eq_some, getElem?_map, map_eq_some_iff] at hi
  obtain ⟨hreceipt, signed, hsigned, hhash⟩ := hi
  obtain ⟨htxid, log, hlog, hparse⟩ :=
    exists_log_of_mem_burns (hlogs x.1 (of_mem_zip hx).1) hpegout
  have hclient := hstored.byHash i signed x.1 hsigned hreceipt
  rw [hhash, ← htxid] at hclient
  refine ⟨i, signed, x.1, log, hsigned, hreceipt, hhash.trans htxid.symm, hlog, hparse, ?_⟩
  simp [pegoutOfReceipt, hclient, hlog, hparse, ofOption, Outcome.ofExcept]

end

/-- On every block that is executed, the ids `get_block_pegouts` finds are those of the
executor's pegouts, in order and without repetition, and each of them leads back to the log the
pegout was made of. -/
theorem pegout_ids_agree {exec : Executor} {nonceOf : TransactionSigned → BitVec 64}
    {signs : Address → Prop} (hevm : ReplayProtected exec.evm nonceOf signs)
    (hlogs : LogsCounted exec.evm) {s s' : ChainState} {block : EthBlock}
    {output : Executor.ExecuteOutput}
    (h : exec.executeWithoutVerification s block = ok (output, s'))
    (hhash : ∀ x ∈ block.transactions, ∀ y ∈ block.transactions, x.2.hash = y.2.hash → x = y)
    {reader : BlockReader} {client : Client}
    (hstored : StoredBlock reader client block output.receipts)
    (haddress : reader.addressFromStr = exec.addressFromStr)
    (hnetwork : reader.btcNetwork = exec.bitcoinNetwork) :
    (∃ found, reader.getBlockPegouts none block.header.number = .ok found ∧
      found.map (·.1) = output.pegouts.map (·.id)) ∧
    (output.pegouts.map (·.id)).Nodup ∧
    ∀ pegout ∈ output.pegouts,
      ∃ (i : Nat) (signed : Address × TransactionSigned) (receipt : Receipt) (log : Log),
      block.transactions[i]? = some signed ∧
      output.receipts[i]? = some receipt ∧ signed.2.hash = pegout.id.txid ∧
      receipt.logs[pegout.id.idx.toNat]? = some log ∧
      tryParseBurnEvent exec.addressFromStr log exec.bitcoinNetwork = .ok (some pegout.data) ∧
      pegoutOfReceipt client exec.addressFromStr exec.bitcoinNetwork pegout.id = ok pegout.data := by
  obtain ⟨hnodup, hcount, hlengths, hpegouts⟩ := Executor.burns_executeWithoutVerification hevm hlogs h
  have hhashes : (block.transactions.map (·.2.hash)).Nodup :=
    hnodup.map_on fun x hx y hy => hhash x hx y hy
  refine ⟨?_, ?_, fun pegout hmem => ?_⟩
  · obtain ⟨found, hfound, hids⟩ := getBlockPegouts_eq hstored
    rw [haddress, hnetwork, ← hpegouts] at hids
    exact ⟨found, hfound, hids⟩
  · rw [hpegouts]
    exact nodup_pegoutIds hhashes (by rw [hcount, length_map]) hlengths
  · rw [hpegouts] at hmem
    exact pegoutOfReceipt_of_mem hstored hlengths hmem

/-! ## A block with a good and a bad transaction -/

/-- The nonce of a transaction is the length of its body. -/
def bodyNonce (tx : TransactionSigned) : BitVec 64 := BitVec.ofNat 64 tx.body.length

/-- Two good burns, or one of them bad. -/
def burnLogs (tx : TransactionSigned) : List Log :=
  if tx.gasLimit = 200000 then
    [burnEvent 5 10000000000 [0x61] [0], burnEvent 5 20000000000 [0x61] [0]]
  else twoBurns

/-- An EVM on which every transaction makes two burns, and that checks nonces. -/
def checkingEvm : Evm where
  transact _ s sender tx := match s.basic sender with
    | none => .error (.transaction "LackOfFundForMaxFee")
    | some info =>
      if sender = mintContractAddress then .error (.transaction "RejectCallerWithCode")
      else if info.nonce = bodyNonce tx ∧ info.nonce.toNat + 2 < 2 ^ 64 then
        .ok (.success 50000 (burnLogs tx), burnChanges sender info tx)
      else .error (.transaction "NonceTooLow")
  preExecution _ s := .ok s
  collectRequests _ _ s := .ok ([], s)

/-- What the EVM answers, if it runs a transaction. -/
theorem checkingEvm_transact {env : BlockEnv} {s : ChainState} {sender : Address}
    {tx : TransactionSigned} {result : ExecutionResult} {changes : EvmState}
    (h : checkingEvm.transact env s sender tx = .ok (result, changes)) :
    ∃ info, s.basic sender = some info ∧ sender ≠ mintContractAddress ∧
      info.nonce = bodyNonce tx ∧ info.nonce.toNat + 2 < 2 ^ 64 ∧
      result = .success 50000 (burnLogs tx) ∧ changes = burnChanges sender info tx := by
  simp only [checkingEvm] at h
  split at h
  · cases h
  · next info hinfo =>
    split at h
    · cases h
    · next hsender =>
      split at h
      · next hnonce =>
        simp only [Except.ok.injEq, Prod.mk.injEq] at h
        exact ⟨info, hinfo, hsender, hnonce.1, hnonce.2, h.1.symm, h.2.symm⟩
      · cases h

/-- The sender after the burns. -/
theorem lookup_burnChanges {sender : Address} {info : AccountInfo} {tx : TransactionSigned}
    (hsender : sender ≠ mintContractAddress) (hbound : info.nonce.toNat + 2 < 2 ^ 64) :
    ∃ account, (burnChanges sender info tx).lookup sender = some account ∧
      account.status = .onlyTouched ∧ info.nonce.toNat < account.info.nonce.toNat := by
  have hle := ownAuthorization_le tx
  rw [burnChanges, AList.lookup_insert_ne hsender, AList.lookup_insert]
  refine ⟨_, rfl, rfl, ?_⟩
  show _ < (BitVec.ofNat 64 _).toNat
  rw [BitVec.toNat_ofNat, Nat.mod_eq_of_lt (by omega)]
  omega

theorem checkingEvm_replayProtected :
    ReplayProtected checkingEvm bodyNonce (· ≠ mintContractAddress) where
  checked := by
    intro env s sender tx result changes h
    obtain ⟨info, hinfo, hsender, hnonce, -⟩ := checkingEvm_transact h
    exact ⟨hsender, info, hinfo, hnonce⟩
  raised := by
    intro env s sender tx result changes h
    obtain ⟨info, hinfo, hsender, hnonce, hbound, -, rfl⟩ := checkingEvm_transact h
    obtain ⟨account, hlookup, hstatus, hlt⟩ := lookup_burnChanges hsender hbound
    exact ⟨account, hlookup, by rw [hstatus]; rfl, hnonce ▸ hlt⟩
  kept := by
    intro env s sender tx result changes a before account h ha hbefore hlookup
    obtain ⟨info, hinfo, hsender, hnonce, hbound, -, rfl⟩ := checkingEvm_transact h
    by_cases hsame : a = sender
    · subst hsame
      obtain rfl : before = info := some.inj (hbefore.symm.trans hinfo)
      obtain ⟨account', hlookup', hstatus, hlt⟩ := lookup_burnChanges hsender hbound
      obtain rfl : account = account' := some.inj (hlookup.symm.trans hlookup')
      exact ⟨by rw [hstatus]; rfl, Nat.le_of_lt hlt⟩
    · rw [burnChanges, AList.lookup_insert_ne ha, AList.lookup_insert_ne hsame] at hlookup
      cases hlookup

theorem checkingEvm_logsCounted : LogsCounted checkingEvm := by
  intro env s sender tx gasUsed logs changes h
  obtain ⟨-, -, -, -, -, hresult, -⟩ := checkingEvm_transact h
  rw [(ExecutionResult.success.inj hresult).2, burnLogs]
  split <;> decide

/-- The executor of the two burns on that EVM. -/
def checkingExecutor : Executor :=
  { burningExecutor with
    evm := checkingEvm
    bitcoind := ⟨true, fun _ => some sampleBlock.header, fun _ => some 1⟩ }

/-- Account 5 makes two good burns, and then a good and a bad one. -/
def twoBurnsBlock : EthBlock where
  header := { burningHeader with extraData := some ⟨sampleBlockHash, ⟨false, 1⟩, 10⟩ }
  transactions := [(5, ⟨11, 200000, .legacy 7, [0, 0, 0, 0]⟩),
    (5, ⟨12, 300000, .legacy 7, [0, 0, 0, 0, 0]⟩)]
  withdrawals := none

def runTwoBurns : Outcome BlockExecutionError (Executor.ExecuteOutput × ChainState) :=
  checkingExecutor.executeWithoutVerification burningStart.state twoBurnsBlock

def afterTwoBurns : Executor.ExecuteOutput × ChainState :=
  runTwoBurns.getD (⟨[], [], 0, 0, [], []⟩, burningStart.state)

/-- The database of a node that has stored the block. -/
def twoBurnsReader : BlockReader where
  blockByNumber _ := .ok (some ⟨1, 1700000000, true⟩)
  transactionsByBlock _ := .ok (some (twoBurnsBlock.transactions.map (·.2.hash)))
  receiptsByBlock _ := .ok (some (afterTwoBurns.1.receipts.map fun r => ⟨r.success, r.logs⟩))
  now := some 1700000000
  addressFromStr := checkingExecutor.addressFromStr
  btcNetwork := .bitcoin

def twoBurnsClient : Client where
  receiptByHash hash :=
    if hash = 11 then .ok (afterTwoBurns.1.receipts[0]?.map (·.logs))
    else if hash = 12 then .ok (afterTwoBurns.1.receipts[1]?.map (·.logs))
    else .ok none
  transactionBlock _ := .ok (some 1)
  headerTimestamp _ := .ok (some 1700000000)
  now := some 1700000000

theorem twoBurnsBlock_stored :
    StoredBlock twoBurnsReader twoBurnsClient twoBurnsBlock afterTwoBurns.1.receipts where
  header := ⟨⟨1, 1700000000, true⟩, rfl, rfl, fun _ => rfl⟩
  transactions := rfl
  outcomes := rfl
  byHash := by
    intro i signed receipt hsigned hreceipt
    rcases i with _ | _ | i
    · obtain rfl := some.inj hsigned
      simp [twoBurnsClient, hreceipt]
    · obtain rfl := some.inj hsigned
      simp [twoBurnsClient, hreceipt]
    · simp [twoBurnsBlock] at hsigned

/-- The ids of the block are those of the two good burns, and each is found again. -/
theorem twoBurnsBlock_ids :
    afterTwoBurns.1.pegouts.map (·.id) = [⟨11, 0⟩, ⟨11, 1⟩] ∧
    (∃ found, twoBurnsReader.getBlockPegouts none 1 = .ok found ∧
      found.map (·.1) = [⟨11, 0⟩, ⟨11, 1⟩]) ∧
    ∀ pegout ∈ afterTwoBurns.1.pegouts,
      pegoutOfReceipt twoBurnsClient checkingExecutor.addressFromStr .bitcoin pegout.id =
        ok pegout.data := by
  have hids : afterTwoBurns.1.pegouts.map (·.id) = [⟨11, 0⟩, ⟨11, 1⟩] := by decide +kernel
  have hrun : checkingExecutor.executeWithoutVerification burningStart.state twoBurnsBlock =
      ok (afterTwoBurns.1, afterTwoBurns.2) := by
    have hok : runTwoBurns = ok afterTwoBurns := eq_ok_getD (by decide +kernel) _
    rw [Prod.mk.eta, ← hok, runTwoBurns]
  have hhash : ∀ x ∈ twoBurnsBlock.transactions, ∀ y ∈ twoBurnsBlock.transactions,
      x.2.hash = y.2.hash → x = y := by decide
  obtain ⟨⟨found, hfound, hsame⟩, -, hlookup⟩ := pegout_ids_agree checkingEvm_replayProtected
    checkingEvm_logsCounted hrun hhash twoBurnsBlock_stored rfl rfl
  refine ⟨hids, ⟨found, hfound, hsame.trans hids⟩, fun pegout hmem => ?_⟩
  obtain ⟨-, -, -, -, -, -, -, -, -, hdata⟩ := hlookup pegout hmem
  exact hdata

end Macbeth
