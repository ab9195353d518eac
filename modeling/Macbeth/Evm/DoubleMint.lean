import Macbeth.Evm.Executor
import Macbeth.Peg.MintHeights
import Macbeth.Peg.Solvency
import Macbeth.Peg.Soundness

/-!
# No outpoint is minted twice

No table records which outpoints have been used.  That none is used twice follows from five
facts together.  The contract issues a height for an account once (`ContractRun.issued`), and
a transaction whose peg events are refused leaves the contract's storage as it was; so the
events that count have distinct pairs of account and height.  An accepted proof is about a
transaction in the block at the event's height and about an output to the account's gateway
script (`PeginData.validate_sound`); so two events that use an outpoint have the same height
and account.  Within an event the parser refuses a repeated outpoint.
-/

namespace Macbeth

open Outcome List Option BitVec

/-! ## The EVM and the contract -/

/-- The contract's map in the state: `slot` is where the entry of an account is stored. -/
def ChainState.heights (slot : Address → U256) (s : ChainState) (a : Address) : BitVec 32 :=
  (s.storage mintContractAddress (slot a)).setWidth 32

/-- The EVM runs the contract's code: what a transaction that succeeds does to the contract
and the logs is a run of the contract, one that fails does nothing to it, an account with code
sends no transactions, and the system calls do not reach the contract. -/
structure RunsMinting (evm : Evm) (slot : Address → U256) : Prop where
  success : ∀ {env s sender tx gasUsed logs changes} (stateClear : Bool),
    evm.transact env s sender tx = .ok (.success gasUsed logs, changes) →
    ∃ w w', w.peginBitcoinBlockHeight = s.heights slot ∧ w.logs = [] ∧
      ContractRun env.basefee w w' ∧ w'.logs = logs ∧
      w'.peginBitcoinBlockHeight = (s.commit stateClear changes).heights slot
  failure : ∀ {env s sender tx result changes} (stateClear : Bool),
    evm.transact env s sender tx = .ok (result, changes) → result.isSuccess = false →
    (s.commit stateClear changes).heights slot = s.heights slot
  sender_ne : ∀ {env s sender tx r},
    evm.transact env s sender tx = .ok r → sender ≠ mintContractAddress
  preExecution : ∀ {header s s'}, evm.preExecution header s = .ok s' →
    s'.heights slot = s.heights slot
  collectRequests : ∀ {header receipts s r}, evm.collectRequests header receipts s = .ok r →
    r.2.heights slot = s.heights slot

/-- The pegins of the mint events of a transaction that was not reverted. -/
def Receipt.minted (btc : BitcoinLib) (receipt : Receipt) : List PeginData :=
  if receipt.success then receipt.logs.filterMap (parsedPegin btc) else []

/-! ## Blocks -/

namespace Executor

variable {exec : Executor} {slot : Address → U256} {header : EthHeader} {pkg : ConsensusPackage}

/-- Receipts that were added while the state changed: their mint events have distinct
accounts and heights, and passed the checks. -/
structure Mints (exec : Executor) (slot : Address → U256) (pkg : ConsensusPackage)
    (s s' : ChainState) (receipts : List Receipt) : Prop where
  issued : Issued (toHeights (s.heights slot)) (toHeights (s'.heights slot))
    ((receipts.flatMap (Receipt.minted exec.btc)).map PeginData.key)
  checked : ∀ pegin ∈ receipts.flatMap (Receipt.minted exec.btc),
    exec.mintEnv.checkPegin pkg pegin = ok ()

variable {s s' : ChainState}

/-- What changes nothing in the contract's map and has no events. -/
theorem Mints.quiet {receipts : List Receipt} (hheights : s'.heights slot = s.heights slot)
    (hreceipts : receipts.flatMap (Receipt.minted exec.btc) = []) :
    Mints exec slot pkg s s' receipts := by
  refine ⟨?_, ?_⟩
  · rw [hheights, hreceipts]
    exact .nil _
  · rw [hreceipts]
    exact nofun

theorem Mints.append {s'' : ChainState} {receipts receipts' : List Receipt}
    (h : Mints exec slot pkg s s' receipts) (h' : Mints exec slot pkg s' s'' receipts') :
    Mints exec slot pkg s s'' (receipts ++ receipts') := by
  refine ⟨?_, fun pegin hpegin => ?_⟩
  · rw [flatMap_append, map_append]
    exact h.issued.append h'.issued
  · rw [flatMap_append] at hpegin
    rcases mem_append.mp hpegin with hpegin | hpegin
    · exact h.checked pegin hpegin
    · exact h'.checked pegin hpegin

/-- An undone transaction leaves the contract's map as it was. -/
theorem heights_undo {stateClear : Bool} {sender : Address} {account : Account}
    (hsender : sender ≠ mintContractAddress) :
    (s.commit stateClear ((∅ : EvmState).insert sender account)).heights slot = s.heights slot := by
  have hlookup : ((∅ : EvmState).insert sender account).lookup mintContractAddress = none := by
    rw [AList.lookup_insert_ne (Ne.symm hsender)]
    rfl
  funext a
  rw [ChainState.heights, ChainState.storage_commit_of_lookup hlookup]
  rfl

/-- The pegins of accepted logs passed the checks. -/
theorem checkPegin_of_mem_filterMap {logs : List Log} {pegins : List PeginData}
    (h : exec.mintEnv.collectPegins pkg logs = ok pegins) :
    ∀ pegin ∈ logs.filterMap (parsedPegin exec.btc), exec.mintEnv.checkPegin pkg pegin = ok () := by
  intro pegin hpegin
  obtain ⟨log, hlog, hparsed⟩ := mem_filterMap.mp hpegin
  obtain ⟨parsed, hparse, hall⟩ := MintEnv.checkPegin_of_collectPegins h log hlog
  have hbtc : tryParseMintEvent exec.btc log = ok parsed := hparse
  rw [parsedPegin, hbtc] at hparsed
  exact (hall pegin hparsed).1

/-- One transaction. -/
theorem mints_executeTransaction (hevm : RunsMinting exec.evm slot) {p p' : Progress}
    {signed : Address × TransactionSigned}
    (h : exec.executeTransaction header pkg p signed = ok p') :
    ∃ receipt, p'.receipts = p.receipts ++ [receipt] ∧
      Mints exec slot pkg p.state p'.state [receipt] := by
  obtain ⟨original, result, changes, checked, gas, fees, -, htransact, hchecked, rfl⟩ :=
    executeTransaction_eq_ok h
  refine ⟨_, rfl, ?_⟩
  rcases checkPegs_cases hchecked with ⟨gasUsed, logs, pegins, pegouts, rfl, hchecks, rfl⟩ |
    ⟨gasUsed, logs, e, rfl, -, hundo⟩ | ⟨hfailed, rfl⟩
  · obtain ⟨w, w', hw, hlogs, hrun, hlogs', hw'⟩ :=
      hevm.success (exec.spec.isSpuriousDragonActive header.number) htransact
    obtain ⟨new, hnew, hissued⟩ := hrun.issued exec.btc
    obtain rfl : new = logs := by rw [← hlogs', hnew, hlogs, nil_append]
    obtain ⟨pegins, hpegins, -⟩ := bind_eq_ok.mp hchecks
    refine ⟨?_, ?_⟩
    · rw [← hw, ← hw']
      simpa [Receipt.minted, ExecutionResult.isSuccess, ExecutionResult.logs, mintKeys] using hissued
    · simpa [Receipt.minted, ExecutionResult.isSuccess, ExecutionResult.logs] using
        checkPegin_of_mem_filterMap hpegins
  · obtain ⟨account, balance, -, -, rfl⟩ := undo_eq_ok hundo
    exact .quiet (heights_undo (hevm.sender_ne htransact))
      (by simp [Receipt.minted, ExecutionResult.isSuccess])
  · exact .quiet (hevm.failure _ htransact hfailed) (by simp [Receipt.minted, hfailed])

/-- The transactions of a block. -/
theorem mints_foldlM (hevm : RunsMinting exec.evm slot) :
    ∀ {txs : List (Address × TransactionSigned)} {p p' : Progress},
      txs.foldlM (exec.executeTransaction header pkg) p = ok p' →
      ∃ new, p'.receipts = p.receipts ++ new ∧ Mints exec slot pkg p.state p'.state new
  | [], p, p', h => by
    obtain rfl : p = p' := ok.inj h
    exact ⟨[], by simp, .quiet rfl rfl⟩
  | signed :: txs, p, p', h => by
    rw [foldlM_cons] at h
    obtain ⟨q, hq, h⟩ := bind_eq_ok.mp h
    obtain ⟨receipt, hreceipt, hmints⟩ := mints_executeTransaction hevm hq
    obtain ⟨new, hnew, hrest⟩ := mints_foldlM hevm h
    exact ⟨receipt :: new, by rw [hnew, hreceipt, List.append_assoc]; rfl, hmints.append hrest⟩

/-- A block. -/
theorem mints_executeWithoutVerification (hevm : RunsMinting exec.evm slot) {block : EthBlock}
    {output : ExecuteOutput} (h : exec.executeWithoutVerification s block = ok (output, s')) :
    ∃ edh pkg, block.header.extraData = some edh ∧
      exec.botanixConsensusPackage block.header = .ok pkg ∧
      Mints exec slot pkg s s' output.receipts := by
  obtain ⟨edh, hedh, h⟩ := bind_eq_ok.mp h
  obtain ⟨pkg, hpkg, h⟩ := bind_eq_ok.mp h
  obtain ⟨⟨output, s₂⟩, htransitions, h⟩ := bind_eq_ok.mp h
  obtain ⟨increments, -, h⟩ := bind_eq_ok.mp h
  obtain ⟨rfl, rfl⟩ := Prod.mk.inj (ok.inj h)
  obtain ⟨s₁, hpre, htransitions⟩ := bind_eq_ok.mp htransitions
  obtain ⟨p, hfold, htransitions⟩ := bind_eq_ok.mp htransitions
  obtain ⟨⟨requests, s₃⟩, hrequests, htransitions⟩ := bind_eq_ok.mp htransitions
  obtain ⟨rfl, rfl⟩ := Prod.mk.inj (ok.inj htransitions)
  refine ⟨edh, pkg, ofOption_eq_ok.mp hedh, ofExcept_eq_ok.mp hpkg, ?_⟩
  obtain ⟨new, hnew, hmints⟩ := mints_foldlM hevm hfold
  have hafter : s₃.heights slot = p.state.heights slot := by
    unfold collectRequests at hrequests
    split at hrequests
    · exact hevm.collectRequests (ofExcept_eq_ok.mp hrequests)
    · obtain ⟨-, rfl⟩ := Prod.mk.inj (ok.inj hrequests)
      rfl
  have hpost : (s₃.incrementBalances increments).heights slot = s₃.heights slot := by
    funext a
    rw [ChainState.heights, ChainState.storage_incrementBalances]
    rfl
  have hbefore := hevm.preExecution (ofExcept_eq_ok.mp hpre)
  obtain rfl : p.receipts = new := by simpa using hnew
  refine ⟨?_, hmints.checked⟩
  rw [hpost, hafter, ← hbefore]
  exact hmints.issued

end Executor

/-! ## Sequences of blocks -/

/-- What bitcoind and the database answer while a block is executed. -/
structure NodeView where
  bitcoind : BitcoindClient
  findBlockByHash : BitVec 256 → Option (Option EthHeader)

/-- The executor of a node with this view. -/
def Executor.withView (exec : Executor) (view : NodeView) : Executor :=
  { exec with bitcoind := view.bitcoind, findBlockByHash := view.findBlockByHash }

/-- A block with the view it was executed with and what came out. -/
structure ExecutedBlock where
  view : NodeView
  block : EthBlock
  output : Executor.ExecuteOutput

/-- The pegins a block has minted, with the aggregate key of the block. -/
def ExecutedBlock.minted (btc : BitcoinLib) (e : ExecutedBlock) : List (PublicKey × PeginData) :=
  match e.block.header.extraData with
  | some edh => (e.output.receipts.flatMap (Receipt.minted btc)).map (edh.aggregatedPublicKey, ·)
  | none => []

/-- Blocks that are executed one after the other. -/
inductive Executed (exec : Executor) : ChainState → List ExecutedBlock → ChainState → Prop
  | nil (s : ChainState) : Executed exec s [] s
  | cons {s s' s'' : ChainState} {e : ExecutedBlock} {es : List ExecutedBlock} :
      (exec.withView e.view).executeWithoutVerification s e.block = ok (e.output, s') →
      Executed exec s' es s'' → Executed exec s (e :: es) s''

/-- The commitments a block is checked against lie on the chain. -/
def ExecutedBlock.OnChain {btc : BitcoinLib} (chain : BitcoinChain btc) (exec : Executor)
    (e : ExecutedBlock) : Prop :=
  ∀ pkg commitment, (exec.withView e.view).botanixConsensusPackage e.block.header = .ok pkg →
    (exec.withView e.view).mintEnv.Commits pkg commitment →
    (chain.blocks.map Block.header)[commitment.2.toNat]? = some commitment.1

/-- A pegin that validates against a commitment on the chain. -/
def Validated {btc : BitcoinLib} (chain : BitcoinChain btc) (frost : FrostLib) (checks : Bool)
    (m : PublicKey × PeginData) : Prop :=
  ∃ commitment v, (chain.blocks.map Block.header)[commitment.2.toNat]? = some commitment.1 ∧
    m.2.validate btc frost checks commitment m.1 = ok v

/-- The aggregate key of a block's package is the one in its extra data. -/
theorem Executor.aggregatePublicKey_of_package {exec : Executor} {header : EthHeader}
    {edh : ExtraDataHeader} {pkg : ConsensusPackage} (hedh : header.extraData = some edh)
    (h : exec.botanixConsensusPackage header = .ok pkg) :
    pkg.aggregatePublicKey = edh.aggregatedPublicKey := by
  simp only [Executor.botanixConsensusPackage, hedh] at h
  split at h
  · cases h
  · split at h
    · cases h
    · split at h
      · cases h
      · obtain rfl := Except.ok.inj h
        rfl

section
variable {exec : Executor} {slot : Address → U256} {s s' : ChainState} {es : List ExecutedBlock}

/-- Over any sequence of blocks the mint events that count have distinct accounts and
heights, and each validates against a commitment on the chain. -/
theorem Executed.mints (hevm : RunsMinting exec.evm slot) {chain : BitcoinChain exec.btc}
    (h : Executed exec s es s') (hchain : ∀ e ∈ es, e.OnChain chain exec) :
    Issued (toHeights (s.heights slot)) (toHeights (s'.heights slot))
      ((es.flatMap (ExecutedBlock.minted exec.btc)).map fun m => m.2.key) ∧
    ∀ m ∈ es.flatMap (ExecutedBlock.minted exec.btc), Validated chain exec.frost exec.checks m := by
  induction h with
  | nil s => exact ⟨.nil _, nofun⟩
  | @cons s s' s'' e es hexec _ ih =>
    obtain ⟨hissued, hvalid⟩ := ih fun e he => hchain e (mem_cons_of_mem _ he)
    have hview : RunsMinting (exec.withView e.view).evm slot := hevm
    obtain ⟨edh, pkg, hedh, hpkg, hmints⟩ := Executor.mints_executeWithoutVerification hview hexec
    have hminted : e.minted exec.btc =
        (e.output.receipts.flatMap (Receipt.minted exec.btc)).map (edh.aggregatedPublicKey, ·) := by
      rw [ExecutedBlock.minted, hedh]
    have hkeys : (e.minted exec.btc).map (fun m => m.2.key) =
        (e.output.receipts.flatMap (Receipt.minted exec.btc)).map PeginData.key := by
      rw [hminted, List.map_map]
      rfl
    rw [flatMap_cons, map_append, hkeys]
    refine ⟨hmints.issued.append hissued, fun m hm => ?_⟩
    rcases mem_append.mp hm with hm | hm
    · rw [hminted] at hm
      obtain ⟨pegin, hpegin, rfl⟩ := mem_map.mp hm
      obtain ⟨commitment, v, hcommits, -, hvalidate, -⟩ :=
        MintEnv.exists_validate_of_checkPegin (hmints.checked pegin hpegin)
      rw [Executor.aggregatePublicKey_of_package hedh hpkg] at hvalidate
      exact ⟨commitment, v, hchain e mem_cons_self pkg commitment hpkg hcommits, hvalidate⟩
    · exact hvalid m hm

/-- Hashes and tweaks do not collide on what is in sight of the minted pegins, and a
transaction that pays one of their gateway scripts is in one block of the chain only. -/
structure CollisionFree {btc : BitcoinLib} (chain : BitcoinChain btc) (frost : FrostLib)
    (minted : List (PublicKey × PeginData)) : Prop where
  headers : ∀ m ∈ minted, Set.InjOn btc.blockHash (headersInSight chain m.2)
  txids : ∀ m ∈ minted, TxidsCollisionFree btc (transactionsInSight chain m.2)
  merkle : ∀ block ∈ chain.blocks, ExtractMatchesSound btc block
  tweaks : ∀ m ∈ minted, ∀ m' ∈ minted, ∀ script,
    gatewayScript btc frost m.1 m.2.account = some script →
    gatewayScript btc frost m'.1 m'.2.account = some script → m.2.account = m'.2.account
  once : ∀ (i j : Nat) (block block' : Block) (tx tx' : Transaction),
    chain.blocks[i]? = some block → chain.blocks[j]? = some block' →
    tx ∈ block.txdata → tx' ∈ block'.txdata → btc.computeTxid tx = btc.computeTxid tx' →
    (∃ m ∈ minted, ∃ output ∈ tx.output,
      gatewayScript btc frost m.1 m.2.account = some output.scriptPubkey) → i = j

/-- Two pegins that use an outpoint have the same height and account. -/
theorem key_eq_of_outpoint {btc : BitcoinLib} {chain : BitcoinChain btc} {frost : FrostLib}
    {checks : Bool} {minted : List (PublicKey × PeginData)}
    (hfree : CollisionFree chain frost minted) {m m' : PublicKey × PeginData}
    (hm : m ∈ minted) (hm' : m' ∈ minted) (hvalid : Validated chain frost checks m)
    (hvalid' : Validated chain frost checks m') {o : OutPoint}
    (ho : o ∈ m.2.metas.map PeginMeta.outpoint) (ho' : o ∈ m'.2.metas.map PeginMeta.outpoint) :
    m.2.key = m'.2.key := by
  obtain ⟨commitment, v, hcommit, hok⟩ := hvalid
  obtain ⟨commitment', v', hcommit', hok'⟩ := hvalid'
  obtain ⟨proof, hproof, rfl⟩ := mem_map.mp ho
  obtain ⟨proof', hproof', houtpoint⟩ := mem_map.mp ho'
  obtain ⟨block, hblock, tx, htx, output, hat, -, -, hid, houtput, hscript, -⟩ :=
    (PeginData.validate_sound chain hcommit (hfree.headers m hm) (hfree.txids m hm) hfree.merkle
      hok).1 proof hproof
  obtain ⟨block', hblock', tx', htx', output', hat', -, -, hid', houtput', hscript', -⟩ :=
    (PeginData.validate_sound chain hcommit' (hfree.headers m' hm') (hfree.txids m' hm')
      hfree.merkle hok').1 proof' hproof'
  have hsame : btc.computeTxid tx = btc.computeTxid tx' := by rw [hid, hid', houtpoint]
  have hheight : m.2.bitcoinBlockHeight.toNat = m'.2.bitcoinBlockHeight.toNat :=
    hfree.once _ _ block block' tx tx' hat hat' htx htx' hsame
      ⟨m, hm, output, mem_of_getElem? houtput, hscript⟩
  -- the two transactions differ at most in their witnesses, so they have the same outputs
  have hstripped : tx.stripped = tx'.stripped :=
    hfree.txids m hm tx (.inl ⟨block, hblock, htx⟩) tx' (.inl ⟨block', hblock', htx'⟩) hsame
  have houtputs : tx.output = tx'.output := by simpa using congrArg Transaction.output hstripped
  obtain rfl : output = output' := by
    rw [houtputs, ← houtpoint, houtput'] at houtput
    exact (some.inj houtput).symm
  have haccount : m.2.account = m'.2.account :=
    hfree.tweaks m hm m' hm' output.scriptPubkey hscript hscript'
  exact Prod.ext haccount hheight

/-- Within an event no outpoint is repeated. -/
theorem nodup_outpoints_of_minted {btc : BitcoinLib} {m : PublicKey × PeginData}
    (hm : m ∈ es.flatMap (ExecutedBlock.minted btc)) :
    (m.2.metas.map PeginMeta.outpoint).Nodup := by
  obtain ⟨e, -, hm⟩ := mem_flatMap.mp hm
  unfold ExecutedBlock.minted at hm
  split at hm
  · obtain ⟨pegin, hpegin, rfl⟩ := mem_map.mp hm
    obtain ⟨receipt, -, hpegin⟩ := mem_flatMap.mp hpegin
    unfold Receipt.minted at hpegin
    split at hpegin
    · obtain ⟨log, -, hparsed⟩ := mem_filterMap.mp hpegin
      unfold parsedPegin at hparsed
      split at hparsed
      · next parsed hparse =>
        rw [hparsed] at hparse
        obtain ⟨metaBytes, -, hproofs⟩ := exists_parseProofs btc hparse
        exact (nodup_parseProofs btc hproofs).1
      · cases hparsed
    · cases hpegin
  · cases hm

/-- No double mint: over any sequence of executed blocks, whatever the transactions do, no
outpoint is used by two mint events of transactions that were not reverted, or twice by one. -/
theorem outpoint_minted_once (hevm : RunsMinting exec.evm slot) (chain : BitcoinChain exec.btc)
    (hrun : Executed exec s es s') (hchain : ∀ e ∈ es, e.OnChain chain exec)
    (hfree : CollisionFree chain exec.frost (es.flatMap (ExecutedBlock.minted exec.btc))) :
    ((es.flatMap (ExecutedBlock.minted exec.btc)).flatMap fun m =>
      m.2.metas.map PeginMeta.outpoint).Nodup := by
  obtain ⟨hissued, hvalid⟩ := hrun.mints hevm hchain
  refine nodup_flatMap.mpr ⟨fun m hm => nodup_outpoints_of_minted hm, ?_⟩
  have hkeys := pairwise_map.mp hissued.nodup
  refine hkeys.imp_of_mem fun {m m'} hm hm' hne => ?_
  intro o ho ho'
  exact hne (key_eq_of_outpoint hfree hm hm' (hvalid m hm) (hvalid m' hm') ho ho')

end

/-! ## A mint that is tried twice -/

/-- A proof of the second transaction of the concrete chain, in the block of the commitment. -/
def depositMetadata : List UInt8 :=
  Bytes.toLE 4 0 ++ encodeOutPoint ⟨otherTxid, 0⟩ ++ Address.toBytes 8 ++
    PublicKey.serialize ⟨false, 1⟩ ++ [1] ++ encodeHeader sampleBlock.header ++
    (Bytes.toLE 4 1 ++ [1] ++ serializeTxid otherTxid ++ [1, 1]) ++ encodeStripped otherTx

def depositCall : MintCall := ⟨8, 20000000000, 1, depositMetadata, 8⟩

/-- The pegin the event of the call parses to, at base fee 7. -/
def depositPegin : PeginData where
  account := 8
  amount := 19998950000
  bitcoinBlockHeight := 1
  metas := [.v0 ⟨0, ⟨1, bitsOfByte 1, [otherTxid]⟩, ⟨otherTxid, 0⟩, 8, ⟨false, 1⟩,
    [sampleBlock.header], otherTx⟩]

/-- An account's entry is at the slot of its address. -/
def addressSlot (a : Address) : U256 := a.setWidth 256

/-- The contract's account with one slot written. -/
def contractAccount (slot value : U256) : Account :=
  ⟨⟨BitVec.allOnes 256, 1, 1⟩, (∅ : FinMap U256 U256).insert slot value, .onlyTouched⟩

/-- An EVM on which every transaction is the call of `mint`, by an account without code. -/
def depositEvm : Evm where
  transact env s sender _ :=
    if sender = mintContractAddress then .error (.transaction "RejectCallerWithCode")
    else match mint keepMoney env.basefee depositCall
        ⟨s.heights addressSlot, [], BitVec.allOnes 256⟩ with
      | some (_, w) => .ok (.success 100000 w.logs, (∅ : EvmState).insert mintContractAddress
          (contractAccount (addressSlot depositCall.destination)
            (depositCall.bitcoinBlockHeight.setWidth 256)))
      | none => .ok (.revert 30000, ∅)
  preExecution _ s := .ok s
  collectRequests _ _ s := .ok ([], s)

theorem addressSlot_injective : Function.Injective addressSlot := by
  intro a b h
  have := congrArg (setWidth 160) h
  simpa [addressSlot, setWidth_setWidth_of_le] using this

theorem writtenSlot_contractAccount (x value : U256) (stateClear : Bool) (slot before : U256) :
    (contractAccount x value).writtenSlot stateClear slot before =
      if slot = x then value else before := by
  have hempty : (⟨allOnes 256, 1, 1⟩ : AccountInfo).isEmpty = false := by decide
  simp only [Account.writtenSlot, contractAccount, AccountStatus.onlyTouched, hempty,
    FinMap.lookup_insert_eq]
  by_cases h : slot = x
  · rw [if_pos h, if_pos h]
    rfl
  · rw [if_neg h, if_neg h]
    rfl

/-- Writing the contract's slot of an account sets its height. -/
theorem heights_contractAccount (s : ChainState) (stateClear : Bool) (a : Address)
    (height : BitVec 32) :
    (s.commit stateClear ((∅ : EvmState).insert mintContractAddress
      (contractAccount (addressSlot a) (height.setWidth 256)))).heights addressSlot =
      Function.update (s.heights addressSlot) a height := by
  have htouched : (contractAccount (addressSlot a) (height.setWidth 256)).status.touched = true :=
    rfl
  funext b
  simp only [ChainState.heights, ChainState.commit, AList.lookup_insert, htouched, if_true,
    writtenSlot_contractAccount]
  by_cases hb : b = a
  · rw [hb, if_pos rfl, Function.update_self, setWidth_setWidth_of_le _ (by decide)]
    exact setWidth_eq height
  · rw [if_neg fun h => hb (addressSlot_injective h), Function.update_of_ne hb]
    rfl

theorem depositEvm_runsMinting : RunsMinting depositEvm addressSlot where
  success := by
    intro env s sender tx gasUsed logs changes stateClear h
    simp only [depositEvm] at h
    split at h
    · cases h
    · split at h
      · next payments w hmint =>
        simp only [Except.ok.injEq, Prod.mk.injEq, ExecutionResult.success.injEq] at h
        obtain ⟨⟨-, rfl⟩, rfl⟩ := h
        refine ⟨_, w, rfl, rfl, .mint keepMoney depositCall ?_ hmint, rfl, ?_⟩
        · rintro recipient value w₁ _ ⟨⟩
          exact .refl w₁
        · obtain ⟨-, amount, txCost, w₁, w₂, hpay, hrefund, rfl⟩ := mint_run hmint
          obtain rfl := some.inj (sendValue_eq_some hrefund)
          obtain rfl := some.inj (sendValue_eq_some hpay)
          exact (heights_contractAccount ..).symm
      · cases h
  failure := by
    intro env s sender tx result changes stateClear h hfailed
    simp only [depositEvm] at h
    split at h
    · cases h
    · split at h
      · simp only [Except.ok.injEq, Prod.mk.injEq] at h
        obtain ⟨rfl, -⟩ := h
        cases hfailed
      · simp only [Except.ok.injEq, Prod.mk.injEq] at h
        obtain ⟨-, rfl⟩ := h
        rfl
  sender_ne := by
    intro env s sender tx r h hsender
    simp [depositEvm, hsender] at h
  preExecution := by
    rintro header s _ ⟨⟩
    rfl
  collectRequests := by
    rintro header receipts s _ ⟨⟩
    rfl

def depositView : NodeView where
  bitcoind := ⟨true, fun _ => some sampleBlock.header, fun _ => some 1⟩
  findBlockByHash _ := some none

def depositExecutor : Executor where
  evm := depositEvm
  spec := ⟨fun _ => true, fun _ => false, fun _ => true, fun _ => true, fun _ => [], none, none⟩
  btc := sampleBitcoin
  frost := sampleFrost
  addressFromStr _ := none
  bitcoinNetwork := .bitcoin
  bitcoind := depositView.bitcoind
  findBlockByHash := depositView.findBlockByHash
  checks := true

/-- A block with the call. -/
def depositBlock : EthBlock where
  header := ⟨0, 1, 1700000000, 30000000, some 7, 0, 0, 0, none,
    none, none, some ⟨sampleBlockHash, ⟨false, 1⟩, 0⟩⟩
  transactions := [(5, ⟨0, 200000, .legacy 7, []⟩)]
  withdrawals := none

/-- Account 5 has a balance, the others nothing. -/
def depositState : ChainState where
  basic a := if a = 5 then some ⟨1000000000000000000, 0, keccakEmpty⟩ else none
  storage _ _ := 0

/-- The block is executed. -/
def runDeposit (s : ChainState) : Outcome BlockExecutionError (Executor.ExecuteOutput × ChainState) :=
  (depositExecutor.withView depositView).executeWithoutVerification s depositBlock

def afterDeposit (s : ChainState) : Executor.ExecuteOutput × ChainState :=
  (runDeposit s).getD (⟨[], [], 0, 0, [], []⟩, s)

/-- The same call in two blocks: the second time the contract refuses the height. -/
def depositTwice : List ExecutedBlock :=
  [⟨depositView, depositBlock, (afterDeposit depositState).1⟩,
    ⟨depositView, depositBlock, (afterDeposit (afterDeposit depositState).2).1⟩]

theorem depositTwice_minted : depositTwice.flatMap (ExecutedBlock.minted sampleBitcoin) =
    [(⟨false, 1⟩, depositPegin)] := by decide +kernel

theorem runDeposit_eq {s : ChainState} (h : (runDeposit s).isOk = true) :
    (depositExecutor.withView depositView).executeWithoutVerification s depositBlock =
      ok ((afterDeposit s).1, (afterDeposit s).2) := by
  have hrun : runDeposit s = ok (afterDeposit s) := Outcome.eq_ok_getD h _
  rw [Prod.mk.eta, ← hrun, runDeposit]

theorem executed_two {s s₁ s₂ : ChainState} {o₁ o₂ : Executor.ExecuteOutput}
    (h₁ : (depositExecutor.withView depositView).executeWithoutVerification s depositBlock =
      ok (o₁, s₁))
    (h₂ : (depositExecutor.withView depositView).executeWithoutVerification s₁ depositBlock =
      ok (o₂, s₂)) :
    Executed depositExecutor s
      [⟨depositView, depositBlock, o₁⟩, ⟨depositView, depositBlock, o₂⟩] s₂ :=
  .cons h₁ (.cons h₂ (.nil _))

theorem depositTwice_executed : Executed depositExecutor depositState depositTwice
    (afterDeposit (afterDeposit depositState).2).2 := by
  have hfirst : (runDeposit depositState).isOk = true := by decide +kernel
  have hsecond : (runDeposit (afterDeposit depositState).2).isOk = true := by decide +kernel
  exact executed_two (runDeposit_eq hfirst) (runDeposit_eq hsecond)

theorem depositTwice_onChain : ∀ e ∈ depositTwice, e.OnChain sampleChain depositExecutor := by
  intro e he pkg commitment hpkg hcommits
  have hpackage : (depositExecutor.withView depositView).botanixConsensusPackage
      depositBlock.header = .ok ⟨(sampleBlock.header, 1), ⟨false, 1⟩, .bitcoin⟩ := rfl
  have he : e.view = depositView ∧ e.block = depositBlock := by
    simp only [depositTwice, mem_cons, not_mem_nil, or_false] at he
    rcases he with rfl | rfl <;> exact ⟨rfl, rfl⟩
  rw [he.1, he.2, hpackage] at hpkg
  obtain rfl := Except.ok.inj hpkg
  rw [he.1] at hcommits
  rcases hcommits with rfl | ⟨hash, package, hfound, -⟩
  · rfl
  · cases hfound

theorem sampleChain_blocks {i : Nat} {block : Block} (h : sampleChain.blocks[i]? = some block) :
    i = 0 ∧ block = sampleGenesis ∨ i = 1 ∧ block = sampleBlock := by
  rcases i with _ | _ | i
  · exact .inl ⟨rfl, (some.inj h).symm⟩
  · exact .inr ⟨rfl, (some.inj h).symm⟩
  · simp [sampleChain] at h

theorem depositPegin_collisionFree :
    CollisionFree sampleChain sampleFrost [(⟨false, 1⟩, depositPegin)] where
  headers := by
    intro m hm
    obtain rfl := mem_singleton.mp hm
    refine sampleBitcoin_injOn fun x hx => ?_
    rcases hx with hx | ⟨proof, hproof, hx⟩
    · simpa [sampleChain] using hx
    · obtain rfl := mem_singleton.mp hproof
      exact .inr (mem_singleton.mp hx)
  txids := by
    intro m hm
    obtain rfl := mem_singleton.mp hm
    refine sampleBitcoin_txids fun x hx => ?_
    rcases hx with ⟨block, hblock, hx⟩ | ⟨proof, hproof, rfl⟩
    · exact tx_of_sampleChain hblock hx
    · obtain rfl := mem_singleton.mp hproof
      exact .inr rfl
  merkle _ := sampleChain_extractMatchesSound
  tweaks := by
    intro m hm m' hm' script _ _
    rw [mem_singleton.mp hm, mem_singleton.mp hm']
  once := by
    intro i j block block' tx tx' hi hj htx htx' hid _
    obtain ⟨rfl, rfl⟩ | ⟨rfl, rfl⟩ := sampleChain_blocks hi <;>
      obtain ⟨rfl, rfl⟩ | ⟨rfl, rfl⟩ := sampleChain_blocks hj
    · rfl
    · obtain rfl := mem_singleton.mp htx
      obtain rfl := mem_singleton.mp htx'
      exact absurd hid (by decide)
    · obtain rfl := mem_singleton.mp htx
      obtain rfl := mem_singleton.mp htx'
      exact absurd hid (by decide)
    · rfl

/-- The deposit is minted by the first block, and not again by the second. -/
theorem depositTwice_minted_once :
    ((depositTwice.flatMap (ExecutedBlock.minted sampleBitcoin)).flatMap fun m =>
      m.2.metas.map PeginMeta.outpoint) = [⟨otherTxid, 0⟩] ∧
    ((depositTwice.flatMap (ExecutedBlock.minted sampleBitcoin)).flatMap fun m =>
      m.2.metas.map PeginMeta.outpoint).Nodup := by
  have hfree : CollisionFree sampleChain sampleFrost
      (depositTwice.flatMap (ExecutedBlock.minted sampleBitcoin)) := by
    rw [depositTwice_minted]
    exact depositPegin_collisionFree
  have hnodup := outpoint_minted_once depositEvm_runsMinting sampleChain depositTwice_executed
    depositTwice_onChain hfree
  refine ⟨?_, hnodup⟩
  rw [depositTwice_minted]
  rfl

end Macbeth
