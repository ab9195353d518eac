import Macbeth.Evm.Executor

/-!
# Execution with an older view of the database

The executor looks up the block that a pegin of version 1 refers to in the database it was
given.  A view that lacks some of the blocks refuses the pegins that refer to them, and nothing
else about the execution of a block depends on the view.  So the same block gives the same
result when the older view has every block the accepted pegins refer to, and otherwise the
receipts differ: a transaction that succeeded is reverted.
-/

namespace Macbeth

open Outcome List

/-- The block a pegin of version 1 is validated against. -/
def PeginData.reference (pegin : PeginData) : Option (BitVec 256) :=
  pegin.metas.head?.bind fun first => if first.version = 1 then first.refBlockHash else none

/-! ## The mint checks -/

namespace MintEnv

variable (env : MintEnv) (find : BitVec 256 → RefBlock)

/-- The same node with another view of the database. -/
def withBlocks : MintEnv := { env with findBlockByHash := find }

/-- The view has nothing but blocks of the node. -/
def Older : Prop := ∀ hash, find hash = env.findBlockByHash hash ∨ find hash = .notFound

/-- The view says the same as the node about the block the pegin refers to. -/
def Sees (pegin : PeginData) : Prop :=
  ∀ hash ∈ pegin.reference, find hash = env.findBlockByHash hash

variable {env find} {pkg : ConsensusPackage}

/-- The checkpoint of an accepted pegin of version 1 is that of a block in the database. -/
theorem reference_found {pegin : PeginData} (h : env.checkPegin pkg pegin = ok ()) :
    ∀ hash ∈ pegin.reference, ∃ package, env.findBlockByHash hash = .found (some package) := by
  intro hash hhash
  unfold checkPegin at h
  split at h
  case h_1 => simp [refuse] at h
  case h_2 first rest hmetas =>
    obtain ⟨checkpoint, hcheckpoint, -⟩ := bind_eq_ok.mp h
    simp only [PeginData.reference, hmetas, head?_cons, Option.bind_some,
      Option.mem_def] at hhash
    split at hhash
    case isFalse => cases hhash
    case isTrue hversion =>
      simp only [peginCheckpoint, hhash, hversion, if_true] at hcheckpoint
      split at hcheckpoint
      case h_1 => cases hcheckpoint
      case h_2 => simp [refuse] at hcheckpoint
      case h_3 => simp [refuse] at hcheckpoint
      case h_4 package hfound => exact ⟨package, hfound⟩

theorem peginCheckpoint_narrows (hfind : env.Older find) {pegin : PeginData} {first : PeginMeta}
    {rest : List PeginMeta} (hmetas : pegin.metas = first :: rest) :
    Narrows (fun _ => env.Sees find pegin) (env.peginCheckpoint pkg pegin first)
      ((env.withBlocks find).peginCheckpoint pkg pegin first) := by
  have href : pegin.reference = if first.version = 1 then first.refBlockHash else none := by
    simp [PeginData.reference, hmetas]
  by_cases hversion : first.version = 1
  case neg =>
    rw [if_neg hversion] at href
    have hsees : env.Sees find pegin := by simp [Sees, href]
    have hsame : (env.withBlocks find).peginCheckpoint pkg pegin first =
        env.peginCheckpoint pkg pegin first := by
      simp only [peginCheckpoint, hversion, if_false]
    rw [hsame]
    exact .refl fun _ _ => hsees
  case pos =>
    rw [if_pos hversion] at href
    cases hhash : first.refBlockHash with
    | none =>
      simp only [peginCheckpoint, hhash, hversion, if_true]
      exact .refl fun _ h => by simp [refuse] at h
    | some hash =>
      by_cases hsees : find hash = env.findBlockByHash hash
      · have hsame : (env.withBlocks find).peginCheckpoint pkg pegin first =
            env.peginCheckpoint pkg pegin first := by
          simp only [peginCheckpoint, withBlocks, hhash, hsees]
        rw [hsame]
        refine .refl fun _ _ => ?_
        simpa [Sees, href, hhash] using hsees
      · have hnot : find hash = .notFound := (hfind hash).resolve_left hsees
        have hrefused : (env.withBlocks find).peginCheckpoint pkg pegin first =
            refuse pegin (.text "No block found for reference block hash") := by
          simp only [peginCheckpoint, withBlocks, hhash, hversion, if_true, hnot]
        rw [hrefused]
        refine .of_err fun _ _ h => hsees (h hash ?_)
        rw [href, hhash]
        rfl

/-- With an older view a pegin is refused if the block it refers to is missing. -/
theorem checkPegin_narrows (hfind : env.Older find) (pegin : PeginData) :
    Narrows (fun _ => env.Sees find pegin) (env.checkPegin pkg pegin)
      ((env.withBlocks find).checkPegin pkg pegin) := by
  unfold checkPegin
  split
  case h_1 => exact .refl fun _ h => by simp [refuse] at h
  case h_2 first rest hmetas =>
    exact (peginCheckpoint_narrows hfind hmetas).bind (fun _ _ hS => .refl fun _ _ => hS)
      fun _ _ _ _ hS => hS

theorem collectPegins_narrows (hfind : env.Older find) : ∀ logs : List Log,
    Narrows (fun pegins => ∀ pegin ∈ pegins, env.Sees find pegin) (env.collectPegins pkg logs)
      ((env.withBlocks find).collectPegins pkg logs)
  | [] => .refl fun pegins h => by
    obtain rfl := ok.inj h
    simp
  | log :: logs => by
    have hrest := collectPegins_narrows hfind logs
    refine Narrows.bind (S := fun _ => True) (.refl fun _ _ => trivial) ?_ fun _ _ _ _ _ => trivial
    intro parsed _ _
    cases parsed with
    | none => exact hrest
    | some pegin =>
      refine (checkPegin_narrows hfind pegin).bind (fun _ _ hS => ?_) ?_
      · refine hrest.bind (fun rest _ hall => .refl fun pegins h => ?_) fun rest pegins _ h hall => ?_
        · obtain rfl := ok.inj h
          exact forall_mem_cons.mpr ⟨hS, hall⟩
        · obtain rfl := ok.inj h
          exact (forall_mem_cons.mp hall).2
      · intro _ pegins _ h hall
        obtain ⟨rest, -, h⟩ := bind_eq_ok.mp h
        obtain rfl := ok.inj h
        exact (forall_mem_cons.mp hall).1

theorem collectPegouts_withBlocks (txHash : BitVec 256) (logs : List Log) (index : Nat) :
    (env.withBlocks find).collectPegouts pkg txHash index logs =
      env.collectPegouts pkg txHash index logs := by
  induction logs generalizing index with
  | nil => rfl
  | cons log logs ih =>
    simp only [collectPegouts, ih]
    rfl

theorem botanixMintContractChecks_narrows (hfind : env.Older find) (txHash : BitVec 256)
    (logs : List Log) :
    Narrows (fun pegs => ∀ pegin ∈ pegs.1, env.Sees find pegin)
      (env.botanixMintContractChecks pkg txHash logs)
      ((env.withBlocks find).botanixMintContractChecks pkg txHash logs) := by
  unfold botanixMintContractChecks
  simp only [collectPegouts_withBlocks]
  refine (collectPegins_narrows hfind logs).bind (fun pegins _ hall => .refl fun pegs h => ?_)
    fun pegins pegs _ h hall => ?_
  · obtain ⟨pegouts, -, h⟩ := bind_eq_ok.mp h
    obtain rfl := ok.inj h
    exact hall
  · obtain ⟨pegouts, -, h⟩ := bind_eq_ok.mp h
    obtain rfl := ok.inj h
    exact hall

/-- Every pegin that is collected was checked. -/
theorem checkPegin_of_mem : ∀ {logs : List Log} {pegins : List PeginData},
    env.collectPegins pkg logs = ok pegins → ∀ pegin ∈ pegins, env.checkPegin pkg pegin = ok ()
  | [], _, h, pegin, hmem => by
    obtain rfl := ok.inj h
    cases hmem
  | log :: logs, pegins, h, pegin, hmem => by
    obtain ⟨parsed, -, h⟩ := bind_eq_ok.mp h
    cases parsed with
    | none => exact checkPegin_of_mem h pegin hmem
    | some first =>
      obtain ⟨⟨⟩, hcheck, h⟩ := bind_eq_ok.mp h
      obtain ⟨rest, hrest, h⟩ := bind_eq_ok.mp h
      obtain rfl := ok.inj h
      rcases mem_cons.mp hmem with rfl | hmem
      · exact hcheck
      · exact checkPegin_of_mem hrest pegin hmem

end MintEnv

/-! ## Transactions -/

namespace Executor

variable (exec : Executor) (find : BitVec 256 → Option (Option EthHeader))

/-- The executor with another view of the database. -/
def withProvider : Executor := { exec with findBlockByHash := find }

/-- The view has nothing but blocks of the executor's database. -/
def Older : Prop := ∀ hash, find hash = exec.findBlockByHash hash ∨ find hash = some none

/-- The view says the same about the block the pegin refers to. -/
def Sees (pegin : PeginData) : Prop :=
  exec.mintEnv.Sees (exec.withProvider find).mintEnv.findBlockByHash pegin

/-- A transaction that has run, before the peg checks. -/
structure TransactionRun where
  original : AccountInfo
  result : ExecutionResult
  changes : EvmState
  totalBlockFees : BitVec 128
  cumulativeGasUsed : BitVec 64

/-- The loop body up to the peg checks. -/
def runTransaction (header : EthHeader) (p : Progress) (sender : Address)
    (tx : TransactionSigned) : Outcome BlockExecutionError TransactionRun := do
  let blockAvailableGas ← sub exec.checks header.gasLimit p.cumulativeGasUsed
  ensure (¬ tx.gasLimit > blockAvailableGas)
    (.transactionGasLimitMoreThanAvailableBlockGas tx.gasLimit blockAvailableGas)
  let original ← ofOption (p.state.basic sender) (.senderNotFound sender)
  let env := header.fillBlockEnv (exec.spec.afterMerge header)
  let (result, changes) ← ofExcept (exec.evm.transact env p.state sender tx) (.evm tx.hash)
  let tip ← expect (tx.type.effectiveTipPerGas header.baseFeePerGas)
  let transactionFee ← Checked.addWord exec.checks tip ((header.baseFeePerGas.getD 0).setWidth 128)
  let fees ← Checked.mulWord exec.checks transactionFee (result.gasUsed.setWidth 128)
  let totalBlockFees ← Checked.addWord exec.checks p.totalBlockFees fees
  let cumulativeGasUsed ← Checked.addWord exec.checks p.cumulativeGasUsed result.gasUsed
  return ⟨original, result, changes, totalBlockFees, cumulativeGasUsed⟩

/-- The peg checks of a transaction that has run. -/
def checkRun (header : EthHeader) (pkg : ConsensusPackage) (sender : Address)
    (tx : TransactionSigned) (run : TransactionRun) : Outcome BlockExecutionError CheckedTransaction :=
  exec.checkPegs pkg sender tx run.original (tx.type.effectiveGasPrice header.baseFeePerGas)
    run.result run.changes

/-- What is carried on after a transaction. -/
def advance (header : EthHeader) (p : Progress) (tx : TransactionSigned) (run : TransactionRun)
    (checked : CheckedTransaction) : Progress where
  state := p.state.commit (exec.spec.isSpuriousDragonActive header.number) checked.changes
  cumulativeGasUsed := run.cumulativeGasUsed
  totalBlockFees := run.totalBlockFees
  receipts := p.receipts ++
    [⟨tx.type, checked.result.isSuccess, run.cumulativeGasUsed, checked.result.logs⟩]
  pegins := p.pegins ++ checked.pegins
  pegouts := p.pegouts ++ checked.pegouts

variable {exec find} {header : EthHeader} {pkg : ConsensusPackage} {p q : Progress}

/-- A transaction is run, then checked. -/
theorem executeTransaction_eq (sender : Address) (tx : TransactionSigned) :
    exec.executeTransaction header pkg p (sender, tx) = (do
      let run ← exec.runTransaction header p sender tx
      let checked ← exec.checkRun header pkg sender tx run
      return exec.advance header p tx run checked) := by
  simp only [executeTransaction, runTransaction, bind_assoc, pure_bind]
  rfl

theorem executeTransaction_iff {sender : Address} {tx : TransactionSigned} :
    exec.executeTransaction header pkg p (sender, tx) = ok q ↔
      ∃ run checked, exec.runTransaction header p sender tx = ok run ∧
        exec.checkRun header pkg sender tx run = ok checked ∧
        exec.advance header p tx run checked = q := by
  simp only [executeTransaction_eq, bind_eq_ok, pure_eq_ok, ok.injEq]
  constructor
  · rintro ⟨run, hrun, checked, hchecked, rfl⟩
    exact ⟨run, checked, hrun, hchecked, rfl⟩
  · rintro ⟨run, checked, hrun, hchecked, rfl⟩
    exact ⟨run, hrun, checked, hchecked, rfl⟩

theorem Older.mintEnv (hfind : exec.Older find) :
    exec.mintEnv.Older (exec.withProvider find).mintEnv.findBlockByHash := by
  intro hash
  rcases hfind hash with h | h
  · left
    simp only [Executor.mintEnv, withProvider, h]
    rfl
  · right
    simp only [Executor.mintEnv, withProvider, h]

section
variable {sender : Address} {tx : TransactionSigned} {run : TransactionRun}
variable {checked : CheckedTransaction} {gasUsed : BitVec 64} {logs : List Log}

theorem checkRun_of_ok {pegins : List PeginData} {pegouts : List PegoutWithId}
    (hresult : run.result = .success gasUsed logs)
    (h : exec.mintEnv.botanixMintContractChecks pkg tx.hash logs = ok (pegins, pegouts)) :
    exec.checkRun header pkg sender tx run = ok ⟨run.result, run.changes, pegins, pegouts⟩ := by
  simp only [checkRun, checkPegs, hresult, h]

theorem checkRun_of_err {e : MintContractError} (hresult : run.result = .success gasUsed logs)
    (h : exec.mintEnv.botanixMintContractChecks pkg tx.hash logs = err e) :
    exec.checkRun header pkg sender tx run =
      undo sender run.original (tx.type.effectiveGasPrice header.baseFeePerGas) gasUsed
        run.changes := by
  simp only [checkRun, checkPegs, hresult, h]

theorem checkRun_of_failed (hresult : run.result.isSuccess = false) :
    exec.checkRun header pkg sender tx run = ok ⟨run.result, run.changes, [], []⟩ := by
  unfold checkRun
  cases hrun : run.result with
  | success gasUsed logs =>
    rw [hrun] at hresult
    cases hresult
  | revert gasUsed => rfl
  | halt gasUsed => rfl

theorem checks_narrow (hfind : exec.Older find) (pkg : ConsensusPackage) (txHash : BitVec 256)
    (logs : List Log) :
    Narrows (fun pegs => ∀ pegin ∈ pegs.1, exec.Sees find pegin)
      (exec.mintEnv.botanixMintContractChecks pkg txHash logs)
      ((exec.withProvider find).mintEnv.botanixMintContractChecks pkg txHash logs) :=
  MintEnv.botanixMintContractChecks_narrows hfind.mintEnv txHash logs

/-- With an older view the accepted pegins of a transaction are accepted if the view has the
blocks they refer to; otherwise a transaction that succeeded is undone. -/
theorem checkRun_withProvider (hfind : exec.Older find)
    (h : exec.checkRun header pkg sender tx run = ok checked) :
    ((∀ pegin ∈ checked.pegins, exec.Sees find pegin) →
      (exec.withProvider find).checkRun header pkg sender tx run = ok checked) ∧
    (¬ (∀ pegin ∈ checked.pegins, exec.Sees find pegin) → ∀ checked',
      (exec.withProvider find).checkRun header pkg sender tx run = ok checked' →
        checked.result.isSuccess = true ∧ checked'.result.isSuccess = false) := by
  rcases checkPegs_cases h with ⟨gasUsed, logs, pegins, pegouts, hresult, hchecks, rfl⟩ |
    ⟨gasUsed, logs, e, hresult, hchecks, hundo⟩ | ⟨hresult, rfl⟩
  · have hold := checks_narrow hfind pkg tx.hash logs
    rw [hchecks] at hold
    refine ⟨fun hsees => checkRun_of_ok hresult (hold.1 hsees), fun hsees checked' h' => ?_⟩
    obtain ⟨e, he⟩ := hold.2 hsees
    rw [checkRun_of_err hresult he] at h'
    obtain ⟨account, balance, -, -, rfl⟩ := undo_eq_ok h'
    exact ⟨by rw [hresult]; rfl, rfl⟩
  · have hold := checks_narrow hfind pkg tx.hash logs
    rw [hchecks] at hold
    obtain ⟨e', he'⟩ := hold
    obtain ⟨account, balance, -, -, rfl⟩ := undo_eq_ok hundo
    refine ⟨fun _ => ?_, fun hsees => absurd (by simp) hsees⟩
    rw [checkRun_of_err hresult he']
    exact hundo
  · exact ⟨fun _ => checkRun_of_failed hresult, fun hsees => absurd (by simp) hsees⟩

/-- The accepted pegins of a transaction refer to blocks of the database. -/
theorem reference_of_checkRun (h : exec.checkRun header pkg sender tx run = ok checked) :
    ∀ pegin ∈ checked.pegins, ∀ hash ∈ pegin.reference,
      ∃ refHeader, exec.findBlockByHash hash = some (some refHeader) := by
  intro pegin hmem hash hhash
  rcases checkPegs_cases h with ⟨gasUsed, logs, pegins, pegouts, -, hchecks, rfl⟩ |
    ⟨gasUsed, logs, e, -, -, hundo⟩ | ⟨-, rfl⟩
  · obtain ⟨pegins', hcollect, hrest⟩ := bind_eq_ok.mp hchecks
    obtain ⟨pegouts', -, hrest⟩ := bind_eq_ok.mp hrest
    obtain ⟨rfl, rfl⟩ := Prod.mk.inj (ok.inj hrest)
    have hcheck := MintEnv.checkPegin_of_mem hcollect pegin hmem
    obtain ⟨package, hfound⟩ := MintEnv.reference_found hcheck hash hhash
    simp only [Executor.mintEnv] at hfound
    split at hfound
    case h_3 refHeader hsome => exact ⟨refHeader, hsome⟩
    all_goals cases hfound
  · obtain ⟨account, balance, -, -, rfl⟩ := undo_eq_ok hundo
    cases hmem
  · cases hmem

end

/-- One transaction with an older view: the same progress, or another receipt. -/
theorem executeTransaction_withProvider (hfind : exec.Older find)
    {signed : Address × TransactionSigned}
    (h : exec.executeTransaction header pkg p signed = ok q) :
    ((∀ pegin ∈ q.pegins, exec.Sees find pegin) →
      (exec.withProvider find).executeTransaction header pkg p signed = ok q) ∧
    ((∀ pegin ∈ p.pegins, exec.Sees find pegin) → ¬ (∀ pegin ∈ q.pegins, exec.Sees find pegin) →
      ∀ q', (exec.withProvider find).executeTransaction header pkg p signed = ok q' →
        ∃ receipt receipt', receipt ≠ receipt' ∧ q.receipts = p.receipts ++ [receipt] ∧
          q'.receipts = p.receipts ++ [receipt']) := by
  obtain ⟨sender, tx⟩ := signed
  obtain ⟨run, checked, hrun, hchecked, rfl⟩ := executeTransaction_iff.mp h
  obtain ⟨hsame, hundone⟩ := checkRun_withProvider hfind hchecked
  constructor
  · intro hsees
    have hall := hsame fun pegin hmem => hsees pegin (mem_append_right _ hmem)
    exact executeTransaction_iff.mpr ⟨run, checked, hrun, hall, rfl⟩
  · intro hbefore hsees q' h'
    have hunseen : ¬ ∀ pegin ∈ checked.pegins, exec.Sees find pegin := fun hall =>
      hsees (forall_mem_append.mpr ⟨hbefore, hall⟩)
    obtain ⟨run', checked', hrun', hchecked', rfl⟩ := executeTransaction_iff.mp h'
    obtain rfl : run = run' := ok.inj (hrun.symm.trans hrun')
    obtain ⟨hsuccess, hreverted⟩ := hundone hunseen checked' hchecked'
    refine ⟨_, _, fun heq => ?_, rfl, rfl⟩
    have := congrArg Receipt.success heq
    simp only [hsuccess, hreverted] at this
    cases this

/-! ## Blocks -/

/-- What more transactions leave of the progress: receipts are added at the end, pegins stay. -/
structure Grown (p q : Progress) : Prop where
  receipts : p.receipts <+: q.receipts
  pegins : ∀ pegin ∈ p.pegins, pegin ∈ q.pegins

theorem executeTransactions_grown {txs : List (Address × TransactionSigned)}
    (h : txs.foldlM (exec.executeTransaction header pkg) p = ok q) : Grown p q := by
  refine foldlM_ok_induction (fun _ q => Grown p q) ?_ [] txs p q ⟨prefix_rfl, fun _ => id⟩ h
  rintro done ⟨sender, tx⟩ q₁ q₂ hgrown hstep
  obtain ⟨run, checked, -, -, rfl⟩ := executeTransaction_iff.mp hstep
  exact ⟨hgrown.receipts.trans (prefix_append _ _),
    fun pegin hmem => mem_append_left _ (hgrown.pegins pegin hmem)⟩

/-- `gas_used`, as it is read off the receipts. -/
def lastGasUsed (receipts : List Receipt) : BitVec 64 :=
  (receipts.getLast?.map Receipt.cumulativeGasUsed).getD 0

variable {s : ChainState}

/-- The transactions of a block, with what holds of them after each one. -/
theorem executeTransactions_spec {txs : List (Address × TransactionSigned)}
    (h : txs.foldlM (exec.executeTransaction header pkg) ⟨s, 0, 0, [], [], []⟩ = ok q) :
    q.cumulativeGasUsed = lastGasUsed q.receipts ∧
      ∀ pegin ∈ q.pegins, ∀ hash ∈ pegin.reference,
        ∃ refHeader, exec.findBlockByHash hash = some (some refHeader) := by
  refine foldlM_ok_induction (fun _ q => q.cumulativeGasUsed = lastGasUsed q.receipts ∧
    ∀ pegin ∈ q.pegins, ∀ hash ∈ pegin.reference,
      ∃ refHeader, exec.findBlockByHash hash = some (some refHeader)) ?_ [] txs _ q
    ⟨rfl, by simp⟩ h
  rintro done ⟨sender, tx⟩ q₁ q₂ ⟨-, hfound⟩ hstep
  obtain ⟨run, checked, -, hchecked, rfl⟩ := executeTransaction_iff.mp hstep
  refine ⟨by simp [advance, lastGasUsed], fun pegin hmem => ?_⟩
  rcases mem_append.mp hmem with hmem | hmem
  · exact hfound pegin hmem
  · exact reference_of_checkRun hchecked pegin hmem

/-- The transactions of a block with an older view. -/
theorem executeTransactions_withProvider (hfind : exec.Older find)
    (txs : List (Address × TransactionSigned)) :
    ∀ p, txs.foldlM (exec.executeTransaction header pkg) p = ok q →
    ((∀ pegin ∈ q.pegins, exec.Sees find pegin) →
      txs.foldlM ((exec.withProvider find).executeTransaction header pkg) p = ok q) ∧
    ((∀ pegin ∈ p.pegins, exec.Sees find pegin) → ¬ (∀ pegin ∈ q.pegins, exec.Sees find pegin) →
      ∀ q', txs.foldlM ((exec.withProvider find).executeTransaction header pkg) p = ok q' →
        q'.receipts ≠ q.receipts) := by
  induction txs with
  | nil =>
    intro p h
    obtain rfl := ok.inj h
    exact ⟨fun _ => rfl, fun hbefore hsees => absurd hbefore hsees⟩
  | cons tx txs ih =>
    intro p h
    rw [foldlM_cons] at h
    obtain ⟨p₁, hstep, hrest⟩ := bind_eq_ok.mp h
    obtain ⟨hsame, hdiffers⟩ := executeTransaction_withProvider hfind hstep
    have hgrown := executeTransactions_grown hrest
    constructor
    · intro hsees
      rw [foldlM_cons, hsame fun pegin hmem => hsees pegin (hgrown.pegins pegin hmem)]
      exact (ih p₁ hrest).1 hsees
    · intro hbefore hsees q' h'
      rw [foldlM_cons] at h'
      obtain ⟨p₂, hstep', hrest'⟩ := bind_eq_ok.mp h'
      by_cases hfirst : ∀ pegin ∈ p₁.pegins, exec.Sees find pegin
      · obtain rfl : p₁ = p₂ := ok.inj ((hsame hfirst).symm.trans hstep')
        exact (ih p₁ hrest).2 hfirst hsees q' hrest'
      · -- from here on the receipts differ at this transaction
        obtain ⟨receipt, receipt', hne, hq, hq'⟩ := hdiffers hbefore hfirst p₂ hstep'
        intro heq
        have hgrown' := (executeTransactions_grown hrest').receipts
        rw [heq, hq'] at hgrown'
        have hboth := hgrown.receipts
        rw [hq] at hboth
        have hsame := (prefix_of_prefix_length_le hboth hgrown' (by simp)).eq_of_length
          (by simp)
        exact hne (by simpa using hsame)

variable {s' : ChainState} {block : EthBlock} {output : ExecuteOutput}

/-- What a block that is executed gives, besides the balances at its end. -/
theorem executeWithoutVerification_eq_ok :
    exec.executeWithoutVerification s block = ok (output, s') ↔
      ∃ edh pkg s₀ p s₁ requests increments, block.header.extraData = some edh ∧
        exec.botanixConsensusPackage block.header = .ok pkg ∧
        exec.evm.preExecution block.header s = .ok s₀ ∧
        block.transactions.foldlM (exec.executeTransaction block.header pkg)
          ⟨s₀, 0, 0, [], [], []⟩ = ok p ∧
        exec.collectRequests block.header p.receipts p.state = ok (requests, s₁) ∧
        output = ⟨p.receipts, requests, p.cumulativeGasUsed, p.totalBlockFees, p.pegins,
          p.pegouts⟩ ∧
        exec.postBlockBalanceIncrements block p.totalBlockFees edh.blockFeeRecipientAddress =
          ok increments ∧ s' = s₁.incrementBalances increments := by
  constructor
  · intro h
    obtain ⟨edh, hedh, h⟩ := bind_eq_ok.mp h
    obtain ⟨pkg, hpkg, h⟩ := bind_eq_ok.mp h
    obtain ⟨⟨output', s₁⟩, htransitions, h⟩ := bind_eq_ok.mp h
    obtain ⟨increments, hincrements, h⟩ := bind_eq_ok.mp h
    obtain ⟨s₀, hpre, htransitions⟩ := bind_eq_ok.mp htransitions
    obtain ⟨p, hfold, htransitions⟩ := bind_eq_ok.mp htransitions
    obtain ⟨⟨requests, s₂⟩, hrequests, htransitions⟩ := bind_eq_ok.mp htransitions
    obtain ⟨rfl, rfl⟩ := Prod.mk.inj (ok.inj htransitions)
    obtain ⟨rfl, rfl⟩ := Prod.mk.inj (ok.inj h)
    exact ⟨edh, pkg, s₀, p, s₂, requests, increments, ofOption_eq_ok.mp hedh,
      ofExcept_eq_ok.mp hpkg, ofExcept_eq_ok.mp hpre, hfold, hrequests, rfl, hincrements, rfl⟩
  · rintro ⟨edh, pkg, s₀, p, s₁, requests, increments, hedh, hpkg, hpre, hfold, hrequests, rfl,
      hincrements, rfl⟩
    refine bind_eq_ok.mpr ⟨edh, ofOption_eq_ok.mpr hedh, bind_eq_ok.mpr ⟨pkg,
      ofExcept_eq_ok.mpr hpkg, bind_eq_ok.mpr ⟨_, bind_eq_ok.mpr ⟨s₀, ofExcept_eq_ok.mpr hpre,
        bind_eq_ok.mpr ⟨p, hfold, bind_eq_ok.mpr ⟨_, hrequests, rfl⟩⟩⟩, ?_⟩⟩⟩
    exact bind_eq_ok.mpr ⟨increments, hincrements, rfl⟩

/-- The gas of a block is that of its last receipt, and its pegins refer to blocks of the
database. -/
theorem executeWithoutVerification_spec
    (h : exec.executeWithoutVerification s block = ok (output, s')) :
    output.gasUsed = lastGasUsed output.receipts ∧
      ∀ pegin ∈ output.pegins, ∀ hash ∈ pegin.reference,
        ∃ refHeader, exec.findBlockByHash hash = some (some refHeader) := by
  obtain ⟨edh, pkg, s₀, p, s₁, requests, increments, -, -, -, hfold, -, rfl, -, -⟩ :=
    executeWithoutVerification_eq_ok.mp h
  exact executeTransactions_spec hfold

/-- A block executed with an older view gives the same if the view has the blocks its pegins
refer to, and otherwise never the same receipts. -/
theorem executeWithoutVerification_withProvider (hfind : exec.Older find)
    (h : exec.executeWithoutVerification s block = ok (output, s')) :
    ((∀ pegin ∈ output.pegins, exec.Sees find pegin) →
      (exec.withProvider find).executeWithoutVerification s block = ok (output, s')) ∧
    (¬ (∀ pegin ∈ output.pegins, exec.Sees find pegin) → ∀ output' s'',
      (exec.withProvider find).executeWithoutVerification s block = ok (output', s'') →
        output'.receipts ≠ output.receipts) := by
  obtain ⟨edh, pkg, s₀, p, s₁, requests, increments, hedh, hpkg, hpre, hfold, hrequests, rfl,
    hincrements, rfl⟩ := executeWithoutVerification_eq_ok.mp h
  obtain ⟨hsame, hdiffers⟩ := executeTransactions_withProvider hfind block.transactions _ hfold
  constructor
  · intro hsees
    exact executeWithoutVerification_eq_ok.mpr ⟨edh, pkg, s₀, p, s₁, requests, increments, hedh,
      hpkg, hpre, hsame hsees, hrequests, rfl, hincrements, rfl⟩
  · intro hsees output' s'' h'
    obtain ⟨edh', pkg', s₀', p', s₁', requests', increments', hedh', hpkg', hpre', hfold', -, rfl,
      -, -⟩ := executeWithoutVerification_eq_ok.mp h'
    obtain rfl : pkg = pkg' := Except.ok.inj (hpkg.symm.trans hpkg')
    obtain rfl : s₀ = s₀' := Except.ok.inj (hpre.symm.trans hpre')
    exact hdiffers (by simp) hsees p' hfold'

end Executor

end Macbeth
