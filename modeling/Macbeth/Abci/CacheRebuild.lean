import Macbeth.Abci.Client
import Macbeth.Lib.Run

/-!
# The cached block and the rebuilt block

A node that has a decided proposal in its cache finalizes the block it built when it accepted
the proposal; another node builds the block from the proposal alone.  Both blocks are the
same: what `process_proposal` takes from its own checks (the key, the fee recipient, the floor)
is what the other path reads off the proposal.  So both nodes tell their activation managers
the same, and give the same answer, if the second node gets so far.

It need not get so far: `finalize_block` checks the block against the node's own key, and a
node that was started in the first epoch has none.
-/

namespace Macbeth

open Outcome Option

namespace AbciNode

variable {params : AbciParams} {node : AbciNode} {r : Proposal} {block : BlockWithContext}

/-! ## The two ways to a block -/

theorem floor_of_processFloor {height : BitVec 64} {version : RuntimeVersion}
    {floor : Option (BitVec 64)} (h : node.processFloor height version = ok floor) :
    knownFloor version = some floor ∧ node.activation.Follows version := by
  unfold processFloor at h
  split at h
  · next hprocess =>
    obtain ⟨rfl, hfollows⟩ := ActivationManager.version_of_onProcessProposal hprocess
    exact ⟨expect_eq_ok.mp h, hfollows⟩
  · cases h
  · cases h

theorem decode_tail {txs : List (List UInt8)} {transactions : List TransactionSigned}
    (h : params.transactionsSignedFromBytes txs = some transactions) :
    (if txs.isEmpty then some [] else params.transactionsSignedFromBytes txs) =
      some transactions := by
  cases txs with
  | nil => simpa [AbciParams.transactionsSignedFromBytes] using h
  | cons tx txs => exact h

/-- A proposal a node finds fine: the block is the one the proposal alone gives, and the node
will go on with it. -/
structure Accepts (params : AbciParams) (node : AbciNode) (r : Proposal)
    (block : BlockWithContext) : Prop where
  hash : r.hash.length = 32
  rebuilt : params.rebuildBlock node.chain r = ok block
  follows : node.activation.Follows block.runtimeVersion
  valid : params.validateBlock node.aggregatePublicKey block = true
  key : ∃ edh, block.header.header.extraData = some edh ∧
    node.aggregatePublicKey = some edh.aggregatedPublicKey

theorem accepts_of_examineProposal {hash : List UInt8}
    (h : node.examineProposal params r = ok (hash, block)) :
    hash = r.hash ∧ Accepts params node r block := by
  obtain ⟨aggPk, haggPk, h⟩ := bind_eq_ok.mp h
  obtain ⟨timestamp, htime, h⟩ := bind_eq_ok.mp h
  obtain ⟨hash', hhash, h⟩ := bind_eq_ok.mp h
  obtain ⟨first, hfirst, h⟩ := bind_eq_ok.mp h
  obtain ⟨ndd, hndd, h⟩ := bind_eq_ok.mp h
  obtain ⟨recipient, hrecipient, h⟩ := bind_eq_ok.mp h
  obtain ⟨-, -, h⟩ := bind_eq_ok.mp h
  obtain ⟨_, hkey, h⟩ := bind_eq_ok.mp h
  obtain ⟨transactions, htransactions, h⟩ := bind_eq_ok.mp h
  obtain ⟨floor, hfloor, h⟩ := bind_eq_ok.mp h
  obtain ⟨block', hbuild, h⟩ := bind_eq_ok.mp h
  obtain ⟨_, hvalid, h⟩ := bind_eq_ok.mp h
  obtain ⟨rfl, rfl⟩ := Prod.mk.inj (ok.inj h)
  rw [ofOption_eq_ok] at haggPk htime hfirst hrecipient htransactions
  rw [ofExcept_eq_ok] at hndd
  rw [mapErr_eq_ok] at hbuild
  rw [ensure_eq_ok] at hvalid hkey
  subst hkey
  obtain ⟨hknown, hfollows⟩ := floor_of_processFloor hfloor
  obtain ⟨hversion, -, -, -, hedh⟩ := BlockBuilder.buildAndExecute_eq_ok hbuild
  have hlength : r.hash.length = 32 ∧ hash' = r.hash := by
    unfold fixedBytes32 at hhash
    split at hhash
    · next hlength => exact ⟨hlength, (ok.inj hhash).symm⟩
    · cases hhash
  refine ⟨hlength.2, hlength.1, ?_, hversion ▸ hfollows, hvalid, _, hedh, haggPk⟩
  simp only [AbciParams.rebuildBlock, hfirst, hndd, hrecipient, htime, decode_tail htransactions,
    hknown, expect, Except.toOption, ok_bind, getD_some, hbuild]

variable {chain : CommittedChain}

/-- What a rebuilt block carries of the proposal. -/
theorem rebuildBlock_eq_ok (h : params.rebuildBlock chain r = ok block) :
    ∃ first ndd edh, r.txs.head? = some first ∧
      NonDeterministicData.deserialize params.builder.exec.btc first = .ok ndd ∧
      block.runtimeVersion = ndd.runtimeVersion ∧
      block.header.header.number = chain.best.header.number + 1 ∧
      block.header.header.extraData = some edh ∧
      edh.aggregatedPublicKey = ndd.aggregatedPublicKey := by
  obtain ⟨first, hfirst, h⟩ := bind_eq_ok.mp h
  obtain ⟨ndd, hndd, h⟩ := bind_eq_ok.mp h
  obtain ⟨recipient, -, h⟩ := bind_eq_ok.mp h
  obtain ⟨timestamp, -, h⟩ := bind_eq_ok.mp h
  obtain ⟨transactions, -, h⟩ := bind_eq_ok.mp h
  rw [expect_eq_ok] at hfirst hndd
  have hndd' : NonDeterministicData.deserialize params.builder.exec.btc first = .ok ndd := by
    cases hd : NonDeterministicData.deserialize params.builder.exec.btc first <;>
      simp_all [Except.toOption]
  dsimp only at h
  split at h
  · next hbuild =>
    obtain rfl := ok.inj h
    obtain ⟨hversion, -, hnumber, -, hedh⟩ := BlockBuilder.buildAndExecute_eq_ok hbuild
    exact ⟨first, ndd, _, hfirst, hndd', hversion, hnumber, hedh, rfl⟩
  · cases h

/-! ## Finalizing -/

/-- The key a block is checked with when it is finalized. -/
def keyFor (node : AbciNode) (block : BlockWithContext) : Option PublicKey :=
  if node.isFedNode = false ∧ block.header.header.number = 1 then
    block.header.header.extraData.map (·.aggregatedPublicKey)
  else node.aggregatePublicKey

variable {node' : AbciNode}

theorem activate_eq_ok {input : ActivationInput} (h : node.activate input = ok node') :
    node.activation.Follows input.runtimeVersion ∧ node'.isFedNode = node.isFedNode ∧
      node'.aggregatePublicKey = node.aggregatePublicKey := by
  unfold activate at h
  split at h
  · next version activation hdecision =>
    obtain rfl := ok.inj h
    have hfinalize := congrArg Prod.fst hdecision
    exact ⟨(ActivationManager.onFinalizeBlock_eq_finalize _ _ _).mp ⟨version, hfinalize⟩, rfl, rfl⟩
  · cases h

theorem exists_activate (input : ActivationInput)
    (h : node.activation.Follows input.runtimeVersion) : ∃ node', node.activate input = ok node' := by
  obtain ⟨version, hversion⟩ := (ActivationManager.onFinalizeBlock_eq_finalize input.height
    input.proposerAddress input.proposerVote).mpr h
  unfold activate
  split
  · exact ⟨_, rfl⟩
  · next hdecision => simp [hdecision] at hversion

variable {edh : ExtraDataHeader}

theorem adoptKey_eq_ok (hedh : block.header.header.extraData = some edh) :
    node.adoptKey block = ok { node with aggregatePublicKey := node.keyFor block } := by
  unfold adoptKey keyFor
  split
  · simp [hedh, expect]
  · rfl

variable {first : List UInt8}

/-- A block is finalized by the nodes that follow its version and whose key it has. -/
theorem finalizeDecided_iff (hfirst : r.txs.head? = some first)
    (hedh : block.header.header.extraData = some edh) :
    (∃ node', node.finalizeDecided params r block =
        ok (⟨first :: block.body.map fun _ => [], block.hash⟩, node')) ↔
      node.activation.Follows block.runtimeVersion ∧
        params.validateBlock (node.keyFor block) block = true := by
  constructor
  · intro ⟨node', h⟩
    obtain ⟨active, hactive, h⟩ := bind_eq_ok.mp h
    obtain ⟨hfollows, hfed, hkey⟩ := activate_eq_ok hactive
    simp only [adoptKey_eq_ok hedh, ok_bind] at h
    split at h
    · next hvalid =>
      refine ⟨hfollows, ?_⟩
      simpa [keyFor, hfed, hkey] using hvalid
    · cases h
  · intro ⟨hfollows, hvalid⟩
    obtain ⟨active, hactive⟩ := exists_activate (activationInput r block) hfollows
    obtain ⟨-, hfed, hkey⟩ := activate_eq_ok hactive
    have hvalid' : params.validateBlock
        (keyFor { active with trackedFinal := some r.hash } block) block = true := by
      simpa [keyFor, hfed, hkey] using hvalid
    simp [finalizeDecided, hactive, adoptKey_eq_ok hedh, hvalid', hfirst, expect]

/-- A key fits a block that has passed with its own key. -/
theorem validateBlock_iff {key : Option PublicKey}
    (hedh : block.header.header.extraData = some edh)
    (hvalid : params.validateBlock (some edh.aggregatedPublicKey) block = true) :
    params.validateBlock key block = true ↔
      ∃ k, key = some k ∧ (block.header.header.number = 0 ∨ k = edh.aggregatedPublicKey) := by
  simp only [AbciParams.validateBlock, AbciParams.validateHeaderStandalone,
    AbciParams.validateExtraDataHeader, hedh, Bool.and_eq_true] at hvalid ⊢
  obtain ⟨⟨hpre, hheader⟩, hextra, hbeneficiary⟩ := hvalid
  cases key with
  | none => simp
  | some k =>
    by_cases hzero : block.header.header.number = 0
    · simp only [hpre, hheader, hzero, hbeneficiary, if_true]
      simp
    · simp only [if_neg hzero, Bool.and_eq_true, decide_eq_true_eq] at hextra hbeneficiary ⊢
      obtain ⟨⟨hedhok, hnums⟩, -⟩ := hextra
      constructor
      · intro h
        exact ⟨k, rfl, .inr h.2.1.2.symm⟩
      · intro ⟨k', hk', hor⟩
        obtain rfl := some.inj hk'
        exact ⟨⟨hpre, hheader⟩, ⟨⟨hedhok, hnums⟩, (hor.resolve_left hzero).symm⟩, hbeneficiary⟩

/-! ## Between a proposal and its decision -/

/-- What happens at a node until a proposal of the height is decided. -/
inductive Event where
  | process (r : Proposal)
  | checkpoints (chain : BitcoinCheckpointsChain)

/-- The node's answer to an event; a panic ends it. -/
def serve (params : AbciParams) (node : AbciNode) :
    Event → Outcome Empty (Option VerifyStatus) × AbciNode
  | .process r =>
    match node.processProposal params r with
    | .ok (status, node') => (ok (some status), node')
    | _ => (panic, node)
  | .checkpoints chain => (ok none, { node with checkpoints := chain })

/-- The hash of a proposal identifies it. -/
def Identified (r : Proposal) : Event → Prop
  | .process r' => r'.hash = r.hash → r' = r
  | .checkpoints _ => True

theorem processProposal_eq_ok {status : VerifyStatus}
    (h : node.processProposal params r = ok (status, node')) :
    (status = .accepted ∧ ∃ block, Accepts params node r block ∧
      node' = { node with cache := node.cache.insert r.hash block }) ∨
    (status = .reject ∧ node' = node) := by
  unfold processProposal at h
  split at h
  · next hexamine =>
    obtain ⟨rfl, haccepts⟩ := accepts_of_examineProposal hexamine
    obtain ⟨rfl, rfl⟩ := Prod.mk.inj (ok.inj h)
    exact .inl ⟨rfl, _, haccepts, rfl⟩
  · obtain ⟨rfl, rfl⟩ := Prod.mk.inj (ok.inj h)
    exact .inr ⟨rfl, rfl⟩
  · split at h
    · cases h
    · obtain ⟨rfl, rfl⟩ := Prod.mk.inj (ok.inj h)
      exact .inr ⟨rfl, rfl⟩
  · cases h

/-- What is cached under the proposal's hash is a block the node accepts for it. -/
structure Holds (params : AbciParams) (r : Proposal) (chain : CommittedChain) (node : AbciNode) :
    Prop where
  chain : node.chain = chain
  cached : ∀ block, node.cache.peek r.hash = some block → Accepts params node r block

theorem Holds.processProposal {r' : Proposal} {status : VerifyStatus}
    (h : Holds params r chain node) (hidentified : r'.hash = r.hash → r' = r)
    (hprocess : node.processProposal params r' = ok (status, node')) :
    Holds params r chain node' := by
  obtain ⟨-, block, haccepts, rfl⟩ | ⟨-, rfl⟩ := processProposal_eq_ok hprocess
  · refine ⟨h.chain, fun block' hpeek => ?_⟩
    rcases LruMap.peek_insert hpeek with ⟨hhash, rfl⟩ | ⟨-, hpeek⟩
    · obtain rfl := hidentified hhash.symm
      exact ⟨haccepts.hash, haccepts.rebuilt, haccepts.follows, haccepts.valid, haccepts.key⟩
    · have hold := h.cached block' hpeek
      exact ⟨hold.hash, hold.rebuilt, hold.follows, hold.valid, hold.key⟩
  · exact h

theorem Holds.serve (h : Holds params r chain node) {e : Event} (hidentified : Identified r e) :
    Holds params r chain (node.serve params e).2 := by
  cases e with
  | process r' =>
    unfold AbciNode.serve
    dsimp only
    split
    · next hprocess => exact h.processProposal hidentified hprocess
    · exact h
  | checkpoints c =>
    refine ⟨h.chain, fun block hpeek => ?_⟩
    have hold := h.cached block hpeek
    exact ⟨hold.hash, hold.rebuilt, hold.follows, hold.valid, hold.key⟩

theorem Holds.run {h : History AbciNode Event (Outcome Empty (Option VerifyStatus))}
    (hstart : Holds params r chain node) (hrun : Run (AbciNode.serve params) node h node')
    (hidentified : Meets (fun _ _ e => Identified r e) h) : Holds params r chain node' :=
  hrun.invariant (I := fun _ s => Holds params r chain s) hstart
    (fun _ _ _ _ hs he => hs.serve he) hidentified

/-! ## The block of a decided proposal -/

theorem decidedBlock_hit (h : Holds params r node.chain node)
    (hpeek : node.cache.peek r.hash = some block) :
    ∃ cache, node.decidedBlock params r = ok (block, { node with cache }) := by
  have hlength := (h.cached block hpeek).hash
  simp [decidedBlock, fixedBytes32, hlength, LruMap.get, hpeek]

theorem decidedBlock_miss (hlength : r.hash.length = 32)
    (hrebuilt : params.rebuildBlock node.chain r = ok block)
    (hpeek : node.cache.peek r.hash = none) :
    ∃ cache, node.decidedBlock params r = ok (block, { node with cache }) := by
  simp [decidedBlock, fixedBytes32, hlength, LruMap.get, hpeek, hrebuilt]

/-- Once the block is known, a decision is about the version and the key. -/
theorem finalizeBlock_of_decidedBlock {cache : LruMap (List UInt8) BlockWithContext 5}
    (hrebuilt : params.rebuildBlock node.chain r = ok block)
    (hdecided : node.decidedBlock params r = ok (block, { node with cache })) :
    node.fedToActivation params r = ok (activationInput r block) ∧
      node.finalizeBlock params r = finalizeDecided params { node with cache } r block := by
  obtain ⟨first, ndd, edh, hfirst, -⟩ := rebuildBlock_eq_ok hrebuilt
  have hnonempty : r.txs.isEmpty = false := by
    cases htxs : r.txs with
    | nil => simp [htxs] at hfirst
    | cons tx txs => rfl
  simp [fedToActivation, finalizeBlock, hnonempty, hdecided]

/-- What a node that builds the block again needs to go on with it: it follows the version of
the proposal, and it has the proposal's key or takes it from this very block, the first one.
(Past the last block number there is nothing to compare a key with.) -/
def GoesOn (params : AbciParams) (node : AbciNode) (r : Proposal) : Prop :=
  ∃ first ndd, r.txs.head? = some first ∧
    NonDeterministicData.deserialize params.builder.exec.btc first = .ok ndd ∧
    node.activation.Follows ndd.runtimeVersion ∧
    (node.aggregatePublicKey = some ndd.aggregatedPublicKey ∨
      node.isFedNode = false ∧ node.chain.best.header.number = 0 ∨
      node.aggregatePublicKey.isSome = true ∧ node.chain.best.header.number + 1 = 0)

/-- The key a rebuilt block is checked with fits exactly as the condition says. -/
theorem keyFor_fits_iff (hedh : block.header.header.extraData = some edh)
    (hnumber : block.header.header.number = node.chain.best.header.number + 1) :
    (∃ k, node.keyFor block = some k ∧
        (block.header.header.number = 0 ∨ k = edh.aggregatedPublicKey)) ↔
      node.aggregatePublicKey = some edh.aggregatedPublicKey ∨
        node.isFedNode = false ∧ node.chain.best.header.number = 0 ∨
        node.aggregatePublicKey.isSome = true ∧ node.chain.best.header.number + 1 = 0 := by
  have hone : block.header.header.number = 1 ↔ node.chain.best.header.number = 0 := by
    rw [hnumber]
    constructor
    · intro h
      bv_omega
    · intro h
      rw [h]
      rfl
  rw [← hnumber]
  unfold keyFor
  split
  · next hadopt => simp [hedh, hadopt.1, hone.mp hadopt.2]
  · next hkeep =>
    rw [hone] at hkeep
    cases hkey : node.aggregatePublicKey with
    | none => simpa using hkeep
    | some k =>
      simp only [some.injEq, exists_eq_left', isSome_some, true_and, hkeep,
        false_or]
      exact or_comm

/-- The node that accepted the proposal finalizes the block. -/
theorem finalizeDecided_of_accepts (h : Accepts params node r block)
    (hfirst : r.txs.head? = some first) :
    ∃ node', node.finalizeDecided params r block =
      ok (⟨first :: block.body.map fun _ => [], block.hash⟩, node') := by
  obtain ⟨edh, hedh, hkey⟩ := h.key
  have hkeyFor : node.keyFor block = node.aggregatePublicKey := by
    unfold keyFor
    split
    · rw [hedh, hkey]
      rfl
    · rfl
  exact (finalizeDecided_iff hfirst hedh).mpr ⟨h.follows, hkeyFor ▸ h.valid⟩

/-- Another node finalizes the same block exactly if it goes on with the proposal. -/
theorem finalizeDecided_iff_goesOn {other : AbciNode} (h : Accepts params other r block)
    (hparent : node.chain = other.chain) (hfirst : r.txs.head? = some first) :
    (∃ node', node.finalizeDecided params r block =
        ok (⟨first :: block.body.map fun _ => [], block.hash⟩, node')) ↔ node.GoesOn params r := by
  obtain ⟨first', ndd, edh, hfirst', hndd, hversion, hnumber, hedh, hkey⟩ :=
    rebuildBlock_eq_ok h.rebuilt
  obtain rfl : first = first' := some.inj (hfirst.symm.trans hfirst')
  have hvalid : params.validateBlock (some edh.aggregatedPublicKey) block = true := by
    obtain ⟨edh', hedh', hkey'⟩ := h.key
    obtain rfl : edh = edh' := some.inj (hedh.symm.trans hedh')
    exact hkey' ▸ h.valid
  rw [← hparent] at hnumber
  rw [finalizeDecided_iff hfirst hedh, validateBlock_iff hedh hvalid,
    keyFor_fits_iff hedh hnumber, hkey, hversion]
  constructor
  · intro ⟨hfollows, hfits⟩
    exact ⟨first, ndd, hfirst, hndd, hfollows, hfits⟩
  · intro ⟨first', ndd', hfirst', hndd', hfollows, hfits⟩
    obtain rfl : first = first' := some.inj (hfirst.symm.trans hfirst')
    obtain rfl : ndd = ndd' := Except.ok.inj (hndd.symm.trans hndd')
    exact ⟨hfollows, hfits⟩

/-- A node with a decided proposal in its cache and a node that builds the block again tell
their activation managers the same, and the first gives an answer.  The second gives the same
answer exactly if it goes on with such a proposal. -/
theorem cached_block_eq_rebuilt {a a' a'' b : AbciNode}
    {h : History AbciNode Event (Outcome Empty (Option VerifyStatus))}
    (haccepted : a.processProposal params r = ok (.accepted, a'))
    (hrun : Run (AbciNode.serve params) a' h a'')
    (hidentified : Meets (fun _ _ e => Identified r e) h)
    (hhit : (a''.cache.peek r.hash).isSome = true)
    (hparent : b.chain = a.chain) (hmiss : b.cache.peek r.hash = none) :
    (∃ input, a''.fedToActivation params r = ok input ∧
      b.fedToActivation params r = ok input) ∧
    ∃ response, (∃ a₁, a''.finalizeBlock params r = ok (response, a₁)) ∧
      ((∃ b₁, b.finalizeBlock params r = ok (response, b₁)) ↔ b.GoesOn params r) := by
  have hstart : Holds params r a.chain a' := by
    obtain ⟨-, block, haccepts, rfl⟩ | ⟨hreject, -⟩ := processProposal_eq_ok haccepted
    · refine ⟨rfl, fun block' hpeek => ?_⟩
      rw [LruMap.peek_insert_self (by decide)] at hpeek
      obtain rfl := some.inj hpeek
      exact ⟨haccepts.hash, haccepts.rebuilt, haccepts.follows, haccepts.valid, haccepts.key⟩
    · cases hreject
  have hend := hstart.run hrun hidentified
  obtain ⟨block, hpeek⟩ := isSome_iff_exists.mp hhit
  have haccepts := hend.cached block hpeek
  have hsame : b.chain = a''.chain := hparent.trans hend.chain.symm
  -- both nodes arrive at the same block
  obtain ⟨cacheA, hdecidedA⟩ := decidedBlock_hit (hend.chain ▸ hend) hpeek
  obtain ⟨cacheB, hdecidedB⟩ :=
    decidedBlock_miss haccepts.hash (hsame ▸ haccepts.rebuilt) hmiss
  obtain ⟨hfedA, hfinalA⟩ := finalizeBlock_of_decidedBlock haccepts.rebuilt hdecidedA
  obtain ⟨hfedB, hfinalB⟩ :=
    finalizeBlock_of_decidedBlock (hsame ▸ haccepts.rebuilt) hdecidedB
  refine ⟨⟨_, hfedA, hfedB⟩, ?_⟩
  obtain ⟨first, -, -, hfirst, -⟩ := rebuildBlock_eq_ok haccepts.rebuilt
  have hacceptsA : Accepts params { a'' with cache := cacheA } r block :=
    ⟨haccepts.hash, haccepts.rebuilt, haccepts.follows, haccepts.valid, haccepts.key⟩
  refine ⟨⟨first :: block.body.map fun _ => [], block.hash⟩, ?_, ?_⟩
  · rw [hfinalA]
    exact finalizeDecided_of_accepts hacceptsA hfirst
  · rw [hfinalB]
    exact finalizeDecided_iff_goesOn haccepts hsame hfirst

end AbciNode

/-! ## A node that is restarted in the first epoch

Three empty blocks on an empty state; the hashes are those of these headers, tabulated. -/

def emptyRoot : BitVec 256 := 0x56e81f171bcc55a6ff8345e692c0f86e5b48e01b996cadc001622fb5e363b421

def emptyHeader (parentHash : BitVec 256) (number timestamp : BitVec 64) : SealedHeader where
  header := ⟨parentHash, number, timestamp, ethereumBlockGasLimit, some 5000000, 0, 0, 0, none,
    none, none, if number = 0 then none else some ⟨sampleBlockHash, ⟨false, 1⟩, 5⟩⟩
  transactionsRoot := emptyRoot
  receiptsRoot := emptyRoot
  logsBloom := 0
  stateRoot := emptyRoot
  gasUsed := 0

def emptyGenesis : SealedHeader := emptyHeader 0 0 1700000000

def firstHeader : SealedHeader :=
  emptyHeader 0x871ef35d2ef4de615a73f1094807101796dba807f6637bee7f028fe426e08b58 1 1700000010

def secondHeader : SealedHeader :=
  emptyHeader 0x1d2704ccf383dfdca2a5db22039ec7c56f959b008a0b4f07de19d6c96420d95b 2 1700000020

/-- The chain after the second block. -/
def secondCommitted : CommittedChain where
  best := secondHeader
  bestHash := 0xd6a006692bd6fae45a76a9cc78973c5e7048f1825a478b48419635777f1a1085
  state := ⟨fun _ => none, fun _ _ => 0⟩

/-- An executor whose EVM refuses every transaction. -/
def idleExecutor : Executor where
  evm := ⟨fun _ _ _ _ => .error (.transaction "LackOfFundForMaxFee"), fun _ s => .ok s,
    fun _ _ s => .ok ([], s)⟩
  spec := ⟨fun _ => true, fun _ => false, fun _ => false, fun _ => true, fun _ => [], none, none⟩
  btc := sampleBitcoin
  frost := sampleFrost
  addressFromStr _ := none
  bitcoinNetwork := .bitcoin
  bitcoind := ⟨true, fun _ => some sampleBlock.header, fun _ => some 1⟩
  findBlockByHash _ := some none
  checks := true

def idleParams : AbciParams where
  builder := {
    exec := idleExecutor
    isCancunActive := fun _ => false
    nextBlockBaseFee := fun _ _ => some 4375000
    calculateExcessBlobGas := fun excess used => excess + used - 393216
    recoverSigner := fun _ => none
    transactionsRoot := fun _ => emptyRoot
    receiptsRoot := fun _ => (emptyRoot, 0)
    stateRoot := fun _ => emptyRoot
    hash := fun _ => 0xbdd2d7c9339a7165e95cc3fc254d6cfca6d9ecc6b03476d67bf88b1c61ee0d70 }
  decodeEnveloped _ := none
  validateBlockPreExecution _ := true
  validateHeader _ := true
  validateExtraData _ := true
  isTestnet := true

/-- The proposal of the third block: the non-deterministic data and no transactions. -/
def emptyProposal : Proposal where
  height := 3
  hash := List.replicate 32 7
  time := some 1700000030
  txs := [(NonDeterministicData.newV2 sampleBlockHash ⟨false, 1⟩ 5 runtimeVersionV2
    none).serialize.getD []]
  proposerAddress := 5

/-- A member of the federation that has the key. -/
def memberNode : AbciNode where
  chain := secondCommitted
  aggregatePublicKey := some ⟨false, 1⟩
  isFedNode := true
  warnEnabled := true
  checkpoints := ⟨⟨1, 1, 1, Nat.one_pos, le_rfl, le_rfl⟩,
    [⟨sampleBlock.header, 1, sampleBlockHash⟩], le_rfl, .singleton _⟩
  activation := ⟨∅, 100, runtimeVersionV2, none⟩
  cache := ∅
  trackedFinal := none

/-- An RPC node that was started on the second block, with an epoch of ten blocks. -/
def restartedNode : AbciNode :=
  { memberNode with
    isFedNode := false
    aggregatePublicKey := (startAggregateKey 10
      [secondHeader.header, firstHeader.header, emptyGenesis.header]).getD none }

/-- The same node, had it been running since the first block. -/
def runningNode : AbciNode := { memberNode with isFedNode := false }

/-- The member after it has processed the proposal. -/
def memberCached : AbciNode :=
  ((memberNode.processProposal idleParams emptyProposal).getD (.reject, memberNode)).2

theorem memberNode_accepts :
    memberNode.processProposal idleParams emptyProposal = ok (.accepted, memberCached) := by
  have hok : (memberNode.processProposal idleParams emptyProposal).isOk = true := by
    decide +kernel
  have hstatus : ((memberNode.processProposal idleParams emptyProposal).getD
      (.reject, memberNode)).1 = .accepted := by decide +kernel
  rw [eq_ok_getD hok (.reject, memberNode), ← hstatus]
  rfl

/-- The restarted node has no key and panics on a block the others finalize. -/
theorem restartedNode_panics :
    startAggregateKey 10 [secondHeader.header, firstHeader.header, emptyGenesis.header] =
        ok restartedNode.aggregatePublicKey ∧
      restartedNode.chain = memberNode.chain ∧
      restartedNode.cache.peek emptyProposal.hash = none ∧
      memberNode.processProposal idleParams emptyProposal = ok (.accepted, memberCached) ∧
      (∃ response node, memberCached.finalizeBlock idleParams emptyProposal =
        ok (response, node)) ∧
      restartedNode.finalizeBlock idleParams emptyProposal = panic := by
  have hok : (memberCached.finalizeBlock idleParams emptyProposal).isOk = true := by
    decide +kernel
  have hpanic : (restartedNode.finalizeBlock idleParams emptyProposal).isPanic = true := by
    decide +kernel
  refine ⟨by decide +kernel, rfl, rfl, memberNode_accepts, ?_, eq_panic_of_isPanic hpanic⟩
  exact ⟨_, _, eq_ok_getD hok (⟨[], 0⟩, memberCached)⟩

/-- A node with the key finalizes the same block. -/
theorem runningNode_eq_cached :
    runningNode.GoesOn idleParams emptyProposal ∧
      ∃ response, (∃ a, memberCached.finalizeBlock idleParams emptyProposal = ok (response, a)) ∧
        ∃ b, runningNode.finalizeBlock idleParams emptyProposal = ok (response, b) := by
  have hgoesOn : runningNode.GoesOn idleParams emptyProposal := by
    refine ⟨_, NonDeterministicData.newV2 sampleBlockHash ⟨false, 1⟩ 5 runtimeVersionV2 none, rfl,
      by decide +kernel, .inl (by decide +kernel), .inl rfl⟩
  obtain ⟨-, response, hmember, hrunning⟩ := AbciNode.cached_block_eq_rebuilt memberNode_accepts
    .start trivial (by decide +kernel) (b := runningNode) rfl rfl
  exact ⟨hgoesOn, response, hmember, hrunning.mpr hgoesOn⟩

end Macbeth
