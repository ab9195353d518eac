import Macbeth.Abci.BatchExecute
import Macbeth.Lib.Table

/-!
# Applying the chunks of a snapshot (`abci.rs`)

A node that syncs from snapshots gets chunks of blocks from its peers.  `apply_snapshot_chunk`
executes the blocks of a chunk and writes them; it compares gas, receipts and requests with the
headers, and nothing else.  So whatever chunk it accepts, it accepts the same blocks with other
state roots: every accepted chunk is consistent with the chain only on a node that accepts no
chunk at all (`accepted_chunks_consistent_iff`).

The content of a chunk is what it decodes to.  Errors of the database are left out.
-/

namespace Macbeth

open Outcome List

/-- `SnapshotSync`, as far as chunks are applied by it. -/
structure SnapshotSync where
  lastAppliedChunkIndex : BitVec 64
  deriving DecidableEq, Repr

inductive ApplySnapshotResult where
  | accept
  | retrySnapshot
  deriving DecidableEq, Repr

/-- What applying a chunk reads and writes. -/
structure SyncNode where
  isSyncingHistory : Bool
  snapshotSyncs : Table SnapshotSync
  chain : CommittedChain
  /-- The blocks of the database, in the order they were written. -/
  blocks : List SnapshotBlock
  /-- The state after a block of the database. -/
  stateAt : BitVec 64 → Option ChainState

/-- How a node executes blocks. -/
structure StateSync where
  builder : BlockBuilder
  rules : PostExecutionRules

namespace StateSync

variable (sync : StateSync) (node : SyncNode)

/-- `append_blocks_with_state`; of the states between the blocks only the last is kept. -/
def appendBlocksWithState (blocks : List SnapshotBlock) (outcome : ExecutionOutcome) : SyncNode :=
  match blocks.getLast? with
  | none => node
  | some last => { node with
      chain := ⟨last.header, sync.builder.hash last.header, outcome.state⟩
      blocks := node.blocks ++ blocks
      stateAt := Function.update node.stateAt last.header.header.number (some outcome.state) }

/-- The in-memory chain is told of each block; the number of the block before it is taken. -/
def updateChain (blocks : List SnapshotBlock) : Outcome Empty Unit :=
  blocks.forM fun block => do
    let _ ← sub sync.builder.exec.checks block.header.header.number 1

/-- The blocks of a chunk are executed and written. -/
def applyBlocks (blocks : List SnapshotBlock) : Outcome Empty (ApplySnapshotResult × SyncNode) :=
  match sync.builder.batchExecute sync.rules node.stateAt blocks with
  | .panic => panic
  | .err _ => ok (.retrySnapshot, node)
  | .ok outcome => do
    sync.updateChain blocks
    return (.accept, sync.appendBlocksWithState node blocks outcome)

/-- The sync that chunks belong to: the last one that was recorded. -/
def lastSnapshotSync : Option (Nat × SnapshotSync) :=
  node.snapshotSyncs.last?.bind fun last =>
    (node.snapshotSyncs.get? last.1).map fun snapshot => (last.1, snapshot)

/-- The index does not follow the one that was applied last. -/
def outOfOrder (snapshot : SnapshotSync) (index : BitVec 32) : Bool :=
  snapshot.lastAppliedChunkIndex.toNat - 1 > index.toNat

/-- `apply_snapshot_chunk`; the content is `none` if the chunk does not decode. -/
def applySnapshotChunk (index : BitVec 32) (content : Option (List SnapshotBlock)) :
    Outcome Empty (ApplySnapshotResult × SyncNode) :=
  if node.isSyncingHistory then ok (.retrySnapshot, node)
  else match lastSnapshotSync node with
    | none => ok (.retrySnapshot, node)
    | some (id, snapshot) =>
      if outOfOrder snapshot index then ok (.retrySnapshot, node)
      else
        let node := { node with
          snapshotSyncs := node.snapshotSyncs.put id ⟨index.setWidth 64⟩ }
        match content with
        | none => ok (.retrySnapshot, node)
        | some blocks => sync.applyBlocks node blocks

/-! ## What a consistent chunk is -/

/-- The blocks follow one another and the tip. -/
def Linked (hash : SealedHeader → BitVec 256) :
    (tipHash : BitVec 256) → (tip : BitVec 64) → List SnapshotBlock → Prop
  | _, _, [] => True
  | tipHash, tip, block :: rest => block.header.header.parentHash = tipHash ∧
      block.header.header.number = tip + 1 ∧
      Linked hash (hash block.header) block.header.header.number rest

/-- Blocks that extend the chain, with their transactions and the state after the last. -/
structure ChainConsistent (builder : BlockBuilder) (chain : CommittedChain)
    (blocks : List SnapshotBlock) (post : ChainState) : Prop where
  linked : Linked builder.hash chain.bestHash chain.best.header.number blocks
  bodies : ∀ block ∈ blocks,
    builder.transactionsRoot (block.transactions.map Prod.snd) = block.header.transactionsRoot
  stateRoot : ∀ last ∈ blocks.getLast?, builder.stateRoot post = last.header.stateRoot

/-- The node takes a chunk with this index. -/
def Expects (index : BitVec 32) : Prop :=
  node.isSyncingHistory = false ∧
    ∃ id snapshot, lastSnapshotSync node = some (id, snapshot) ∧ outOfOrder snapshot index = false

/-- The blocks are executed to the end. -/
def Executes (blocks : List SnapshotBlock) (outcome : ExecutionOutcome) : Prop :=
  sync.builder.batchExecute sync.rules node.stateAt blocks = ok outcome ∧
    sync.updateChain blocks = ok ()

section
variable {sync node} {index : BitVec 32} {content : Option (List SnapshotBlock)}
variable {node' : SyncNode} {blocks : List SnapshotBlock} {outcome : ExecutionOutcome}

theorem applyBlocks_eq_accept :
    sync.applyBlocks node blocks = ok (.accept, node') ↔
      ∃ outcome, sync.Executes node blocks outcome ∧
        node' = sync.appendBlocksWithState node blocks outcome := by
  unfold applyBlocks Executes
  cases hbatch : sync.builder.batchExecute sync.rules node.stateAt blocks with
  | panic => simp
  | err e => simp
  | ok outcome =>
    simp only [bind_eq_ok, pure_eq_ok, ok.injEq, Prod.mk.injEq, true_and]
    constructor
    · rintro ⟨_, hupdate, rfl⟩
      exact ⟨outcome, ⟨rfl, hupdate⟩, rfl⟩
    · rintro ⟨_, ⟨rfl, hupdate⟩, rfl⟩
      exact ⟨(), hupdate, rfl⟩

/-- What an accepted chunk has passed. -/
theorem applySnapshotChunk_eq_accept :
    sync.applySnapshotChunk node index content = ok (.accept, node') ↔
      ∃ id snapshot blocks outcome, node.isSyncingHistory = false ∧
        lastSnapshotSync node = some (id, snapshot) ∧ outOfOrder snapshot index = false ∧
        content = some blocks ∧ sync.Executes node blocks outcome ∧
        node' = sync.appendBlocksWithState { node with
          snapshotSyncs := node.snapshotSyncs.put id ⟨index.setWidth 64⟩ } blocks outcome := by
  unfold applySnapshotChunk
  cases hsync : node.isSyncingHistory with
  | true => simp
  | false =>
    cases hlast : lastSnapshotSync node with
    | none => simp
    | some entry =>
      obtain ⟨id, snapshot⟩ := entry
      cases horder : outOfOrder snapshot index with
      | true => simp [horder]
      | false =>
        cases content with
        | none => simp [horder]
        | some blocks =>
          simp only [Bool.false_eq_true, if_false, horder, applyBlocks_eq_accept, Executes]
          simp [horder]

/-! ## Another state root -/

/-- The block with another state root in its header. -/
def withStateRoot (root : BitVec 256) (block : SnapshotBlock) : SnapshotBlock :=
  { block with header := { block.header with stateRoot := root } }

/-- No check of the execution reads the state root. -/
theorem executeAndVerifyOne_withStateRoot (root : BitVec 256) (record : ExecutionOutcome)
    (block : SnapshotBlock) :
    sync.builder.executeAndVerifyOne sync.rules record (withStateRoot root block) =
      sync.builder.executeAndVerifyOne sync.rules record block := rfl

theorem batchExecute_withStateRoot (root : BitVec 256) (stateAt : BitVec 64 → Option ChainState) :
    sync.builder.batchExecute sync.rules stateAt (blocks.map (withStateRoot root)) =
      sync.builder.batchExecute sync.rules stateAt blocks := by
  cases blocks with
  | nil => rfl
  | cons first rest =>
    have hfold : ∀ record, ((first :: rest).map (withStateRoot root)).foldlM
        (sync.builder.executeAndVerifyOne sync.rules) record =
          (first :: rest).foldlM (sync.builder.executeAndVerifyOne sync.rules) record := by
      intro record
      rw [foldlM_map]
      simp only [executeAndVerifyOne_withStateRoot]
    simp only [BlockBuilder.batchExecute, map_cons]
    simp only [map_cons] at hfold
    simp only [hfold]
    rfl

theorem updateChain_withStateRoot (root : BitVec 256) :
    sync.updateChain (blocks.map (withStateRoot root)) = sync.updateChain blocks := by
  induction blocks with
  | nil => rfl
  | cons block rest ih =>
    simp only [updateChain, forM_eq_forM, map_cons, forM_cons] at ih ⊢
    rw [ih]
    rfl

/-- Blocks that are executed are executed with any other state root. -/
theorem Executes.withStateRoot (h : sync.Executes node blocks outcome) (root : BitVec 256) :
    sync.Executes node (blocks.map (withStateRoot root)) outcome :=
  ⟨(batchExecute_withStateRoot root _).trans h.1, (updateChain_withStateRoot root).trans h.2⟩

theorem Executes.ne_nil (h : sync.Executes node blocks outcome) : blocks ≠ [] := by
  rintro rfl
  cases h.1

theorem blocks_appendBlocksWithState {last : SnapshotBlock} (h : blocks.getLast? = some last) :
    (sync.appendBlocksWithState node blocks outcome).blocks = node.blocks ++ blocks ∧
      (sync.appendBlocksWithState node blocks outcome).chain.state = outcome.state := by
  simp only [appendBlocksWithState, h, and_self]

end

/-- Every chunk a node accepts extends its chain, with the right bodies and the right state,
exactly when the node accepts no chunk: it does not expect one, or there are no blocks it
executes to the end. -/
theorem accepted_chunks_consistent_iff (sync : StateSync) (node : SyncNode) (index : BitVec 32) :
    (∀ content node', sync.applySnapshotChunk node index content = ok (.accept, node') →
      ∃ written, node'.blocks = node.blocks ++ written ∧
        ChainConsistent sync.builder node.chain written node'.chain.state) ↔
      ¬ (Expects node index ∧ ∃ blocks outcome, sync.Executes node blocks outcome) := by
  constructor
  · rintro hconsistent ⟨⟨hsync, id, snapshot, hlast, horder⟩, blocks, outcome, hexec⟩
    -- the same blocks, with a root that is not the one of the state after them
    have hforged := hexec.withStateRoot (sync.builder.stateRoot outcome.state + 1)
    have hgetLast := getLast?_eq_some_getLast hforged.ne_nil
    obtain ⟨written, hwritten, hchain⟩ := hconsistent _ _ (applySnapshotChunk_eq_accept.mpr
      ⟨id, snapshot, _, outcome, hsync, hlast, horder, rfl, hforged, rfl⟩)
    obtain ⟨hblocks, hstate⟩ := blocks_appendBlocksWithState hgetLast
    rw [hblocks, append_cancel_left_eq] at hwritten
    subst hwritten
    have hroot := hchain.stateRoot _ hgetLast
    obtain ⟨block, -, hblock⟩ := mem_map.mp (mem_of_getLast? hgetLast)
    rw [hstate, ← hblock] at hroot
    have hself : sync.builder.stateRoot outcome.state = sync.builder.stateRoot outcome.state + 1 :=
      hroot
    simp at hself
  · intro hnever content node' haccept
    obtain ⟨id, snapshot, blocks, outcome, hsync, hlast, horder, -, hexec, -⟩ :=
      applySnapshotChunk_eq_accept.mp haccept
    exact absurd ⟨⟨hsync, id, snapshot, hlast, horder⟩, blocks, outcome, hexec⟩ hnever

end StateSync

/-! ## A forged block -/

/-- A node at the second block of the chain of empty blocks, in a sync from a snapshot. -/
def syncingNode : SyncNode where
  isSyncingHistory := false
  snapshotSyncs := Table.empty.put 1 ⟨0⟩
  chain := secondCommitted
  blocks := []
  stateAt number := if number ≤ 2 then some secondCommitted.state else none

/-- A second block again: on another parent, with roots of nothing. -/
def forgedBlock : SnapshotBlock where
  header := { emptyHeader 0 2 1700000020 with transactionsRoot := 0, stateRoot := 0 }
  requestsRoot := none
  transactions := []
  withdrawals := none

def idleSync : StateSync := ⟨idleParams.builder, byzantiumRules⟩

/-- The forged block is accepted and written. -/
theorem forged_block_accepted : ∃ node',
    idleSync.applySnapshotChunk syncingNode 0 (some [forgedBlock]) = ok (.accept, node') ∧
      node'.blocks = syncingNode.blocks ++ [forgedBlock] ∧
      forgedBlock.header.header.parentHash ≠ syncingNode.chain.bestHash ∧
      forgedBlock.header.header.number ≠ syncingNode.chain.best.header.number + 1 ∧
      idleSync.builder.transactionsRoot [] ≠ forgedBlock.header.transactionsRoot ∧
      idleSync.builder.stateRoot node'.chain.state ≠ forgedBlock.header.stateRoot := by
  have hbatch : (idleSync.builder.batchExecute idleSync.rules syncingNode.stateAt
      [forgedBlock]).isOk = true := by decide +kernel
  have hexec : idleSync.Executes syncingNode [forgedBlock] _ :=
    ⟨eq_ok_getD hbatch ⟨secondCommitted.state, [], 0, []⟩, by decide⟩
  refine ⟨_, StateSync.applySnapshotChunk_eq_accept.mpr ⟨1, ⟨0⟩, [forgedBlock], _, rfl, rfl, rfl,
    rfl, hexec, rfl⟩, rfl, ?_, ?_, ?_, ?_⟩
  all_goals decide

end Macbeth
