import Macbeth.Checkpoint.Chain
import Macbeth.Peg.Soundness

/-!
# Checkpoint synchronization (`botanix-bitcoin-checkpoint/src/syncer.rs`)

The synchronizer asks the bitcoin node for its tip, works out which newly confirmed heights
the window needs, and pushes their headers from the oldest to the newest.  The node may move
between two calls: the `n`-th call of a sync sees the `n`-th view.  What was pushed before a
failed call stays pushed.

Against a node that holds still on a bitcoin chain, a sync ends with the window of that
chain: the `i`-th newest checkpoint is the block with `i` more confirmations than the lowest
depth (`SyncedAt`).
-/

namespace Macbeth

/-- What the bitcoin node answers at one moment. -/
structure CheckpointRpc where
  getBlockCount : Except String Nat
  getBlockHash : Nat → Except String BlockHash
  getBlockHeader : BlockHash → Except String Header

/-- `SyncedCheckpointInfo`. -/
structure SyncedCheckpointInfo where
  height : BitVec 32
  hash : BlockHash
  deriving DecidableEq, Repr

/-- `BitcoinCheckpointsChainSynchronizer`, without its client. -/
structure CheckpointSynchronizer where
  checkpointsChain : BitcoinCheckpointsChain
  lastSyncedHeight : Option Nat
  deriving DecidableEq, Repr

namespace CheckpointSynchronizer

/-- `new`: the last synced height is worked out from the newest checkpoint. -/
def new (chain : BitcoinCheckpointsChain) : CheckpointSynchronizer :=
  ⟨chain, chain.recentHeight.map fun height => height.toNat + chain.lowestConfirmationDepth⟩

/-- `map_rpc_error!`. -/
def mapRpcError {α : Type} (procedureName : String) (answer : Except String α) :
    Except BitcoinCheckpointError α :=
  answer.mapError fun error => .syncRpcError error procedureName

/-- The checkpoint of one height, from two calls of the node. -/
def fetchCheckpoint (btc : BitcoinLib) (rpc : Nat → CheckpointRpc) (call height : Nat) :
    Except BitcoinCheckpointError BitcoinCheckpoint := do
  let confirmedHash ← mapRpcError "get_block_hash" ((rpc call).getBlockHash height)
  let header ← mapRpcError "get_block_header" ((rpc (call + 1)).getBlockHeader confirmedHash)
  return BitcoinCheckpoint.new btc header height

/-- The loop of `sync_new_blocks` over the heights to push. -/
def pushHeights (btc : BitcoinLib) (rpc : Nat → CheckpointRpc) (call : Nat) :
    List Nat → BitcoinCheckpointsChain →
      Except BitcoinCheckpointError (List SyncedCheckpointInfo) × BitcoinCheckpointsChain
  | [], chain => (.ok [], chain)
  | height :: heights, chain =>
    match fetchCheckpoint btc rpc call height with
    | .error e => (.error e, chain)
    | .ok checkpoint =>
      match chain.push checkpoint with
      | .error e => (.error e, chain)
      | .ok chain =>
        let rest := pushHeights btc rpc (call + 2) heights chain
        (rest.1.map (⟨checkpoint.height, checkpoint.hash⟩ :: ·), rest.2)

/-- `sync_new_blocks`.  Subtractions below zero are those the source saturates, or are
excluded by an earlier check. -/
def syncNewBlocks (btc : BitcoinLib) (rpc : Nat → CheckpointRpc) (s : CheckpointSynchronizer) :
    Except BitcoinCheckpointError (List SyncedCheckpointInfo) × CheckpointSynchronizer :=
  match mapRpcError "get_block_count" (rpc 0).getBlockCount with
  | .error e => (.error e, s)
  | .ok tipHeight =>
    let lastSyncedHeight := s.lastSyncedHeight.getD 0
    if tipHeight ≤ lastSyncedHeight then (.ok [], s)
    else
      let lowestConfirmationDepth := s.checkpointsChain.lowestConfirmationDepth
      if tipHeight < lowestConfirmationDepth then
        (.ok [], { s with lastSyncedHeight := some tipHeight })
      else
        let confirmedAvailable := tipHeight + 1 - lowestConfirmationDepth
        let confirmedAlready := lastSyncedHeight + 1 - lowestConfirmationDepth
        let needToSync := confirmedAvailable - confirmedAlready
        if needToSync = 0 then (.ok [], { s with lastSyncedHeight := some tipHeight })
        else
          let blocksToSync := min needToSync s.checkpointsChain.sizeLimit
          let topConfirmedHeight := tipHeight - (lowestConfirmationDepth - 1)
          let fromHeight := topConfirmedHeight - (blocksToSync - 1)
          match pushHeights btc rpc 1 (List.range' fromHeight (topConfirmedHeight + 1 - fromHeight))
              s.checkpointsChain with
          | (.error e, chain) => (.error e, { s with checkpointsChain := chain })
          | (.ok synced, chain) => (.ok synced, ⟨chain, some tipHeight⟩)

/-- `SyncLoopControl`. -/
inductive SyncLoopControl where
  | waitForNewBlock
  | sync
  deriving DecidableEq, Repr

/-- `handle_new_blocks_sync_result`: a stale block empties the chain. -/
def handleNewBlocksSyncResult
    (result : Except BitcoinCheckpointError (List SyncedCheckpointInfo))
    (s : CheckpointSynchronizer) : SyncLoopControl × CheckpointSynchronizer :=
  match result with
  | .ok _ => (.waitForNewBlock, s)
  | .error (.staleBlockAdded _ _) => (.sync, ⟨s.checkpointsChain.clear, none⟩)
  | .error _ => (.sync, s)

end CheckpointSynchronizer

/-! ## Synced chains -/

/-- The headers of a bitcoin chain, by height. -/
def BitcoinChain.headers {btc : BitcoinLib} (chain : BitcoinChain btc) : List Header :=
  chain.blocks.map Block.header

/-- The checkpoint of a height of a bitcoin chain. -/
def BitcoinChain.checkpoint {btc : BitcoinLib} (chain : BitcoinChain btc) (height : Nat) :
    Option BitcoinCheckpoint :=
  chain.headers[height]?.map fun header => BitcoinCheckpoint.new btc header height

/-- The checkpoints are those of a bitcoin chain with its tip at a height: the newest has
the lowest depth of the window, and each older one a confirmation more. -/
def SyncedAt {btc : BitcoinLib} (chain : BitcoinChain btc) (tip : Nat)
    (c : BitcoinCheckpointsChain) : Prop :=
  ∀ i checkpoint, c.checkpoints.reverse[i]? = some checkpoint →
    ∃ height, height + (c.window.start + i) = tip + 1 ∧ chain.checkpoint height = some checkpoint

/-- The chain holds as many checkpoints as it may. -/
def BitcoinCheckpointsChain.Full (c : BitcoinCheckpointsChain) : Prop :=
  c.checkpoints.length = c.window.size

/-- A node that holds still on a bitcoin chain up to a tip. -/
structure AnswersFrom {btc : BitcoinLib} (chain : BitcoinChain btc) (tip : Nat)
    (rpc : Nat → CheckpointRpc) : Prop where
  tip_lt : tip < chain.headers.length
  getBlockCount : ∀ n, (rpc n).getBlockCount = .ok tip
  getBlockHash : ∀ n height header, height ≤ tip → chain.headers[height]? = some header →
    (rpc n).getBlockHash height = .ok (btc.blockHash header)
  getBlockHeader : ∀ n height header, height ≤ tip → chain.headers[height]? = some header →
    (rpc n).getBlockHeader (btc.blockHash header) = .ok header

end Macbeth
