import Macbeth.BtcServer.App

/-!
# A bitcoin node

The node as the source sees it is any sequence of answers.  Here is one that answers from
its data: a best chain, blocks beside it, and a mempool.  The blocks below the first listed
one are left out, with the outputs they created.
-/

namespace Macbeth

structure Node where
  /-- The height of the first listed block. -/
  base : Nat
  /-- The best chain from there on. -/
  chain : List Block
  /-- Blocks that left the best chain, with their heights. -/
  stale : List (Block × Nat)
  /-- Outputs of earlier blocks that were unspent at the first listed one. -/
  coins : List OutPoint
  mempool : List Transaction
  now : Nat

namespace Node

variable (btc : BitcoinLib) (node : Node)

/-- A block of the best chain with its distance from the first listed one. -/
def find (hash : BlockHash) : Option (Block × Nat) :=
  node.chain.zipIdx.find? fun x => btc.blockHash x.1.header = hash

/-- A block beside the best chain with its height. -/
def findStale (hash : BlockHash) : Option (Block × Nat) :=
  node.stale.find? fun x => btc.blockHash x.1.header = hash

/-- The blocks the node can serve. -/
def block (hash : BlockHash) : Option Block :=
  match node.find btc hash with
  | some x => some x.1
  | none => (node.findStale btc hash).map (·.1)

/-- The header with its confirmations: a block outside the best chain has `-1`. -/
def headerInfo (hash : BlockHash) : Except RpcError BlockHeaderInfo :=
  match node.find btc hash with
  | some (b, i) =>
    .ok ⟨hash, node.base + i, node.chain.length - i, some b.header.prevBlockhash, b.header.time⟩
  | none =>
    match node.findStale btc hash with
    | some (b, height) => .ok ⟨hash, height, -1, some b.header.prevBlockhash, b.header.time⟩
    | none => .error .other

/-- The block of the best chain a transaction is in. -/
def blockOf (txid : Txid) : Option Block :=
  node.chain.find? fun b => (b.txdata.map btc.computeTxid).contains txid

/-- The inputs that confirmed transactions spend. -/
def spent : List OutPoint := node.chain.flatMap fun b => b.txdata.flatMap Transaction.inputs

/-- An output of a confirmed transaction, or an earlier one. -/
def created (op : OutPoint) : Bool :=
  node.coins.contains op || node.chain.any fun b => b.txdata.any fun tx =>
    btc.computeTxid tx = op.txid && op.vout.toNat < tx.output.length

/-- The answers of the node. -/
def view : View where
  blockHeaderInfo := node.headerInfo btc
  bestBlockHash :=
    match node.chain.getLast? with
    | some b => .ok (btc.blockHash b.header)
    | none => .error .other
  initialBlockDownload := .ok false
  block hash := match node.block btc hash with
    | some b => .ok b
    | none => .error .other
  blockHeight hash := (node.headerInfo btc hash).map (·.height)
  rawTransactionInfo txid :=
    match node.blockOf btc txid with
    | some b => .ok (some (btc.blockHash b.header))
    | none => if (node.mempool.map btc.computeTxid).contains txid then .ok none else .error .other
  mempoolEntry txid :=
    if (node.mempool.map btc.computeTxid).contains txid then .ok () else .error .transactionNotInMempool
  txOut op := .ok (node.created btc op && !node.spent.contains op)
  sendRawTransaction tx :=
    if (node.blockOf btc (btc.computeTxid tx)).isSome then .error .alreadyInChain
    else if tx.inputs.all fun op => node.created btc op && !node.spent.contains op then
      .ok (btc.computeTxid tx)
    else .error .inputsMissingOrSpent
  now := node.now

/-- The node during a request in which its chain does not move. -/
def steady : Bitcoind := fun _ => node.view btc

end Node

/-! ## A short chain

Blocks ten minutes apart, each with a coinbase that tells its height.  Hashes are the
double SHA-256 of the headers, tabulated. -/

/-- The coinbase of a block. -/
def coinbase (height : UInt8) : Transaction :=
  ⟨1, 0, [⟨OutPoint.null, [1, height], 0xffffffff, []⟩], [⟨5000000000, p2tr 1⟩]⟩

def genesis : Block :=
  ⟨⟨1, 0, 0x2969ea724c3414261d74a08bab6e4c3747e22aa198033238339187fcad1992b8, 1700000000, 0x207fffff,
    0⟩, [coinbase 0]⟩

def genesisHash : BlockHash := 0x72bb7a83e189879eaaa07c83561a1cba88d788a9499bdccad304bc1897b7176b

/-- The hashes of the blocks and transactions of the sample chain. -/
def minedBitcoin : BitcoinLib where
  blockHash header := if header = genesis.header then genesisHash else 0
  computeTxid tx :=
    if tx.stripped = coinbase 0 then
      0x2969ea724c3414261d74a08bab6e4c3747e22aa198033238339187fcad1992b8
    else federationBitcoin.computeTxid tx
  extractMatches := federationBitcoin.extractMatches
  isOnCurve := federationBitcoin.isOnCurve

/-- A node whose chain is the first block, seen ten seconds later. -/
def youngNode : Node := ⟨0, [genesis], [], [], [], 1700000010 * nanosPerSec⟩

end Macbeth
