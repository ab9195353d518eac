import Macbeth.Authority.PsbtValidation
import Macbeth.BtcServer.App

/-!
# Wallet state sync (`consensus/authority/src/wallet_state_sync.rs`)

At every epoch block a node asks its peers for their finalized pegout ids.  Each peer streams
them in chunks; the node keeps a record per peer (`botanix-storage/.../wallet_state_sync.rs`,
`models/wallet_sync.rs`) and, once enough records look complete, sends the union of their ids,
as far as it finds them in its own blocks, to its btc-server, which replaces its table of
finalized pegouts by them.
-/

namespace Macbeth

open Outcome

/-! ## The pegouts of a block -/

/-- `EpochPegoutsError`. -/
inductive EpochPegoutsError where
  | failedToFetchPegouts
  | noReceiptsFoundForBlock (number : BitVec 64)
  deriving DecidableEq, Repr

/-- A block as `get_block_pegouts` reads it; of the bloom filter, whether it may contain a
burn of the minting contract. -/
structure BlockSummary where
  number : BitVec 64
  timestamp : BitVec 64
  bloomContainsPegout : Bool
  deriving DecidableEq, Repr

structure ReceiptSummary where
  success : Bool
  logs : List Log
  deriving DecidableEq, Repr

/-- The node's chain as `get_block_pegouts` reads it, and its clock. -/
structure BlockReader where
  blockByNumber : BitVec 64 → Except ProviderError (Option BlockSummary)
  /-- `transactions_by_block`: the hashes of the transactions. -/
  transactionsByBlock : BitVec 64 → Except ProviderError (Option (List (BitVec 256)))
  receiptsByBlock : BitVec 64 → Except ProviderError (Option (List ReceiptSummary))
  now : Option (BitVec 64)
  addressFromStr : List UInt8 → Option UncheckedAddress
  btcNetwork : Network

namespace BlockReader

variable (reader : BlockReader)

/-- The ids of the burns among the logs of one receipt. -/
def receiptPegouts (timestamp : BitVec 64) (receipt : ReceiptSummary) (txHash : BitVec 256) :
    List (PegoutId × BitVec 64) :=
  if receipt.success then
    receipt.logs.zipIdx.filterMap fun (log, index) =>
      match tryParseBurnEvent reader.addressFromStr log reader.btcNetwork with
      | .ok (some _) => some (⟨txHash, BitVec.ofNat 32 index⟩, timestamp)
      | _ => none
  else []

/-- `get_block_pegouts`. -/
def getBlockPegouts (maxCutoffAge : Option Nat) (block : BitVec 64) :
    Except EpochPegoutsError (List (PegoutId × BitVec 64)) :=
  match reader.blockByNumber block with
  | .ok (some block) =>
    if !block.bloomContainsPegout then .ok []
    else if maxCutoffAge.any fun age => !isBlockAgeAcceptable reader.now block.timestamp age then
      .ok []
    else
      match reader.transactionsByBlock block.number, reader.receiptsByBlock block.number with
      | .ok (some transactions), .ok (some receipts) =>
        .ok ((receipts.zip transactions).flatMap fun (receipt, hash) =>
          reader.receiptPegouts block.timestamp receipt hash)
      | .ok _, .ok _ => .error (.noReceiptsFoundForBlock block.number)
      | _, _ => .error .failedToFetchPegouts
  | _ => .error .failedToFetchPegouts

end BlockReader

/-! ## Records -/

abbrev PeerId := BitVec 512

abbrev Uuid := BitVec 128

/-- A finalized pegout as it is streamed: its block and the bytes of its id. -/
abbrev StreamedId := BitVec 64 × List UInt8

/-- `WalletStateSyncRecord`; `blocks` and `data` are filled in step and are kept zipped. -/
structure WalletStateSyncRecord where
  uuid : Uuid
  entries : List StreamedId
  chunksCount : BitVec 64
  deriving DecidableEq, Repr

/-- `add_data_if_not_exists`. -/
def WalletStateSyncRecord.addDataIfNotExists (record : WalletStateSyncRecord) (entry : StreamedId) :
    WalletStateSyncRecord :=
  if record.entries.any fun old => old.2 = entry.2 then record
  else if record.entries.any fun old => old.1 = entry.1 then record
  else { record with entries := record.entries ++ [entry] }

/-- The records, by peer. -/
abbrev SyncRecords := FinMap PeerId WalletStateSyncRecord

namespace SyncRecords

/-- A record counts as complete. -/
def isComplete (record : WalletStateSyncRecord) : Bool :=
  record.chunksCount.toNat ≤ record.entries.length

/-- The records `get_minimum_superset` uses. -/
def complete (records : SyncRecords) : List WalletStateSyncRecord :=
  records.values.filter isComplete

/-- `get_minimum_superset`. -/
def getMinimumSuperset (records : SyncRecords) (minRequiredCriterion : Nat) :
    Bool × List StreamedId :=
  if records.complete.length < minRequiredCriterion then (false, [])
  else (true, (records.complete.flatMap (·.entries)).dedup)

/-- `create_new_state_sync_record`: the first chunk is stored as it is. -/
def createNewStateSyncRecord (records : SyncRecords) (uuid : Uuid) (peer : PeerId)
    (chunksCount : BitVec 64) (data : List StreamedId) : SyncRecords :=
  records.insert peer ⟨uuid, data, chunksCount⟩

/-- `append_data_to_state_sync_record`. -/
def appendDataToStateSyncRecord (records : SyncRecords) (peer : PeerId) (data : List StreamedId) :
    SyncRecords :=
  match records.lookup peer with
  | some record =>
    records.insert peer (data.foldl WalletStateSyncRecord.addDataIfNotExists record)
  | none => records

end SyncRecords

/-! ## The sync loop -/

/-- A chunk of a peer's stream (`GetFinalizedPegoutIdsResponse`), as the loop reads it. -/
structure PegoutIdsChunk where
  data : List StreamedId
  totalChunks : BitVec 64
  deriving DecidableEq, Repr

/-- A wallet state message: the uuid if it parses, the chunk if it decompresses and
decodes. -/
structure WalletStateMessage where
  peer : PeerId
  uuid : Option Uuid
  chunk : Option PegoutIdsChunk
  deriving DecidableEq, Repr

structure WalletSyncState where
  currentResponseCycle : Option Uuid
  records : SyncRecords

/-- What the loop is configured with. -/
structure WalletSyncEnv where
  reader : BlockReader
  minSigners : Nat

/-- The part of the loop up to the superset: the records with the message's chunk, none if
the message is skipped. -/
def WalletSyncState.absorb (s : WalletSyncState) (message : WalletStateMessage) :
    Option SyncRecords :=
  match message.uuid, message.chunk, s.currentResponseCycle with
  | some requestUuid, some chunk, some uuid =>
    if uuid ≠ requestUuid then none
    else
      match s.records.lookup message.peer with
      | some record =>
        if record.uuid ≠ uuid then none
        else some (s.records.appendDataToStateSyncRecord message.peer chunk.data)
      | none =>
        some (s.records.createNewStateSyncRecord uuid message.peer chunk.totalChunks chunk.data)
  | _, _, _ => none

namespace BlockReader

variable (reader : BlockReader)

/-- The entries of one block whose ids are pegouts of that block. -/
def hydrateBlock (superset : List StreamedId) (block : BitVec 64) :
    Outcome EpochPegoutsError (List (BitVec 64 × PegoutId × BitVec 64)) := do
  let pegoutsInBlock ← ofExcept
    (reader.getBlockPegouts (some maxBlockTsCutoffDurationSecs) block) id
  return (superset.filter (·.1 = block)).filterMap fun entry => do
    let id ← PegoutId.fromBytes entry.2
    let found ← pegoutsInBlock.find? (·.1 = id)
    return (block, found)

/-- `hydrate_minimum_superset`: one list over all blocks; a block that cannot be read fails
the whole. -/
def hydrateMinimumSuperset (superset : List StreamedId) :
    Outcome EpochPegoutsError (List (BitVec 64 × PegoutId × BitVec 64)) := do
  return (← (superset.map (·.1)).dedup.mapM (reader.hydrateBlock superset)).flatten

/-- The request the loop sends to btc-server for a superset; none if hydrating it fails. -/
def resetRequest (superset : List StreamedId) : Option (List RpcFinalizedPegout) :=
  match reader.hydrateMinimumSuperset superset with
  | .ok hydrated => some (hydrated.map fun (block, id, timestamp) => ⟨id.asBytes, block, timestamp⟩)
  | _ => none

end BlockReader

/-- One message of the loop: the reset request it causes, and the next state. -/
def WalletSyncEnv.receive (env : WalletSyncEnv) (s : WalletSyncState)
    (message : WalletStateMessage) : Option (List RpcFinalizedPegout) × WalletSyncState :=
  match s.absorb message with
  | none => (none, s)
  | some records =>
    match records.getMinimumSuperset env.minSigners with
    | (false, _) => (none, { s with records })
    | (true, superset) =>
      match env.reader.resetRequest superset with
      | none => (none, { s with records })
      | some request => (some request, { s with records := ∅ })

end Macbeth
