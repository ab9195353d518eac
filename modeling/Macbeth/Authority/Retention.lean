import Macbeth.Authority.PsbtValidation
import Macbeth.BtcServer.Consistency
import Macbeth.BtcServer.Node

/-!
# A pruned pegout stays closed (`database/mod.rs`, `authority/utils.rs`)

The server keeps the ids of finalized pegouts for 90 days and refuses to pay them again.
After that only the authority's check of the age of the pegout's block stands between the
pegout and a second payment.  The two windows are equally long, and a record carries the time
of the block, so a record that is old enough to be pruned is of a block that is too old to be
accepted.  A record without a time gets the one of the first pruning that meets it; that time
is no earlier than the block's if the clock has passed the block's time by then.

* `finalized_never_accepted` — in every run, once a pegout is final no PSBT that pays it is
  accepted by both checks;
* `stamped_record_reopens` — a record without a time, of a block the clock has not reached.
-/

namespace Macbeth

open Outcome Handler List Option FinMap

/-! ## The pegouts the authority sends -/

/-- `get_pending_pegouts_from_pegout_data`. -/
def getPendingPegoutsFromPegoutData (pegouts : List PegoutWithId) (height timestamp : BitVec 64) :
    List RpcPendingPegout :=
  pegouts.map fun p => ⟨p.id.asBytes, p.data.destination, p.data.amount, height, timestamp⟩

/-- `models::PegoutData`: a pegout in the staging table. -/
structure StagedPegout where
  pegoutId : List UInt8
  scriptPubkey : ScriptBuf
  amount : BitVec 64
  height : BitVec 64
  deriving DecidableEq, Repr

/-- `get_staged_pegouts_from_pegout_data`. -/
def getStagedPegoutsFromPegoutData (pegouts : List PegoutWithId) (height : BitVec 64) :
    List StagedPegout :=
  pegouts.map fun p => ⟨p.id.asBytes, p.data.destination, p.data.amount, height⟩

/-- `get_pending_pegouts_from_staged_pegouts`. -/
def getPendingPegoutsFromStagedPegouts (pegouts : List StagedPegout) (timestamp : BitVec 64) :
    List RpcPendingPegout :=
  pegouts.map fun p => ⟨p.pegoutId, p.scriptPubkey, p.amount, p.height, timestamp⟩

/-- A block that is delivered from the staging table brings what its notification would have. -/
theorem pending_of_staged (pegouts : List PegoutWithId) (height timestamp : BitVec 64) :
    getPendingPegoutsFromStagedPegouts (getStagedPegoutsFromPegoutData pegouts height) timestamp =
      getPendingPegoutsFromPegoutData pegouts height timestamp := by
  simp [getPendingPegoutsFromStagedPegouts, getStagedPegoutsFromPegoutData,
    getPendingPegoutsFromPegoutData]

/-! ## Times -/

/-- The header times of the blocks the pegouts were requested in. -/
abbrev BlockTimes := PegoutId → Option (BitVec 64)

/-- The authority's database has these times. -/
def Client.Agrees (client : Client) (times : BlockTimes) : Prop :=
  ∀ id number time, client.transactionBlock id.txid = .ok (some number) →
    client.headerTimestamp number = .ok (some time) → times id = some time

namespace BlockTimes

variable (times : BlockTimes)

/-- The entry's time is no earlier than its block's; an entry without one counts as of the
start. -/
def Dates (start : BitVec 64) (id : PegoutId) (timestamp : Option (BitVec 64)) : Prop :=
  ∀ time, times id = some time → time.toNat ≤ (timestamp.getD start).toNat

instance (start : BitVec 64) (id : PegoutId) (timestamp : Option (BitVec 64)) :
    Decidable (times.Dates start id timestamp) :=
  decidable_of_iff ((times id).all fun time => time.toNat ≤ (timestamp.getD start).toNat) (by
    simp [Dates, Option.all_eq_true])

/-- The pegout's block is past the window. -/
def Expired (now : BitVec 64) (id : PegoutId) : Prop :=
  ∀ time, times id = some time → time.toNat < now.toNat - Db.retentionWindowSeconds

end BlockTimes

/-- The entries of the tables are dated. -/
structure Db.Dated (times : BlockTimes) (start : BitVec 64) (db : Db) : Prop where
  pending : db.pendingPegouts.Every fun r => times.Dates start r.id r.timestamp
  tracked : db.trackedTxs.Every fun row =>
    ∀ r ∈ row.pegoutRequests, times.Dates start r.id r.timestamp
  final : db.finalizedPegoutIds.Every fun p => times.Dates start p.id p.timestamp

/-- The pegout was finalized here: there is a record of it, or of its pruning. -/
def Db.HasFinalized (db : Db) (id : PegoutId) : Prop :=
  id ∈ db.finalizedPegoutIds ∨ id ∈ db.pruneLog

/-- A request of a run: no reset, clocks between two times, and pegouts with the time of
their block. -/
structure Orderly (times : BlockTimes) (start now : BitVec 64) (input : Input) : Prop where
  noReset : ∀ pegouts, input.request ≠ .resetWalletState pegouts
  clock : ∀ n, start.toNat ≤ (input.bitcoind n).now / nanosPerSec ∧
    (input.bitcoind n).now / nanosPerSec ≤ now.toNat
  delivered : ∀ checkpoint pegins pending,
    input.request = .newConsensusCheckpoint checkpoint pegins pending →
    ∃ pegouts height timestamp,
      pending = getPendingPegoutsFromPegoutData pegouts height timestamp ∧
      ∀ p ∈ pegouts, times p.id = some timestamp

/-! ## Pruning -/

section pruning
variable {times : BlockTimes} {start now stamp : BitVec 64}

theorem BlockTimes.Dates.stamped {id : PegoutId} (h : times.Dates start id none)
    (hstart : start.toNat ≤ stamp.toNat) : times.Dates start id (some stamp) :=
  fun time htime => (h time htime).trans hstart

/-- A pruned record is of an expired block. -/
theorem expired_of_isPrunable {p : FinalizedPegout} (hp : times.Dates start p.id p.timestamp)
    (hnow : stamp.toNat ≤ now.toNat) (hold : Db.isPrunable stamp p = true) :
    times.Expired now p.id := by
  intro time htime
  obtain ⟨timestamp, hsome, hlt⟩ := (any_eq_true _ _).mp hold
  have hle := hp time htime
  rw [hsome, getD_some] at hle
  have hlt : timestamp.toNat < stamp.toNat - Db.retentionWindowSeconds := of_decide_eq_true hlt
  omega

/-- The records that are left are dated: one without a time gets that of the pruning. -/
theorem dated_foldl_pruneRecord (hstart : start.toNat ≤ stamp.toNat) :
    ∀ {ps : List FinalizedPegout} {m : FinMap PegoutId FinalizedPegout},
      (∀ p ∈ ps, times.Dates start p.id p.timestamp) →
      m.Every (fun p => times.Dates start p.id p.timestamp) →
      (ps.foldl (Db.pruneRecord stamp) m).Every fun p => times.Dates start p.id p.timestamp
  | [], _, _, hm => hm
  | p :: ps, m, hps, hm => by
    rw [forall_mem_cons] at hps
    rw [foldl_cons]
    refine dated_foldl_pruneRecord hstart hps.2 ?_
    unfold Db.pruneRecord
    split
    next =>
      split
      · exact hm.erase _
      · exact hm
    next hnone =>
      have hstamped : times.Dates start p.id (some stamp) :=
        BlockTimes.Dates.stamped (hnone ▸ hps.1) hstart
      exact hm.insert (v := { p with timestamp := some stamp }) hstamped _

/-- The tables after a transaction became final at a time within the run. -/
theorem Db.Dated.finalizePegouts {db : Db} {requests : List PegoutRequest} {nanos : Nat}
    (h : db.Dated times start) (hlog : ∀ x ∈ db.pruneLog, times.Expired now x)
    (hrequests : ∀ r ∈ requests, times.Dates start r.id r.timestamp)
    (hstart : start.toNat ≤ nanos / nanosPerSec) (hnow : nanos / nanosPerSec ≤ now.toNat) :
    (db.finalizePegouts requests nanos).Dated times start ∧
      ∀ x ∈ (db.finalizePegouts requests nanos).pruneLog, times.Expired now x := by
  unfold Db.finalizePegouts
  split
  next => exact ⟨h, hlog⟩
  next =>
    have hstamp : (BitVec.ofNat 64 (nanos / nanosPerSec)).toNat = nanos / nanosPerSec := by
      rw [BitVec.toNat_ofNat]
      exact Nat.mod_eq_of_lt (Nat.lt_of_le_of_lt hnow now.isLt)
    have hstored : (db.storeFinalizedPegoutIds (requests.map .ofRequest)).finalizedPegoutIds.Every
        fun p => times.Dates start p.id p.timestamp := by
      refine h.final.insertNewAll fun p hp => ?_
      obtain ⟨r, hr, rfl⟩ := mem_map.mp hp
      exact hrequests r hr
    have hvalues : ∀ p ∈ (db.storeFinalizedPegoutIds
        (requests.map .ofRequest)).finalizedPegoutIds.values,
        times.Dates start p.id p.timestamp := by
      intro p hp
      obtain ⟨k, hk⟩ := mem_values.mp hp
      exact hstored k p hk
    refine ⟨⟨h.pending, h.tracked,
      dated_foldl_pruneRecord (by rwa [hstamp]) hvalues hstored⟩, fun x hx => ?_⟩
    rcases mem_append.mp hx with hx | hx
    · exact hlog x hx
    · obtain ⟨p, hp, rfl⟩ := mem_map.mp hx
      obtain ⟨hp, hold⟩ := mem_filter.mp hp
      exact expired_of_isPrunable (hvalues p hp) (by rwa [hstamp]) hold

end pruning

/-! ## Requests -/

/-- The tables and the memory are dated, and what was pruned has expired. -/
structure Stage.Dated (times : BlockTimes) (start now : BitVec 64) (c : Stage) : Prop where
  db : c.db.Dated times start
  memory : c.scheduler.txs.Every fun row =>
    ∀ r ∈ row.pegoutRequests, times.Dates start r.id r.timestamp
  pruned : ∀ x ∈ c.db.pruneLog, times.Expired now x

section moves
variable {config : Config} {input : Input} {times : BlockTimes} {start now : BitVec 64}

theorem Db.Dated.storePendingPegouts {db : Db} (h : db.Dated times start)
    {reqs : List PegoutRequest} (hreqs : ∀ r ∈ reqs, times.Dates start r.id r.timestamp) :
    (db.storePendingPegouts reqs).Dated times start := by
  refine ⟨?_, by simpa using h.tracked, by simpa using h.final⟩
  cases reqs with
  | nil => exact h.pending
  | cons req rest =>
    cases rest with
    | nil => exact h.pending.insert (hreqs req mem_cons_self) _
    | cons req' rest => exact h.pending.insertNewAll hreqs

theorem Db.Dated.removeTrackedTx {db : Db} (h : db.Dated times start) (txid : Txid) :
    (db.removeTrackedTx txid).Dated times start := ⟨h.pending, h.tracked.erase txid, h.final⟩

theorem Stage.Dated.untrack {c : Stage} (h : c.Dated times start now) {txid : Txid} {tx : Tx}
    (hrow : c.scheduler.txs.lookup txid = some tx) : (c.untrack txid tx).Dated times start now :=
  ⟨(h.db.removeTrackedTx txid).storePendingPegouts (h.memory txid tx hrow), h.memory.erase txid,
    by simpa [Stage.untrack, Db.removeTrackedTx] using h.pruned⟩

/-- A parsed pegout of a delivered block carries the time of the block. -/
theorem Orderly.dates_parsed (h : Orderly times start now input) {checkpoint : BlockHash}
    {pegins : List RpcUtxo} {pending : List RpcPendingPegout} {requests : List PegoutRequest}
    (hreq : input.request = .newConsensusCheckpoint checkpoint pegins pending)
    (hparse : pending.mapM (parsePegout config) = .ok requests) :
    ∀ r ∈ requests, times.Dates start r.id r.timestamp := by
  obtain ⟨pegouts, height, timestamp, rfl, htimes⟩ := h.delivered _ _ _ hreq
  intro r hr
  obtain ⟨p, hp, hr⟩ := (exists_of_mapM_eq_ok hparse).1 r hr
  obtain ⟨q, hq, rfl⟩ := mem_map.mp hp
  obtain ⟨_, -, hr⟩ := bind_eq_ok.mp hr
  obtain ⟨id, hid, hr⟩ := bind_eq_ok.mp hr
  obtain rfl := Outcome.ok.inj hr
  rw [ofOption_eq_ok, PegoutId.fromBytes_asBytes] at hid
  obtain rfl := some.inj hid
  intro time htime
  obtain rfl := some.inj ((htimes q hq).symm.trans htime)
  exact Nat.le_refl _

/-- No move of an orderly request leaves an entry undated or prunes too early. -/
theorem stable_dated (horderly : Orderly times start now input) :
    Stable config input (Stage.Dated times start now) := by
  intro c c' hmove h
  cases hmove with
  | untrack _ _ hrow => exact h.untrack hrow
  | dropUnconfirmed _ _ _ _ hrow => exact h.untrack hrow
  | dropParent => exact ⟨h.db.removeTrackedTx _, h.memory.erase _, h.pruned⟩
  | finalizeTx n _ _ hrow =>
    obtain ⟨hstart, hnow⟩ := horderly.clock n
    obtain ⟨hdb, hpruned⟩ := h.db.finalizePegouts h.pruned (h.memory _ _ hrow) hstart hnow
    exact ⟨hdb.removeTrackedTx _, h.memory.erase _, hpruned⟩
  | finalizeMissing => exact ⟨h.db.removeTrackedTx _, h.memory, h.pruned⟩
  | storePegouts hreq hparse =>
    have hdates := horderly.dates_parsed hreq hparse
    refine ⟨h.db.storePendingPegouts fun r hr => hdates r (mem_filter.mp hr).1, h.memory, ?_⟩
    simpa using h.pruned
  | resetFinalized _ hreq => exact absurd hreq (horderly.noReset _)
  | @track _ _ _ tracked _ _ _ _ _ hrequests =>
    have hdates : ∀ r ∈ tracked.pegoutRequests, times.Dates start r.id r.timestamp := by
      intro r hr
      rw [hrequests] at hr
      obtain ⟨k, hk⟩ := mem_values.mp (mem_filter.mp hr).1
      exact h.db.pending k r hk
    exact ⟨⟨h.db.pending, h.db.tracked.insert hdates _, h.db.final⟩, h.memory.insert hdates _,
      h.pruned⟩
  | clearPending => exact ⟨⟨every_empty, h.db.tracked, h.db.final⟩, h.memory, h.pruned⟩
  | untrackRefused => exact ⟨h.db.removeTrackedTx _, h.memory.erase _, h.pruned⟩
  | dropFinalized =>
    exact ⟨⟨h.db.pending.eraseAll, h.db.tracked, h.db.final⟩, h.memory, h.pruned⟩
  | removePending =>
    exact ⟨⟨h.db.pending.eraseAll, h.db.tracked, h.db.final⟩, h.memory, h.pruned⟩
  | _ => exact ⟨⟨h.db.pending, h.db.tracked, h.db.final⟩, h.memory, h.pruned⟩

/-- What was finalized stays known as such. -/
theorem stable_hasFinalized (hreset : ∀ pegouts, input.request ≠ .resetWalletState pegouts)
    (x : PegoutId) : Stable config input fun c => c.db.HasFinalized x := by
  intro c c' hmove h
  cases hmove with
  | untrack => simpa [Stage.untrack, Db.HasFinalized, Db.removeTrackedTx] using h
  | dropUnconfirmed => simpa [Stage.untrack, Db.HasFinalized, Db.removeTrackedTx] using h
  | finalizeTx =>
    rcases h with h | h
    · exact (Db.mem_finalizePegouts (.inr h)).imp_right mem_of_mem_drop
    · exact .inr (Db.pruneLog_finalizePegouts.subset h)
  | storePegouts => simpa [Db.HasFinalized] using h
  | resetFinalized _ hreq => exact absurd hreq (hreset _)
  | _ => exact h

/-- A restart loads the rows of the table, or none. -/
theorem Db.Dated.restart {db : Db} (h : db.Dated times start)
    (hlog : ∀ x ∈ db.pruneLog, times.Expired now x) :
    ((config.start db).stage .searching).Dated times start now := by
  refine ⟨h, fun txid row hrow => ?_, hlog⟩
  have hrow : (config.loadPegoutScheduler db).txs.lookup txid = some row := hrow
  unfold Config.loadPegoutScheduler at hrow
  cases htip : db.pegoutMgrTip with
  | none => simp [htip, Scheduler.new] at hrow
  | some tip =>
    rw [htip] at hrow
    obtain ⟨hmem, -⟩ | hrow := Stage.lookup_foldl_trackTx hrow
    · obtain ⟨k, hk⟩ := mem_values.mp hmem
      exact h.tracked k row hk
    · cases hrow

end moves

/-! ## Runs -/

section runs
variable {config : Config} {times : BlockTimes} {start now : BitVec 64}

theorem dated_step {server : Server} {input : Input} (horderly : Orderly times start now input)
    (h : (server.stage .searching).Dated times start now) :
    ((config.step server input).2.stage .searching).Dated times start now := by
  obtain ⟨server', phase, h', ⟨-, hstep⟩ | ⟨-, hstep⟩⟩ := (stable_dated horderly).step h
  · rw [hstep]
    exact ⟨h'.db, h'.memory, h'.pruned⟩
  · rw [hstep]
    exact h'.db.restart h'.pruned

theorem hasFinalized_step {server : Server} {input : Input} {x : PegoutId}
    (hreset : ∀ pegouts, input.request ≠ .resetWalletState pegouts)
    (h : server.db.HasFinalized x) : (config.step server input).2.db.HasFinalized x := by
  have hstable : Stable config input fun c => c.db.HasFinalized x := stable_hasFinalized hreset x
  obtain ⟨server', phase, h', ⟨-, hstep⟩ | ⟨-, hstep⟩⟩ := hstable.step h
  · rw [hstep]
    exact h'
  · rw [hstep]
    exact h'

/-- The authority refuses a pegout whose block has expired. -/
theorem validatePsbtIdByMaximumCutoffAge_ne_ok {client : Client} {x : PegoutId}
    (hclient : client.Agrees times) (hnow : client.now = some now) (hexpired : times.Expired now x) :
    validatePsbtIdByMaximumCutoffAge client x ≠ .ok () := by
  intro h
  obtain ⟨block, hblock, h₁⟩ := bind_eq_ok.mp h
  obtain ⟨number, hnumber, h₂⟩ := bind_eq_ok.mp h₁
  obtain ⟨header, hheader, h₃⟩ := bind_eq_ok.mp h₂
  obtain ⟨time, htime, h₄⟩ := bind_eq_ok.mp h₃
  rw [ofExcept_eq_ok] at hblock hheader
  rw [ofOption_eq_ok] at hnumber htime
  subst hnumber htime
  have hlt := hexpired time (hclient x number time hblock hheader)
  rw [ensure_eq_ok, hnow] at h₄
  have hage : now.toNat - maxBlockTsCutoffDurationSecs < time.toNat := of_decide_eq_true h₄
  have hwindow : maxBlockTsCutoffDurationSecs = Db.retentionWindowSeconds := rfl
  omega

/-- Once a pegout is final, no PSBT that pays it is accepted by the server and by the
authority. -/
theorem finalized_never_accepted {db : Db} (hdated : db.Dated times start) (hlog : db.pruneLog = [])
    {h : ServerHistory} {server : Server} (hrun : Run config.step (config.start db) h server)
    (hmeets : Meets (fun _ _ input => Orderly times start now input) h) {x : PegoutId}
    (hfinal : server.db.HasFinalized x ∨ ∃ t ∈ h, t.pre.db.HasFinalized x) {psbt : Psbt}
    (hpays : x ∈ psbt.paidIds) {client : Client} (hclient : client.Agrees times)
    (hnow : client.now = some now) :
    ¬ ((validateOutputs config.btc config.lib psbt server.db).1 = .ok () ∧
      validatePsbtIdByMaximumCutoffAge client x = .ok ()) := by
  have hinv := hrun.invariant
    (I := fun h server => (server.stage .searching).Dated times start now ∧
      ∀ t ∈ h, t.pre.db.HasFinalized x → server.db.HasFinalized x)
    ⟨hdated.restart fun _ hx => absurd (hlog ▸ hx) not_mem_nil,
      fun _ ht => absurd ht not_mem_nil⟩
    (fun h server input _ hi horderly => ⟨dated_step horderly hi.1, fun t ht hx => by
      refine hasFinalized_step horderly.noReset ?_
      rcases mem_cons.mp ht with rfl | ht
      · exact hx
      · exact hi.2 t ht hx⟩) hmeets
  have hx : server.db.HasFinalized x := hfinal.elim id fun ⟨t, ht, hx⟩ => hinv.2 t ht hx
  rintro ⟨houtputs, hage⟩
  rcases hx with hx | hx
  · exact validateOutputs_ne_ok hpays hx houtputs
  · exact validatePsbtIdByMaximumCutoffAge_ne_ok hclient hnow (hinv.1.pruned x hx) hage

end runs

/-! ## A record without a time

Two payments confirm three months apart.  The first time the server finalizes a block it
meets a record without a time, the second time the record is past the window. -/

def firstPaid : Block :=
  ⟨⟨1, genesisHash, 0xd9835c192d4c3ae1aea7cf35180461382dd886a12159b905b67b99ed5e0fac24, 1700000600,
    0x207fffff, 0⟩, [coinbase 1, payment firstCoin]⟩

def firstPaidHash : BlockHash := 0x264e68e62ada86af1dee713c947dcd4add849d46c4654a9246d9e36d06408eeb

def firstTip : Block :=
  ⟨⟨1, firstPaidHash, 0x658bf685a12daecf97437eabfb3965f88fe86f99a9fc022b8087be7b83f33c98, 1700001200,
    0x207fffff, 0⟩, [coinbase 2]⟩

def firstTipHash : BlockHash := 0x12fdf2982ffce838241bd105011bdd299dc7551f5c0b9479c66c490f79b40530

def secondPaid : Block :=
  ⟨⟨1, firstTipHash, 0xc52b6a0d6c1b5ec521482c1c0969d29dbf036f43702f9188457d88aaba42148a, 1707778000,
    0x207fffff, 0⟩, [coinbase 3, payment secondCoin]⟩

def secondPaidHash : BlockHash := 0x45e79fbcdafc9aeaff1aaaa5124f94e6c4177ddceb21eda78831e77ec13d2f9a

def secondTip : Block :=
  ⟨⟨1, secondPaidHash, 0x7df998065247ac85c12ee897a8926ea09277edb2e7e3c555743640b9270686da, 1707778600,
    0x207fffff, 0⟩, [coinbase 4]⟩

def secondTipHash : BlockHash := 0x440608a4a02a90bf0b60a2dfa0bd255bf81d1ff731f2c97ec53b9a385edb7bfe

/-- The hashes of these blocks. -/
def seasonBitcoin : BitcoinLib where
  blockHash header :=
    if header = genesis.header then genesisHash
    else if header = firstPaid.header then firstPaidHash
    else if header = firstTip.header then firstTipHash
    else if header = secondPaid.header then secondPaidHash
    else if header = secondTip.header then secondTipHash
    else 0
  computeTxid := federationBitcoin.computeTxid
  extractMatches := federationBitcoin.extractMatches
  isOnCurve := federationBitcoin.isOnCurve

/-- A signer that finalizes a block with its first descendant. -/
def seasonSigner : Config :=
  { firstSigner with btc := seasonBitcoin, confWindow := 1, fallbackCheckpoint := genesisHash }

/-- The row of a payment of one pegout. -/
def paymentRow (coin : OutPoint) (id : PegoutId) (created : Nat) : Tx :=
  ⟨federationBitcoin.computeTxid (payment coin), payment coin, [0],
    [⟨id, p2tr 9, 90000, 1, some 1700000000⟩], [], created * nanosPerSec⟩

/-- The pegout is final, from the days when records had no time; two other payments are on
their way. -/
def undatedDb : Db :=
  { freshDb with
    trackedTxs := FinMap.ofList
      ([paymentRow firstCoin ⟨0xb1, 0⟩ 1700000000, paymentRow secondCoin ⟨0xb2, 0⟩ 1700001000].map
        fun row => (row.txid, row))
    finalizedPegoutIds := FinMap.ofList [(samplePegoutId, ⟨samplePegoutId, 1, none⟩)]
    pegoutMgrTip := some genesisHash }

/-- The checkpoint at the first payment. -/
def firstCheckpoint : Input :=
  ⟨.newConsensusCheckpoint firstPaidHash [] [],
    (⟨0, [genesis, firstPaid, firstTip], [], [firstCoin, secondCoin], [payment secondCoin],
      1700001210 * nanosPerSec⟩ : Node).steady seasonBitcoin, 10⟩

/-- The checkpoint at the second payment. -/
def secondCheckpoint : Input :=
  ⟨.newConsensusCheckpoint secondPaidHash [] [],
    (⟨0, [genesis, firstPaid, firstTip, secondPaid, secondTip], [], [firstCoin, secondCoin], [],
      1707779010 * nanosPerSec⟩ : Node).steady seasonBitcoin, 10⟩

/-- The run on both. -/
def season : ServerHistory × Server :=
  play seasonSigner.step (seasonSigner.start undatedDb) [secondCheckpoint, firstCheckpoint]

/-- The times of the blocks: that of the sample pegout's, and one for the others. -/
def seasonTimes (time : BitVec 64) : BlockTimes := fun id =>
  some (if id.txid = samplePegoutId.txid then time else 1700000000)

/-- The authority's database with these times, at the end of the season. -/
def seasonClient (time : BitVec 64) : Client where
  receiptByHash _ := .ok none
  transactionBlock txid := .ok (some (if txid = samplePegoutId.txid then 2 else 1))
  headerTimestamp number := .ok (some (if number = 2 then time else 1700000000))
  now := some 1707779010

theorem seasonClient_agrees (time : BitVec 64) : (seasonClient time).Agrees (seasonTimes time) := by
  rintro id number t ⟨⟩ ⟨⟩
  by_cases h : id.txid = samplePegoutId.txid <;> simp [seasonTimes, h]

/-- An entry of the sample tables is dated if its block's time is before the start. -/
theorem undatedDb_dated {time start : BitVec 64}
    (h : (seasonTimes time).Dates start samplePegoutId none) :
    undatedDb.Dated (seasonTimes time) start := by
  refine ⟨every_empty, fun k row hrow => ?_, fun k p hp => ?_⟩
  · have hvalues : undatedDb.trackedTxs.values = [paymentRow firstCoin ⟨0xb1, 0⟩ 1700000000,
        paymentRow secondCoin ⟨0xb2, 0⟩ 1700001000] := by decide +kernel
    have hmem := hvalues ▸ mem_values.mpr ⟨k, hrow⟩
    simp only [mem_cons, not_mem_nil, or_false] at hmem
    rcases hmem with rfl | rfl <;> simp [paymentRow, BlockTimes.Dates, seasonTimes, samplePegoutId]
  · have hvalues : undatedDb.finalizedPegoutIds.values = [⟨samplePegoutId, 1, none⟩] := by
      decide +kernel
    have hmem := hvalues ▸ mem_values.mpr ⟨k, hp⟩
    rw [mem_singleton] at hmem
    rw [hmem]
    exact h

/-- A checkpoint without pegouts is orderly while the clock stands within the season. -/
theorem checkpoint_orderly {node : Node} {checkpoint : BlockHash} {fuel : Nat} (time : BitVec 64)
    (hnow : (1700001210 : BitVec 64).toNat ≤ node.now / nanosPerSec ∧
      node.now / nanosPerSec ≤ (1707779010 : BitVec 64).toNat) :
    Orderly (seasonTimes time) 1700001210 1707779010
      ⟨.newConsensusCheckpoint checkpoint [] [], node.steady seasonBitcoin, fuel⟩ where
  noReset := nofun
  clock _ := hnow
  delivered := by
    rintro _ _ _ ⟨⟩
    exact ⟨[], 0, 0, rfl, fun _ hp => absurd hp not_mem_nil⟩

theorem season_orderly (time : BitVec 64) :
    Meets (fun _ _ input => Orderly (seasonTimes time) 1700001210 1707779010 input) season.1 := by
  have hfirst : Orderly (seasonTimes time) 1700001210 1707779010 firstCheckpoint :=
    checkpoint_orderly time (by decide +kernel)
  have hsecond : Orderly (seasonTimes time) 1700001210 1707779010 secondCheckpoint :=
    checkpoint_orderly time (by decide +kernel)
  exact ⟨hsecond, hfirst, trivial⟩

theorem season_run : Run seasonSigner.step (seasonSigner.start undatedDb) season.1 season.2 :=
  Run.play [secondCheckpoint, firstCheckpoint]

/-- The PSBT pays the pegout again; the server no longer knows it. -/
theorem season_validateOutputs :
    (validateOutputs seasonSigner.btc seasonSigner.lib (paymentPsbt secondCoin []) season.2.db).1 =
      .ok () := by
  decide +kernel

/-- The block is from an hour after the first pruning, as the clock has it: when the record is
pruned the authority still accepts the pegout. -/
theorem stamped_record_reopens :
    ∃ times h server client psbt,
      undatedDb.Dated times 1700004810 ∧ undatedDb.HasFinalized samplePegoutId ∧
      Run seasonSigner.step (seasonSigner.start undatedDb) h server ∧
      Meets (fun _ _ input => Orderly times 1700001210 1707779010 input) h ∧
      samplePegoutId ∈ psbt.paidIds ∧ client.Agrees times ∧ client.now = some 1707779010 ∧
      (validateOutputs seasonSigner.btc seasonSigner.lib psbt server.db).1 = .ok () ∧
      validatePsbtIdByMaximumCutoffAge client samplePegoutId = .ok () := by
  have hdates : (seasonTimes 1700004810).Dates 1700004810 samplePegoutId none := by decide +kernel
  have hfinal : samplePegoutId ∈ undatedDb.finalizedPegoutIds := by decide +kernel
  have hpays : samplePegoutId ∈ (paymentPsbt secondCoin []).paidIds := by decide +kernel
  have hage : validatePsbtIdByMaximumCutoffAge (seasonClient 1700004810) samplePegoutId = .ok () := by
    decide +kernel
  exact ⟨seasonTimes 1700004810, season.1, season.2, seasonClient 1700004810,
    paymentPsbt secondCoin [], undatedDb_dated hdates, .inl hfinal, season_run, season_orderly _,
    hpays, seasonClient_agrees _, rfl, season_validateOutputs, hage⟩

/-- With a block from before the first pruning the authority refuses it. -/
theorem passed_block_stays_closed :
    samplePegoutId ∈ season.2.db.pruneLog ∧
      ¬ ((validateOutputs seasonSigner.btc seasonSigner.lib (paymentPsbt secondCoin [])
          season.2.db).1 = .ok () ∧
        validatePsbtIdByMaximumCutoffAge (seasonClient 1700000600) samplePegoutId = .ok ()) := by
  have hdates : (seasonTimes 1700000600).Dates 1700001210 samplePegoutId none := by decide +kernel
  have hpays : samplePegoutId ∈ (paymentPsbt secondCoin []).paidIds := by decide +kernel
  have hpruned : samplePegoutId ∈ season.2.db.pruneLog := by decide +kernel
  exact ⟨hpruned, finalized_never_accepted (undatedDb_dated hdates) rfl season_run
    (season_orderly 1700000600) (.inl (.inr hpruned)) hpays (seasonClient_agrees _) rfl⟩

end Macbeth
