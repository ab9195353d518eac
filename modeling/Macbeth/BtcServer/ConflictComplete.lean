import Macbeth.BtcServer.App

/-!
# The coordinator's PSBT passes its own check (`attempt_make_tx`)

The coordinator makes the first input of every tracked transaction that delivers one of the
pegouts a required coin of the new transaction.  Then it builds the PSBT, which may drop
pegouts below the dust limit, and validates it.  The validator derives the conflict condition
again, from the table and the PSBT.

`built_psbt_conflicts` is that the two agree: the required coins are spent, so a tracked
transaction that pays a pegout of the PSBT shares an input with it.  With the key package in
the database and its script for the change, all that validation can still object to is the
fee or a pegout that is final.
-/

namespace Macbeth

open Checked Outcome List FinMap

/-! ## What the built PSBT holds -/

section built
variable {checks : Bool} {selected : List InputDTO} {kept : List (TxOut × PegoutId)}
  {script : ScriptBuf} {feeRate : FeeRate} {fee : Amount} {fees : List Amount} {change : Amount}
  {psbt : Psbt}

/-- Taking a share leaves the id. -/
theorem ids_afterFee : ∀ {pegouts : List Pegout} {fees : List Amount},
    fees.length = pegouts.length →
    (List.zipWith Pegout.afterFee pegouts fees).map (·.2) = pegouts.map (·.2)
  | [], _, _ => rfl
  | p :: pegouts, fee :: fees, hlen => by
    rw [zipWith_cons_cons, map_cons, map_cons, ids_afterFee (by simpa using hlen)]
    rfl

/-- The outputs of the built PSBT: the ids of the kept pegouts, then the change. -/
theorem BuiltFrom.outputs
    (h : BuiltFrom checks selected (toPegouts kept) script feeRate fee fees change psbt) :
    psbt.outputs = kept.map (fun o => PsbtOutput.empty.setPegoutId o.2.asBytes) ++
      [PsbtOutput.empty] := by
  have hids := ids_afterFee (calculateFeeDistribution_eq_ok h.shared).1
  have hmap : (zipWith Pegout.afterFee (toPegouts kept) fees).map
      (fun o => PsbtOutput.empty.setPegoutId o.2) =
      kept.map fun o => PsbtOutput.empty.setPegoutId o.2.asBytes := by
    have := congrArg (List.map PsbtOutput.empty.setPegoutId) hids
    simpa [toPegouts, Function.comp_def] using this
  rw [h.psbt_eq, outputs_createPsbt, hmap]
  rfl

theorem BuiltFrom.pegoutIds
    (h : BuiltFrom checks selected (toPegouts kept) script feeRate fee fees change psbt) :
    psbt.pegoutIds = kept.map fun o => o.2.asBytes := by
  rw [Psbt.pegoutIds, h.outputs, filterMap_append, filterMap_map]
  simp

theorem mapM_fromBytes_asBytes : ∀ kept : List (TxOut × PegoutId),
    (kept.map fun o => o.2.asBytes).mapM PegoutId.fromBytes = some (kept.map (·.2))
  | [] => rfl
  | o :: kept => by
    rw [map_cons, mapM_cons, PegoutId.fromBytes_asBytes, mapM_fromBytes_asBytes kept]
    rfl

theorem BuiltFrom.parsedPegoutIds {ε : Type} {e : ε}
    (h : BuiltFrom checks selected (toPegouts kept) script feeRate fee fees change psbt) :
    psbt.parsedPegoutIds e = .ok (kept.map (·.2)) := by
  rw [Psbt.parsedPegoutIds, h.pegoutIds, mapM_ofOption_eq_ok]
  exact mapM_fromBytes_asBytes kept

/-- It spends the selected coins. -/
theorem BuiltFrom.inputs
    (h : BuiltFrom checks selected (toPegouts kept) script feeRate fee fees change psbt) :
    psbt.unsignedTx.inputs = selected.map (·.outpoint) := by
  rw [h.psbt_eq, Transaction.inputs]
  simp [createPsbt, Psbt.fromUnsignedTx]

/-- Its last output is the change. -/
theorem BuiltFrom.txOutputs
    (h : BuiltFrom checks selected (toPegouts kept) script feeRate fee fees change psbt) :
    psbt.unsignedTx.output.length = kept.length + 1 ∧
      psbt.unsignedTx.output[kept.length]? = some ⟨change, script⟩ := by
  have hlen : (zipWith Pegout.afterFee (toPegouts kept) fees).length = kept.length := by
    rw [length_zipWith, (calculateFeeDistribution_eq_ok h.shared).1, Nat.min_self,
      length_toPegouts]
  rw [h.psbt_eq, output_createPsbt]
  constructor
  · rw [length_append, length_map, hlen]
    rfl
  · rw [getElem?_append_right (by rw [length_map, hlen]), length_map, hlen]
    simp

/-- It has an input: the pegouts it pays are above the dust limit and the inputs cover them. -/
theorem BuiltFrom.inputs_ne_nil
    (h : BuiltFrom checks selected (toPegouts kept) script feeRate fee fees change psbt)
    (hspendable : ∀ o ∈ kept, isOpReturn o.1.scriptPubkey = false) {paid : Amount}
    (hpaid : psbt.fee = .ok paid) : psbt.inputs ≠ [] := by
  obtain ⟨hlen, -⟩ := calculateFeeDistribution_eq_ok h.shared
  obtain ⟨_, hkept, -⟩ := bind_eq_ok.mp h.shared
  have hkept : (toPegouts kept).length ≠ 0 := ensure_eq_ok.mp hkept
  rw [h.psbt_eq, fee_createPsbt] at hpaid
  rw [h.psbt_eq, inputs_createPsbt]
  intro hnil
  rw [map_eq_nil_iff] at hnil
  subst hnil
  -- without inputs all outputs are worth nothing, the first pegout among them
  obtain ⟨-, hsum⟩ := hpaid
  cases kept with
  | nil => exact hkept rfl
  | cons o kept =>
    cases fees with
    | nil => simp [toPegouts] at hlen
    | cons share fees =>
      have hviable := h.viable _ mem_cons_self
      have hdust := minimalNonDust_pos (hspendable o mem_cons_self)
      have hvalue := of_decide_eq_true hviable
      simp only [toPegouts, map_cons, zipWith_cons_cons, cons_append, natSum_cons,
        map_nil] at hsum
      have hzero : natSum ([] : List Amount) = 0 := rfl
      have hvalue : minimalNonDust o.1.scriptPubkey ≤
        (Pegout.afterFee (o.1, o.2.asBytes) share).1.value.toNat := hvalue
      omega

end built

/-! ## The required coins are spent -/

section selection
variable {algorithm : CoinSelectionAlgorithm} {optionalUtxos requiredUtxos : FinMap OutPoint Utxo}
  {pegouts : List Pegout} {feeRate : FeeRate} {script : ScriptBuf} {selected : List InputDTO}

/-- The algorithm selects all required coins. -/
def CoinSelectionAlgorithm.TakesRequired (algorithm : CoinSelectionAlgorithm) : Prop :=
  ∀ required optionals feeRate target script selection,
    algorithm required optionals feeRate target script = .ok selection →
    ∀ utxo ∈ required, utxo.outpoint ∈ selection

theorem outpoint_mem_of_selectInputs (htakes : algorithm.TakesRequired)
    (hoptional : optionalUtxos.KeyedBy (·.outpoint)) (hrequired : requiredUtxos.KeyedBy (·.outpoint))
    (h : selectInputs algorithm optionalUtxos requiredUtxos pegouts feeRate script = .ok selected)
    {op : OutPoint} (hop : op ∈ requiredUtxos) : op ∈ selected.map (·.outpoint) := by
  obtain ⟨_, -, h⟩ := bind_eq_ok.mp h
  obtain ⟨_, -, h⟩ := bind_eq_ok.mp h
  obtain ⟨_, -, h⟩ := bind_eq_ok.mp h
  obtain ⟨_, -, h⟩ := bind_eq_ok.mp h
  obtain ⟨_, -, h⟩ := bind_eq_ok.mp h
  obtain ⟨_, -, h⟩ := bind_eq_ok.mp h
  obtain ⟨_, -, h⟩ := bind_eq_ok.mp h
  obtain ⟨selection, hselection, h⟩ := bind_eq_ok.mp h
  obtain rfl := Outcome.ok.inj h
  obtain ⟨utxo, hutxo⟩ := mem_iff_lookup.mp hop
  have hkey : utxo.outpoint = op := hrequired op utxo hutxo
  have hmem : op ∈ selection := hkey ▸ htakes _ _ _ _ _ _ (ofExcept_eq_ok.mp hselection) utxo
    (mem_values.mpr ⟨op, hutxo⟩)
  -- the record under the outpoint, in either map, names it
  obtain ⟨coin, hcoin, hname⟩ : ∃ coin, (optionalUtxos.lookup op).or (requiredUtxos.lookup op) =
      some coin ∧ coin.outpoint = op := by
    cases hopt : optionalUtxos.lookup op with
    | some coin => exact ⟨coin, rfl, hoptional op coin hopt⟩
    | none => exact ⟨utxo, hutxo, hkey⟩
  rw [map_map, mem_map]
  exact ⟨coin, mem_filterMap.mpr ⟨op, hmem, hcoin⟩, hname⟩

end selection

section conflicting
variable {utxos conflicting : FinMap OutPoint Utxo} {trackedTxs : List Tx} {ids : List PegoutId}

/-- The first input of every tracked transaction that delivers one of the pegouts is among
the conflicting coins, each under its outpoint. -/
theorem conflictingUtxos_eq_ok (hutxos : utxos.KeyedBy (·.outpoint))
    (h : conflictingUtxos utxos trackedTxs ids = .ok conflicting) :
    conflicting.KeyedBy (·.outpoint) ∧
      ∀ tx ∈ trackedTxs, tx.pegoutIds.any (ids.contains ·) = true →
        ∃ op ∈ tx.inputs, op ∈ conflicting := by
  obtain ⟨inputs, hinputs, h⟩ := bind_eq_ok.mp h
  obtain ⟨coins, hcoins, h⟩ := bind_eq_ok.mp h
  obtain rfl := Outcome.ok.inj h
  obtain ⟨hlength, hzip⟩ := forall₂_iff_zip.mp (mapM_eq_ok.mp hcoins)
  constructor
  · intro op utxo hutxo
    have hpair := hzip (mem_of_lookup_ofList hutxo)
    exact hutxos op utxo (ofOption_eq_ok.mp hpair)
  · intro tx htx hmatches
    obtain ⟨op, hop, hhead⟩ := (exists_of_mapM_eq_ok hinputs).2 tx
      (mem_filter.mpr ⟨htx, hmatches⟩)
    obtain ⟨i, hi, rfl⟩ := getElem_of_mem hop
    have hpair : (inputs[i], coins[i]) ∈ inputs.zip coins := by
      rw [← getElem_zip (h := by simpa [hlength] using hlength ▸ hi)]
      exact getElem_mem _
    refine ⟨inputs[i], mem_of_head? (ofOption_eq_ok.mp hhead), ?_⟩
    exact mem_iff_lookup.mpr (exists_lookup_ofList hpair)

end conflicting

/-! ## Validation -/

section validation
variable {btc : BitcoinLib} {lib : SigningLib} {db : Db} {psbt : Psbt}

open Handler

theorem collectOutputs_ids (rest : List (PsbtOutput × Nat)) :
    ∀ (ids : List PegoutId) (k : Nat) (acc : List PegoutId),
      collectOutputs ((ids.map fun id => PsbtOutput.empty.setPegoutId id.asBytes).zipIdx k ++ rest)
        acc none = collectOutputs rest (acc ++ ids) none
  | [], k, acc => by simp
  | id :: ids, k, acc => by
    rw [map_cons, zipIdx_cons, cons_append, collectOutputs,
      PsbtOutput.pegoutId_setPegoutId]
    simp only [PegoutId.fromBytes_asBytes, ofOption, ok_bind]
    rw [collectOutputs_ids rest ids (k + 1) (acc ++ [id]), append_assoc, singleton_append]

/-- The loop over the ids ends at the first final one, or has seen none. -/
theorem forM_rejectFinalized_cases : ∀ ids : List PegoutId,
    ids.forM (rejectFinalized db) db = (.ok (), db) ∨
      ∃ id db', ids.forM (rejectFinalized db) db = (.err (.alreadyFinalizedPegouts [id]), db')
  | [] => .inl rfl
  | id :: ids => by
    show (rejectFinalized db id >>= fun _ => ids.forM (rejectFinalized db)) db = _ ∨ _
    by_cases hfinal : db.finalizedIds.contains id = true
    · refine .inr ⟨id, db.removePendingPegout [id], ?_⟩
      show (rejectFinalized db id >>= fun _ => ids.forM (rejectFinalized db)) db = _
      simp only [rejectFinalized, hfinal, if_true, bind_run, update_run, fail_run]
    · have hhead : rejectFinalized db id db = (.ok (), db) := by
        rw [rejectFinalized, if_neg hfinal]
        rfl
      have hrun : (rejectFinalized db id >>= fun _ => ids.forM (rejectFinalized db)) db =
          ids.forM (rejectFinalized db) db := by
        rw [bind_run, hhead]
      rw [hrun]
      obtain h | ⟨id', db', h⟩ := forM_rejectFinalized_cases ids
      · exact .inl h
      · refine .inr ⟨id', db', ?_⟩
        show (rejectFinalized db id >>= fun _ => ids.forM (rejectFinalized db)) db = _
        rw [hrun, h]

/-- Outputs in the builder's form are refused only for a final pegout. -/
theorem validateOutputs_cases {pk : VerifyingKey} {ids : List PegoutId} {idx : Nat} {out : TxOut}
    (hlength : psbt.outputs.length = psbt.unsignedTx.output.length)
    (hpk : db.publicKeyPackage = some pk)
    (hcollect : collectOutputs psbt.outputs.zipIdx [] none = .ok (ids, some idx))
    (hnodup : ids.Nodup) (hscript : changeScript btc lib pk = some out.scriptPubkey)
    (hout : psbt.unsignedTx.output[idx]? = some out) :
    validateOutputs btc lib psbt db = (.ok (), db) ∨
      ∃ id db', validateOutputs btc lib psbt db = (.err (.alreadyFinalizedPegouts [id]), db') := by
  have hensure {c : Prop} [Decidable c] {e : ValidateOutputsError} (h : c) :
      ensure c e = .ok () := ensure_eq_ok.mpr h
  have hoption {α : Type} {x : Option α} {a : α} {e : ValidateOutputsError} (h : x = some a) :
      ofOption x e = .ok a := ofOption_eq_ok.mpr h
  simp only [validateOutputs, bind_run, get_run, lift_run, hensure hlength, hoption hpk, hcollect]
  obtain h | ⟨id, db', h⟩ := @forM_rejectFinalized_cases db ids
  · left
    simp only [h, hensure hnodup, hscript, Handler.expect, lift_run, hoption hout]
    rw [hensure trivial]
  · right
    exact ⟨id, db', by simp only [h]⟩

/-- What the sanity checks can still object to. -/
def ValidatePSBTError.Expected : ValidatePSBTError → Prop
  | .feeSanityCheck .. | .invalidOutputs (.alreadyFinalizedPegouts _) => True
  | _ => False

theorem validatePsbt_noFlags_cases {minSigners : Nat} {paid : Amount}
    (hinputs : psbt.inputs ≠ []) (hconflicts : hasConflictingInput db psbt = .ok ())
    (houtputs : psbt.outputs ≠ [])
    (hvalid : validateOutputs btc lib psbt db = (.ok (), db) ∨
      ∃ id db', validateOutputs btc lib psbt db = (.err (.alreadyFinalizedPegouts [id]), db'))
    (hpaid : psbt.fee = .ok paid) :
    (validatePsbt btc lib psbt noFlags minSigners db).1 = .ok () ∨
      ∃ e, (validatePsbt btc lib psbt noFlags minSigners db).1 = .err e ∧ e.Expected := by
  have hensure {c : Prop} [Decidable c] {e : ValidatePSBTError} (h : c) :
      ensure c e = .ok () := ensure_eq_ok.mpr h
  have hrefuse {c : Prop} [Decidable c] {e : ValidatePSBTError} (h : ¬ c) :
      ensure c e = .err e := if_neg h
  obtain hvalid | ⟨id, db', hvalid⟩ := hvalid
  · by_cases hfee : paid.toNat ≤ (totalOutputsAmount psbt).toNat
    · left
      simp only [validatePsbt, bind_run, get_run, lift_run, hensure hinputs, hconflicts, mapErr,
        hensure houtputs, Handler.zoom, hvalid, sanityFee, hpaid, hensure hfee, id, if_true,
        pure_run]
    · right
      refine ⟨.feeSanityCheck paid (totalOutputsAmount psbt), ?_, trivial⟩
      simp only [validatePsbt, bind_run, get_run, lift_run, hensure hinputs, hconflicts, mapErr,
        hensure houtputs, Handler.zoom, hvalid, sanityFee, hpaid, id]
      rw [hrefuse hfee]
  · right
    refine ⟨.invalidOutputs (.alreadyFinalizedPegouts [id]), ?_, trivial⟩
    simp only [validatePsbt, bind_run, get_run, lift_run, hensure hinputs, hconflicts, mapErr,
      hensure houtputs, Handler.zoom, hvalid, id_eq]

end validation

/-! ## The coordinator -/

/-- The coins `attempt_make_tx` offers besides the conflicting ones. -/
def optionalUtxos (config : MakeTxConfig) (db : Db) : FinMap OutPoint Utxo :=
  (filterExcludedUtxos db.utxos config.excludedEthAddresses).filter
    fun op _ => !(db.getTrackedTxs.flatMap Tx.inputs).contains op

section coordinator
variable {btc : BitcoinLib} {lib : SigningLib} {minSigners : Nat} {config : MakeTxConfig} {db : Db}
  {outputs : List (TxOut × PegoutId)} {feeRate : FeeRate} {script : ScriptBuf}
  {conflicting : FinMap OutPoint Utxo} {psbt : Psbt}

theorem keyedBy_optionalUtxos (h : db.utxos.KeyedBy (·.outpoint)) :
    (optionalUtxos config db).KeyedBy (·.outpoint) := by
  refine FinMap.KeyedBy.filter ?_ _
  unfold filterExcludedUtxos
  split
  · exact h
  · exact h.filter _

/-- A tracked transaction that pays a pegout of the built PSBT shares an input with it. -/
theorem built_psbt_conflicts (hutxos : db.utxos.KeyedBy (·.outpoint))
    (htakes : config.algorithm.TakesRequired)
    (hconflicting : conflictingUtxos db.utxos db.getTrackedTxs (outputs.map (·.2)) =
      .ok conflicting)
    {selected : List InputDTO} {kept : List (TxOut × PegoutId)} {fee : Amount} {fees : List Amount}
    {change : Amount} {checks : Bool}
    (hselected : selectInputs config.algorithm (optionalUtxos config db) conflicting
      (toPegouts outputs) feeRate script = .ok selected)
    (hkept : List.Sublist kept outputs)
    (hbuilt : BuiltFrom checks selected (toPegouts kept) script feeRate fee fees change psbt) :
    ∀ tx ∈ db.getTrackedTxs, (∃ x ∈ tx.pegoutIds, x ∈ kept.map (·.2)) →
      ∃ op ∈ tx.inputs, op ∈ psbt.unsignedTx.inputs := by
  obtain ⟨hkeyed, hrequired⟩ := conflictingUtxos_eq_ok hutxos hconflicting
  rintro tx htx ⟨x, hx, hpaid⟩
  -- what the PSBT pays it was asked to pay
  have hasked : x ∈ outputs.map (·.2) := (hkept.map _).subset hpaid
  obtain ⟨op, hop, hmem⟩ := hrequired tx htx
    (any_eq_true.mpr ⟨x, hx, contains_iff_mem.mpr hasked⟩)
  refine ⟨op, hop, ?_⟩
  rw [hbuilt.inputs]
  exact outpoint_mem_of_selectInputs htakes (keyedBy_optionalUtxos hutxos) hkeyed hselected hmem

theorem validate_built_psbt (hutxos : db.utxos.KeyedBy (·.outpoint))
    {pk : VerifyingKey} (hpk : db.publicKeyPackage = some pk)
    (hscript : changeScript btc lib pk = some script) (hids : (outputs.map (·.2)).Nodup)
    (hspendable : ∀ o ∈ outputs, isOpReturn o.1.scriptPubkey = false)
    (htakes : config.algorithm.TakesRequired)
    (hconflicting : conflictingUtxos db.utxos db.getTrackedTxs (outputs.map (·.2)) =
      .ok conflicting)
    (hpsbt : coinSelection config.checks config.algorithm (optionalUtxos config db) conflicting
      outputs feeRate script = .ok psbt) :
    ((validatePsbt btc lib psbt noFlags minSigners db).1 = .ok () ∨
      ∃ e, (validatePsbt btc lib psbt noFlags minSigners db).1 = .err e ∧ e.Expected) ∧
    ∀ tx ∈ db.getTrackedTxs, (∃ x ∈ tx.pegoutIds, x ∈ psbt.paidIds) →
      ∃ op ∈ tx.inputs, op ∈ psbt.unsignedTx.inputs := by
  obtain ⟨selected, kept, fee, fees, change, paid, hselected, hkept, -, -, hbuilt, hpaid⟩ :=
    coinSelection_eq_ok hpsbt
  have hshares := built_psbt_conflicts hutxos htakes hconflicting hselected hkept hbuilt
  have hpaidIds : psbt.paidIds = kept.map (·.2) := by
    refine Psbt.paidIds_eq ?_
    rw [hbuilt.pegoutIds]
    exact mapM_fromBytes_asBytes kept
  rw [hpaidIds]
  refine ⟨?_, hshares⟩
  have hconflicts : hasConflictingInput db psbt = .ok () := by
    rw [hasConflictingInput, hbuilt.parsedPegoutIds, ok_bind, forM_eq_ok]
    intro tx htx
    by_cases hmatches : tx.pegoutIds.any ((kept.map (·.2)).contains ·) = true
    · obtain ⟨x, hx, hcontains⟩ := any_eq_true.mp hmatches
      obtain ⟨op, hop, hmem⟩ := hshares tx htx ⟨x, hx, contains_iff_mem.mp hcontains⟩
      rw [if_pos hmatches, ensure_eq_ok]
      exact any_eq_true.mpr ⟨op, hop, contains_iff_mem.mpr hmem⟩
    · rw [if_neg hmatches]
  obtain ⟨hlength, hchange⟩ := hbuilt.txOutputs
  have hcollect : collectOutputs psbt.outputs.zipIdx [] none =
      .ok (kept.map (·.2), some kept.length) := by
    have hmap : kept.map (fun o => PsbtOutput.empty.setPegoutId o.2.asBytes) =
        (kept.map (·.2)).map fun id => PsbtOutput.empty.setPegoutId id.asBytes := by simp
    rw [hbuilt.outputs, hmap, zipIdx_append, collectOutputs_ids]
    simp [collectOutputs]
  refine validatePsbt_noFlags_cases (hbuilt.inputs_ne_nil ?_ hpaid) hconflicts ?_ ?_ hpaid
  · exact fun o ho => hspendable o (hkept.subset ho)
  · rw [hbuilt.outputs]
    exact append_ne_nil_of_right_ne_nil _ (cons_ne_nil _ _)
  · refine validateOutputs_cases ?_ hpk hcollect (hids.sublist (hkept.map _)) hscript hchange
    rw [hlength, hbuilt.outputs]
    simp

end coordinator

/-! ## A pegout paid once more

A payment of the pegout is tracked, and the coin it spends is known. -/

/-- The record of the payment. -/
def trackedPayment : Tx :=
  ⟨federationBitcoin.computeTxid (payment firstCoin), payment firstCoin, [0],
    [⟨samplePegoutId, p2tr 9, 90000, 0, none⟩], [], 0⟩

def retriedDb : Db :=
  { freshDb with
    utxos := FinMap.insertNewAll ∅ (·.outpoint) [⟨firstCoin, ⟨100000, p2tr 7⟩, some 0x1234, 0⟩]
    trackedTxs := (∅ : FinMap Txid Tx).insert trackedPayment.txid trackedPayment }

def retriedOutputs : List (TxOut × PegoutId) := [(⟨90000, p2tr 9⟩, samplePegoutId)]

/-- The coin of the tracked payment. -/
def retriedConflicting : FinMap OutPoint Utxo :=
  (conflictingUtxos retriedDb.utxos retriedDb.getTrackedTxs (retriedOutputs.map (·.2))).getD ∅

/-- The PSBT built at a rate of one satoshi per virtual byte. -/
def retriedPsbt : Psbt :=
  (coinSelection true firstSigner.makeTx.algorithm (optionalUtxos firstSigner.makeTx retriedDb)
    retriedConflicting retriedOutputs 250 (p2tr 1)).getD (paymentPsbt firstCoin [])

/-- What the check reports of an attempt at that rate. -/
def attemptError (db : Db) (outputs : List (TxOut × PegoutId)) (script : ScriptBuf) :
    Option CoordinatorError :=
  (attemptMakeTx federationBitcoin fixedLengthSigning 2 firstSigner.makeTx outputs 250 script
    db.getTrackedTxs db).1.getErr?

end Macbeth
