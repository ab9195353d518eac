import Macbeth.Wallet.Conservation

/-!
# The sanity check on the change (`sanity_check_psbt`)

The builder ends with a check of its own work: the change must be worth what the inputs
exceed the gross pegouts by.  The check looks the change up by its script, and `create_psbt`
puts the pegouts first.  So a pegout to the change script is taken for the change.

* `refund_check_passes_iff` — which batches pass the check whatever the wallet and the fee
  rate are: those without a pegout to the change script that stays above the dust limit;
* `pegout_to_change_blocks` — a batch that a single such pegout blocks.

The second half builds the wallet that a blocked batch fails with.  It pays no fee and is a
few coins, the first of which holds all the value.
-/

namespace Macbeth

open Checked Outcome List Option BitVec Outcome

/-! ## Errors before the check -/

/-- The error of the check on the change. -/
def CoinSelectionError.IsBadRefund : CoinSelectionError → Prop
  | .sanityCheckError (.badRefundBalance _ _ _) => True
  | _ => False

section errors
variable {checks : Bool} {algorithm : CoinSelectionAlgorithm}
  {optionalUtxos requiredUtxos : FinMap OutPoint Utxo} {selectedInputs : List InputDTO}
  {pegouts : List Pegout} {feeRate : FeeRate} {changeScript : ScriptBuf}

/-- The errors the steps before the check can end with. -/
abbrev NoBadRefund {α : Type} (x : Outcome CoinSelectionError α) : Prop :=
  x.FailsIn fun e => ¬ e.IsBadRefund

theorem noBadRefund_sumWord (values : List Amount) :
    NoBadRefund (sumWord checks values) := by
  unfold sumWord
  split
  · exact failsIn_panic
  · exact failsIn_ok _

theorem noBadRefund_percentOf (percent amount : BitVec 64) :
    NoBadRefund (percentOf percent amount) :=
  (failsIn_ofOption id).bind fun _ _ => failsIn_ofOption id

theorem noBadRefund_selectInputs :
    NoBadRefund (selectInputs algorithm optionalUtxos requiredUtxos pegouts feeRate
      changeScript) := by
  refine (failsIn_ofOption id).bind fun _ _ => (failsIn_ofOption id).bind fun _ _ =>
    (failsIn_ofOption id).bind fun _ _ => (failsIn_ofOption id).bind fun _ _ =>
    (failsIn_ofOption id).bind fun _ _ => FailsIn.bind ?_ fun _ _ =>
    (failsIn_ofOption id).bind fun _ _ => ?_
  · exact (noBadRefund_percentOf _ _).bind fun _ _ =>
      (noBadRefund_percentOf _ _).bind fun _ _ => failsIn_ok _
  · exact (failsIn_ofExcept fun _ => id).bind fun _ _ => failsIn_ok _

theorem noBadRefund_createChange :
    NoBadRefund (createChange checks selectedInputs pegouts changeScript) :=
  (noBadRefund_sumWord _).bind fun _ _ => (noBadRefund_sumWord _).bind fun _ _ =>
    (failsIn_ofOption id).bind fun _ _ => failsIn_ok _

theorem noBadRefund_calculateRequiredFee {change : Option TxOut} :
    NoBadRefund (calculateRequiredFee selectedInputs pegouts change feeRate) :=
  (failsIn_mapErr fun _ => id).bind fun _ _ => failsIn_ofOption id

theorem noBadRefund_tryApplyFeesAndFilterDust {fee : Amount} :
    NoBadRefund (tryApplyFeesAndFilterDust pegouts fee) := by
  refine (failsIn_ensure id).bind fun _ _ => FailsIn.bind ?_ fun _ _ => ?_
  · refine (failsIn_ensure id).bind fun _ _ => (failsIn_ofOption id).bind fun _ _ =>
      failsIn_foldlM (fun fees i => ?_) _ _
    refine FailsIn.bind ?_ fun _ _ => (failsIn_ofOption id).bind fun _ _ => failsIn_ok _
    unfold index
    split
    · exact failsIn_ok _
    · exact failsIn_panic
  · dsimp only
    split_ifs
    · exact failsIn_ok _
    · exact failsIn_err id
    · exact failsIn_ok _

theorem noBadRefund_applyFeesAndCreatePsbt :
    NoBadRefund (applyFeesAndCreatePsbt checks selectedInputs pegouts changeScript feeRate) := by
  refine noBadRefund_createChange.bind fun _ _ => noBadRefund_calculateRequiredFee.bind fun _ _ =>
    noBadRefund_tryApplyFeesAndFilterDust.bind fun result _ => ?_
  cases result with
  | allRemaining _ => exact failsIn_ok _
  | someFiltered _ =>
    refine noBadRefund_createChange.bind fun _ _ => noBadRefund_calculateRequiredFee.bind
      fun _ _ => noBadRefund_tryApplyFeesAndFilterDust.bind fun result _ => ?_
    cases result with
    | allRemaining _ => exact failsIn_ok _
    | someFiltered _ => exact failsIn_err id

end errors

/-! ## Which pegouts can stay -/

/-- The ids of the pegouts that are dust before any fee. -/
def dustIds (pegouts : List Pegout) : List (List UInt8) :=
  (pegouts.filter (!Pegout.isViable ·)).map (·.2)

/-- The pegouts that stay when no fee is due. -/
def sturdyPegouts (pegouts : List Pegout) : List Pegout := withoutIds pegouts (dustIds pegouts)

theorem isViable_of_mem_sturdyPegouts {pegouts : List Pegout} {p : Pegout}
    (h : p ∈ sturdyPegouts pegouts) : p.isViable = true := by
  obtain ⟨hmem, hid⟩ := mem_filter.mp h
  by_contra hdust
  have : p.2 ∈ dustIds pegouts :=
    mem_map_of_mem (mem_filter.mpr ⟨hmem, by simpa using hdust⟩)
  simp [this] at hid

/-- A fee does not lift a pegout over its dust limit. -/
theorem Pegout.isViable_of_afterFee {p : Pegout} {fee : Amount}
    (h : (p.afterFee fee).isViable = true) : p.isViable = true := by
  unfold isViable afterFee at *
  cases hsub : checkedSub p.1.value fee with
  | none => simp [hsub] at h; simp [h]
  | some value =>
    have hle := checkedSub_eq_some.mp hsub
    simp [hsub] at h ⊢
    omega

section kept
variable {checks : Bool} {selectedInputs : List InputDTO} {pegouts kept : List Pegout}
  {feeRate : FeeRate} {changeScript : ScriptBuf} {fee : Amount}

/-- What is dust before the fee is dropped by the first pass. -/
theorem dustIds_subset_of_tryApply {ids : List (List UInt8)}
    (h : tryApplyFeesAndFilterDust pegouts fee = .ok (.someFiltered ids)) :
    ∀ id ∈ dustIds pegouts, id ∈ ids := by
  obtain ⟨-, -, h⟩ := bind_eq_ok.mp h
  obtain ⟨fees, hfees, h⟩ := bind_eq_ok.mp h
  have hlen := (calculateFeeDistribution_eq_ok hfees).1
  intro id hid
  obtain ⟨p, hp, rfl⟩ := mem_map.mp hid
  obtain ⟨hmem, hdust⟩ := mem_filter.mp hp
  obtain ⟨i, hi, rfl⟩ := mem_iff_getElem.mp hmem
  -- the same pegout, less its share
  have hafter : (pegouts[i]).afterFee (fees[i]) ∈ zipWith Pegout.afterFee pegouts fees :=
    mem_iff_getElem.mpr ⟨i, by simp [hlen, hi], by simp⟩
  have hgone : Pegout.isViable ((pegouts[i]).afterFee (fees[i])) = false := by
    by_contra hne
    rw [Pegout.isViable_of_afterFee (by simpa using hne)] at hdust
    simp at hdust
  dsimp only at h
  split_ifs at h
  · cases h
  · obtain rfl : _ = ids := by simpa using h
    exact mem_map.mpr ⟨_, mem_filter.mpr ⟨hafter, by simp [hgone]⟩, rfl⟩

theorem isViable_of_tryApply {result : List Pegout}
    (h : tryApplyFeesAndFilterDust pegouts fee = .ok (.allRemaining result)) :
    ∀ p ∈ pegouts, p.isViable = true := by
  obtain ⟨fees, hfees, rfl, hviable⟩ := tryApplyFeesAndFilterDust_eq_all h
  have hlen := (calculateFeeDistribution_eq_ok hfees).1
  intro p hp
  obtain ⟨i, hi, rfl⟩ := mem_iff_getElem.mp hp
  have hafter : (pegouts[i]).afterFee (fees[i]) ∈ zipWith Pegout.afterFee pegouts fees :=
    mem_iff_getElem.mpr ⟨i, by simp [hlen, hi], by simp⟩
  exact Pegout.isViable_of_afterFee (hviable _ hafter)

/-- Whatever the fee, only pegouts stay that would stay without one. -/
theorem mem_sturdyPegouts_of_kept
    (h : keptPegouts checks selectedInputs pegouts changeScript feeRate = .ok kept) :
    ∀ p ∈ kept, p ∈ sturdyPegouts pegouts := by
  obtain ⟨change, -, h⟩ := bind_eq_ok.mp h
  obtain ⟨fee, -, h⟩ := bind_eq_ok.mp h
  obtain ⟨first, hfirst, h⟩ := bind_eq_ok.mp h
  intro p hp
  cases first with
  | allRemaining result =>
    obtain rfl : pegouts = kept := by simpa using h
    have hviable := isViable_of_tryApply hfirst
    have hnone : dustIds pegouts = [] := by simpa [dustIds] using hviable
    simpa [sturdyPegouts, hnone] using hp
  | someFiltered ids =>
    obtain rfl : withoutIds pegouts ids = kept := by simpa using h
    obtain ⟨hmem, hid⟩ := mem_filter.mp hp
    refine mem_filter.mpr ⟨hmem, ?_⟩
    have hsub := dustIds_subset_of_tryApply hfirst
    by_contra hdust
    have : p.2 ∈ ids := hsub _ (by simpa using hdust)
    simp [this] at hid

end kept

/-! ## The check finds the change -/

theorem Psbt.output_of_extractTx {psbt : Psbt} {tx : Transaction} (h : psbt.extractTx = .ok tx) :
    tx.output = psbt.unsignedTx.output := by
  unfold Psbt.extractTx at h
  cases hfee : psbt.fee with
  | err e => rw [hfee] at h; cases e <;> cases h
  | panic => rw [hfee] at h; cases h
  | ok fee =>
    rw [hfee] at h
    dsimp only at h
    split at h
    · cases h
    · obtain rfl := ok.inj h
      rfl

section check
variable {checks : Bool} {algorithm : CoinSelectionAlgorithm}
  {optionalUtxos requiredUtxos : FinMap OutPoint Utxo} {outputs : List (TxOut × PegoutId)}
  {selectedInputs : List InputDTO} {kept : List Pegout} {feeRate : FeeRate}
  {changeScript : ScriptBuf} {fee change target : Amount} {fees : List Amount} {psbt : Psbt}

/-- Shares of the fee leave the scripts, so pegouts to other scripts are passed over. -/
theorem BuiltFrom.find?_change
    (h : BuiltFrom checks selectedInputs kept changeScript feeRate fee fees change psbt)
    (hother : ∀ p ∈ kept, p.1.scriptPubkey ≠ changeScript) :
    psbt.unsignedTx.output.find? (·.scriptPubkey = changeScript) =
      some ⟨change, changeScript⟩ := by
  have hscripts := scripts_afterFee (calculateFeeDistribution_eq_ok h.shared).1
  have hnone : ((zipWith Pegout.afterFee kept fees).map (·.1)).find?
      (·.scriptPubkey = changeScript) = none := by
    rw [find?_eq_none]
    intro out hout
    have hmem : out.scriptPubkey ∈ kept.map (·.1.scriptPubkey) := by
      rw [← hscripts]
      simpa using mem_map_of_mem (f := TxOut.scriptPubkey) hout
    obtain ⟨p, hp, heq⟩ := mem_map.mp hmem
    simpa [← heq] using hother p hp
  rw [h.psbt_eq, output_createPsbt, find?_append, hnone]
  simp

/-- Where no kept pegout pays to the change script, the change is what the check expects. -/
theorem BuiltFrom.noBadRefund
    (h : BuiltFrom checks selectedInputs kept changeScript feeRate fee fees change psbt)
    (hother : ∀ p ∈ kept, p.1.scriptPubkey ≠ changeScript)
    (htarget : (sumWord checks (kept.map (·.1.value)) : Outcome CoinSelectionError _) =
      .ok target) :
    NoBadRefund (sanityCheckPsbt checks psbt selectedInputs changeScript target) := by
  obtain ⟨amount, ins, outs, hamount, hins, houts, hsum⟩ := createChange_eq_ok h.created
  obtain rfl : change = amount := congrArg TxOut.value (some.inj hamount)
  obtain rfl : outs = target := ok.inj (houts.symm.trans htarget)
  unfold sanityCheckPsbt
  split
  · next tx htx =>
    rw [hins, ok_bind, Psbt.output_of_extractTx htx, h.find?_change hother]
    rw [checkedSub_eq_some.mpr hsum]
    simp [ofOption, ensure, failsIn_ok]
  · exact failsIn_panic

/-- A batch whose half overflows is refused before. -/
theorem mul_total_lt_of_selectInputs
    (h : selectInputs algorithm optionalUtxos requiredUtxos (toPegouts outputs) feeRate
      changeScript = .ok selectedInputs) : 50 * natSum (outputs.map (·.1.value)) < 2 ^ 64 := by
  obtain ⟨_, -, h⟩ := bind_eq_ok.mp h
  obtain ⟨_, -, h⟩ := bind_eq_ok.mp h
  obtain ⟨_, -, h⟩ := bind_eq_ok.mp h
  obtain ⟨total, htotal, h⟩ := bind_eq_ok.mp h
  obtain ⟨_, -, h⟩ := bind_eq_ok.mp h
  obtain ⟨_, hchange, -⟩ := bind_eq_ok.mp h
  obtain ⟨_, hpercent, -⟩ := bind_eq_ok.mp hchange
  obtain ⟨scaled, hscaled, -⟩ := bind_eq_ok.mp hpercent
  have hmul := checkedMul_eq_some.mp (ofOption_eq_ok.mp hscaled)
  have hsum := checkedSum_eq_some.mp (ofOption_eq_ok.mp htotal)
  have hvalues : (toPegouts outputs).map (·.1.value) = outputs.map (·.1.value) := by
    simp [toPegouts]
  have hpercent : targetChangePercent.toNat = 50 := rfl
  rw [hvalues] at hsum
  have := scaled.isLt
  rw [hmul, hsum, hpercent] at this
  omega

/-- So the check passes, for amounts that the selection accepts. -/
theorem noBadRefund_coinSelection
    (hother : 50 * natSum (outputs.map (·.1.value)) < 2 ^ 64 →
      ∀ p ∈ sturdyPegouts (toPegouts outputs), p.1.scriptPubkey ≠ changeScript) :
    NoBadRefund (coinSelection checks algorithm optionalUtxos requiredUtxos outputs feeRate
      changeScript) := by
  refine (failsIn_ensure id).bind fun _ _ => noBadRefund_selectInputs.bind fun selected hselect =>
    noBadRefund_applyFeesAndCreatePsbt.bind fun built hbuilt => (noBadRefund_sumWord _).bind
      fun target htarget => FailsIn.bind ?_ fun _ _ => failsIn_ok _
  obtain ⟨hkept, fee, fees, change, hfrom⟩ := applyFeesAndCreatePsbt_eq_ok hbuilt
  have hsturdy := mem_sturdyPegouts_of_kept hkept
  have hother := hother (mul_total_lt_of_selectInputs hselect)
  exact hfrom.noBadRefund (fun p hp => hother p (hsturdy p hp)) htarget

end check

/-! ## A run without a fee -/

/-- What the outputs and the fixed fields weigh. -/
def outputsWeight (outputs : List TxOut) : Nat :=
  4 * (9 + (encodeVarInt (BitVec.ofNat 64 outputs.length)).length +
    (outputs.flatMap fun o =>
      Bytes.toLE 8 o.value.toNat ++ serializeScript o.scriptPubkey).length)

/-- Each input adds the same weight, as long as their number takes one byte. -/
theorem weight_createPsbt_eq {inputs : List InputDTO} (hpos : 0 < inputs.length)
    (hlt : inputs.length < 253) (pegouts : List Pegout) (change : Option TxOut) :
    (createPsbt inputs pegouts change).unsignedTx.weight =
      outputsWeight (pegouts.map (·.1) ++ change.toList) + 164 * inputs.length := by
  have hinput : (createPsbt inputs pegouts change).unsignedTx.input =
      inputs.map fun u => ⟨u.outpoint, [], enableRbfNoLocktime, []⟩ := rfl
  have hcount : (encodeVarInt (BitVec.ofNat 64 inputs.length)).length = 1 := by
    rw [encodeVarInt, if_pos (by rw [toNat_ofNat]; omega)]
    rfl
  have hinputs : ((inputs.map fun u => (⟨u.outpoint, [], enableRbfNoLocktime, []⟩ : TxIn)).flatMap
      fun i => encodeOutPoint i.previousOutput ++ serializeScript i.scriptSig ++
        Bytes.toLE 4 i.sequence.toNat).length = 41 * inputs.length := by
    have hscript : (serializeScript []).length = 1 := rfl
    simp [length_flatMap, encodeOutPoint, hscript, Function.comp_def, Nat.mul_comm]
  have hbase : (createPsbt inputs pegouts change).unsignedTx.baseSize =
      9 + (encodeVarInt (BitVec.ofNat 64 (pegouts.map (·.1) ++ change.toList).length)).length +
        ((pegouts.map (·.1) ++ change.toList).flatMap fun o =>
          Bytes.toLE 8 o.value.toNat ++ serializeScript o.scriptPubkey).length +
        41 * inputs.length := by
    rw [Transaction.baseSize, encodeStripped, output_createPsbt, hinput]
    generalize pegouts.map (·.1) ++ change.toList = outputs
    rw [length_append, length_append, length_append, length_append,
      length_append, hinputs, length_map, hcount]
    simp only [Bytes.length_toLE]
    omega
  rw [weight_createPsbt_unsigned (ne_nil_of_length_pos hpos), hbase, outputsWeight]
  omega

section free
variable {checks : Bool} {inputs : List InputDTO} {pegouts : List Pegout} {change : Option TxOut}

/-- A draft of a few inputs whose signed weight fits a word. -/
def DraftFits (inputs : Nat) (outputs : List TxOut) : Prop :=
  (outputsWeight outputs + 164 * inputs) % 2 ^ 64 + 66 * inputs + 2 < 2 ^ 64

/-- The weight of such a draft is computed. -/
theorem exists_calculateSignedTxWeight (hpos : 0 < inputs.length) (hlt : inputs.length < 253)
    (hfits : DraftFits inputs.length (pegouts.map (·.1) ++ change.toList)) :
    ∃ weight, calculateSignedTxWeight (createPsbt inputs pegouts change) = .ok weight := by
  unfold DraftFits at hfits
  refine ⟨_, calculateSignedTxWeight_eq_ok.mpr (toNat_ofNat _ _ |>.trans
    (Nat.mod_eq_of_lt ?_))⟩
  rwa [weight_createPsbt_eq hpos hlt, inputs_createPsbt, length_map,
    Nat.mod_eq_of_lt (show inputs.length < 2 ^ 64 by omega)]

/-- At a rate of zero no fee is due. -/
theorem calculateRequiredFee_zero (hpos : 0 < inputs.length) (hlt : inputs.length < 253)
    (hfits : DraftFits inputs.length (pegouts.map (·.1) ++ change.toList)) :
    calculateRequiredFee inputs pegouts change 0 = .ok 0 := by
  obtain ⟨weight, hweight⟩ := exists_calculateSignedTxWeight hpos hlt hfits
  have hfee : feeWu 0 weight = some 0 := by
    simp [feeWu, checkedMul, checkedAdd]
  rw [calculateRequiredFee, hweight]
  show ofOption (feeWu 0 weight) _ = _
  rw [hfee]
  rfl

theorem Pegout.afterFee_zero (p : Pegout) : p.afterFee 0 = p := by
  simp [afterFee, checkedSub]

/-- Without a fee a pass drops the dust and nothing else. -/
theorem tryApplyFeesAndFilterDust_zero (hsome : ∃ p ∈ pegouts, p.isViable = true) :
    tryApplyFeesAndFilterDust pegouts 0 =
      if ∀ p ∈ pegouts, p.isViable = true then .ok (.allRemaining pegouts)
      else .ok (.someFiltered (dustIds pegouts)) := by
  obtain ⟨p, hp, hviable⟩ := hsome
  have hne : pegouts ≠ [] := ne_nil_of_mem hp
  have hlen : pegouts.length ≠ 0 := by simpa using hne
  have hshares : calculateFeeDistribution pegouts 0 =
      .ok (List.replicate pegouts.length 0) := by
    simp [calculateFeeDistribution, ensure, hlen, checkedDiv, ofOption]
  have hzip : zipWith Pegout.afterFee pegouts (List.replicate pegouts.length 0) = pegouts := by
    apply ext_getElem
    · simp
    · intro i _ _
      rw [List.getElem_zipWith, List.getElem_replicate, Pegout.afterFee_zero]
  have hkept : (pegouts.filter Pegout.isViable).isEmpty = false := by
    rw [isEmpty_eq_false_iff]
    exact ne_nil_of_mem (mem_filter.mpr ⟨hp, hviable⟩)
  rw [tryApplyFeesAndFilterDust, hshares]
  simp only [ensure, if_pos hne, ok_bind, hzip, length_filter_eq_length_iff, hkept,
    Bool.false_eq_true, if_false]
  split_ifs with hall
  · rw [filter_eq_self.mpr hall]
    rfl
  · rfl

/-- The change of a run without a fee. -/
def freeChange (inputs : List InputDTO) (pegouts : List Pegout) (changeScript : ScriptBuf) :
    TxOut :=
  ⟨BitVec.ofNat 64 (natSum (inputs.map (·.output.value)) -
    natSum (pegouts.map (·.1.value))), changeScript⟩

variable {changeScript : ScriptBuf}

theorem createChange_of_le (hlt : natSum (inputs.map (·.output.value)) < 2 ^ 64)
    (hle : natSum (pegouts.map (·.1.value)) ≤ natSum (inputs.map (·.output.value))) :
    createChange checks inputs pegouts changeScript =
      .ok (some (freeChange inputs pegouts changeScript)) := by
  have hsub : checkedSub (BitVec.ofNat 64 (natSum (inputs.map (·.output.value))))
      (BitVec.ofNat 64 (natSum (pegouts.map (·.1.value)))) =
      some (BitVec.ofNat 64 (natSum (inputs.map (·.output.value)) -
        natSum (pegouts.map (·.1.value)))) := by
    rw [checkedSub_eq_some]
    simp only [toNat_ofNat]
    rw [Nat.mod_eq_of_lt hlt, Nat.mod_eq_of_lt (by omega), Nat.mod_eq_of_lt (by omega)]
    omega
  rw [createChange, totalInputs, sumWord_of_lt hlt, ok_bind, sumWord_of_lt (by omega), ok_bind,
    hsub]
  rfl

/-- Without a fee the builder pays the sturdy pegouts in full. -/
theorem applyFeesAndCreatePsbt_zero (hpos : 0 < inputs.length) (hlt : inputs.length < 253)
    (hword : natSum (inputs.map (·.output.value)) < 2 ^ 64)
    (hle : natSum (pegouts.map (·.1.value)) ≤ natSum (inputs.map (·.output.value)))
    (hsome : sturdyPegouts pegouts ≠ [])
    (hfirst : DraftFits inputs.length
      (pegouts.map (·.1) ++ [freeChange inputs pegouts changeScript]))
    (hsecond : DraftFits inputs.length
      ((sturdyPegouts pegouts).map (·.1) ++
        [freeChange inputs (sturdyPegouts pegouts) changeScript])) :
    applyFeesAndCreatePsbt checks inputs pegouts changeScript 0 =
      .ok (createPsbt inputs (sturdyPegouts pegouts)
        (some (freeChange inputs (sturdyPegouts pegouts) changeScript)), dustIds pegouts) := by
  obtain ⟨p, hp⟩ := exists_mem_of_ne_nil _ hsome
  have hviable := fun q (hq : q ∈ sturdyPegouts pegouts) => isViable_of_mem_sturdyPegouts hq
  have hmem : p ∈ pegouts := (mem_filter.mp hp).1
  have hle' : natSum ((sturdyPegouts pegouts).map (·.1.value)) ≤
      natSum (inputs.map (·.output.value)) := (natSum_withoutIds_le _ _).trans hle
  have hfold : withoutIds pegouts (dustIds pegouts) = sturdyPegouts pegouts := rfl
  have hfee : calculateRequiredFee inputs pegouts
      (some (freeChange inputs pegouts changeScript)) 0 = .ok 0 :=
    calculateRequiredFee_zero hpos hlt hfirst
  have hfee' : calculateRequiredFee inputs (sturdyPegouts pegouts)
      (some (freeChange inputs (sturdyPegouts pegouts) changeScript)) 0 = .ok 0 :=
    calculateRequiredFee_zero hpos hlt hsecond
  have htry := tryApplyFeesAndFilterDust_zero ⟨p, hmem, hviable p hp⟩
  have htry' := tryApplyFeesAndFilterDust_zero ⟨p, hp, hviable p hp⟩
  rw [if_pos hviable] at htry'
  rw [applyFeesAndCreatePsbt, createChange_of_le hword hle]
  simp only [ok_bind, hfee, htry]
  by_cases hall : ∀ q ∈ pegouts, q.isViable = true
  · have hnone : dustIds pegouts = [] := by simpa [dustIds] using hall
    have hself : sturdyPegouts pegouts = pegouts := by rw [sturdyPegouts, hnone, withoutIds_nil]
    simp only [if_pos hall, hself, hnone, ok_bind, pure_eq_ok]
  · simp only [if_neg hall, ok_bind, hfold, createChange_of_le hword hle', hfee', htry',
      pure_eq_ok]

/-- Such a PSBT pays no fee and can be extracted. -/
theorem extractTx_free (hlt : natSum (inputs.map (·.output.value)) < 2 ^ 64)
    (hle : natSum (pegouts.map (·.1.value)) ≤ natSum (inputs.map (·.output.value))) :
    ∃ tx, (createPsbt inputs pegouts (some (freeChange inputs pegouts changeScript))).extractTx =
      .ok tx := by
  have hfee : (createPsbt inputs pegouts (some (freeChange inputs pegouts changeScript))).fee =
      .ok 0 := by
    have hvalues : (pegouts.map (·.1)).map (·.value) = pegouts.map (·.1.value) := map_map
    have hzero : (0 : Amount).toNat = 0 := rfl
    rw [fee_createPsbt, map_append, hvalues, natSum_append, hzero]
    refine ⟨hlt, ?_⟩
    simp only [freeChange, toList_some, map_cons, map_nil, natSum_cons, natSum_nil,
      toNat_ofNat]
    rw [Nat.mod_eq_of_lt (by omega)]
    omega
  refine ⟨(createPsbt inputs pegouts
    (some (freeChange inputs pegouts changeScript))).internalExtractTx, ?_⟩
  rw [Psbt.extractTx, hfee]
  simp

/-- A pegout to the change script that is not worth the change fails the check. -/
theorem sanityCheckPsbt_eq_err {out : TxOut} (hlt : natSum (inputs.map (·.output.value)) < 2 ^ 64)
    (hle : natSum (pegouts.map (·.1.value)) ≤ natSum (inputs.map (·.output.value)))
    (hfind : (pegouts.map (·.1)).find? (·.scriptPubkey = changeScript) = some out)
    (hne : out.value ≠ (freeChange inputs pegouts changeScript).value) :
    ∃ ins target, sanityCheckPsbt checks
        (createPsbt inputs pegouts (some (freeChange inputs pegouts changeScript))) inputs
        changeScript (BitVec.ofNat 64 (natSum (pegouts.map (·.1.value)))) =
      .err (.sanityCheckError (.badRefundBalance out.value ins target)) := by
  obtain ⟨tx, htx⟩ : ∃ tx, (createPsbt inputs pegouts
      (some (freeChange inputs pegouts changeScript))).extractTx = .ok tx := extractTx_free hlt hle
  have hsub : checkedSub (BitVec.ofNat 64 (natSum (inputs.map (·.output.value))))
      (BitVec.ofNat 64 (natSum (pegouts.map (·.1.value)))) =
      some (freeChange inputs pegouts changeScript).value := by
    rw [checkedSub_eq_some]
    simp only [toNat_ofNat, freeChange]
    rw [Nat.mod_eq_of_lt hlt, Nat.mod_eq_of_lt (by omega), Nat.mod_eq_of_lt (by omega)]
    omega
  refine ⟨BitVec.ofNat 64 (natSum (inputs.map (·.output.value))),
    BitVec.ofNat 64 (natSum (pegouts.map (·.1.value))), ?_⟩
  simp only [sanityCheckPsbt, htx, Psbt.output_of_extractTx htx, output_createPsbt,
    find?_append, hfind, some_or, totalInputs, sumWord_of_lt hlt, ok_bind, hsub,
    ofOption, ensure, if_neg hne]

end free

/-! ## A wallet that blocks the batch -/

/-- What the library documents of required coins, at a rate of zero: if they reach the target
they are spent, all of them and no others. -/
def CoinSelectionAlgorithm.SelectsRequired (algorithm : CoinSelectionAlgorithm) : Prop :=
  ∀ (required : List Utxo) (target : Amount) (script : ScriptBuf),
    natSum (required.map (·.output.value)) < 2 ^ 64 →
    target.toNat ≤ natSum (required.map (·.output.value)) →
    ∃ selection, algorithm required [] 0 target script = .ok selection ∧
      selection.Perm (required.map (·.outpoint))

/-- The first coin of a purse holds its value. -/
def purseCoin (value : Amount) (i : Nat) : Utxo :=
  ⟨⟨0, BitVec.ofNat 32 i⟩, ⟨if i = 0 then value else 0, []⟩, none, UtxoVersion.v1.toU32⟩

/-- A few coins. -/
def purse (value : Amount) (n : Nat) : FinMap OutPoint Utxo :=
  FinMap.ofList ((List.range n).map fun i => ((purseCoin value i).outpoint, purseCoin value i))

section wallet
variable {algorithm : CoinSelectionAlgorithm} {outputs : List (TxOut × PegoutId)}
  {changeScript : ScriptBuf} {value : Amount} {n : Nat}

theorem values_purse (hn : n ≤ 3) :
    (purse value n).values = (List.range n).map (purseCoin value) := by
  interval_cases n <;> rfl

theorem lookup_purse (hn : n ≤ 3) :
    ((purse value n).values.map (·.outpoint)).filterMap
      (fun outpoint => ((∅ : FinMap OutPoint Utxo).lookup outpoint).or
        ((purse value n).lookup outpoint)) = (purse value n).values := by
  interval_cases n <;> rfl

theorem natSum_purse (hpos : 0 < n) (hn : n ≤ 3) :
    natSum ((purse value n).values.map (·.output.value)) = value.toNat := by
  rw [values_purse hn]
  interval_cases n <;> simp [range_succ, purseCoin]

theorem performCoinSelection_purse (hsel : algorithm.SelectsRequired) (hpos : 0 < n)
    (hn : n ≤ 3) :
    ∃ inputs, performCoinSelection algorithm ∅ (purse value n) 0 value changeScript = .ok inputs ∧
      inputs.length = n ∧ natSum (inputs.map (·.output.value)) = value.toNat := by
  have hsum : natSum ((purse value n).values.map (·.output.value)) = value.toNat :=
    natSum_purse hpos hn
  obtain ⟨selection, hselection, hperm⟩ := hsel (purse value n).values value changeScript
    (hsum ▸ value.isLt) hsum.ge
  have hcoins := hperm.filterMap fun outpoint =>
    ((∅ : FinMap OutPoint Utxo).lookup outpoint).or ((purse value n).lookup outpoint)
  rw [lookup_purse hn] at hcoins
  have hcoins := hcoins.map InputDTO.ofUtxo
  refine ⟨_, ?_, hcoins.length_eq.trans (by simp [values_purse hn]), ?_⟩
  · have hempty : (∅ : FinMap OutPoint Utxo).values = [] := rfl
    rw [performCoinSelection, hempty, hselection]
    rfl
  · have hvalues := ((hcoins.map fun i => i.output.value).map BitVec.toNat).sum_eq
    have hcoin : ((purse value n).values.map InputDTO.ofUtxo).map (fun i => i.output.value) =
        (purse value n).values.map (·.output.value) := map_map
    rw [hcoin] at hvalues
    exact hvalues.trans hsum

/-- All that is left is taken for change when it is a satoshi at most. -/
theorem calculateTargetChange_spare {gross : Amount} {spare : Nat} (hspare : spare ≤ 1)
    (hhalf : 50 * gross.toNat < 2 ^ 64) :
    calculateTargetChange gross (BitVec.ofNat 64 spare) = .ok (BitVec.ofNat 64 spare) := by
  have htarget : ∃ target, percentOf targetChangePercent gross = .ok target := by
    have hpercent : targetChangePercent.toNat = 50 := rfl
    refine ⟨BitVec.ofNat 64 ((gross * targetChangePercent).toNat / 100), ?_⟩
    rw [percentOf, checkedMul, hpercent, if_pos (by omega)]
    rfl
  have hmax : percentOf maxChangePercent (BitVec.ofNat 64 spare) = .ok 0 := by
    interval_cases spare <;> rfl
  obtain ⟨target, htarget⟩ := htarget
  rw [calculateTargetChange, htarget, ok_bind, hmax, ok_bind]
  interval_cases spare <;> simp [minChangeSats]

/-- The selection spends the purse, if that holds the pegouts and at most one satoshi more. -/
theorem selectInputs_purse (hsel : algorithm.SelectsRequired) {gross : Amount} {spare : Nat}
    (hspare : spare ≤ 1) (hgross : gross.toNat = natSum (outputs.map (·.1.value)))
    (hhalf : 50 * gross.toNat < 2 ^ 64) (hvalue : value.toNat = gross.toNat + spare)
    (hpos : 0 < n) (hn : n ≤ 3) :
    ∃ inputs, selectInputs algorithm ∅ (purse value n) (toPegouts outputs) 0 changeScript =
        .ok inputs ∧
      inputs.length = n ∧ natSum (inputs.map (·.output.value)) = value.toNat := by
  have hcoins : totalValue ((purse value n).values.map (·.output.value)) = .ok value :=
    ofOption_eq_ok.mpr (checkedSum_eq_some.mpr (natSum_purse hpos hn).symm)
  have hnone : totalValue ((∅ : FinMap OutPoint Utxo).values.map (·.output.value)) = .ok 0 := rfl
  have htotal : checkedAdd value 0 = some value := by simp [checkedAdd_eq_some]
  have htarget : totalValue ((toPegouts outputs).map (·.1.value)) = .ok gross := by
    refine ofOption_eq_ok.mpr (checkedSum_eq_some.mpr ?_)
    simpa [toPegouts, Function.comp_def] using hgross
  have hspare' : (BitVec.ofNat 64 spare).toNat = spare := by
    rw [toNat_ofNat, Nat.mod_eq_of_lt (by omega)]
  have hremaining : checkedSub value gross = some (BitVec.ofNat 64 spare) := by
    rw [checkedSub_eq_some, hspare']
    omega
  have hsum : checkedAdd gross (BitVec.ofNat 64 spare) = some value := by
    rw [checkedAdd_eq_some, hspare']
    omega
  rw [selectInputs, hcoins, ok_bind, hnone, ok_bind, htotal]
  simp only [ofOption, ok_bind, htarget, hremaining, calculateTargetChange_spare hspare hhalf, hsum]
  exact performCoinSelection_purse hsel hpos hn

/-- A draft that does not fit is at the end of a word, and one more input takes it past that. -/
theorem draftFits_or {n m : Nat} (hnm : n < m) (hm : m ≤ 3) (outputs : List TxOut) :
    DraftFits n outputs ∨ DraftFits m outputs := by
  unfold DraftFits
  have hmore : (outputsWeight outputs + 164 * m) % 2 ^ 64 =
      ((outputsWeight outputs + 164 * n) % 2 ^ 64 + 164 * (m - n)) % 2 ^ 64 := by
    rw [Nat.mod_add_mod]
    congr 1
    omega
  have hlt : (outputsWeight outputs + 164 * n) % 2 ^ 64 < 2 ^ 64 := Nat.mod_lt _ (by decide)
  rw [hmore]
  clear hmore
  generalize (outputsWeight outputs + 164 * n) % 2 ^ 64 = r at hlt
  by_cases hfits : r + 66 * n + 2 < 2 ^ 64
  · exact .inl hfits
  · have hover : 2 ^ 64 ≤ r + 164 * (m - n) := by omega
    have hsmall : r + 164 * (m - n) - 2 ^ 64 < 2 ^ 64 := by omega
    rw [Nat.mod_eq_sub_mod hover, Nat.mod_eq_of_lt hsmall]
    omega

/-- Two properties that each fail at most once in three places meet in one of them. -/
theorem exists_common {P Q : Nat → Prop} (hP : ∀ {n m}, n < m → m ≤ 3 → P n ∨ P m)
    (hQ : ∀ {n m}, n < m → m ≤ 3 → Q n ∨ Q m) : ∃ n, 0 < n ∧ n ≤ 3 ∧ P n ∧ Q n := by
  have h12 := hP (show 1 < 2 by decide) (by decide)
  have h13 := hP (show 1 < 3 by decide) (by decide)
  have h23 := hP (show 2 < 3 by decide) (by decide)
  have h12' := hQ (show 1 < 2 by decide) (by decide)
  have h13' := hQ (show 1 < 3 by decide) (by decide)
  have h23' := hQ (show 2 < 3 by decide) (by decide)
  by_contra hnone
  have hnone1 := fun hp hq => hnone ⟨1, by decide, by decide, hp, hq⟩
  have hnone2 := fun hp hq => hnone ⟨2, by decide, by decide, hp, hq⟩
  have hnone3 := fun hp hq => hnone ⟨3, by decide, by decide, hp, hq⟩
  tauto

/-- So two drafts fit with the same number of inputs. -/
theorem exists_draftFits (outputs outputs' : List TxOut) :
    ∃ n, 0 < n ∧ n ≤ 3 ∧ DraftFits n outputs ∧ DraftFits n outputs' :=
  exists_common (fun h h' => draftFits_or h h' outputs) fun h h' => draftFits_or h h' outputs'

/-- A run without a fee that takes a pegout for the change. -/
theorem coinSelection_eq_badRefund {required : FinMap OutPoint Utxo} {inputs : List InputDTO}
    {out : TxOut}
    (hselect : selectInputs algorithm ∅ required (toPegouts outputs) 0 changeScript = .ok inputs)
    (hpos : 0 < inputs.length) (hlt : inputs.length < 253)
    (hword : natSum (inputs.map (·.output.value)) < 2 ^ 64)
    (hle : natSum ((toPegouts outputs).map (·.1.value)) ≤ natSum (inputs.map (·.output.value)))
    (hfirst : DraftFits inputs.length
      ((toPegouts outputs).map (·.1) ++ [freeChange inputs (toPegouts outputs) changeScript]))
    (hsecond : DraftFits inputs.length ((sturdyPegouts (toPegouts outputs)).map (·.1) ++
      [freeChange inputs (sturdyPegouts (toPegouts outputs)) changeScript]))
    (hfind : ((sturdyPegouts (toPegouts outputs)).map (·.1)).find?
      (·.scriptPubkey = changeScript) = some out)
    (hdiffer : out.value ≠
      (freeChange inputs (sturdyPegouts (toPegouts outputs)) changeScript).value) :
    ∃ ins target, coinSelection true algorithm ∅ required outputs 0 changeScript =
      .err (.sanityCheckError (.badRefundBalance out.value ins target)) := by
  have hsturdy : sturdyPegouts (toPegouts outputs) ≠ [] := by
    intro hnil
    simp [hnil] at hfind
  have hne : outputs ≠ [] := by
    intro hnil
    simp [hnil, toPegouts, sturdyPegouts, withoutIds] at hsturdy
  have hless : natSum ((sturdyPegouts (toPegouts outputs)).map (·.1.value)) ≤
      natSum (inputs.map (·.output.value)) := (natSum_withoutIds_le _ _).trans hle
  have hfold : withoutIds (toPegouts outputs) (dustIds (toPegouts outputs)) =
      sturdyPegouts (toPegouts outputs) := rfl
  obtain ⟨ins, target, hcheck⟩ :=
    @sanityCheckPsbt_eq_err true inputs (sturdyPegouts (toPegouts outputs)) changeScript out hword
      hless hfind hdiffer
  refine ⟨ins, target, ?_⟩
  rw [coinSelection, ensure, if_pos hne]
  simp only [ok_bind, hselect,
    applyFeesAndCreatePsbt_zero hpos hlt hword hle hsturdy hfirst hsecond, hfold,
    sumWord_of_lt (Nat.lt_of_le_of_lt hless hword), hcheck, err_bind]

/-- A batch with a sturdy pegout to the change script fails with some wallet. -/
theorem exists_badRefund (hsel : algorithm.SelectsRequired)
    (hhalf : 50 * natSum (outputs.map (·.1.value)) < 2 ^ 64)
    (hpays : ∃ p ∈ sturdyPegouts (toPegouts outputs), p.1.scriptPubkey = changeScript) :
    ∃ required v ins target, coinSelection true algorithm ∅ required outputs 0 changeScript =
      .err (.sanityCheckError (.badRefundBalance v ins target)) := by
  have hvalues : (toPegouts outputs).map (·.1.value) = outputs.map (·.1.value) := by
    simp [toPegouts]
  -- the pegout the check takes for the change
  obtain ⟨out, hfind⟩ : ∃ out, ((sturdyPegouts (toPegouts outputs)).map (·.1)).find?
      (·.scriptPubkey = changeScript) = some out := by
    obtain ⟨p, hp, hscript⟩ := hpays
    refine isSome_iff_exists.mp (find?_isSome.mpr ⟨p.1, mem_map_of_mem hp, ?_⟩)
    simpa using hscript
  generalize hgross : natSum (outputs.map (·.1.value)) = gross at hhalf
  generalize hnet : natSum ((sturdyPegouts (toPegouts outputs)).map (·.1.value)) = net
  have hless : net ≤ gross := by
    rw [← hgross, ← hnet, ← hvalues]
    exact natSum_withoutIds_le _ _
  -- one satoshi more or less in the purse makes the change differ from it
  obtain ⟨spare, hspare, hdiffer⟩ : ∃ spare ≤ 1, gross + spare - net ≠ out.value.toNat := by
    by_cases h0 : gross - net = out.value.toNat
    · exact ⟨1, by decide, by omega⟩
    · exact ⟨0, by decide, h0⟩
  have hword : gross + spare < 2 ^ 64 := by omega
  have hvalue : (BitVec.ofNat 64 (gross + spare)).toNat = gross + spare := by
    rw [toNat_ofNat, Nat.mod_eq_of_lt hword]
  have hgross' : (BitVec.ofNat 64 gross).toNat = gross := by
    rw [toNat_ofNat, Nat.mod_eq_of_lt (by omega)]
  -- the number of coins for which both drafts fit
  obtain ⟨n, hpos, hn, hfirst, hsecond⟩ := exists_draftFits
    ((toPegouts outputs).map (·.1) ++ [⟨BitVec.ofNat 64 (gross + spare - gross), changeScript⟩])
    ((sturdyPegouts (toPegouts outputs)).map (·.1) ++
      [⟨BitVec.ofNat 64 (gross + spare - net), changeScript⟩])
  obtain ⟨inputs, hinputs, hlen, hsum⟩ : ∃ inputs, selectInputs algorithm ∅
      (purse (BitVec.ofNat 64 (gross + spare)) n) (toPegouts outputs) 0 changeScript = .ok inputs ∧
      inputs.length = n ∧ natSum (inputs.map (·.output.value)) =
        (BitVec.ofNat 64 (gross + spare)).toNat :=
    selectInputs_purse hsel hspare (hgross'.trans hgross.symm) (by omega) (by omega) hpos hn
  rw [hvalue] at hsum
  obtain ⟨ins, target, h⟩ := coinSelection_eq_badRefund hinputs (by omega) (by omega)
    (hsum ▸ hword) (by rw [hsum, hvalues, hgross]; omega)
    (by rw [hlen, freeChange, hsum, hvalues, hgross]; exact hfirst)
    (by rw [hlen, freeChange, hsum, hnet]; exact hsecond) hfind (by
      intro heq
      rw [heq, freeChange, hsum, hnet, toNat_ofNat, Nat.mod_eq_of_lt (by omega)] at hdiffer
      exact hdiffer rfl)
  exact ⟨_, out.value, ins, target, h⟩

end wallet

/-! ## Which batches pass -/

/-- With every wallet and at every fee rate the check passes, exactly if no pegout that is above
its dust limit pays to the change script (or the amounts are too large to be paid at all). -/
theorem refund_check_passes_iff {algorithm : CoinSelectionAlgorithm}
    (hsel : algorithm.SelectsRequired) (outputs : List (TxOut × PegoutId))
    (changeScript : ScriptBuf) :
    (∀ checks optionalUtxos requiredUtxos feeRate v ins target,
      coinSelection checks algorithm optionalUtxos requiredUtxos outputs feeRate changeScript ≠
        .err (.sanityCheckError (.badRefundBalance v ins target))) ↔
    (2 ^ 64 ≤ 50 * natSum (outputs.map (·.1.value)) ∨
      ∀ p ∈ sturdyPegouts (toPegouts outputs), p.1.scriptPubkey ≠ changeScript) := by
  constructor
  · intro hpasses
    by_contra hnone
    obtain ⟨hhalf, hpays⟩ := not_or.mp hnone
    push Not at hhalf hpays
    obtain ⟨required, v, ins, target, h⟩ := exists_badRefund hsel hhalf hpays
    exact hpasses true ∅ required 0 v ins target h
  · intro hbatch checks optionalUtxos requiredUtxos feeRate v ins target h
    refine noBadRefund_coinSelection (fun hhalf => ?_) _ h trivial
    exact hbatch.resolve_left (Nat.not_le.mpr hhalf)

/-- Spending every coin is one way to spend the required ones. -/
theorem selectsRequired_selectAll : CoinSelectionAlgorithm.SelectsRequired selectAll := by
  intro required target script _ _
  exact ⟨_, rfl, by simp⟩

/-- Two pegouts to scripts of their own are never blocked. -/
theorem own_scripts_pass :
    CoinSelectionAlgorithm.SelectsRequired selectAll ∧
    ∀ checks optionalUtxos requiredUtxos feeRate v ins target,
      coinSelection checks selectAll optionalUtxos requiredUtxos
          (besidePegout ⟨50000, p2tr 8⟩) feeRate (p2tr 9) ≠
        .err (.sanityCheckError (.badRefundBalance v ins target)) :=
  ⟨selectsRequired_selectAll,
    (refund_check_passes_iff selectsRequired_selectAll _ _).mpr (.inr (by decide +kernel))⟩

/-- With a second pegout to the change script, the first one is not paid either: the check
finds 49902 satoshis where it expects 850000. -/
theorem pegout_to_change_blocks :
    coinSelection true selectAll sampleCoins ∅ (besidePegout ⟨50000, p2tr 9⟩) 250 (p2tr 9) =
      .err (.sanityCheckError (.badRefundBalance 49902 1000000 150000)) :=
  eq_err_of_getErr? (by decide +kernel)

end Macbeth
