import Macbeth.Wallet.Conservation

/-!
# The two passes of the dust filter

`apply_fees_and_create_psbt` takes each pegout's share of the fee, drops the pegouts that
fall below the dust limit and does it once more for the rest; a second pass that drops some
pegouts again is an error the source expects never to see.

A pass is described over the natural numbers: the share of a pegout is the quotient of the
fee, and one satoshi more for the most valuable ones (`shareAt`); the pegout stands if the
rest is no dust (`stands`).  Dropping a pegout takes its weight off the fee but also one
payer, so the shares of those that stay rise, and a pegout just above the limit in the first
pass can fall in the second.
-/

namespace Macbeth

open Checked Outcome List Option

/-! ## The shares -/

/-- The share of the pegout at a position. -/
def shareAt (pegouts : List Pegout) (fee i : Nat) : Nat :=
  fee / pegouts.length + ((sortedIndices pegouts).take (fee % pegouts.length)).count i

/-- One satoshi for a pegout whose share has room for it. -/
theorem addSat_of_lt {fees : List Amount} {i : Nat} {fee : Amount} (hfee : fees[i]? = some fee)
    (hroom : fee.toNat + 1 < 2 ^ 64) : addSat fees i = .ok (fees.set i (fee + 1)) := by
  have hadd : checkedAdd fee 1 = some (fee + 1) := if_pos hroom
  rw [addSat, index_eq_ok.mpr hfee, ok_bind, hadd]
  rfl

/-- The remainder loop over positions that are all different. -/
theorem exists_foldlM_addSat : ∀ (is : List Nat) (fees : List Amount), is.Nodup →
    (∀ i ∈ is, ∃ fee, fees[i]? = some fee ∧ fee.toNat + 1 < 2 ^ 64) →
    ∃ fees', is.foldlM addSat fees = .ok fees' ∧ fees'.length = fees.length ∧
      ∀ j x, fees[j]? = some x → ∃ y, fees'[j]? = some y ∧ y.toNat = x.toNat + is.count j
  | [], fees, _, _ => ⟨fees, rfl, rfl, fun _ x hx => ⟨x, hx, by simp⟩⟩
  | i :: is, fees, hnodup, hroom => by
    obtain ⟨hi, hnodup⟩ := nodup_cons.mp hnodup
    obtain ⟨fee, hfee, hlt⟩ := hroom i mem_cons_self
    have hstep := addSat_of_lt hfee hlt
    have hroom' : ∀ j ∈ is, ∃ x, (fees.set i (fee + 1))[j]? = some x ∧ x.toNat + 1 < 2 ^ 64 := by
      intro j hj
      have hne : i ≠ j := fun h => hi (h ▸ hj)
      rw [getElem?_set_ne hne]
      exact hroom j (mem_cons_of_mem i hj)
    obtain ⟨fees', hloop, hlen, hget⟩ := exists_foldlM_addSat is _ hnodup hroom'
    refine ⟨fees', by rw [foldlM_cons, hstep]; exact hloop,
      hlen.trans length_set, fun j x hx => ?_⟩
    obtain ⟨hj, -⟩ := List.getElem?_eq_some_iff.mp hx
    by_cases hij : i = j
    · subst hij
      obtain rfl : fee = x := some.inj (hfee.symm.trans hx)
      obtain ⟨y, hy, hval⟩ := hget i (fee + 1) (by simp [hj])
      have hone : (fee + 1).toNat = fee.toNat + 1 := by
        rw [BitVec.toNat_add]
        exact Nat.mod_eq_of_lt hlt
      exact ⟨y, hy, by rw [hval, hone, count_cons_self]; omega⟩
    · obtain ⟨y, hy, hval⟩ := hget j x (by rwa [getElem?_set_ne hij])
      exact ⟨y, hy, by rw [hval, count_cons_of_ne hij]⟩

/-- There is always a distribution, and it gives every pegout its share. -/
theorem exists_calculateFeeDistribution {pegouts : List Pegout} (hne : pegouts ≠ [])
    (fee : Amount) : ∃ fees, calculateFeeDistribution pegouts fee = .ok fees ∧
      fees.length = pegouts.length ∧
      ∀ i share, fees[i]? = some share → share.toNat = shareAt pegouts fee.toNat i := by
  have hpos : 0 < pegouts.length := length_pos_iff.mpr hne
  obtain ⟨base, hbase⟩ : ∃ base, checkedDiv fee pegouts.length = some base := by
    simp [checkedDiv, hpos.ne']
  have hquot := (checkedDiv_eq_some.mp hbase).2
  -- a remainder is left only by a division, and then there is room for one more satoshi
  have hroom : ∀ i ∈ (sortedIndices pegouts).take (fee.toNat % pegouts.length),
      ∃ x, (List.replicate pegouts.length base)[i]? = some x ∧ x.toNat + 1 < 2 ^ 64 := by
    intro i hi
    have hlt : i < pegouts.length := by
      have hmem := mem_of_mem_take hi
      rw [sortedIndices, mem_insertionSort] at hmem
      exact mem_range.mp hmem
    refine ⟨base, by simp [hlt], ?_⟩
    have htwo : 2 ≤ pegouts.length := by
      by_contra h
      have hone : pegouts.length = 1 := by omega
      rw [hone, Nat.mod_one, take_zero] at hi
      simp at hi
    have hhalf : fee.toNat / pegouts.length ≤ fee.toNat / 2 := Nat.div_le_div_left htwo (by decide)
    have := fee.isLt
    omega
  obtain ⟨fees, hloop, hlen, hget⟩ := exists_foldlM_addSat _ _
    ((nodup_sortedIndices pegouts).sublist (take_sublist _ _)) hroom
  have hlen' : fees.length = pegouts.length := by simpa using hlen
  refine ⟨fees, ?_, hlen', fun i share hshare => ?_⟩
  · simp only [calculateFeeDistribution, ensure, if_pos hpos.ne', ok_bind, hbase, ofOption]
    exact hloop
  · obtain ⟨hi, -⟩ := List.getElem?_eq_some_iff.mp hshare
    obtain ⟨y, hy, hval⟩ := hget i base (by simp [← hlen', hi])
    obtain rfl : y = share := some.inj (hy.symm.trans hshare)
    rw [hval, hquot, shareAt]

/-! ## One pass -/

/-- Whether the pegout at a position stays above its dust limit. -/
def stands (pegouts : List Pegout) (fee : Nat) (x : Pegout × Nat) : Bool :=
  minimalNonDust x.1.1.scriptPubkey ≤ x.1.1.value.toNat - shareAt pegouts fee x.2

/-- The ids of the pegouts that fall. -/
def fallenIds (pegouts : List Pegout) (fee : Nat) : List (List UInt8) :=
  (pegouts.zipIdx.filter (!stands pegouts fee ·)).map (·.1.2)

def AllStand (pegouts : List Pegout) (fee : Nat) : Prop :=
  ∀ x ∈ pegouts.zipIdx, stands pegouts fee x = true

def NoneStands (pegouts : List Pegout) (fee : Nat) : Prop :=
  ∀ x ∈ pegouts.zipIdx, stands pegouts fee x = false

instance (pegouts : List Pegout) (fee : Nat) : Decidable (AllStand pegouts fee) :=
  inferInstanceAs (Decidable (∀ x ∈ pegouts.zipIdx, stands pegouts fee x = true))

instance (pegouts : List Pegout) (fee : Nat) : Decidable (NoneStands pegouts fee) :=
  inferInstanceAs (Decidable (∀ x ∈ pegouts.zipIdx, stands pegouts fee x = false))

/-- A share larger than the pegout leaves nothing of it. -/
theorem Pegout.toNat_afterFee (p : Pegout) (fee : Amount) :
    (p.afterFee fee).1.value.toNat = p.1.value.toNat - fee.toNat := by
  rw [afterFee]
  cases hsub : checkedSub p.1.value fee with
  | some value =>
    have := checkedSub_eq_some.mp hsub
    simp only [getD_some]
    omega
  | none =>
    have := checkedSub_eq_none.mp hsub
    simp only [getD_none]
    rw [Nat.sub_eq_zero_of_le this.le]
    rfl

section pass
variable {pegouts : List Pegout} {fee : Amount} {fees : List Amount}

/-- The pegouts less their shares, position by position. -/
theorem zipWith_afterFee (hlen : fees.length = pegouts.length) :
    List.zipWith Pegout.afterFee pegouts fees =
      pegouts.zipIdx.map fun x => x.1.afterFee (fees[x.2]?.getD 0) := by
  apply ext_getElem
  · simp [hlen]
  · intro i hi hi'
    have hfee : i < fees.length := by simp at hi; omega
    simp [hfee]

/-- An output is viable just where its pegout stands. -/
theorem isViable_afterFee (hlen : fees.length = pegouts.length)
    (hshares : ∀ i share, fees[i]? = some share → share.toNat = shareAt pegouts fee.toNat i)
    {x : Pegout × Nat} (hx : x ∈ pegouts.zipIdx) :
    (x.1.afterFee (fees[x.2]?.getD 0)).isViable = stands pegouts fee.toNat x := by
  have hlt : x.2 < fees.length := by
    have := snd_lt_of_mem_zipIdx hx
    omega
  have hget : fees[x.2]? = some fees[x.2] := getElem?_eq_getElem hlt
  rw [Pegout.isViable, stands, Pegout.toNat_afterFee, hget, getD_some,
    hshares x.2 _ hget]
  rfl

/-- What one pass answers. -/
theorem tryApplyFeesAndFilterDust_eq (hne : pegouts ≠ []) (fee : Amount) :
    ∃ result, tryApplyFeesAndFilterDust pegouts fee =
      if AllStand pegouts fee.toNat then .ok (.allRemaining result)
      else if NoneStands pegouts fee.toNat then .err .noViableOutputs
      else .ok (.someFiltered (fallenIds pegouts fee.toNat)) := by
  obtain ⟨fees, hfees, hlen, hshares⟩ := exists_calculateFeeDistribution hne fee
  have hkept : (zipWith Pegout.afterFee pegouts fees).filter Pegout.isViable =
      (pegouts.zipIdx.filter (stands pegouts fee.toNat)).map
        fun x => x.1.afterFee (fees[x.2]?.getD 0) := by
    rw [zipWith_afterFee hlen, List.filter_map]
    exact congrArg _ (filter_congr fun x hx => isViable_afterFee hlen hshares hx)
  have hfallen : ((zipWith Pegout.afterFee pegouts fees).filter (!Pegout.isViable ·)).map
      (·.2) = fallenIds pegouts fee.toNat := by
    rw [zipWith_afterFee hlen, List.filter_map, List.map_map, fallenIds]
    refine congrArg _ (filter_congr fun x hx => ?_)
    simp only [Function.comp_apply, isViable_afterFee hlen hshares hx]
  have hall : (pegouts.zipIdx.filter (stands pegouts fee.toNat)).length = pegouts.length ↔
      AllStand pegouts fee.toNat := by
    rw [AllStand, ← length_filter_eq_length_iff, length_zipIdx]
  have hnone : (pegouts.zipIdx.filter (stands pegouts fee.toNat)) = [] ↔
      NoneStands pegouts fee.toNat := by
    simp [NoneStands, filter_eq_nil_iff]
  refine ⟨(pegouts.zipIdx.filter (stands pegouts fee.toNat)).map
    fun x => x.1.afterFee (fees[x.2]?.getD 0), ?_⟩
  rw [tryApplyFeesAndFilterDust, ensure, if_pos hne, ok_bind, hfees, ok_bind]
  simp only [hkept, hfallen, List.length_map, List.isEmpty_iff, List.map_eq_nil_iff, hall, hnone,
    pure_eq_ok]

/-- A pass filters some pegouts, and then tells which, when some stand and some fall. -/
theorem tryApplyFeesAndFilterDust_eq_some {ids : List (List UInt8)} :
    tryApplyFeesAndFilterDust pegouts fee = .ok (.someFiltered ids) ↔
      ¬ AllStand pegouts fee.toNat ∧ ¬ NoneStands pegouts fee.toNat ∧
        ids = fallenIds pegouts fee.toNat := by
  by_cases hne : pegouts = []
  · subst hne
    simp [tryApplyFeesAndFilterDust, ensure, AllStand]
  · obtain ⟨result, heq⟩ := tryApplyFeesAndFilterDust_eq hne fee
    rw [heq]
    split
    case isTrue hall => simp [hall]
    case isFalse hall =>
      split
      case isTrue hnone => simp [hnone]
      case isFalse hnone => simp [hall, hnone, eq_comm]

end pass

/-! ## Two passes -/

section passes
variable {checks : Bool} {selectedInputs : List InputDTO} {pegouts : List Pegout}
  {changeScript : ScriptBuf} {feeRate : FeeRate}

/-- The fee of the transaction that pays these pegouts and the change. -/
def draftFee (checks : Bool) (selectedInputs : List InputDTO) (pegouts : List Pegout)
    (changeScript : ScriptBuf) (feeRate : FeeRate) : Outcome CoinSelectionError Amount := do
  let change ← createChange checks selectedInputs pegouts changeScript
  calculateRequiredFee selectedInputs pegouts change feeRate

/-- The pegouts that are left if those that fall at a fee are dropped, by their ids. -/
def leftAt (pegouts : List Pegout) (fee : Nat) : List Pegout :=
  withoutIds pegouts (fallenIds pegouts fee)

/-- Dropping the pegouts that fall leaves pegouts that all stand at their own fee, or none
that does; or there is nothing to drop. -/
def Settles (checks : Bool) (selectedInputs : List InputDTO) (pegouts : List Pegout)
    (changeScript : ScriptBuf) (feeRate : FeeRate) : Prop :=
  ∀ fee fee', draftFee checks selectedInputs pegouts changeScript feeRate = .ok fee →
    draftFee checks selectedInputs (leftAt pegouts fee.toNat) changeScript feeRate = .ok fee' →
    AllStand pegouts fee.toNat ∨ NoneStands pegouts fee.toNat ∨
      AllStand (leftAt pegouts fee.toNat) fee'.toNat ∨
      NoneStands (leftAt pegouts fee.toNat) fee'.toNat

/-- The error of a second pass that drops pegouts again. -/
def filteredMore : CoinSelectionError := .sanityCheckError .recalculationFilteredMoreOutputs

theorem failsIn_createChange (checks : Bool) (selectedInputs : List InputDTO)
    (pegouts : List Pegout) (changeScript : ScriptBuf) : FailsIn (· ≠ filteredMore)
      (createChange checks selectedInputs pegouts changeScript) := by
  have hsum : ∀ xs : List Amount,
      FailsIn (· ≠ filteredMore) (sumWord checks xs : Outcome CoinSelectionError Amount) := by
    intro xs e h
    unfold sumWord at h
    split at h <;> simp at h
  refine (hsum _).bind fun _ _ => (hsum _).bind fun _ _ => ?_
  exact (failsIn_ofOption (by simp [filteredMore])).bind fun _ _ => failsIn_ok _

theorem failsIn_calculateRequiredFee (inputs : List InputDTO) (outputs : List Pegout)
    (change : Option TxOut) (feeRate : FeeRate) : FailsIn (· ≠ filteredMore)
      (calculateRequiredFee inputs outputs change feeRate) :=
  (failsIn_mapErr (by simp [filteredMore])).bind fun _ _ =>
    failsIn_ofOption (by simp [filteredMore])

theorem failsIn_tryApplyFeesAndFilterDust (pegouts : List Pegout) (fee : Amount) :
    FailsIn (· ≠ filteredMore) (tryApplyFeesAndFilterDust pegouts fee) := by
  by_cases hne : pegouts = []
  · subst hne
    exact failsIn_err (by simp [filteredMore])
  · obtain ⟨result, heq⟩ := tryApplyFeesAndFilterDust_eq hne fee
    rw [heq]
    split
    · exact failsIn_ok _
    · split
      · exact failsIn_err (by simp [filteredMore])
      · exact failsIn_ok _

/-- The fee and the filter of one pass, before what is made of them. -/
theorem pass_eq_filteredMore {f : Option TxOut → FilterResult →
    Outcome CoinSelectionError (Psbt × List (List UInt8))} :
    (do let change ← createChange checks selectedInputs pegouts changeScript
        let fee ← calculateRequiredFee selectedInputs pegouts change feeRate
        let result ← tryApplyFeesAndFilterDust pegouts fee
        f change result) = .err filteredMore ↔
      ∃ change fee result, createChange checks selectedInputs pegouts changeScript = .ok change ∧
        calculateRequiredFee selectedInputs pegouts change feeRate = .ok fee ∧
        tryApplyFeesAndFilterDust pegouts fee = .ok result ∧ f change result = .err filteredMore := by
  simp only [(failsIn_createChange _ _ _ _).bind_eq_err,
    (failsIn_calculateRequiredFee _ _ _ _).bind_eq_err,
    (failsIn_tryApplyFeesAndFilterDust _ _).bind_eq_err, exists_and_left]

/-- The error comes from two passes that both filter some pegouts. -/
theorem applyFeesAndCreatePsbt_eq_filteredMore :
    applyFeesAndCreatePsbt checks selectedInputs pegouts changeScript feeRate = .err filteredMore ↔
      ∃ fee ids fee' ids', draftFee checks selectedInputs pegouts changeScript feeRate = .ok fee ∧
        tryApplyFeesAndFilterDust pegouts fee = .ok (.someFiltered ids) ∧
        draftFee checks selectedInputs (withoutIds pegouts ids) changeScript feeRate = .ok fee' ∧
        tryApplyFeesAndFilterDust (withoutIds pegouts ids) fee' = .ok (.someFiltered ids') := by
  rw [applyFeesAndCreatePsbt, pass_eq_filteredMore]
  constructor
  · intro ⟨change, fee, first, hchange, hfee, hfirst, h⟩
    cases first with
    | allRemaining result => simp at h
    | someFiltered ids =>
      obtain ⟨change', fee', second, hchange', hfee', hsecond, h⟩ := pass_eq_filteredMore.mp h
      cases second with
      | allRemaining result => simp at h
      | someFiltered ids' =>
        exact ⟨fee, ids, fee', ids', bind_eq_ok.mpr ⟨change, hchange, hfee⟩, hfirst,
          bind_eq_ok.mpr ⟨change', hchange', hfee'⟩, hsecond⟩
  · intro ⟨fee, ids, fee', ids', hdraft, hfirst, hdraft', hsecond⟩
    obtain ⟨change, hchange, hfee⟩ := bind_eq_ok.mp hdraft
    obtain ⟨change', hchange', hfee'⟩ := bind_eq_ok.mp hdraft'
    refine ⟨change, fee, .someFiltered ids, hchange, hfee, hfirst, ?_⟩
    exact pass_eq_filteredMore.mpr ⟨change', fee', .someFiltered ids', hchange', hfee', hsecond, rfl⟩

end passes

/-- One coin of 1,000,000 satoshis. -/
def oneInput : List InputDTO := [⟨⟨0xc0, 0⟩, ⟨1000000, p2tr 9⟩, none, .v1⟩]

/-- A pegout that is too small, one of the given value and a large one. -/
def besideSmall (value : Amount) : List Pegout :=
  [(⟨400, p2tr 1⟩, [1]), (⟨value, p2tr 2⟩, [2]), (⟨100000, p2tr 3⟩, [3])]

end Macbeth
