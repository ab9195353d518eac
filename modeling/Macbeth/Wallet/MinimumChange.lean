import Macbeth.Wallet.Conservation

/-!
# The least change of a pegout transaction

The selection is asked for the pegouts and a target for the change, which is at least
`MIN_CHANGE_SATS` unless less than that would remain; then it is all that remains.  In that
case the target is the whole wallet, and the fees of the inputs put it out of reach.  Only a
wallet without any value is selected from with such a target: nothing is asked for, and the
empty selection gives it.
-/

namespace Macbeth

open Checked Outcome List FinMap

/-- What the selection algorithm is taken to ensure: it selects some of the coins it is
offered, and their values less the fees of the inputs reach the target. -/
def CoinSelectionAlgorithm.ReachesTarget (algorithm : CoinSelectionAlgorithm)
    (inputFee : FeeRate → Utxo → Nat) : Prop :=
  ∀ required optionals feeRate target script selection,
    algorithm required optionals feeRate target script = .ok selection →
    ∃ coins : List Utxo, coins.Subperm (required ++ optionals) ∧
      selection = coins.map (·.outpoint) ∧
      target.toNat + (coins.map (inputFee feeRate)).sum ≤ natSum (coins.map (·.output.value))

/-- Two sets of coins: each is under its own outpoint, and an outpoint is one output. -/
structure UtxoSets (optionalUtxos requiredUtxos : FinMap OutPoint Utxo) : Prop where
  optional_keyed : ∀ op u, optionalUtxos.lookup op = some u → u.outpoint = op
  required_keyed : ∀ op u, requiredUtxos.lookup op = some u → u.outpoint = op
  same : ∀ op u v, optionalUtxos.lookup op = some u → requiredUtxos.lookup op = some v →
    u.output = v.output

section change
variable {checks : Bool} {algorithm : CoinSelectionAlgorithm} {inputFee : FeeRate → Utxo → Nat}
  {optionalUtxos requiredUtxos : FinMap OutPoint Utxo} {feeRate : FeeRate}
  {changeScript : ScriptBuf}

/-- The target of the change is at least the floor or all that remains. -/
theorem calculateTargetChange_bounds {pegouts remaining target : Amount}
    (h : calculateTargetChange pegouts remaining = .ok target) :
    min minChangeSats.toNat remaining.toNat ≤ target.toNat := by
  obtain ⟨wanted, -, h⟩ := bind_eq_ok.mp h
  obtain ⟨ceiling, -, h⟩ := bind_eq_ok.mp h
  obtain rfl := Outcome.ok.inj h
  have hlt := remaining.isLt
  rw [BitVec.toNat_ofNat, Nat.mod_eq_of_lt (by omega)]
  omega

/-- The coins of both sets. -/
def walletValue (optionalUtxos requiredUtxos : FinMap OutPoint Utxo) : Nat :=
  natSum (requiredUtxos.values.map (·.output.value)) +
    natSum (optionalUtxos.values.map (·.output.value))

/-- What an accepted selection went through. -/
theorem selectInputs_eq_ok {pegouts : List Pegout} {selected : List InputDTO}
    (h : selectInputs algorithm optionalUtxos requiredUtxos pegouts feeRate changeScript =
      .ok selected) :
    ∃ remaining change target : Amount, walletValue optionalUtxos requiredUtxos < 2 ^ 64 ∧
      natSum (pegouts.map (·.1.value)) + remaining.toNat =
        walletValue optionalUtxos requiredUtxos ∧
      min minChangeSats.toNat remaining.toNat ≤ change.toNat ∧
      target.toNat = natSum (pegouts.map (·.1.value)) + change.toNat ∧
      performCoinSelection algorithm optionalUtxos requiredUtxos feeRate target changeScript =
        .ok selected := by
  obtain ⟨required, hrequired, h⟩ := bind_eq_ok.mp h
  obtain ⟨optionals, hoptionals, h⟩ := bind_eq_ok.mp h
  obtain ⟨total, htotal, h⟩ := bind_eq_ok.mp h
  obtain ⟨gross, hgross, h⟩ := bind_eq_ok.mp h
  obtain ⟨remaining, hremaining, h⟩ := bind_eq_ok.mp h
  obtain ⟨change, hchange, h⟩ := bind_eq_ok.mp h
  obtain ⟨target, htarget, h⟩ := bind_eq_ok.mp h
  have hrequired := checkedSum_eq_some.mp (ofOption_eq_ok.mp hrequired)
  have hoptionals := checkedSum_eq_some.mp (ofOption_eq_ok.mp hoptionals)
  have htotal := checkedAdd_eq_some.mp (ofOption_eq_ok.mp htotal)
  have hgross := checkedSum_eq_some.mp (ofOption_eq_ok.mp hgross)
  have hremaining := checkedSub_eq_some.mp (ofOption_eq_ok.mp hremaining)
  have htarget := checkedAdd_eq_some.mp (ofOption_eq_ok.mp htarget)
  have hwallet : walletValue optionalUtxos requiredUtxos = total.toNat := by
    rw [walletValue]
    omega
  exact ⟨remaining, change, target, hwallet ▸ total.isLt, by omega,
    calculateTargetChange_bounds hchange, by omega, h⟩

/-- The record of a selected coin has the coin's output. -/
theorem UtxoSets.lookup_coin (hsets : UtxoSets optionalUtxos requiredUtxos) {coin : Utxo}
    (hcoin : coin ∈ requiredUtxos.values ++ optionalUtxos.values) :
    ∃ u, (optionalUtxos.lookup coin.outpoint).or (requiredUtxos.lookup coin.outpoint) = some u ∧
      u.output = coin.output := by
  obtain hcoin | hcoin := mem_append.mp hcoin
  · obtain ⟨op, hop⟩ := mem_values.mp hcoin
    rw [hsets.required_keyed op coin hop]
    cases hopt : optionalUtxos.lookup op with
    | none => exact ⟨coin, by simp [hop], rfl⟩
    | some u => exact ⟨u, by simp, hsets.same op u coin hopt hop⟩
  · obtain ⟨op, hop⟩ := mem_values.mp hcoin
    rw [hsets.optional_keyed op coin hop]
    exact ⟨coin, by simp [hop], rfl⟩

/-- The selected inputs are worth what the selected coins are. -/
theorem UtxoSets.natSum_selected (hsets : UtxoSets optionalUtxos requiredUtxos)
    {coins : List Utxo} (hcoins : ∀ c ∈ coins, c ∈ requiredUtxos.values ++ optionalUtxos.values) :
    ((coins.map (·.outpoint)).filterMap fun op =>
        (optionalUtxos.lookup op).or (requiredUtxos.lookup op)).map (·.output.value) =
      coins.map (·.output.value) := by
  induction coins with
  | nil => rfl
  | cons coin coins ih =>
    obtain ⟨hcoin, hcoins⟩ := forall_mem_cons.mp hcoins
    obtain ⟨u, hu, hout⟩ := hsets.lookup_coin hcoin
    rw [map_cons, filterMap_cons]
    simp only [hu, map_cons, ih hcoins, hout]

/-- Some of the coins are worth no more than all of them. -/
theorem natSum_le_walletValue {coins : List Utxo}
    (h : coins.Subperm (requiredUtxos.values ++ optionalUtxos.values)) :
    natSum (coins.map (·.output.value)) ≤ walletValue optionalUtxos requiredUtxos := by
  obtain ⟨coins', hperm, hsub⟩ := h
  calc natSum (coins.map (·.output.value))
      = natSum (coins'.map (·.output.value)) := ((hperm.map _).map _).sum_eq.symm
    _ ≤ natSum ((requiredUtxos.values ++ optionalUtxos.values).map (·.output.value)) :=
      ((hsub.map _).map _).sum_le_sum (by simp)
    _ = walletValue optionalUtxos requiredUtxos := by rw [map_append, natSum_append]; rfl

/-- The selected inputs exceed the pegouts by the floor, if the wallet has any value. -/
theorem selected_exceeds (hsets : UtxoSets optionalUtxos requiredUtxos)
    (hreach : algorithm.ReachesTarget inputFee) (hfee : ∀ u, 0 < inputFee feeRate u)
    (hvalue : 0 < walletValue optionalUtxos requiredUtxos) {pegouts : List Pegout}
    {selected : List InputDTO}
    (h : selectInputs algorithm optionalUtxos requiredUtxos pegouts feeRate changeScript =
      .ok selected) :
    natSum (pegouts.map (·.1.value)) + minChangeSats.toNat ≤
        natSum (selected.map (·.output.value)) ∧
      natSum (selected.map (·.output.value)) < 2 ^ 64 := by
  obtain ⟨remaining, change, target, hlt, hremaining, hchange, htarget, h⟩ := selectInputs_eq_ok h
  obtain ⟨selection, halgorithm, h⟩ := bind_eq_ok.mp h
  obtain rfl := Outcome.ok.inj h
  obtain ⟨coins, hsub, rfl, hreached⟩ := hreach _ _ _ _ _ _ (ofExcept_eq_ok.mp halgorithm)
  have hsum : natSum (coins.map (·.output.value)) ≤ walletValue optionalUtxos requiredUtxos :=
    natSum_le_walletValue hsub
  have hselected : (((coins.map (·.outpoint)).filterMap fun op =>
      (optionalUtxos.lookup op).or (requiredUtxos.lookup op)).map InputDTO.ofUtxo).map
        (·.output.value) = coins.map (·.output.value) := by
    rw [map_map]
    exact hsets.natSum_selected fun c hc => hsub.subset hc
  rw [hselected]
  refine ⟨?_, by omega⟩
  rw [min_le_iff] at hchange
  -- an input costs something, so the fees are nothing only for the empty selection
  cases coins with
  | nil =>
    simp only [map_nil, sum_nil, natSum_nil] at hreached
    omega
  | cons coin coins =>
    have hpos := hfee coin
    rw [map_cons, sum_cons] at hreached
    omega

end change

/-- The output a returned PSBT ends with pays the change: at least the floor, if the coins
the selection is offered have any value. -/
theorem coinSelection_change_ge {algorithm : CoinSelectionAlgorithm}
    {inputFee : FeeRate → Utxo → Nat} (hreach : algorithm.ReachesTarget inputFee)
    (hcosts : ∀ feeRate u, 0 < feeRate.toNat → 0 < inputFee feeRate u) {feeRate : FeeRate}
    (hrate : 0 < feeRate.toNat) {optionalUtxos requiredUtxos : FinMap OutPoint Utxo}
    (hsets : UtxoSets optionalUtxos requiredUtxos)
    (hvalue : 0 < walletValue optionalUtxos requiredUtxos) {checks : Bool}
    {outputs : List (TxOut × PegoutId)} {changeScript : ScriptBuf} {psbt : Psbt}
    (h : coinSelection checks algorithm optionalUtxos requiredUtxos outputs feeRate changeScript =
      .ok psbt) :
    ∃ change : Amount, psbt.unsignedTx.output.getLast? = some ⟨change, changeScript⟩ ∧
      minChangeSats.toNat ≤ change.toNat := by
  obtain ⟨selected, kept, fee, shares, change, paid, hsel, hkept, hfit, -, hbuilt, -⟩ :=
    coinSelection_eq_ok h
  obtain ⟨hexceeds, hlt⟩ := selected_exceeds hsets hreach (hcosts feeRate · hrate) hvalue hsel
  obtain ⟨amount, ins, outs, hamount, hins, houts, hsum⟩ := createChange_eq_ok hbuilt.created
  obtain rfl : change = amount := congrArg TxOut.value (Option.some.inj hamount)
  have hins := toNat_of_sumWord hins hlt
  have houts := toNat_of_sumWord houts hfit
  have hless : natSum ((toPegouts kept).map (·.1.value)) ≤
      natSum ((toPegouts outputs).map (·.1.value)) :=
    (((hkept.map _).map _).map _).sum_le_sum (by simp)
  refine ⟨change, ?_, by omega⟩
  rw [hbuilt.psbt_eq, output_createPsbt]
  simp

/-! ## A wallet with a coin, and one without -/

/-- The fee of an input with a key-path signature, of 230 weight units. -/
def keyspendFee (feeRate : FeeRate) (_ : Utxo) : Nat := (feeRate.toNat * 230 + 999) / 1000

theorem keyspendFee_pos (feeRate : FeeRate) (u : Utxo) (h : 0 < feeRate.toNat) :
    0 < keyspendFee feeRate u := by
  rw [keyspendFee]
  omega

/-- Select everything, if that reaches the target. -/
def selectReaching : CoinSelectionAlgorithm := fun required optionals feeRate target _ =>
  if target.toNat + ((required ++ optionals).map (keyspendFee feeRate)).sum ≤
      natSum ((required ++ optionals).map (·.output.value)) then
    .ok ((required ++ optionals).map (·.outpoint))
  else .error (target, 0)

theorem reachesTarget_selectReaching : selectReaching.ReachesTarget keyspendFee := by
  intro required optionals feeRate target script selection h
  unfold selectReaching at h
  split at h
  · rename_i hreached
    exact ⟨required ++ optionals, List.Subperm.refl _, (Except.ok.inj h).symm, hreached⟩
  · contradiction

theorem utxoSets_empty : UtxoSets ∅ ∅ := ⟨by simp, by simp, by simp⟩

theorem utxoSets_sampleCoins : UtxoSets sampleCoins ∅ where
  optional_keyed op u h := by
    have hmem := mem_of_lookup_ofList h
    simp only [mem_singleton, Prod.mk.injEq] at hmem
    rw [hmem.1, hmem.2]
  required_keyed op u h := by simp at h
  same op u v _ h := by simp at h

/-- Two payments out of a coin of 1,000,000 satoshis leave at least the floor. -/
theorem payments_leave_change :
    ∃ psbt, coinSelection true selectReaching sampleCoins ∅ (besidePegout ⟨50000, p2tr 8⟩) 250
        (p2tr 9) = .ok psbt ∧
      ∃ change : Amount, psbt.unsignedTx.output.getLast? = some ⟨change, p2tr 9⟩ ∧
        minChangeSats.toNat ≤ change.toNat := by
  have hrun : (coinSelection true selectReaching sampleCoins ∅ (besidePegout ⟨50000, p2tr 8⟩) 250
      (p2tr 9)).returns (fun _ => true) = true := by decide +kernel
  obtain ⟨psbt, hpsbt, -⟩ := returns_eq_true.mp hrun
  exact ⟨psbt, hpsbt, coinSelection_change_ge reachesTarget_selectReaching keyspendFee_pos (by decide)
    utxoSets_sampleCoins (by decide +kernel) hpsbt⟩

/-- A burn of nothing out of an empty wallet: a transaction without inputs, and a change of
nothing. -/
theorem burn_of_nothing_leaves_none :
    ∃ psbt, coinSelection true selectReaching ∅ ∅ [(⟨0, [0x6a]⟩, ⟨0xb0, 0⟩)] 250 (p2tr 9) =
        .ok psbt ∧ selectReaching.ReachesTarget keyspendFee ∧
      (∀ feeRate u, 0 < feeRate.toNat → 0 < keyspendFee feeRate u) ∧ UtxoSets ∅ ∅ ∧
      ¬ ∃ change : Amount, psbt.unsignedTx.output.getLast? = some ⟨change, p2tr 9⟩ ∧
        minChangeSats.toNat ≤ change.toNat := by
  have hrun : (coinSelection true selectReaching ∅ ∅ [(⟨0, [0x6a]⟩, ⟨0xb0, 0⟩)] 250
      (p2tr 9)).returns (fun psbt => psbt.unsignedTx.output.getLast? = some ⟨0, p2tr 9⟩) = true := by
    decide +kernel
  obtain ⟨psbt, hpsbt, hlast⟩ := returns_eq_true.mp hrun
  refine ⟨psbt, hpsbt, reachesTarget_selectReaching, keyspendFee_pos, utxoSets_empty, ?_⟩
  intro ⟨change, hchange, hfloor⟩
  rw [of_decide_eq_true hlast, Option.some.injEq, TxOut.mk.injEq] at hchange
  rw [← hchange.1] at hfloor
  exact absurd hfloor (by decide)

end Macbeth
