import Macbeth.BtcServer.App

/-!
# Which inputs round one checks (`validate_psbt`)

Before a signer commits to nonces it compares the inputs of a PSBT with its own records of
the coins: the output an input claims to spend and the address whose tweak its key carries.
A signer may not know every coin, so an input without a record is no error.

The loop however returns at the first input without a record, so nothing after it is
compared, and it compares no address when the record has none.  An input is therefore
covered exactly when every input before it has a record and its own record has an address:
otherwise whoever proposes the PSBT may put something else there and is not refused.
-/

namespace Macbeth

open Checked Outcome List Option AList

/-! ## The loop over the coins -/

/-- The comparison of one input with the record of its coin. -/
def PsbtInput.Agrees (input : PsbtInput) (utxo : Utxo) : Prop :=
  (utxo.ethAddress.isNone ∨ input.ethAddress = utxo.ethAddress) ∧
    input.witnessUtxo = some utxo.output

/-- An input with the output and the address of the record of its coin. -/
def PsbtInput.Matches (input : PsbtInput) (utxo : Utxo) : Prop :=
  input.witnessUtxo = some utxo.output ∧ input.ethAddress = utxo.ethAddress

/-- Every input of the transaction before position `i` has a record. -/
def Transaction.KnownBefore (tx : Transaction) (db : Db) (i : Nat) : Prop :=
  ∀ j < i, ∀ txin, tx.input[j]? = some txin → txin.previousOutput ∈ db.utxos

instance (tx : Transaction) (db : Db) (i : Nat) : Decidable (tx.KnownBefore db i) :=
  decidable_of_iff (∀ j < i, ∀ txin ∈ tx.input[j]?, txin.previousOutput ∈ db.utxos)
    (by simp [Transaction.KnownBefore])

section loop
variable {db : Db} {tx : Transaction}

/-- One pass of the loop. -/
theorem checkCoins_cons_eq_ok {input : PsbtInput} {index : Nat} {rest : List (PsbtInput × Nat)}
    {txin : TxIn} (h : tx.input[index]? = some txin) :
    checkCoins db tx ((input, index) :: rest) = .ok () ↔
      ∀ utxo, db.utxos.lookup txin.previousOutput = some utxo →
        input.Agrees utxo ∧ checkCoins db tx rest = .ok () := by
  have hindex : (Outcome.index tx.input index : Outcome ValidatePSBTError TxIn) = .ok txin :=
    index_eq_ok.mpr h
  rw [checkCoins, hindex, ok_bind]
  cases db.utxos.lookup txin.previousOutput with
  | none => simp
  | some utxo =>
    simp only [some.injEq, forall_eq', bind_eq_ok, ensure_eq_ok, ofOption_eq_ok]
    constructor
    · rintro ⟨-, haddress, txout, hwitness, -, rfl, hrest⟩
      exact ⟨⟨haddress, hwitness⟩, hrest⟩
    · rintro ⟨⟨haddress, hwitness⟩, hrest⟩
      exact ⟨⟨⟩, haddress, _, hwitness, ⟨⟩, rfl, hrest⟩

/-- The loop returns exactly when the inputs up to the first one without a record agree
with their records. -/
theorem checkCoins_eq_ok : ∀ {inputs : List PsbtInput} {k : Nat},
    k + inputs.length = tx.input.length →
    (checkCoins db tx (inputs.zipIdx k) = .ok () ↔
      ∀ i input txin utxo, inputs[i]? = some input → tx.input[k + i]? = some txin →
        db.utxos.lookup txin.previousOutput = some utxo →
        (∀ j < i, ∀ txin', tx.input[k + j]? = some txin' → txin'.previousOutput ∈ db.utxos) →
        input.Agrees utxo)
  | [], k, _ => by simp [checkCoins]
  | input :: inputs, k, hlen => by
    rw [length_cons] at hlen
    have hk : k < tx.input.length := by omega
    have hshift (j : Nat) : k + 1 + j = k + (j + 1) := by omega
    have hrest := @checkCoins_eq_ok inputs (k + 1) (by omega)
    rw [zipIdx_cons, checkCoins_cons_eq_ok (getElem?_eq_getElem hk)]
    constructor
    · intro h i input' txin utxo hinput htxin hutxo hknown
      cases i with
      | zero =>
        obtain rfl : input = input' := by simpa using hinput
        obtain rfl : tx.input[k] = txin := by simpa [hk] using htxin
        exact (h utxo hutxo).1
      | succ i =>
        -- the first input has a record, so the loop went on
        obtain ⟨first, hfirst⟩ : ∃ utxo, db.utxos.lookup tx.input[k].previousOutput = some utxo :=
          isSome_iff_exists.mp
            (lookup_isSome.mpr (hknown 0 (Nat.succ_pos i) _ (getElem?_eq_getElem hk)))
        refine hrest.mp (h first hfirst).2 i input' txin utxo (by simpa using hinput)
          (by rwa [hshift]) hutxo ?_
        intro j hj txin' htxin'
        exact hknown (j + 1) (Nat.succ_lt_succ hj) txin' (by rwa [← hshift])
    · intro h utxo hutxo
      refine ⟨h 0 input _ utxo rfl (getElem?_eq_getElem hk) hutxo (by simp), ?_⟩
      refine hrest.mpr fun i input' txin utxo' hinput htxin hutxo' hknown => ?_
      refine h (i + 1) input' txin utxo' (by simpa using hinput)
        (by rwa [← hshift]) hutxo' ?_
      intro j hj txin' htxin'
      cases j with
      | zero =>
        obtain rfl : tx.input[k] = txin' := by simpa [hk] using htxin'
        exact lookup_isSome.mp (by rw [hutxo]; rfl)
      | succ j =>
        exact hknown j (Nat.lt_of_succ_lt_succ hj) txin' (by rwa [hshift])

end loop

/-! ## What the other checks read of an input -/

/-- The PSBT with another input at a position. -/
def Psbt.setInput (psbt : Psbt) (i : Nat) (input : PsbtInput) : Psbt :=
  { psbt with inputs := psbt.inputs.set i input }

/-- Inputs that the checks before the loop do not tell apart. -/
structure PsbtInput.Alike (lib : SigningLib) (a b : PsbtInput) : Prop where
  value : a.witnessUtxo.map (·.value) = b.witnessUtxo.map (·.value)
  nonWitnessUtxo : a.nonWitnessUtxo = b.nonWitnessUtxo
  finalScriptSig : a.finalScriptSig = b.finalScriptSig
  finalScriptWitness : a.finalScriptWitness = b.finalScriptWitness
  commitments : a.allSigningCommitments lib = b.allSigningCommitments lib
  shares : a.allPartialSignatures lib = b.allPartialSignatures lib

variable {lib : SigningLib}

/-- A claimed output of the same value. -/
theorem PsbtInput.Alike.withScript {input : PsbtInput} {out : TxOut}
    (h : input.witnessUtxo = some out) (script : ScriptBuf) :
    ({ input with witnessUtxo := some ⟨out.value, script⟩ } : PsbtInput).Alike lib input :=
  ⟨by simp [h], rfl, rfl, rfl, rfl, rfl⟩

/-- A field that is not under an identifier is skipped. -/
theorem foldl_collectEntry_kerase {β : Type} {subtype : UInt8} {decode : List UInt8 → Option β}
    {key : ProprietaryKey} (hkey : key.cast subtype = none) :
    ∀ (entries : List (Sigma fun _ : ProprietaryKey => List UInt8)) (ret : FinMap Identifier β),
      (entries.kerase key).foldl (collectEntry lib subtype decode) ret =
        entries.foldl (collectEntry lib subtype decode) ret
  | [], _ => rfl
  | ⟨key', value⟩ :: entries, ret => by
    by_cases h : key = key'
    · subst h
      have hskip : collectEntry lib subtype decode ret ⟨key, value⟩ = ret := by
        rw [collectEntry, hkey]
        rfl
      simp [hskip]
    · rw [kerase_cons_ne h, foldl_cons, foldl_cons]
      exact foldl_collectEntry_kerase hkey entries _

theorem collectById_insert {β : Type} {subtype : UInt8} {decode : List UInt8 → Option β}
    {key : ProprietaryKey} (hkey : key.cast subtype = none) (value : List UInt8)
    (proprietary : Proprietary) :
    collectById lib subtype decode (proprietary.insert key value) =
      collectById lib subtype decode proprietary := by
  rw [collectById, entries_insert, foldl_cons, collectEntry, hkey]
  exact foldl_collectEntry_kerase hkey _ _

/-- Another address. -/
theorem PsbtInput.Alike.setEthAddress (input : PsbtInput) (address : Address) :
    (input.setEthAddress address).Alike lib input :=
  ⟨rfl, rfl, rfl, rfl, collectById_insert (by decide) _ _, collectById_insert (by decide) _ _⟩

section checks
variable {btc : BitcoinLib} {lib : SigningLib} {db : Db} {psbt : Psbt} {i : Nat}
  {input old : PsbtInput}

/-- What is computed input by input does not change with an input that gives the same. -/
theorem map_set_of_eq {α β : Type} {xs : List α} {x y : α} {i : Nat} {f : α → β}
    (hy : xs[i]? = some y) (h : f x = f y) : (xs.set i x).map f = xs.map f := by
  obtain ⟨hi, rfl⟩ := List.getElem?_eq_some_iff.mp hy
  rw [map_set, h, ← getElem_map (f := f) (h := by simpa using hi), set_getElem_self]

theorem zipWith_set_of_eq {α β γ : Type} {xs : List α} {x y : α} {i : Nat} {f : γ → α → β}
    (hy : xs[i]? = some y) (h : ∀ c, f c x = f c y) (cs : List γ) :
    List.zipWith f cs (xs.set i x) = List.zipWith f cs xs := by
  have hmap := map_set_of_eq (f := fun a c => f c a) hy (funext h)
  have hright (ys : List α) :
      zipWith f cs ys = zipWith (fun c g => g c) cs (ys.map fun a c => f c a) := by
    rw [zipWith_map_right]
  rw [hright, hmap, ← hright]

theorem fee_setInput (hold : psbt.inputs[i]? = some old) (h : input.Alike lib old) :
    (psbt.setInput i input).fee = psbt.fee := by
  have hvalue (txin : TxIn) :
      (do let out ← fundingUtxo (txin, input); pure out.value : Outcome PsbtError Amount) =
        (do let out ← fundingUtxo (txin, old); pure out.value) := by
    have hv := h.value
    simp only [fundingUtxo, h.nonWitnessUtxo]
    cases hi : input.witnessUtxo <;> cases ho : old.witnessUtxo <;> simp_all
  have htotal (value : TxIn × PsbtInput → Outcome PsbtError Amount) (inputs : List PsbtInput) :
      checkedTotal value (psbt.unsignedTx.input.zip inputs) =
        checkedTotal id (zipWith (fun a b => value (a, b)) psbt.unsignedTx.input inputs) := by
    have hmap := checkedTotal_map value id (psbt.unsignedTx.input.zip inputs)
    rw [List.zip, map_zipWith] at hmap
    exact hmap.symm
  have hzip := zipWith_set_of_eq (f := fun a b => (do
    let out ← fundingUtxo (a, b)
    pure out.value : Outcome PsbtError Amount)) hold hvalue psbt.unsignedTx.input
  simp only [Psbt.fee, Psbt.setInput, length_set, htotal, hzip]

theorem extractTx_setInput (hold : psbt.inputs[i]? = some old) (h : input.Alike lib old) :
    (psbt.setInput i input).extractTx = psbt.extractTx := by
  have htx : (psbt.setInput i input).internalExtractTx = psbt.internalExtractTx := by
    simp only [Psbt.internalExtractTx, Psbt.setInput]
    rw [zipWith_set_of_eq hold]
    intro vin
    rw [h.finalScriptSig, h.finalScriptWitness]
  simp only [Psbt.extractTx, fee_setInput hold h, htx]

theorem checkRounds_setInput (hold : psbt.inputs[i]? = some old) (h : input.Alike lib old)
    (flags : BitVec 8) (minSigners : Nat) :
    checkRounds lib (psbt.setInput i input) flags minSigners =
      checkRounds lib psbt flags minSigners := by
  simp only [checkRounds, Psbt.setInput, map_set_of_eq hold h.commitments,
    map_set_of_eq hold h.shares]

/-! ## The checks as a whole -/

/-- What `validate_psbt` checks before the loop over the coins. -/
structure Psbt.Sane (btc : BitcoinLib) (lib : SigningLib) (flags : BitVec 8) (minSigners : Nat)
    (db : Db) (psbt : Psbt) : Prop where
  inputs : psbt.inputs ≠ []
  conflicts : hasConflictingInput db psbt = .ok ()
  outputs : psbt.outputs ≠ []
  valid : (validateOutputs btc lib psbt db).1 = .ok ()
  fee : ∃ fee, psbt.fee = .ok fee ∧ fee.toNat ≤ (totalOutputsAmount psbt).toNat
  rounds : checkRounds lib psbt flags minSigners = .ok ()

variable {flags : BitVec 8} {minSigners : Nat}

theorem Psbt.Sane.setInput (hsane : psbt.Sane btc lib flags minSigners db)
    (hold : psbt.inputs[i]? = some old) (h : input.Alike lib old) :
    (psbt.setInput i input).Sane btc lib flags minSigners db where
  inputs := by
    intro hnil
    exact hsane.inputs (eq_nil_of_length_eq_zero (by
      rw [← length_set (i := i) (a := input)]
      exact length_eq_zero_iff.mpr hnil))
  conflicts := hsane.conflicts
  outputs := hsane.outputs
  valid := hsane.valid
  fee := by
    rw [fee_setInput hold h]
    exact hsane.fee
  rounds := by
    rw [checkRounds_setInput hold h]
    exact hsane.rounds

theorem validateOutputs_state {db' : Db} (h : validateOutputs btc lib psbt db = (.ok (), db')) :
    db' = db := by
  have hspec : Handler.Triple (· = db) (validateOutputs btc lib psbt) _ _ := validateOutputs_spec
  have hafter := hspec db rfl
  rw [h] at hafter
  exact hafter.2

/-- When the validation for round one succeeds. -/
theorem validatePsbt_eq_ok (hflag : hasFlag flags round1 = true) :
    (validatePsbt btc lib psbt flags minSigners db).1 = .ok () ↔
      psbt.Sane btc lib flags minSigners db ∧ ∃ tx, psbt.extractTx = .ok tx ∧
        checkCoins db tx psbt.inputs.zipIdx = .ok () := by
  have hflags : flags ≠ noFlags := by
    rintro rfl
    revert hflag
    decide
  have hiff : (validatePsbt btc lib psbt flags minSigners db).1 = .ok () ↔
      ∃ db', validatePsbt btc lib psbt flags minSigners db = (.ok (), db') :=
    ⟨fun h => ⟨_, Prod.ext h rfl⟩, fun ⟨_, h⟩ => by rw [h]⟩
  rw [hiff, validatePsbt]
  simp only [Handler.bind_eq_ok, Handler.lift_eq_ok, Handler.get_run, Handler.zoom_eq_ok,
    if_neg hflags, hflag, if_true, ensure_eq_ok, mapErr_eq_ok, sanityFee, id]
  constructor
  · rintro ⟨db', ⟨⟩, _, ⟨hinputs, rfl⟩, _, _, ⟨⟩, ⟨⟩, _, ⟨hconflicts, rfl⟩, ⟨⟩, _,
      ⟨houtputs, rfl⟩, ⟨⟩, _, ⟨_, hvalid, rfl⟩, fee, _, ⟨hfee, rfl⟩, ⟨⟩, _, ⟨hle, rfl⟩, ⟨⟩, _,
      ⟨hrounds, rfl⟩, tx, _, ⟨htx, rfl⟩, _, _, ⟨⟩, hcoins, rfl⟩
    obtain rfl := validateOutputs_state hvalid
    exact ⟨⟨hinputs, hconflicts, houtputs, by rw [hvalid], ⟨fee, hfee, hle⟩, hrounds⟩, tx, htx,
      hcoins⟩
  · rintro ⟨hsane, tx, htx, hcoins⟩
    obtain ⟨fee, hfee, hle⟩ := hsane.fee
    have hvalid : validateOutputs btc lib psbt db = (.ok (), _) := Prod.ext hsane.valid rfl
    rw [validateOutputs_state hvalid] at hvalid
    exact ⟨db, (), _, ⟨hsane.inputs, rfl⟩, _, _, rfl, (), _, ⟨hsane.conflicts, rfl⟩, (), _,
      ⟨hsane.outputs, rfl⟩, (), _, ⟨_, hvalid, rfl⟩, fee, _, ⟨hfee, rfl⟩, (), _, ⟨hle, rfl⟩, (), _,
      ⟨hsane.rounds, rfl⟩, tx, _, ⟨htx, rfl⟩, _, _, rfl, hcoins, rfl⟩

/-- The extracted transaction spends the same coins, one per input. -/
theorem previousOutput_of_extractTx {tx : Transaction} (h : psbt.extractTx = .ok tx) {j : Nat}
    {txin : TxIn} (htxin : tx.input[j]? = some txin) :
    ∃ txin', psbt.unsignedTx.input[j]? = some txin' ∧
      txin'.previousOutput = txin.previousOutput := by
  have hinputs := congrArg (·[j]?) (Psbt.inputs_of_extractTx h).1
  simpa [Transaction.inputs, htxin, eq_comm] using hinputs

theorem knownBefore_of_extractTx {tx : Transaction} (h : psbt.extractTx = .ok tx) :
    tx.KnownBefore db i ↔ psbt.unsignedTx.KnownBefore db i := by
  have hinputs (j : Nat) := congrArg (·[j]?) (Psbt.inputs_of_extractTx h).1
  have hknown (t : Transaction) : t.KnownBefore db i ↔
      ∀ j < i, ∀ op, t.inputs[j]? = some op → op ∈ db.utxos := by
    simp [Transaction.KnownBefore, Transaction.inputs]
  simp only [hknown, hinputs]

/-- The validation of a changed PSBT is the loop over its coins. -/
theorem validatePsbt_setInput (hflag : hasFlag flags round1 = true)
    (hvalid : (validatePsbt btc lib psbt flags minSigners db).1 = .ok ())
    (hold : psbt.inputs[i]? = some old) (halike : input.Alike lib old)
    (hcoin : ∀ txin utxo, psbt.unsignedTx.input[i]? = some txin →
      db.utxos.lookup txin.previousOutput = some utxo → psbt.unsignedTx.KnownBefore db i →
      input.Agrees utxo) :
    (validatePsbt btc lib (psbt.setInput i input) flags minSigners db).1 = .ok () := by
  obtain ⟨hsane, tx, htx, hcoins⟩ := (validatePsbt_eq_ok hflag).mp hvalid
  have hlen : 0 + psbt.inputs.length = tx.input.length := by
    rw [(Psbt.inputs_of_extractTx htx).2, Nat.zero_add]
  refine (validatePsbt_eq_ok hflag).mpr ⟨hsane.setInput hold halike, tx,
    (extractTx_setInput hold halike).trans htx, ?_⟩
  refine (checkCoins_eq_ok (by simpa [Psbt.setInput] using hlen)).mpr ?_
  intro j input' txin utxo hinput' htxin hutxo hknown
  rw [Nat.zero_add] at htxin
  simp only [Nat.zero_add] at hknown
  by_cases hj : j = i
  · subst hj
    have hi : j < psbt.inputs.length := (List.getElem?_eq_some_iff.mp hold).1
    obtain rfl : input = input' := by simpa [Psbt.setInput, getElem?_set, hi] using hinput'
    obtain ⟨txin', htxin', hop⟩ := previousOutput_of_extractTx htx htxin
    exact hcoin txin' utxo htxin' (hop ▸ hutxo) ((knownBefore_of_extractTx htx).mp hknown)
  · have hsame : psbt.inputs[j]? = some input' := by
      simpa [Psbt.setInput, getElem?_set, Ne.symm hj] using hinput'
    refine (checkCoins_eq_ok hlen).mp hcoins j input' txin utxo hsame (by rwa [Nat.zero_add])
      hutxo ?_
    simpa only [Nat.zero_add] using hknown

/-- A PSBT that passes round one matches the records up to the first unknown coin. -/
theorem agrees_of_validatePsbt {txin : TxIn} {utxo : Utxo} (hflag : hasFlag flags round1 = true)
    (hvalid : (validatePsbt btc lib psbt flags minSigners db).1 = .ok ())
    (hinput : psbt.inputs[i]? = some input) (htxin : psbt.unsignedTx.input[i]? = some txin)
    (hutxo : db.utxos.lookup txin.previousOutput = some utxo)
    (hknown : psbt.unsignedTx.KnownBefore db i) : input.Agrees utxo := by
  obtain ⟨-, tx, htx, hcoins⟩ := (validatePsbt_eq_ok hflag).mp hvalid
  obtain ⟨hinputs, hlength⟩ := Psbt.inputs_of_extractTx htx
  obtain ⟨txin', htxin'⟩ : ∃ txin', tx.input[i]? = some txin' := by
    have hi : i < psbt.inputs.length := (List.getElem?_eq_some_iff.mp hinput).1
    exact ⟨_, getElem?_eq_getElem (hlength ▸ hi)⟩
  obtain ⟨txin'', htxin'', hop⟩ := previousOutput_of_extractTx htx htxin'
  obtain rfl : txin = txin'' := some.inj (htxin.symm.trans htxin'')
  have hknown' := (knownBefore_of_extractTx htx).mpr hknown
  refine (checkCoins_eq_ok (by rw [hlength, Nat.zero_add])).mp hcoins i input txin' utxo hinput
    (by rwa [Nat.zero_add]) (hop ▸ hutxo) ?_
  simpa only [Transaction.KnownBefore, Nat.zero_add] using hknown'

/-- Whatever is proposed at a position with a record must match the record, exactly when all
inputs before it have records and its own record has an address. -/
theorem roundOne_covers_input_iff {flags : BitVec 8} {minSigners : Nat} {txin : TxIn} {utxo : Utxo}
    (hflag : hasFlag flags round1 = true)
    (hvalid : (validatePsbt btc lib psbt flags minSigners db).1 = .ok ())
    (htxin : psbt.unsignedTx.input[i]? = some txin)
    (hutxo : db.utxos.lookup txin.previousOutput = some utxo) :
    (∀ input, (validatePsbt btc lib (psbt.setInput i input) flags minSigners db).1 = .ok () →
      input.Matches utxo) ↔
    psbt.unsignedTx.KnownBefore db i ∧ utxo.ethAddress.isSome := by
  obtain ⟨hsane, tx, htx, -⟩ := (validatePsbt_eq_ok hflag).mp hvalid
  have hi : i < psbt.inputs.length := by
    rw [← (Psbt.inputs_of_extractTx htx).2]
    have hlength := congrArg List.length (Psbt.inputs_of_extractTx htx).1
    simp only [Transaction.inputs, length_map] at hlength
    exact hlength ▸ (List.getElem?_eq_some_iff.mp htxin).1
  have hold : psbt.inputs[i]? = some psbt.inputs[i] := getElem?_eq_getElem hi
  have hself : psbt.setInput i psbt.inputs[i] = psbt := by simp [Psbt.setInput]
  constructor
  · intro hcovers
    have hmatches := hcovers psbt.inputs[i] (hself.symm ▸ hvalid)
    constructor
    · -- behind an unknown coin another script passes
      by_contra hunknown
      have hother := hcovers _ (validatePsbt_setInput hflag hvalid hold
        (PsbtInput.Alike.withScript hmatches.1 (0 :: utxo.output.scriptPubkey))
        fun _ _ _ _ hknown => absurd hknown hunknown)
      have hscript := congrArg TxOut.scriptPubkey (some.inj hother.1)
      exact cons_ne_self _ _ hscript
    · -- without an address on record any address passes
      by_contra hnone
      have haddress : utxo.ethAddress = none := by simpa using hnone
      have hother := hcovers _ (validatePsbt_setInput hflag hvalid hold
        (PsbtInput.Alike.setEthAddress psbt.inputs[i] 0) fun txin' utxo' htxin' hutxo' _ => by
          obtain rfl : txin = txin' := some.inj (htxin.symm.trans htxin')
          obtain rfl : utxo = utxo' := some.inj (hutxo.symm.trans hutxo')
          exact ⟨.inl (by simp [haddress]), hmatches.1⟩)
      have hsome : (psbt.inputs[i].setEthAddress 0).ethAddress ≠ none := by
        simp [PsbtInput.setEthAddress, PsbtInput.ethAddress, lookup_insert]
      exact hsome (hother.2.trans haddress)
  · rintro ⟨hknown, haddress⟩ input hok
    obtain ⟨hcompared, hwitness⟩ := agrees_of_validatePsbt hflag hok
      (show (psbt.inputs.set i input)[i]? = some input by simp [hi]) htxin hutxo hknown
    refine ⟨hwitness, hcompared.resolve_left ?_⟩
    simp [isSome_iff_ne_none.mp haddress]

end checks

/-! ## A coin behind an unknown one -/

/-- A pegin's coin, with the address of its tweak. -/
def peginCoin : Utxo := ⟨firstCoin, ⟨100000, p2tr 7⟩, some 0x1234, 0⟩

/-- The tables of a signer that knows this coin only. -/
def oneCoinDb : Db := { freshDb with utxos := FinMap.insertNewAll ∅ (·.outpoint) [peginCoin] }

/-- The input of a coin, as its record has it. -/
def recordedInput : PsbtInput :=
  PsbtInput.setEthAddress { PsbtInput.empty with witnessUtxo := some peginCoin.output } 0x1234

/-- A payment of 180,000 satoshis from two coins. -/
def twoCoinPsbt (coins : List OutPoint) (inputs : List PsbtInput) : Psbt where
  unsignedTx := ⟨2, 0, coins.map fun coin => ⟨coin, [], enableRbfNoLocktime, []⟩,
    [⟨180000, p2tr 9⟩]⟩
  inputs := inputs
  outputs := [PsbtOutput.empty.setPegoutId samplePegoutId.asBytes]

/-- The known coin first. -/
def knownFirst : Psbt := twoCoinPsbt [firstCoin, secondCoin] [recordedInput, recordedInput]

/-- The known coin second, with another script and no address. -/
def knownSecond : Psbt :=
  twoCoinPsbt [secondCoin, firstCoin]
    [recordedInput, { PsbtInput.empty with witnessUtxo := some ⟨100000, p2tr 8⟩ }]

/-- The validation of round one at a signer that knows one coin. -/
def validateOneCoin (psbt : Psbt) : Outcome ValidatePSBTError Unit :=
  (validatePsbt federationBitcoin fixedLengthSigning psbt round1 2 oneCoinDb).1

theorem validateOneCoin_eq_ok {psbt : Psbt} (h : (validateOneCoin psbt).isOk = true) :
    (validatePsbt federationBitcoin fixedLengthSigning psbt round1 2 oneCoinDb).1 = .ok () :=
  eq_ok_getD h ()

/-- The input of a known coin that comes first is compared. -/
theorem first_input_covered :
    hasFlag round1 round1 = true ∧
    (validatePsbt federationBitcoin fixedLengthSigning knownFirst round1 2 oneCoinDb).1 = .ok () ∧
    oneCoinDb.utxos.lookup firstCoin = some peginCoin ∧
    ∀ input, (validatePsbt federationBitcoin fixedLengthSigning (knownFirst.setInput 0 input)
      round1 2 oneCoinDb).1 = .ok () → input.Matches peginCoin := by
  have hvalid : (validatePsbt federationBitcoin fixedLengthSigning knownFirst round1 2
      oneCoinDb).1 = .ok () := validateOneCoin_eq_ok (by decide +kernel)
  have hcoin : oneCoinDb.utxos.lookup firstCoin = some peginCoin := by decide +kernel
  refine ⟨by decide, hvalid, hcoin, ?_⟩
  refine (roundOne_covers_input_iff (by decide) hvalid rfl hcoin).mpr ?_
  exact ⟨fun j hj => absurd hj (Nat.not_lt_zero j), rfl⟩

/-- The input of a known coin behind an unknown one is not. -/
theorem second_input_not_covered :
    (validatePsbt federationBitcoin fixedLengthSigning knownSecond round1 2 oneCoinDb).1 = .ok () ∧
    ∃ input txin, knownSecond.inputs[1]? = some input ∧
      knownSecond.unsignedTx.input[1]? = some txin ∧
      oneCoinDb.utxos.lookup txin.previousOutput = some peginCoin ∧
      input.witnessUtxo ≠ some peginCoin.output ∧ input.ethAddress ≠ peginCoin.ethAddress := by
  refine ⟨validateOneCoin_eq_ok (by decide +kernel), _, _, rfl, rfl, ?_⟩
  decide +kernel

end Macbeth
