import Macbeth.BtcServer.PsbtChecks

/-!
# The two signing rounds (`signer/mod.rs`)

Round one draws a pair of nonces per input and adds the commitments to the PSBT.  Round
two compares the commitments the PSBT carries for this signer with those of the stored
nonces, input by input, and signs.
-/

namespace Macbeth

open Outcome List Outcome

inductive SigningRound1Error where
  | validatePsbt (e : ValidatePSBTError)
  | missingKeyPackage
  deriving DecidableEq, Repr

inductive SigningRound2Error where
  | validatePsbt (e : ValidatePSBTError)
  | extractTx (e : ExtractTxError)
  | conversion (e : PsbtToSigningPackageConversionError)
  | invalidSigningPackage (msg : String)
  | signerNotFound (index : Nat)
  | missingKeyPackage
  | frostError
  | failedToDeserializePegoutId
  deriving DecidableEq, Repr

/-- The nonces of a session, one pair per input, with their commitments. -/
abbrev SessionNonces := List (SigningNonces × SigningCommitments)

section signer
variable (btc : BitcoinLib) (lib : SigningLib) (minSigners : Nat) (identifier : Identifier)

/-- `get_round1_signing_package`; `commit` are the pairs the library draws. -/
def getRound1SigningPackage (psbt : Psbt) (commit : Nat → SigningNonces × SigningCommitments) :
    Handler Db SigningRound1Error (Psbt × SessionNonces) := do
  Handler.zoom id (fun db _ => db) .validatePsbt (validatePsbt btc lib psbt round1 minSigners)
  let _ ← Handler.lift (ofOption (← Handler.get).keyPackage .missingKeyPackage)
  let inputs := psbt.inputs.zipIdx.map fun x =>
    x.1.setSigningCommitment lib identifier (commit x.2).2
  pure ({ psbt with inputs := inputs }, (List.range psbt.inputs.length).map commit)

/-- The check of one input's package against the stored nonces. -/
def checkCommitment (nonces : SessionNonces) (package : SigningPackage) (index : Nat) :
    Outcome SigningRound2Error Unit := do
  let ours ← ofOption (package.signingCommitments.lookup identifier) (.signerNotFound index)
  let nonce ← Outcome.index nonces index
  ensure (ours = nonce.2) (.invalidSigningPackage "Invalid nonce pair for this signer")

/-- The share of one input, added to it. -/
def signInput (nonces : SessionNonces) (key : KeyPackage) (package : SigningPackage)
    (input : PsbtInput) (index : Nat) : Outcome SigningRound2Error PsbtInput := do
  let nonce ← Outcome.index nonces index
  let params : SigningParameters := ⟨none, input.ethAddress.map Address.toBytes⟩
  let sig ← ofOption (lib.signWithTweak package nonce.1 key params) .frostError
  pure (input.setPartialSignature lib identifier sig)

/-- `get_round2_signing_package`. -/
def getRound2SigningPackage (psbt : Psbt) (nonces : SessionNonces) :
    Handler Db SigningRound2Error Psbt := do
  Handler.zoom id (fun db _ => db) .validatePsbt (validatePsbt btc lib psbt round2 minSigners)
  let tx ← Handler.lift (psbt.extractTx.mapErr .extractTx)
  let packages ← Handler.lift ((psbt.signingPackages lib).mapErr .conversion)
  Handler.lift (ensure (nonces.length = tx.input.length)
    (.invalidSigningPackage "Number of signing nonces does not match number of inputs"))
  Handler.lift (packages.zipIdx.forM fun x => checkCommitment identifier nonces x.1 x.2)
  let key ← Handler.lift (ofOption (← Handler.get).keyPackage .missingKeyPackage)
  let inputs ← Handler.lift ((packages.zip psbt.inputs).zipIdx.mapM fun x =>
    signInput lib identifier nonces key x.1.1 x.1.2 x.2)
  let signed := { psbt with inputs := inputs }
  let _ ← Handler.lift (signed.extractTx.mapErr .extractTx)
  pure signed

end signer

/-! ## What the rounds leave as it was -/

/-- The commitments a PSBT carries for one signer, input by input. -/
def Psbt.commitmentsOf (lib : SigningLib) (identifier : Identifier) (psbt : Psbt) :
    List (Option SigningCommitments) :=
  psbt.inputs.map (·.signingCommitments lib identifier)

section spec
variable {btc : BitcoinLib} {lib : SigningLib} {minSigners : Nat} {identifier : Identifier}
  {db : Db} {psbt : Psbt}

open Handler

/-- Round one hands out the commitments of the nonces it returns. -/
theorem getRound1SigningPackage_spec (commit : Nat → SigningNonces × SigningCommitments) :
    Triple (· = db) (getRound1SigningPackage btc lib minSigners identifier psbt commit)
      (fun x db' => x.1.commitmentsOf lib identifier = x.2.map (fun nonce => some nonce.2) ∧ db' = db)
      db.AfterCheck := by
  refine Triple.bind (Triple.zoom fun d h => (validatePsbt_spec round1 minSigners).conseq
    (fun _ h' => h'.trans h) (fun _ _ => id) fun _ => id) fun _ => Triple.of_fact fun _ => ?_
  refine Triple.get_bind fun d h => ?_
  subst h
  refine Triple.bind lift_spec fun _ => Triple.of_fact fun _ => Triple.pure fun _ h => ⟨?_, h⟩
  have hset : ∀ x : PsbtInput × Nat, (x.1.setSigningCommitment lib identifier
      (commit x.2).2).signingCommitments lib identifier = some (commit x.2).2 := fun x =>
    PsbtInput.signingCommitments_setSigningCommitment x.1 identifier _
  calc (psbt.inputs.zipIdx.map fun x => x.1.setSigningCommitment lib identifier (commit x.2).2).map
        (·.signingCommitments lib identifier)
      = (psbt.inputs.zipIdx.map Prod.snd).map fun i => some (commit i).2 := by
        simp only [map_map]
        exact map_congr_left fun x _ => hset x
    _ = ((List.range psbt.inputs.length).map commit).map fun nonce => some nonce.2 := by
        rw [zipIdx_map_snd, range_eq_range', map_map]
        rfl

/-- The signed PSBT differs in proprietary fields only. -/
theorem bare_of_signInput {nonces : SessionNonces} {key : KeyPackage} :
    ∀ {packages : List SigningPackage} {inputs inputs' : List PsbtInput} {k : Nat},
      packages.length = inputs.length →
      ((packages.zip inputs).zipIdx k).mapM (fun x =>
        signInput lib identifier nonces key x.1.1 x.1.2 x.2) = .ok inputs' →
      inputs'.map PsbtInput.bare = inputs.map PsbtInput.bare
  | [], [], inputs', k, _, h => by
    obtain rfl : inputs' = [] := (ok.inj h).symm
    rfl
  | package :: packages, input :: inputs, inputs', k, hlen, h => by
    rw [zip_cons_cons, zipIdx_cons, mapM_cons] at h
    obtain ⟨signed, hsigned, h⟩ := bind_eq_ok.mp h
    obtain ⟨rest, hrest, h⟩ := bind_eq_ok.mp h
    obtain rfl := ok.inj h
    obtain ⟨nonce, -, hsigned⟩ := bind_eq_ok.mp hsigned
    obtain ⟨sig, -, hsigned⟩ := bind_eq_ok.mp hsigned
    obtain rfl := ok.inj hsigned
    rw [map_cons, map_cons, bare_of_signInput (Nat.succ.inj hlen) hrest]
    rfl

/-- What a check of all packages says about the PSBT. -/
theorem commitments_of_checkCommitment {nonces : SessionNonces} {packages : List SigningPackage}
    (hpackages : psbt.signingPackages lib = .ok packages)
    (hlen : nonces.length = psbt.inputs.length)
    (hcheck : packages.zipIdx.forM (fun x => checkCommitment identifier nonces x.1 x.2) = .ok ()) :
    psbt.commitmentsOf lib identifier = nonces.map fun nonce => some nonce.2 := by
  have hforall := mapM_eq_ok.mp hpackages
  have hlength : packages.length = psbt.inputs.length := by
    rw [← hforall.length_eq, length_zipIdx]
  apply ext_getElem
  · simp [Psbt.commitmentsOf, hlen]
  · intro i hi _
    have hi : i < psbt.inputs.length := by simpa [Psbt.commitmentsOf] using hi
    -- the package of this input holds the input's own commitments
    have hpackage := forall₂_iff_get.mp hforall |>.2 i (by simpa using hi) (by omega)
    obtain ⟨sighash, -, hpackage⟩ := bind_eq_ok.mp hpackage
    obtain ⟨_, -, hpackage⟩ := bind_eq_ok.mp hpackage
    have hmem : (packages[i], i) ∈ packages.zipIdx := by
      rw [mk_mem_zipIdx_iff_getElem?]
      exact getElem?_eq_getElem _
    obtain ⟨ours, hours, h⟩ := bind_eq_ok.mp (forM_eq_ok.mp hcheck _ hmem)
    obtain ⟨nonce, hnonce, h⟩ := bind_eq_ok.mp h
    have hlookup := ofOption_eq_ok.mp hours
    have hget : packages[i].signingCommitments = psbt.inputs[i].allSigningCommitments lib := by
      have := congrArg SigningPackage.signingCommitments (ok.inj hpackage)
      simpa using this.symm
    rw [hget, PsbtInput.lookup_allSigningCommitments] at hlookup
    obtain ⟨hlt, rfl⟩ := List.getElem?_eq_some_iff.mp (index_eq_ok.mp hnonce)
    simp only [Psbt.commitmentsOf, getElem_map, hlookup, ensure_eq_ok.mp h]

/-- What round two has checked of the PSBT it signs. -/
structure Psbt.SignedAs (lib : SigningLib) (identifier : Identifier) (db : Db) (psbt : Psbt)
    (nonces : SessionNonces) (signed : Psbt) : Prop where
  passes : psbt.Passes db
  commitments : psbt.commitmentsOf lib identifier = nonces.map fun nonce => some nonce.2
  unsignedTx : signed.unsignedTx = psbt.unsignedTx
  outputs : signed.outputs = psbt.outputs
  extractTx : signed.extractTx = psbt.extractTx

theorem getRound2SigningPackage_spec (nonces : SessionNonces) :
    Triple (· = db) (getRound2SigningPackage btc lib minSigners identifier psbt nonces)
      (fun signed db' => psbt.SignedAs lib identifier db nonces signed ∧ db' = db)
      db.AfterCheck := by
  refine Triple.bind (Triple.zoom fun d h => (validatePsbt_spec round2 minSigners).conseq
    (fun _ h' => h'.trans h) (fun _ _ => id) fun _ => id) fun _ => Triple.of_fact fun hpasses => ?_
  refine Triple.bind lift_spec fun tx => Triple.of_fact fun htx => ?_
  refine Triple.bind lift_spec fun packages => Triple.of_fact fun hpackages => ?_
  refine Triple.bind lift_spec fun _ => Triple.of_fact fun hlen => ?_
  refine Triple.bind lift_spec fun _ => Triple.of_fact fun hcheck => ?_
  refine Triple.get_bind fun d h => ?_
  subst h
  refine Triple.bind lift_spec fun key => Triple.of_fact fun _ => ?_
  refine Triple.bind lift_spec fun inputs => Triple.of_fact fun hinputs => ?_
  refine Triple.bind lift_spec fun _ => Triple.of_fact fun _ => Triple.pure fun _ h => ⟨?_, h⟩
  have hpackages := mapErr_eq_ok.mp hpackages
  have htx := Psbt.inputs_of_extractTx (mapErr_eq_ok.mp htx)
  have hbare := bare_of_signInput (by
    rw [← (mapM_eq_ok.mp hpackages).length_eq, length_zipIdx]) hinputs
  refine ⟨hpasses, commitments_of_checkCommitment hpackages ?_ hcheck, rfl, rfl, ?_⟩
  · rw [ensure_eq_ok.mp hlen, htx.2]
  · rw [← Psbt.extractTx_bare, ← Psbt.extractTx_bare psbt]
    simp only [Psbt.bare, hbare]

end spec

end Macbeth
