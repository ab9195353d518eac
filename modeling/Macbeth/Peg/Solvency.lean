import Macbeth.Peg.MintChecks

/-!
# Mint solvency

A call of `mint` pays its amount argument: the emitted amount to the destination and the
transaction cost to the refund address.  The executor compares the proven value with the
emitted amount only, so what it accepts is bounded by the proven value plus the
transaction cost, and the bound by the proven value itself fails exactly for amounts in
between.
-/

namespace Macbeth

open Outcome BitVec

/-- The satoshis proven by the metadata of a pegin, in wei. -/
def PeginData.provenWei (pegin : PeginData) : Nat :=
  (pegin.metas.map fun proof => proof.sats * satoshiInWei).sum

/-- The event of a call among logs the executor accepts parses, and its proofs are worth
more than the emitted amount. -/
theorem MintEnv.provenWei_of_accepted {env : MintEnv} {pkg : ConsensusPackage}
    {txHash : BitVec 256} {logs : List Log} {account : Address} {amount : U256}
    {height : BitVec 32} {metadata : List UInt8}
    {r : List PeginData × List PegoutWithId}
    (hlog : mintEvent account amount height metadata ∈ logs)
    (hchecks : env.botanixMintContractChecks pkg txHash logs = ok r) :
    ∃ pegin, tryParseMintEvent env.btc (mintEvent account amount height metadata) =
      ok (some pegin) ∧ amount.toNat < pegin.provenWei := by
  obtain ⟨pegins, hpegins, -⟩ := bind_eq_ok.mp hchecks
  obtain ⟨parsed, hparse, hall⟩ := checkPegin_of_collectPegins hpegins _ hlog
  obtain ⟨metas, rfl⟩ := exists_of_tryParseMintEvent hparse
  obtain ⟨hcheck, -⟩ := hall _ rfl
  obtain ⟨checkpoint, v, -, -, hvalidate, hlt⟩ := exists_validate_of_checkPegin hcheck
  refine ⟨_, hparse, ?_⟩
  rw [PeginData.provenWei, ← (PeginData.accepts_of_validate hvalidate).2]
  exact hlt

/-- For every call of `mint` that returns and whose event is among logs the executor
accepts: the call pays out at most the value its metadata proves exactly when its amount
argument does not lie strictly between the proven value and the proven value plus
`150000` times the base fee. -/
theorem mint_solvent_iff {env : MintEnv} {pkg : ConsensusPackage} {txHash : BitVec 256}
    {callee : Callee} {basefee : U256} {c : MintCall} {w w' : World}
    {payments : List (Address × U256)} {logs : List Log}
    {r : List PeginData × List PegoutWithId}
    (hmint : mint callee basefee c w = some (payments, w'))
    (hlog : c.event basefee ∈ logs)
    (hchecks : env.botanixMintContractChecks pkg txHash logs = ok r) :
    ∃ pegin, tryParseMintEvent env.btc (c.event basefee) = ok (some pegin) ∧
      (totalPaid payments ≤ pegin.provenWei ↔
        ¬ (pegin.provenWei < c.amount.toNat ∧
          c.amount.toNat < pegin.provenWei + mintGasUsed.toNat * basefee.toNat)) := by
  obtain ⟨hfit, hle, hpaid, -⟩ := mint_eq_some hmint
  obtain ⟨pegin, hparse, hlt⟩ := env.provenWei_of_accepted hlog hchecks
  refine ⟨pegin, hparse, ?_⟩
  -- the emitted amount is the argument less the cost, and it is below the proven value
  have hcost : (mintGasUsed * basefee).toNat = mintGasUsed.toNat * basefee.toNat := by
    rw [toNat_mul, Nat.mod_eq_of_lt hfit]
  rw [toNat_sub_of_le (by rw [le_def]; omega), hcost] at hlt
  rw [hpaid]
  omega

/-! ## A call that is not covered -/

/-- A node with the concrete libraries and an empty database. -/
def sampleEnv : MintEnv where
  btc := sampleBitcoin
  frost := sampleFrost
  checks := true
  findBlockByHash _ := .notFound
  addressFromStr _ := none

def samplePackage : ConsensusPackage := ⟨(sampleBlock.header, 5), ⟨false, 1⟩, .bitcoin⟩

/-- An account that keeps the money and does nothing. -/
def keepMoney : Callee := fun _ _ w => some w

def sampleWorld : World := ⟨fun _ => 0, [], BitVec.allOnes 256⟩

/-- A mint of the given amount, with a proof of five satoshis. -/
def sampleCall (amount : U256) : MintCall := ⟨9, amount, 4, sampleMetadata 0, 8⟩

/-- The pegin the event of a sample call parses to. -/
def samplePeginOf (amount : U256) : PeginData where
  account := 9
  amount := amount
  bitcoinBlockHeight := 4
  metas := [.v0 { sampleProof with merkleProof := ⟨1, bitsOfByte 1, [sampleTxid]⟩ }]

/-- The world after a sample call at base fee 7. -/
def sampleWorldAfter (amount : U256) : World where
  peginBitcoinBlockHeight := Function.update sampleWorld.peginBitcoinBlockHeight 9 4
  logs := [(sampleCall amount).event 7]
  balance := BitVec.allOnes 256 - (amount - mintGasUsed * 7) - mintGasUsed * 7

/-- With base fee 7 a mint of one wei more than the five satoshis it proves is accepted,
and pays out that wei. -/
theorem sampleCall_overpays : ∃ payments,
    mint keepMoney 7 (sampleCall 50000000001) sampleWorld =
      some (payments, sampleWorldAfter 50000000001) ∧
    sampleEnv.botanixMintContractChecks samplePackage 0 (sampleWorldAfter 50000000001).logs =
      ok ([samplePeginOf 49998950001], []) ∧
    tryParseMintEvent sampleBitcoin ((sampleCall 50000000001).event 7) =
      ok (some (samplePeginOf 49998950001)) ∧
    (samplePeginOf 49998950001).provenWei < totalPaid payments :=
  ⟨[(9, 49998950001), (8, 1050000)], rfl, by decide +kernel, by decide +kernel, by decide +kernel⟩

/-- With base fee 7 a mint of one satoshi with the same proof is accepted and covered. -/
theorem sampleCall_covered : ∃ payments pegin,
    mint keepMoney 7 (sampleCall 10000000000) sampleWorld =
      some (payments, sampleWorldAfter 10000000000) ∧
    tryParseMintEvent sampleBitcoin ((sampleCall 10000000000).event 7) = ok (some pegin) ∧
    (totalPaid payments ≤ pegin.provenWei ↔
      ¬ (pegin.provenWei < (sampleCall 10000000000).amount.toNat ∧
        (sampleCall 10000000000).amount.toNat <
          pegin.provenWei + mintGasUsed.toNat * (7 : U256).toNat)) := by
  have hmint : mint keepMoney 7 (sampleCall 10000000000) sampleWorld =
      some ([(9, 9998950000), (8, 1050000)], sampleWorldAfter 10000000000) := rfl
  have hchecks : sampleEnv.botanixMintContractChecks samplePackage 0
      (sampleWorldAfter 10000000000).logs = ok ([samplePeginOf 9998950000], []) := by
    decide +kernel
  obtain ⟨pegin, hparse, hiff⟩ := mint_solvent_iff hmint (List.mem_singleton_self _) hchecks
  exact ⟨_, pegin, hmint, hparse, hiff⟩

end Macbeth
