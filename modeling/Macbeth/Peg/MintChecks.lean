import Macbeth.Peg.Minting

/-!
# The executor's checks on mint events (`execute.rs`)

After a transaction has run successfully the executor looks at its logs.  Every mint
event must come with proofs of one version, below the checkpoint (for version 1 the
checkpoint of the referenced block), that validate to more than the emitted amount; every
burn event must parse.  If a check fails the transaction's effects are undone.

The referenced block is looked up in the node's database, which is the parameter
`findBlockByHash`; a database error is a panic in the source.
-/

namespace Macbeth

open Outcome

/-- `BotanixConsensusPackage`. -/
structure ConsensusPackage where
  bitcoinCheckpoint : Header × BitVec 32
  aggregatePublicKey : PublicKey
  btcNetwork : Network
  deriving DecidableEq, Repr

/-- What the database says about a referenced block: the lookup fails, there is no such
block, or there is, and its consensus package is read off its header (or not). -/
inductive RefBlock where
  | databaseError
  | notFound
  | found (package : Option ConsensusPackage)
  deriving DecidableEq, Repr

/-- The reason a pegin is refused. -/
inductive PeginRefusal where
  | parse (e : PeginDataError)
  | text (msg : String)
  | heightAboveCheckpoint (height checkpoint : BitVec 32)
  | amountNotBelowAggregate (aggregate amount : U256)
  | validationFailed (e : PeginDataError)
  deriving DecidableEq, Repr

/-- `MintContractError`. -/
inductive MintContractError where
  | invalidLog (event : String) (error : String)
  | invalidPeginData (error : PeginRefusal) (revertAddress : Address) (revertAmount : U256)
  | invalidPegoutData (e : PegoutDataError)
  deriving DecidableEq, Repr

def MintContractError.ofMint : ParseMintEventError → MintContractError
  | .invalidLog e => .invalidLog "Mint" e
  | .invalidPeginData e a v => .invalidPeginData (.parse e) a v

def MintContractError.ofBurn : ParseBurnEventError → MintContractError
  | .invalidLog e => .invalidLog "Burn" e
  | .invalidPegoutData e => .invalidPegoutData e

/-- What the node knows besides the transaction. -/
structure MintEnv where
  btc : BitcoinLib
  frost : FrostLib
  /-- Whether the build has overflow checks. -/
  checks : Bool
  findBlockByHash : BitVec 256 → RefBlock
  addressFromStr : List UInt8 → Option UncheckedAddress

namespace MintEnv

variable (env : MintEnv) (pkg : ConsensusPackage)

/-- The refusal of a pegin, with the address and amount the source reports. -/
def refuse {α : Type} (pegin : PeginData) (reason : PeginRefusal) : Outcome MintContractError α :=
  err (.invalidPeginData reason pegin.account pegin.amount)

/-- The checkpoint a pegin is validated against: that of the block, or for version 1
that of the block the first proof refers to. -/
def peginCheckpoint (pegin : PeginData) (first : PeginMeta) :
    Outcome MintContractError (Header × BitVec 32) :=
  match first.refBlockHash with
  | none =>
    if first.version = 1 then refuse pegin (.text "Reference block hash cannot be found")
    else ok pkg.bitcoinCheckpoint
  | some hash =>
    if first.version = 1 then
      match env.findBlockByHash hash with
      | .databaseError => panic
      | .notFound => refuse pegin (.text "No block found for reference block hash")
      | .found none => refuse pegin (.text "Failed to get botanix consensus package")
      | .found (some package) => ok package.bitcoinCheckpoint
    else if first.version = 0 then
      refuse pegin (.text "Not expecting reference block hash in proof version 0")
    else ok pkg.bitcoinCheckpoint

/-- All proofs have the version and the reference block of the first. -/
def checkUniform (pegin : PeginData) (first : PeginMeta) :
    List PeginMeta → Outcome MintContractError Unit
  | [] => ok ()
  | proof :: proofs =>
    if proof.version ≠ first.version then
      refuse pegin (.text "Proofs have mismatching versions")
    else if proof.refBlockHash ≠ first.refBlockHash then
      refuse pegin (.text "Proofs have mismatching reference block hashes")
    else checkUniform pegin first proofs

/-- The checks on the data of one mint event. -/
def checkPegin (pegin : PeginData) : Outcome MintContractError Unit :=
  match pegin.metas with
  | [] => refuse pegin (.text "No proofs found in pegin data")
  | first :: _ => do
    let checkpoint ← env.peginCheckpoint pkg pegin first
    checkUniform pegin first pegin.metas
    if pegin.bitcoinBlockHeight > checkpoint.2 then
      refuse pegin (.heightAboveCheckpoint pegin.bitcoinBlockHeight checkpoint.2)
    else
      match pegin.validate env.btc env.frost env.checks checkpoint pkg.aggregatePublicKey with
      | .panic => panic
      | .err e => refuse pegin (.validationFailed e)
      | .ok aggregateValue =>
        if pegin.amount ≥ aggregateValue then
          refuse pegin (.amountNotBelowAggregate aggregateValue pegin.amount)
        else ok ()

/-- The first loop: the pegins of the logs, in order. -/
def collectPegins : List Log → Outcome MintContractError (List PeginData)
  | [] => ok []
  | log :: logs => do
    match ← (tryParseMintEvent env.btc log).mapErr MintContractError.ofMint with
    | none => collectPegins logs
    | some pegin => do
      env.checkPegin pkg pegin
      return pegin :: (← collectPegins logs)

/-- The second loop: the pegouts of the logs, named by their position. -/
def collectPegouts (txHash : BitVec 256) :
    (index : Nat) → List Log → Outcome MintContractError (List PegoutWithId)
  | _, [] => ok []
  | index, log :: logs => do
    match ← ofExcept (tryParseBurnEvent env.addressFromStr log pkg.btcNetwork)
        MintContractError.ofBurn with
    | none => collectPegouts txHash (index + 1) logs
    | some data => do
      return ⟨data, txHash, BitVec.ofNat 32 index⟩ :: (← collectPegouts txHash (index + 1) logs)

/-- `botanix_mint_contract_checks` on the logs of a successful transaction. -/
def botanixMintContractChecks (txHash : BitVec 256) (logs : List Log) :
    Outcome MintContractError (List PeginData × List PegoutWithId) := do
  let pegins ← env.collectPegins pkg logs
  let pegouts ← env.collectPegouts pkg txHash 0 logs
  return (pegins, pegouts)

/-! ## What accepted logs satisfy -/

/-- A commitment the checks may use: that of the block, or that of a referenced one. -/
def Commits (commitment : Header × BitVec 32) : Prop :=
  commitment = pkg.bitcoinCheckpoint ∨
    ∃ hash package, env.findBlockByHash hash = .found (some package) ∧
      commitment = package.bitcoinCheckpoint

variable {env pkg}

theorem commits_of_peginCheckpoint {pegin : PeginData} {first : PeginMeta}
    {checkpoint : Header × BitVec 32} (h : env.peginCheckpoint pkg pegin first = ok checkpoint) :
    env.Commits pkg checkpoint := by
  unfold peginCheckpoint at h
  split at h
  case h_1 =>
    split at h
    · simp [refuse] at h
    · exact .inl (ok.inj h).symm
  case h_2 hash _ =>
    split at h
    · split at h
      case h_1 => contradiction
      case h_2 => simp [refuse] at h
      case h_3 => simp [refuse] at h
      case h_4 package hfound => exact .inr ⟨hash, package, hfound, (ok.inj h).symm⟩
    · split at h
      · simp [refuse] at h
      · exact .inl (ok.inj h).symm

/-- An accepted pegin validates, against a commitment at or above its height, to more than
its amount. -/
theorem exists_validate_of_checkPegin {pegin : PeginData} (h : env.checkPegin pkg pegin = ok ()) :
    ∃ checkpoint v, env.Commits pkg checkpoint ∧ pegin.bitcoinBlockHeight ≤ checkpoint.2 ∧
      pegin.validate env.btc env.frost env.checks checkpoint pkg.aggregatePublicKey = ok v ∧
      pegin.amount < v := by
  unfold checkPegin at h
  split at h
  case h_1 => simp [refuse] at h
  case h_2 first rest _ =>
    obtain ⟨checkpoint, hcheckpoint, h⟩ := bind_eq_ok.mp h
    obtain ⟨-, -, h⟩ := bind_eq_ok.mp h
    split at h
    case isTrue => simp [refuse] at h
    case isFalse hheight =>
      split at h
      case h_1 => contradiction
      case h_2 => simp [refuse] at h
      case h_3 v hv =>
        split at h
        case isTrue => simp [refuse] at h
        case isFalse hlt =>
          exact ⟨checkpoint, v, commits_of_peginCheckpoint hcheckpoint, BitVec.not_lt.mp hheight, hv,
            BitVec.not_le.mp hlt⟩

/-- Every mint event among accepted logs parses to a pegin that was checked. -/
theorem checkPegin_of_collectPegins : ∀ {logs : List Log} {pegins : List PeginData},
    env.collectPegins pkg logs = ok pegins → ∀ log ∈ logs,
      ∃ parsed, tryParseMintEvent env.btc log = ok parsed ∧
        ∀ pegin, parsed = some pegin → env.checkPegin pkg pegin = ok () ∧ pegin ∈ pegins
  | [], _, _, log, hlog => absurd hlog (by simp)
  | l :: logs, pegins, h, log, hlog => by
    obtain ⟨parsed, hparse, h⟩ := bind_eq_ok.mp h
    rw [mapErr_eq_ok] at hparse
    cases parsed with
    | none =>
      rcases List.mem_cons.mp hlog with rfl | hlog
      · exact ⟨none, hparse, by simp⟩
      · exact checkPegin_of_collectPegins h log hlog
    | some pegin =>
      obtain ⟨⟨⟩, hcheck, h⟩ := bind_eq_ok.mp h
      obtain ⟨rest, hrest, h⟩ := bind_eq_ok.mp h
      obtain rfl : pegin :: rest = pegins := by simpa using h
      rcases List.mem_cons.mp hlog with rfl | hlog
      · exact ⟨some pegin, hparse, by rintro _ ⟨⟩; exact ⟨hcheck, by simp⟩⟩
      · obtain ⟨parsed, hparse', hall⟩ := checkPegin_of_collectPegins hrest log hlog
        exact ⟨parsed, hparse', fun p hp => ⟨(hall p hp).1, List.mem_cons_of_mem _ (hall p hp).2⟩⟩

end MintEnv

end Macbeth
