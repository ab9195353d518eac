import Macbeth.BtcServer.PegoutId
import Macbeth.Peg.Validate

/-!
# Events of the minting contract (`mint_validation.rs`)

Parsing of `Mint` and `Burn` logs.  The payload is decoded as the `ethabi` library
decodes it: words are read where the head says, lengths and offsets above 32 bits are
refused, and the width of an integer type is not checked (a `uint32` may hold any
word, and the cast that follows panics if it does not fit).

The metadata of a mint is a concatenation of proofs.  `parseProofs` reads them off one
by one; it is given the byte count as fuel, and running out of fuel is a panic, so that
a statement that parsing does not panic includes that it ends.
-/

namespace Macbeth

open Bytes Outcome List Option Outcome

/-! ## Logs -/

/-- An EVM log. -/
structure Log where
  address : Address
  topics : List (BitVec 256)
  data : List UInt8
  deriving DecidableEq, Repr

/-- `keccak256("Mint(address,uint256,uint32,bytes)")`. -/
def mintTopic : BitVec 256 := 0x922344dc04648c0ce028ecdf9b2c9eed9a6794dbb47b777b54b0cfe069f128aa

/-- `keccak256("Burn(address,uint256,bytes,bytes)")`. -/
def burnTopic : BitVec 256 := 0x17f87987da8ca71c697791dcfd190d07630cf17bf09c65c5a59b8277d9fe1715

/-- `MINT_CONTRACT_ADDRESS`. -/
def mintContractAddress : Address := 0x0Ea320990B44236A0cEd0ecC0Fd2b2df33071e78

/-! ## ABI decoding -/

/-- The word at a byte offset. -/
def wordAt (data : List UInt8) (offset : Nat) : Option U256 :=
  if offset + 32 ≤ data.length then
    some (BitVec.ofNat 256 (ofBE ((data.drop offset).take 32)))
  else none

/-- `as_usize`: an offset or a length, below `2 ^ 32`. -/
def asUsize (word : U256) : Option Nat :=
  if word.toNat < 2 ^ 32 then some word.toNat else none

/-- A `bytes` parameter whose head stands at `offset`. -/
def bytesAt (data : List UInt8) (offset : Nat) : Option (List UInt8) := do
  let start ← asUsize (← wordAt data offset)
  let len ← asUsize (← wordAt data start)
  if start + 32 + len ≤ data.length then some ((data.drop (start + 32)).take len) else none

/-- A decoded byte string is shorter than `2 ^ 32`. -/
theorem length_lt_of_bytesAt {data bs : List UInt8} {offset : Nat}
    (h : bytesAt data offset = some bs) : bs.length < 2 ^ 32 := by
  simp only [bytesAt, asUsize, bind_eq_bind, bind_eq_some_iff,
    ite_none_right_eq_some] at h
  obtain ⟨-, -, start, -, word, -, len, ⟨hlen, hword⟩, -, hbs⟩ := h
  have hword : word.toNat = len := some.inj hword
  have hbs : (data.drop (start + 32)).take len = bs := some.inj hbs
  rw [← hbs, length_take]
  omega

/-- `topic_to_address`: the low 20 bytes; the padding is not looked at. -/
def topicToAddress (topic : BitVec 256) : Address := topic.setWidth 160

/-! ## Mint events -/

/-- `ParseMintEventError`. -/
inductive ParseMintEventError where
  | invalidLog (msg : String)
  | invalidPeginData (error : PeginDataError) (revertAddress : Address) (revertAmount : U256)
  deriving DecidableEq, Repr

section mint
variable (btc : BitcoinLib)

/-- The loop over the metadata: `bytes` is what is left of it, `seen` the outpoints so
far. -/
def parseProofs (destination : Address) (amount : U256) :
    (fuel : Nat) → (bytes : List UInt8) → (seen : List OutPoint) →
    Outcome ParseMintEventError (List PeginMeta)
  | 0, bytes, _ => if bytes = [] then ok [] else panic
  | fuel + 1, bytes, seen =>
    if bytes = [] then ok []
    else do
      let (proof, proofSize) ← ofExcept (PeginMeta.deserialize btc bytes) fun e =>
        ParseMintEventError.invalidPeginData e destination amount
      ensure (proof.outpoint ∉ seen)
        (.invalidPeginData (.invalid "Duplicate outpoints") destination amount)
      let proofs ← parseProofs destination amount fuel (bytes.drop proofSize)
        (proof.outpoint :: seen)
      return proof :: proofs

/-- The source's `U256::as_u32`. -/
def asU32 (word : U256) : Outcome ParseMintEventError (BitVec 32) :=
  if word.toNat < 2 ^ 32 then ok (word.setWidth 32) else panic

/-- `try_parse_mint_event`. -/
def tryParseMintEvent (log : Log) : Outcome ParseMintEventError (Option PeginData) :=
  if log.address ≠ mintContractAddress then ok none
  else match log.topics with
    | [] => ok none
    | topic :: topics =>
      if topic ≠ mintTopic then ok none
      else match topics with
        | [account] => do
          let destination := topicToAddress account
          let (amount, height, metaBytes) ← ofOption (do
            let amount ← wordAt log.data 0
            let height ← wordAt log.data 32
            let metaBytes ← bytesAt log.data 64
            return (amount, height, metaBytes)) (.invalidLog "invalid payload")
          let bitcoinBlockHeight ← asU32 height
          let metas ← parseProofs btc destination amount metaBytes.length metaBytes []
          return some { account := destination, amount, bitcoinBlockHeight, metas }
        | _ => err (.invalidLog "wrong number of topics")

/-! ## What the framing loop returns -/

variable {destination : Address} {amount : U256}

/-- The loop never runs out of fuel: every proof takes bytes. -/
theorem parseProofs_ne_panic :
    ∀ {fuel : Nat} {bytes : List UInt8} {seen : List OutPoint}, bytes.length ≤ fuel →
      parseProofs btc destination amount fuel bytes seen ≠ panic
  | 0, bytes, seen, h => by
    have hnil : bytes = [] := length_eq_zero_iff.mp (by omega)
    simp [parseProofs, hnil]
  | fuel + 1, bytes, seen, h => by
    rw [parseProofs]
    split
    · simp
    · refine bind_ne_panic ofExcept_ne_panic fun p hp => ?_
      obtain ⟨proof, size⟩ := p
      have hsize := PeginMeta.size_deserialize btc (ofExcept_eq_ok.mp hp)
      refine bind_ne_panic ensure_ne_panic fun _ _ => ?_
      refine bind_ne_panic (parseProofs_ne_panic ?_) fun _ _ => by simp
      rw [length_drop]
      omega

/-- Every proof takes at least four bytes, so there are few of them. -/
theorem length_parseProofs :
    ∀ {fuel : Nat} {bytes : List UInt8} {seen : List OutPoint} {proofs : List PeginMeta},
      parseProofs btc destination amount fuel bytes seen = ok proofs →
      4 * proofs.length ≤ bytes.length
  | 0, bytes, seen, proofs, h => by
    simp only [parseProofs] at h
    split at h
    · obtain rfl : [] = proofs := by simpa using h
      simp
    · contradiction
  | fuel + 1, bytes, seen, proofs, h => by
    rw [parseProofs] at h
    split at h
    · obtain rfl : [] = proofs := by simpa using h
      simp
    · simp only [bind_eq_ok, ofExcept_eq_ok, ensure_eq_ok, exists_const, pure_eq_ok,
        ok.injEq] at h
      obtain ⟨⟨proof, size⟩, hproof, -, rest, hrest, rfl⟩ := h
      have hsize := PeginMeta.size_deserialize btc hproof
      have ih := length_parseProofs hrest
      rw [length_drop] at ih
      rw [length_cons]
      omega

/-- The loop returns no outpoint twice. -/
theorem nodup_parseProofs :
    ∀ {fuel : Nat} {bytes : List UInt8} {seen : List OutPoint} {proofs : List PeginMeta},
      parseProofs btc destination amount fuel bytes seen = ok proofs →
      (proofs.map PeginMeta.outpoint).Nodup ∧ ∀ o ∈ proofs.map PeginMeta.outpoint, o ∉ seen
  | 0, bytes, seen, proofs, h => by
    simp only [parseProofs] at h
    split at h
    · obtain rfl : [] = proofs := by simpa using h
      simp
    · contradiction
  | fuel + 1, bytes, seen, proofs, h => by
    rw [parseProofs] at h
    split at h
    · obtain rfl : [] = proofs := by simpa using h
      simp
    · simp only [bind_eq_ok, ofExcept_eq_ok, ensure_eq_ok, exists_const, pure_eq_ok,
        ok.injEq] at h
      obtain ⟨⟨proof, size⟩, -, hnew, rest, hrest, rfl⟩ := h
      obtain ⟨hnodup, hunseen⟩ := nodup_parseProofs hrest
      rw [map_cons]
      refine ⟨nodup_cons.mpr ⟨fun hmem => ?_, hnodup⟩, fun o ho => ?_⟩
      · exact hunseen _ hmem mem_cons_self
      · rcases mem_cons.mp ho with rfl | ho
        · exact hnew
        · exact fun hseen => hunseen o ho (mem_cons_of_mem _ hseen)

/-- The proofs of a parsed event are those of the loop over its metadata. -/
theorem exists_parseProofs {log : Log} {pegin : PeginData}
    (h : tryParseMintEvent btc log = ok (some pegin)) :
    ∃ metaBytes, bytesAt log.data 64 = some metaBytes ∧
      parseProofs btc pegin.account pegin.amount metaBytes.length metaBytes [] = ok pegin.metas := by
  unfold tryParseMintEvent at h
  split at h
  case isTrue => simp at h
  case isFalse =>
    split at h
    case h_1 => simp at h
    case h_2 topic topics =>
      split at h
      case isTrue => simp at h
      case isFalse =>
        split at h
        case h_1 account =>
          simp only [bind_eq_ok, ofOption_eq_ok, pure_eq_ok, ok.injEq,
            some.injEq] at h
          obtain ⟨⟨amount, height, metaBytes⟩, hdecode, height', -, metas, hmetas, rfl⟩ := h
          have hbytes : bytesAt log.data 64 = some metaBytes := by
            simp only [Option.bind_eq_bind, Option.bind_eq_some_iff, Option.pure_def,
              some.injEq, Prod.mk.injEq] at hdecode
            obtain ⟨-, -, -, -, bs, hbs, -, -, rfl⟩ := hdecode
            exact hbs
          exact ⟨metaBytes, hbytes, hmetas⟩
        case h_2 => simp at h

/-- There are fewer than `2 ^ 32` bytes of metadata, and so fewer than `2 ^ 30` proofs. -/
theorem length_metas_lt {log : Log} {pegin : PeginData}
    (h : tryParseMintEvent btc log = ok (some pegin)) : pegin.metas.length < 2 ^ 30 := by
  obtain ⟨metaBytes, hbytes, hmetas⟩ := exists_parseProofs btc h
  have hlt := length_lt_of_bytesAt hbytes
  have hle := length_parseProofs btc hmetas
  omega

end mint

/-! ## Burn events -/

/-- `bitcoin::Network`. -/
inductive Network where
  | bitcoin
  | testnet
  | signet
  | regtest
  deriving DecidableEq, Repr

/-- A parsed bitcoin address before its network is checked: its output script and the
networks it is valid on. -/
structure UncheckedAddress where
  scriptPubkey : ScriptBuf
  networks : List Network
  deriving DecidableEq, Repr

/-- `PegoutDataError`. -/
inductive PegoutDataError where
  | invalid (msg : String) (amount : U256)
  deriving DecidableEq, Repr

/-- `ParseBurnEventError`. -/
inductive ParseBurnEventError where
  | invalidLog (msg : String)
  | invalidPegoutData (e : PegoutDataError)
  deriving DecidableEq, Repr

/-- The data of one burn event; of the destination only the script is used. -/
structure PegoutData where
  amount : Amount
  destination : ScriptBuf
  network : Network
  deriving DecidableEq, Repr

structure PegoutWithId where
  data : PegoutData
  id : PegoutId
  deriving DecidableEq, Repr

/-- `AmountExt::from_wei_floor`. -/
def fromWeiFloor (wei : U256) : Option Amount :=
  if wei.toNat / satoshiInWei < 2 ^ 64 then some (BitVec.ofNat 64 (wei.toNat / satoshiInWei))
  else none

/-- `try_parse_burn_event`; parsing the text of an address is the library's. -/
def tryParseBurnEvent (addressFromStr : List UInt8 → Option UncheckedAddress) (log : Log)
    (btcNetwork : Network) : Except ParseBurnEventError (Option PegoutData) :=
  if log.address ≠ mintContractAddress then .ok none
  else match log.topics with
    | [] => .ok none
    | topic :: topics =>
      if topic ≠ burnTopic then .ok none
      else if topics.length ≠ 1 then .error (.invalidLog "wrong number of topics")
      else match wordAt log.data 0, bytesAt log.data 32, bytesAt log.data 64 with
        | some amount, some destination, some metadata =>
          match fromWeiFloor amount with
          | none => .error (.invalidLog "invalid amount")
          | some btcAmount =>
            if metadata.length ≠ 1 then
              .error (.invalidPegoutData (.invalid "invalid metadata length" amount))
            else match addressFromStr destination with
              | none => .error (.invalidPegoutData (.invalid "Invalid Bitcoin Address" amount))
              | some address =>
                if btcNetwork ∉ address.networks then
                  .error (.invalidPegoutData (.invalid "Address not valid for network" amount))
                else .ok (some ⟨btcAmount, address.scriptPubkey, btcNetwork⟩)
        | _, _, _ => .error (.invalidLog "invalid payload")

/-- The destination of a parsed burn event is the script of an address. -/
theorem address_of_tryParseBurnEvent {addressFromStr : List UInt8 → Option UncheckedAddress}
    {log : Log} {btcNetwork : Network} {data : PegoutData}
    (h : tryParseBurnEvent addressFromStr log btcNetwork = .ok (some data)) :
    ∃ text address, addressFromStr text = some address ∧ address.scriptPubkey = data.destination := by
  unfold tryParseBurnEvent at h
  repeat' split at h
  all_goals first
    | (rename_i destination _ _ _ _ _ _ _ _ _ address haddress _
       exact ⟨destination, address, haddress, congrArg PegoutData.destination
         (some.inj (Except.ok.inj h))⟩)
    | simp at h

end Macbeth
