import Macbeth.Peg.MintValidation

/-!
# The minting contract (`Minting.sol`)

The contract as a function on its part of the world state: the height map, the logs
written so far and the contract's balance.  A revert is `none`; the frame's changes
are then gone.  `mint` calls two accounts of the caller's choice with money, and what
those accounts do (they may call the contract again) is the parameter `callee`, an
arbitrary function on the world.  Arithmetic is that of Solidity 0.8: an overflow
reverts.
-/

namespace Macbeth

open Bytes List Option BitVec Outcome

/-! ## ABI encoding of the event -/

/-- A word of an ABI encoding. -/
def abiWord (w : U256) : List UInt8 := toBE 32 w.toNat

@[simp] theorem length_abiWord (w : U256) : (abiWord w).length = 32 := by simp [abiWord]

/-- `abi.encode(amount, bitcoinBlockHeight, metadata)`: three words of head, then the
length of the metadata and its bytes, padded to a word. -/
def abiEncodeMint (amount : U256) (height : BitVec 32) (metadata : List UInt8) : List UInt8 :=
  abiWord amount ++ (abiWord (height.setWidth 256) ++ (abiWord 0x60 ++
    (abiWord (BitVec.ofNat 256 metadata.length) ++
      (metadata ++ List.replicate ((32 - metadata.length % 32) % 32) 0))))

/-- The log of `emit Mint(account, amount, bitcoinBlockHeight, metadata)`. -/
def mintEvent (account : Address) (amount : U256) (height : BitVec 32) (metadata : List UInt8) :
    Log where
  address := mintContractAddress
  topics := [mintTopic, account.setWidth 256]
  data := abiEncodeMint amount height metadata

theorem wordAt_append {pre : List UInt8} {offset : Nat} (h : pre.length = offset) (w : U256)
    (rest : List UInt8) : wordAt (pre ++ (abiWord w ++ rest)) offset = some w := by
  have hlen : offset + 32 ≤ (pre ++ (abiWord w ++ rest)).length := by
    simp only [length_append, length_abiWord]
    omega
  have hslice : ((pre ++ (abiWord w ++ rest)).drop offset).take 32 = abiWord w := by
    rw [← h, drop_left, take_append_of_le_length (by simp),
      take_of_length_le (by simp)]
  rw [wordAt, if_pos hlen, hslice, abiWord, ofNat_ofBE_toBE (by decide)]

theorem wordAt_abiEncodeMint_zero (amount : U256) (height : BitVec 32) (metadata : List UInt8) :
    wordAt (abiEncodeMint amount height metadata) 0 = some amount :=
  show wordAt ([] ++ (abiWord amount ++ _)) 0 = _ from wordAt_append rfl amount _

theorem wordAt_abiEncodeMint_height (amount : U256) (height : BitVec 32)
    (metadata : List UInt8) :
    wordAt (abiEncodeMint amount height metadata) 32 = some (height.setWidth 256) :=
  wordAt_append (length_abiWord amount) _ _

/-- Parsing a mint event of the contract is reading its metadata and parsing that: the
account, the amount and the height are those of the event. -/
theorem tryParseMintEvent_mintEvent (btc : BitcoinLib) (account : Address) (amount : U256)
    (height : BitVec 32) (metadata : List UInt8) :
    tryParseMintEvent btc (mintEvent account amount height metadata) = (do
      let bytes ← Outcome.ofOption (bytesAt (abiEncodeMint amount height metadata) 64)
        (.invalidLog "invalid payload")
      let metas ← parseProofs btc account amount bytes.length bytes []
      return some { account, amount, bitcoinBlockHeight := height, metas }) := by
  have haccount : topicToAddress (account.setWidth 256) = account := by
    simp [topicToAddress, setWidth_setWidth_of_le]
  have hheight : asU32 (height.setWidth 256) = .ok height := by
    have := height.isLt
    rw [asU32, if_pos (by rw [toNat_setWidth]; omega)]
    simp [setWidth_setWidth_of_le]
  simp only [tryParseMintEvent, mintEvent, ne_eq, not_true_eq_false, if_false,
    wordAt_abiEncodeMint_zero, wordAt_abiEncodeMint_height, bind_eq_bind, bind_some,
    Option.pure_def, haccount]
  cases bytesAt (abiEncodeMint amount height metadata) 64 with
  | none => rfl
  | some bytes => simp only [Option.bind_some, Outcome.ofOption, Outcome.ok_bind, hheight]

/-- A mint event that parses is a pegin of the event's account, amount and height. -/
theorem exists_of_tryParseMintEvent {btc : BitcoinLib} {account : Address} {amount : U256}
    {height : BitVec 32} {metadata : List UInt8} {parsed : Option PeginData}
    (h : tryParseMintEvent btc (mintEvent account amount height metadata) = .ok parsed) :
    ∃ metas, parsed = some { account, amount, bitcoinBlockHeight := height, metas } := by
  rw [tryParseMintEvent_mintEvent] at h
  obtain ⟨bytes, -, h⟩ := bind_eq_ok.mp h
  obtain ⟨metas, -, h⟩ := bind_eq_ok.mp h
  exact ⟨metas, by simpa using h.symm⟩

/-! ## The contract -/

/-- `MINT_GAS_USED`. -/
def mintGasUsed : U256 := 150000

/-- The part of the world state the contract works on: its storage, the logs of the
transaction so far, and its own balance. -/
structure World where
  peginBitcoinBlockHeight : Address → BitVec 32
  logs : List Log
  balance : U256

/-- The arguments of `mint`. -/
structure MintCall where
  destination : Address
  amount : U256
  bitcoinBlockHeight : BitVec 32
  metadata : List UInt8
  refundAddress : Address

/-- What a called account does with the money, on the whole world; `none` is a failed
call. -/
abbrev Callee := (recipient : Address) → (value : U256) → World → Option World

/-- `payable(recipient).call{value: value}("")`, required to succeed. -/
def sendValue (callee : Callee) (recipient : Address) (value : U256) (w : World) : Option World :=
  if value.toNat ≤ w.balance.toNat then
    callee recipient value { w with balance := w.balance - value }
  else none

/-- `MINT_GAS_USED * block.basefee`, checked. -/
def mintTxCost (basefee : U256) : Option U256 :=
  if mintGasUsed.toNat * basefee.toNat < 2 ^ 256 then some (mintGasUsed * basefee) else none

/-- `Minting.mint`: the payments made, in order, and the world after. -/
def mint (callee : Callee) (basefee : U256) (c : MintCall) (w : World) :
    Option (List (Address × U256) × World) :=
  if w.peginBitcoinBlockHeight c.destination < c.bitcoinBlockHeight then do
    let heights := Function.update w.peginBitcoinBlockHeight c.destination c.bitcoinBlockHeight
    let w := { w with peginBitcoinBlockHeight := heights }
    let txCost ← mintTxCost basefee
    if txCost ≤ c.amount then do
      let amount := c.amount - txCost
      let w ← sendValue callee c.destination amount w
      let w ← sendValue callee c.refundAddress txCost w
      let event := mintEvent c.destination amount c.bitcoinBlockHeight c.metadata
      return ([(c.destination, amount), (c.refundAddress, txCost)],
        { w with logs := w.logs ++ [event] })
    else none  -- "Tx cost exceeds pegin amount"
  else none  -- "user bitcoinBlockHeight needs to increase"

/-- `SATS_TO_WEI`. -/
def satsToWei : Nat := 10 ^ 10

/-- A dynamic value of an ABI encoding: its length, then the bytes, padded to a word. -/
def abiBytes (bytes : List UInt8) : List UInt8 :=
  abiWord (BitVec.ofNat 256 bytes.length) ++
    (bytes ++ List.replicate ((32 - bytes.length % 32) % 32) 0)

/-- The log of `emit Burn(account, amount, destination, metadata)`. -/
def burnEvent (account : Address) (amount : U256) (destination metadata : List UInt8) : Log where
  address := mintContractAddress
  topics := [burnTopic, account.setWidth 256]
  data := abiWord amount ++ abiWord 0x60 ++
    abiWord (BitVec.ofNat 256 (0x60 + (abiBytes destination).length)) ++
    abiBytes destination ++ abiBytes metadata

/-- `Minting.burn`, called by `sender` with `value`. -/
def burn (sender : Address) (value : U256) (destination data : List UInt8) (w : World) :
    Option World :=
  if value.toNat > 330 * satsToWei then
    some { w with
      balance := w.balance + value, logs := w.logs ++ [burnEvent sender value destination data] }
  else none  -- "Value must be greater than dust amount of 330 sats/vByte"

/-- The wei of a list of payments. -/
def totalPaid (payments : List (Address × U256)) : Nat :=
  (payments.map fun p => p.2.toNat).sum

/-- The event a call of `mint` writes when it returns. -/
def MintCall.event (c : MintCall) (basefee : U256) : Log :=
  mintEvent c.destination (c.amount - mintGasUsed * basefee) c.bitcoinBlockHeight c.metadata

/-- A call that returns pays out its amount argument: the transaction cost is taken off
the first payment and added as the second.  Its event is in the logs. -/
theorem mint_eq_some {callee : Callee} {basefee : U256} {c : MintCall} {w w' : World}
    {payments : List (Address × U256)} (h : mint callee basefee c w = some (payments, w')) :
    mintGasUsed.toNat * basefee.toNat < 2 ^ 256 ∧
    mintGasUsed.toNat * basefee.toNat ≤ c.amount.toNat ∧
    totalPaid payments = c.amount.toNat ∧ c.event basefee ∈ w'.logs := by
  unfold mint mintTxCost at h
  split at h
  case isFalse => contradiction
  case isTrue =>
    split at h
    case isFalse => contradiction
    case isTrue hfit =>
      simp only [bind_eq_bind, bind_some] at h
      split at h
      case isFalse => contradiction
      case isTrue hle =>
        simp only [Option.bind_eq_some_iff, Option.pure_def, Option.some.injEq,
          Prod.mk.injEq] at h
        obtain ⟨w₁, -, w₂, -, rfl, rfl⟩ := h
        have hcost : (mintGasUsed * basefee).toNat = mintGasUsed.toNat * basefee.toNat := by
          rw [toNat_mul, Nat.mod_eq_of_lt hfit]
        rw [le_def, hcost] at hle
        refine ⟨hfit, hle, ?_, mem_append_right _ (by simp [MintCall.event])⟩
        have hsub := toNat_sub_of_le (le_def.mpr (hcost.le.trans hle))
        simp only [totalPaid, map_cons, map_nil, sum_cons, sum_nil, hsub, hcost]
        omega

/-- The metadata of the concrete proof, with the given output index. -/
def sampleMetadata (vout : BitVec 32) : List UInt8 :=
  Bytes.toLE 4 0 ++ encodeOutPoint ⟨sampleTxid, vout⟩ ++ Address.toBytes 9 ++
    PublicKey.serialize ⟨false, 1⟩ ++ [2] ++ encodeHeader sampleGenesis.header ++
    encodeHeader sampleBlock.header ++
    (Bytes.toLE 4 1 ++ [1] ++ serializeTxid sampleTxid ++ [1, 1]) ++ encodeStripped sampleTx

end Macbeth
