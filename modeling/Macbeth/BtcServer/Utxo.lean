import Macbeth.Bitcoin.Encode

/-!
# Wallet records (`database/mod.rs`)

A `Utxo` of btc-server as it comes over the RPC and as it is stored.  The text of the
EVM address is hexadecimal; the script may come raw or with the length prefix of the
consensus encoding, and a p2tr script is recognised in either form.
-/

namespace Macbeth

open Bytes List

/-! ## RPC records -/

structure RpcOutPoint where
  txid : List UInt8
  vout : BitVec 32
  deriving DecidableEq, Repr

structure RpcTxOut where
  scriptPubkey : Option (List UInt8)
  value : BitVec 64
  deriving DecidableEq, Repr

/-- `btc_server_client::Utxo`. -/
structure RpcUtxo where
  outpoint : Option RpcOutPoint
  output : Option RpcTxOut
  ethAddress : List Char
  deriving DecidableEq, Repr

/-- A stored record. -/
structure Utxo where
  outpoint : OutPoint
  output : TxOut
  /-- The address whose tweak the output's key carries; none for change. -/
  ethAddress : Option Address
  version : BitVec 32
  deriving DecidableEq, Repr

/-- `UtxoVersion`. -/
inductive UtxoVersion where
  | v1
  deriving DecidableEq, Repr

def UtxoVersion.toU32 : UtxoVersion → BitVec 32
  | v1 => 0

/-- `TryFrom<u32> for UtxoVersion`. -/
def UtxoVersion.tryFrom (version : BitVec 32) : Option UtxoVersion :=
  if version = 0 then some .v1 else none

/-! ## Parsing -/

/-- `trim_start_matches("0x")`: as often as it stands there. -/
def trimStart0x : List Char → List Char
  | '0' :: 'x' :: cs => trimStart0x cs
  | cs => cs

/-- The errors of `parse_eth_address`. -/
inductive ParsingError where
  | ethAddress (msg : String)
  deriving DecidableEq, Repr

/-- `parse_eth_address`. -/
def parseEthAddress (text : List Char) : Except ParsingError Address :=
  match ofHex ((trimStart0x text).map Char.toLower) with
  | none => .error (.ethAddress "Failed to decode hex")
  | some bytes =>
    if bytes.length ≠ 20 then .error (.ethAddress "Eth address must be 20 bytes")
    else .ok (Address.ofBytes bytes)

/-- `parse_p2tr_script_with_fallback`. -/
def parseP2trScriptWithFallback (bytes : List UInt8) : ScriptBuf :=
  if isP2tr bytes then bytes
  else match deserializeScript bytes with
    | some script => if isP2tr script then script else bytes
    | none => bytes

/-- `TryFrom<RpcUtxo> for Utxo`; the errors are texts. -/
def Utxo.tryFrom (value : RpcUtxo) : Except String Utxo :=
  match value.outpoint with
  | none => .error "Outpoint is None"
  | some outpoint =>
    match deserializeTxid outpoint.txid with
    | none => .error "Unparsable Txid"
    | some txid =>
      match value.output with
      | none => .error "TxOut is None"
      | some output =>
        match output.scriptPubkey with
        | none => .error "Script Pub Key is None"
        | some script =>
          let txOut : TxOut := ⟨output.value, parseP2trScriptWithFallback script⟩
          if value.ethAddress.isEmpty then
            .ok ⟨⟨txid, outpoint.vout⟩, txOut, none, UtxoVersion.v1.toU32⟩
          else
            match parseEthAddress value.ethAddress with
            | .error _ => .error "Unparsable Ethereum Address"
            | .ok address => .ok ⟨⟨txid, outpoint.vout⟩, txOut, some address, UtxoVersion.v1.toU32⟩

/-! ## Round trips -/

theorem hexDigit_ne_x : ∀ n : Fin 16, hexDigit n ≠ 'x' := by decide

theorem toLower_hexDigit : ∀ n : Fin 16, (hexDigit n).toLower = hexDigit n := by decide

/-- An encoded byte string does not start with the marker. -/
theorem trimStart0x_toHex (bs : List UInt8) : trimStart0x (toHex bs) = toHex bs := by
  cases bs with
  | nil => rfl
  | cons b bs =>
    rw [toHex]
    unfold trimStart0x
    split
    case h_1 heq =>
      have hx := congrArg (fun cs => cs[1]?) heq
      simp only [getElem?_cons_succ, getElem?_cons_zero, Option.some.injEq] at hx
      exact absurd hx (hexDigit_ne_x _)
    case h_2 => rfl

theorem map_toLower_toHex (bs : List UInt8) : (toHex bs).map Char.toLower = toHex bs := by
  have hlower : ∀ c ∈ toHex bs, c.toLower = c := by
    intro c hc
    obtain ⟨n, rfl⟩ := mem_toHex hc
    exact toLower_hexDigit n
  rw [map_congr_left hlower, map_id']

/-- The hexadecimal text of an address parses to it. -/
theorem parseEthAddress_toHex (a : Address) :
    parseEthAddress (toHex (Address.toBytes a)) = .ok a := by
  simp [parseEthAddress, trimStart0x_toHex, map_toLower_toHex, ofHex_toHex]

theorem length_of_isP2tr {script : ScriptBuf} (h : isP2tr script = true) : script.length = 34 := by
  unfold isP2tr at h
  split at h
  case h_1 rest => simpa using h
  case h_2 => contradiction

/-- The length-prefixed form of a p2tr script is read through the fallback: its first
byte is the length, so the raw reading is not p2tr. -/
theorem parseP2trScriptWithFallback_serializeScript {script : ScriptBuf}
    (h : isP2tr script = true) :
    parseP2trScriptWithFallback (serializeScript script) = script := by
  have hlen := length_of_isP2tr h
  have hraw : isP2tr (serializeScript script) = false := by
    rw [serializeScript, hlen]
    rfl
  rw [parseP2trScriptWithFallback, hraw,
    deserializeScript_serializeScript (by rw [hlen]; decide)]
  simp [h]

end Macbeth
