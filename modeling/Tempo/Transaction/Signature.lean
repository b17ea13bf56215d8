/-
Signatures of transactions as byte strings.  A 65-byte string is a secp256k1
signature; every other signature starts with a type byte.  Recovering a signer
is left to the environment.
-/
import Tempo.Library.Bytes
import Tempo.Primitives.Address

namespace Tempo

/-! Words as byte strings. -/

def B256.toBytes (x : B256) : Bytes :=
  beBytes 32 x.toNat

def B256.fromSlice (bytes : Bytes) : B256 :=
  BitVec.ofNat 256 (ofBeBytes bytes)

def Address.toBytes (a : Address) : Bytes :=
  beBytes 20 a.word.toNat

def Address.fromSlice (bytes : Bytes) : Address :=
  ⟨BitVec.ofNat 160 (ofBeBytes bytes)⟩

@[simp] theorem B256.toBytes_length (x : B256) : (B256.toBytes x).length = 32 := beBytes_length _ _

@[simp] theorem Address.toBytes_length (a : Address) : a.toBytes.length = 20 := beBytes_length _ _

@[simp] theorem B256.fromSlice_toBytes (x : B256) : B256.fromSlice (B256.toBytes x) = x := by
  have hlt : x.toNat < 256 ^ 32 := x.isLt
  rw [B256.fromSlice, B256.toBytes, ofBeBytes_beBytes hlt, BitVec.ofNat_toNat, BitVec.setWidth_eq]

@[simp] theorem Address.fromSlice_toBytes (a : Address) : Address.fromSlice a.toBytes = a := by
  have hlt : a.word.toNat < 256 ^ 20 := a.word.isLt
  rw [Address.fromSlice, Address.toBytes, ofBeBytes_beBytes hlt,
    BitVec.ofNat_toNat, BitVec.setWidth_eq]

/-! Signatures. -/

def secp256k1SignatureLength : Nat := 65
def p256SignatureLength : Nat := 129
def maxWebauthnSignatureLength : Nat := 2048

def signatureTypeP256 : UInt8 := 0x01
def signatureTypeWebauthn : UInt8 := 0x02
def signatureTypeKeychain : UInt8 := 0x03
def signatureTypeKeychainV2 : UInt8 := 0x04

/-- A secp256k1 signature. -/
structure Signature where
  r : BitVec 256
  s : BitVec 256
  yParity : Bool
  deriving DecidableEq

structure P256SignatureWithPreHash where
  r : B256
  s : B256
  pubKeyX : B256
  pubKeyY : B256
  preHash : Bool
  deriving DecidableEq

structure WebAuthnSignature where
  r : B256
  s : B256
  pubKeyX : B256
  pubKeyY : B256
  webauthnData : Bytes
  deriving DecidableEq

inductive PrimitiveSignature where
  | secp256k1 (sig : Signature)
  | p256 (sig : P256SignatureWithPreHash)
  | webAuthn (sig : WebAuthnSignature)
  deriving DecidableEq

inductive KeychainVersion where
  | v1
  | v2
  deriving DecidableEq

/-- The signature of an access key for an account. -/
structure KeychainSignature where
  userAddress : Address
  signature : PrimitiveSignature
  version : KeychainVersion
  deriving DecidableEq

inductive TempoSignature where
  | primitive (sig : PrimitiveSignature)
  | keychain (sig : KeychainSignature)
  deriving DecidableEq

namespace Signature

/-- The last byte is 27 plus the parity. -/
def asBytes (sig : Signature) : Bytes :=
  B256.toBytes sig.r ++ B256.toBytes sig.s ++ [if sig.yParity then 28 else 27]

/-- The parity a recovery byte stands for, in any of its conventions. -/
def normalizeV (v : Nat) : Option Bool :=
  if v = 0 ∨ v = 1 then some (decide (v = 1))
  else if v = 27 ∨ v = 28 then some (decide (v = 28))
  else if 35 ≤ v then some (decide ((v - 35) % 2 = 1))
  else none

def fromRaw (data : Bytes) : Option Signature :=
  (normalizeV ((data[64]?.getD 0).toNat)).map fun yParity =>
    { r := B256.fromSlice (data.take 32)
      s := B256.fromSlice ((data.drop 32).take 32)
      yParity }

end Signature

namespace PrimitiveSignature

/-- The 32-byte words a signature with a public key consists of. -/
def wordAt (data : Bytes) (i : Nat) : B256 :=
  B256.fromSlice ((data.drop (32 * i)).take 32)

def fromBytes (data : Bytes) : Except String PrimitiveSignature :=
  match data with
  | [] => .error "Signature data is empty"
  | typeId :: sigData =>
    if data.length = secp256k1SignatureLength then
      match Signature.fromRaw data with
      | some sig => .ok (.secp256k1 sig)
      | none => .error
          "Failed to parse secp256k1 signature: invalid signature values"
    else if data.length < 2 then
      .error "Signature data too short: expected type identifier + signature data"
    else if typeId = signatureTypeP256 then
      if sigData.length = p256SignatureLength then
        .ok (.p256
          { r := wordAt sigData 0
            s := wordAt sigData 1
            pubKeyX := wordAt sigData 2
            pubKeyY := wordAt sigData 3
            preHash := sigData[128]?.getD 0 ≠ 0 })
      else .error "Invalid P256 signature length"
    else if typeId = signatureTypeWebauthn then
      if 128 ≤ sigData.length ∧ sigData.length ≤ maxWebauthnSignatureLength then
        let (webauthnData, words) := sigData.splitAt (sigData.length - 128)
        .ok (.webAuthn
          { r := wordAt words 0
            s := wordAt words 1
            pubKeyX := wordAt words 2
            pubKeyY := wordAt words 3
            webauthnData })
      else .error "Invalid WebAuthn signature length"
    else .error "Unknown signature type identifier"

def encodeBytesInto : PrimitiveSignature → Bytes
  | secp256k1 sig => sig.asBytes
  | p256 sig =>
    signatureTypeP256 :: (B256.toBytes sig.r ++ B256.toBytes sig.s ++
      B256.toBytes sig.pubKeyX ++ B256.toBytes sig.pubKeyY ++
      [if sig.preHash then 1 else 0])
  | webAuthn sig =>
    signatureTypeWebauthn :: (sig.webauthnData ++ B256.toBytes sig.r ++
      B256.toBytes sig.s ++ B256.toBytes sig.pubKeyX ++ B256.toBytes sig.pubKeyY)

def encodedLength : PrimitiveSignature → Nat
  | secp256k1 _ => secp256k1SignatureLength
  | p256 _ => 1 + p256SignatureLength
  | webAuthn sig => 1 + sig.webauthnData.length + 128

end PrimitiveSignature

namespace TempoSignature

def fromBytes (data : Bytes) : Except String TempoSignature :=
  match data with
  | [] => .error "Signature data is empty"
  | typeId :: sigData =>
    if 1 < data.length ∧ data.length ≠ secp256k1SignatureLength ∧
        (typeId = signatureTypeKeychain ∨ typeId = signatureTypeKeychainV2) then
      if sigData.length < 20 then
        .error "Invalid Keychain signature: too short for user_address"
      else do
        let signature ← PrimitiveSignature.fromBytes (sigData.drop 20)
        pure (.keychain
          { userAddress := Address.fromSlice (sigData.take 20)
            signature
            version := if typeId = signatureTypeKeychain then .v1 else .v2 })
    else do
      let primitive ← PrimitiveSignature.fromBytes data
      pure (.primitive primitive)

def encodeBytesInto : TempoSignature → Bytes
  | primitive sig => sig.encodeBytesInto
  | keychain sig =>
    (match sig.version with
      | .v1 => signatureTypeKeychain
      | .v2 => signatureTypeKeychainV2) ::
      (sig.userAddress.toBytes ++ sig.signature.encodeBytesInto)

def encodedLength : TempoSignature → Nat
  | primitive sig => sig.encodedLength
  | keychain sig => 1 + 20 + sig.signature.encodedLength

end TempoSignature

end Tempo
