/-
The parts of a transaction and how they are encoded: calls, access lists,
authorizations of delegates, and authorizations of access keys with their
trailing optional fields.
-/
import Tempo.Keychain.Scopes
import Tempo.Library.RlpCodec
import Tempo.Transaction.Signature

namespace Tempo

namespace Tx

open Rlp

/-! Words. -/

abbrev NonZeroU64 := { x : BitVec 64 // x ≠ 0 }

def u64 : Codec (BitVec 64) := Codec.uint 8

def u128 : Codec (BitVec 128) := Codec.uint 16

def u256 : Codec (BitVec 256) := Codec.uint 32

def address : Codec Address :=
  Codec.fixed 20 Address.toBytes Address.fromSlice

def b256 : Codec B256 :=
  Codec.fixed 32 B256.toBytes B256.fromSlice

def selector : Codec Selector :=
  Codec.fixed 4 (fun s => beBytes 4 s.toNat) (fun s => BitVec.ofNat 32 (ofBeBytes s))

def nonZeroU64 : Codec NonZeroU64 :=
  u64.via Subtype.val fun x =>
    if h : x ≠ 0 then .ok ⟨x, h⟩ else .error .refused

def bool : Codec Bool :=
  (Codec.uint 1).via (fun b => if b then 1 else 0) fun x =>
    if x = 0 then .ok false
    else if x = 1 then .ok true
    else .error .refused

/-- Creation is an empty string. -/
def txKind : Codec TxKind where
  encode
    | .create => [emptyStringCode]
    | .call target => address.encode target
  length
    | .create => 1
    | .call target => address.length target
  decode := do
    let first ← peek
    match first with
    | none => Rlp.fail .inputTooShort
    | some b =>
      if b = emptyStringCode then do
        let _ ← advance 1
        pure .create
      else do
        let target ← address.decode
        pure (.call target)

/-! Signatures. -/

/-- A signature as a byte string with a header of its announced length. -/
def signature {α : Type} (encodeBytesInto : α → Bytes) (encodedLength : α → Nat)
    (fromBytes : Bytes → Except String α) : Codec α where
  encode sig := Header.encode ⟨false, encodedLength sig⟩ ++ encodeBytesInto sig
  length sig := Header.lengthWithPayload ⟨false, encodedLength sig⟩
  decode := do
    let data ← decodeBytes false
    match fromBytes data with
    | .ok sig => pure sig
    | .error msg => Rlp.fail (.custom msg)

def primitiveSignature : Codec PrimitiveSignature :=
  signature PrimitiveSignature.encodeBytesInto PrimitiveSignature.encodedLength
    PrimitiveSignature.fromBytes

def tempoSignature : Codec TempoSignature :=
  signature TempoSignature.encodeBytesInto TempoSignature.encodedLength TempoSignature.fromBytes

/-! Calls and access lists. -/

@[ext] structure Call where
  to' : TxKind
  value : BitVec 256
  input : Bytes
  deriving DecidableEq

def call : Codec Call :=
  Codec.record (fun c => txKind.length c.to' + u256.length c.value + bytesLength c.input)
    (fun c => txKind.encode c.to' ++ (u256.encode c.value ++ encodeBytes c.input))
    (fun startedLen payloadLength => do
      ensure (payloadLength ≤ startedLen) .inputTooShort
      let to' ← txKind.decode
      let value ← u256.decode
      let input ← decodeBytes false
      pure { to', value, input })
    (fun _ _ => .unexpectedLength)

@[ext] structure AccessListItem where
  address : Address
  storageKeys : List B256
  deriving DecidableEq

def accessListItem : Codec AccessListItem :=
  Codec.record (fun i => address.length i.address + b256.list.length i.storageKeys)
    (fun i => address.encode i.address ++ b256.list.encode i.storageKeys)
    (fun _ _ => do
      let address ← address.decode
      let storageKeys ← b256.list.decode
      pure { address, storageKeys })
    .listLengthMismatch

/-! Authorizations of delegates. -/

@[ext] structure Authorization where
  chainId : BitVec 256
  address : Address
  nonce : BitVec 64
  deriving DecidableEq

@[ext] structure TempoSignedAuthorization where
  inner : Authorization
  signature : TempoSignature
  deriving DecidableEq

def tempoSignedAuthorization : Codec TempoSignedAuthorization :=
  Codec.record (fun a => u256.length a.inner.chainId + address.length a.inner.address +
      u64.length a.inner.nonce + tempoSignature.length a.signature)
    (fun a => u256.encode a.inner.chainId ++ (address.encode a.inner.address ++
      (u64.encode a.inner.nonce ++ tempoSignature.encode a.signature)))
    (fun _ _ => do
      let chainId ← u256.decode
      let address ← address.decode
      let nonce ← u64.decode
      let signature ← tempoSignature.decode
      pure { inner := { chainId, address, nonce }, signature })
    .listLengthMismatch

/-! Authorizations of access keys. -/

inductive SignatureType where
  | secp256k1
  | p256
  | webAuthn
  deriving DecidableEq

def SignatureType.toU8 : SignatureType → BitVec 8
  | secp256k1 => 0
  | p256 => 1
  | webAuthn => 2

def signatureType : Codec SignatureType where
  encode t := (Codec.uint 1).encode t.toU8
  length _ := 1
  decode := do
    let byte : BitVec 8 ← (Codec.uint 1).decode
    if byte = 0 then pure .secp256k1
    else if byte = 1 then pure .p256
    else if byte = 2 then pure .webAuthn
    else Rlp.fail (.custom "Invalid signature type")

/-- A record with trailing optional fields; a placeholder must not be the last
field. -/
def trailingRecord {α β γ : Type} (fixedLength : α → Nat)
    (encodeFixed : α → Bytes) (decodeFixed : Reader β) (t : Trail γ)
    (trail : α → γ) (build : β → γ → Except Error α) : Codec α :=
  Codec.record (fun a => fixedLength a + t.length (trail a))
    (fun a => encodeFixed a ++ t.encode (trail a))
    (fun startedLen payloadLength => do
      let fixed ← decodeFixed
      let (optional, last) ← t.decode startedLen payloadLength
      ensure (last ≠ some false) .refused
      match build fixed optional with
      | .ok a => pure a
      | .error e => Rlp.fail e)
    .listLengthMismatch

@[ext] structure TokenLimit where
  token : Address
  limit : BitVec 256
  period : BitVec 64
  deriving DecidableEq

/-- A period of zero is left out. -/
def nonZero? (x : BitVec 64) : Option NonZeroU64 :=
  if h : x ≠ 0 then some ⟨x, h⟩ else none

def tokenLimit : Codec TokenLimit :=
  trailingRecord (fun l => address.length l.token + u256.length l.limit)
    (fun l => address.encode l.token ++ u256.encode l.limit)
    (do
      let token ← address.decode
      let limit ← u256.decode
      pure (token, limit))
    (Trail.cons nonZeroU64 .nil) (fun l => (nonZero? l.period, ()))
    (fun fixed optional => .ok
      { token := fixed.1
        limit := fixed.2
        period := (optional.1.map Subtype.val).getD 0 })

def selectorRule : Codec SelectorRule :=
  Codec.record (fun r => selector.length r.selector + address.list.length r.recipients)
    (fun r => selector.encode r.selector ++ address.list.encode r.recipients)
    (fun _ _ => do
      let selector ← selector.decode
      let recipients ← address.list.decode
      pure { selector, recipients })
    .listLengthMismatch

def callScope : Codec CallScope :=
  Codec.record (fun s => address.length s.target + selectorRule.list.length s.selectorRules)
    (fun s => address.encode s.target ++ selectorRule.list.encode s.selectorRules)
    (fun _ _ => do
      let target ← address.decode
      let selectorRules ← selectorRule.list.decode
      pure { target, selectorRules })
    .listLengthMismatch

@[ext] structure KeyAuthorization where
  chainId : BitVec 64
  keyType : SignatureType
  keyId : Address
  expiry : Option NonZeroU64
  limits : Option (List TokenLimit)
  allowedCalls : Option (List CallScope)
  witness : Option B256
  isAdmin : Bool
  account : Option Address
  deriving DecidableEq

/-- The optional fields of an authorization, in the order they are encoded. -/
abbrev KeyAuthorizationTrail :=
  Option NonZeroU64 × Option (List TokenLimit) × Option (List CallScope) ×
    Option B256 × Option NonZeroU64 × Option Address × Unit

def keyAuthorizationTrail : Trail KeyAuthorizationTrail :=
  .cons nonZeroU64 <| .cons tokenLimit.list <| .cons callScope.list <|
    .cons b256 <| .cons nonZeroU64 <| .cons address .nil

/-- An admin key is marked by a one. -/
def adminMarker (isAdmin : Bool) : Option NonZeroU64 :=
  if isAdmin then some ⟨1, by decide⟩ else none

def KeyAuthorization.trail (k : KeyAuthorization) : KeyAuthorizationTrail :=
  (k.expiry, k.limits, k.allowedCalls, k.witness, adminMarker k.isAdmin, k.account, ())

def keyAuthorization : Codec KeyAuthorization :=
  trailingRecord
    (fun k => u64.length k.chainId + signatureType.length k.keyType + address.length k.keyId)
    (fun k => u64.encode k.chainId ++ (signatureType.encode k.keyType ++ address.encode k.keyId))
    (do
      let chainId ← u64.decode
      let keyType ← signatureType.decode
      let keyId ← address.decode
      pure (chainId, keyType, keyId))
    keyAuthorizationTrail KeyAuthorization.trail
    (fun (chainId, keyType, keyId) (expiry, limits, allowedCalls, witness, marker, account, _) =>
      if marker.any fun m => decide (m.val ≠ 1) then
        .error (.custom "invalid admin key authorization marker")
      else .ok
        { chainId, keyType, keyId, expiry, limits, allowedCalls, witness
          isAdmin := marker.isSome
          account })

@[ext] structure SignedKeyAuthorization where
  authorization : KeyAuthorization
  signature : PrimitiveSignature
  deriving DecidableEq

def signedKeyAuthorization : Codec SignedKeyAuthorization :=
  Codec.record
    (fun s => keyAuthorization.length s.authorization + primitiveSignature.length s.signature)
    (fun s => keyAuthorization.encode s.authorization ++ primitiveSignature.encode s.signature)
    (fun _ _ => do
      let authorization ← keyAuthorization.decode
      let signature ← primitiveSignature.decode
      pure { authorization, signature })
    .listLengthMismatch

end Tx

end Tempo
