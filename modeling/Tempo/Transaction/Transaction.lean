/-
The account-abstraction transaction: its structural validation, how its fields
are written and read, the signed transaction, and what the sender and the fee
payer sign.
-/
import Tempo.Transaction.Codec

namespace Tempo

namespace Tx

open Rlp

def tempoTxTypeId : UInt8 := 0x76

def feePayerSignatureMagicByte : UInt8 := 0x78

structure TempoTransaction where
  chainId : BitVec 64
  feeToken : Option Address
  maxPriorityFeePerGas : BitVec 128
  maxFeePerGas : BitVec 128
  gasLimit : BitVec 64
  calls : List Call
  accessList : List AccessListItem
  nonceKey : BitVec 256
  nonce : BitVec 64
  feePayerSignature : Option Signature
  validBefore : Option NonZeroU64
  validAfter : Option NonZeroU64
  keyAuthorization : Option SignedKeyAuthorization
  tempoAuthorizationList : List TempoSignedAuthorization
  deriving DecidableEq

def TxKind.isCreate : TxKind → Bool
  | .create => true
  | .call _ => false

def validateCalls (calls : List Call) (hasAuthorizationList : Bool) : Except String Unit :=
  match calls with
  | [] => .error "calls list cannot be empty"
  | first :: others =>
    if hasAuthorizationList && TxKind.isCreate first.to' then
      .error "calls cannot contain CREATE when 'aa_authorization_list' is non-empty"
    else if others.any fun c => TxKind.isCreate c.to' then
      .error "only one CREATE call is allowed per transaction, and it must be the first call of the batch"
    else .ok ()

/-! A fee payer's signature is a list of its parity and its two words. -/

def vrsLength (sig : Signature) : Nat :=
  u256.length sig.r + u256.length sig.s + bool.length sig.yParity

def writeRlpVrs (sig : Signature) : Bytes :=
  bool.encode sig.yParity ++ u256.encode sig.r ++ u256.encode sig.s

def decodeRlpVrs : Reader Signature := do
  let yParity ← bool.decode
  let r ← u256.decode
  let s ← u256.decode
  pure { r, s, yParity }

namespace TempoTransaction

def validate (tx : TempoTransaction) : Except String Unit := do
  validateCalls tx.calls (!tx.tempoAuthorizationList.isEmpty)
  match tx.validAfter, tx.validBefore with
  | some validAfter, some validBefore =>
    if validBefore.val.toNat ≤ validAfter.val.toNat then
      .error "valid_before must be greater than valid_after"
    else .ok ()
  | _, _ => .ok ()

/-- An optional field with a placeholder of one byte. -/
def optionLength {α : Type} (c : Codec α) (o : Option α) : Nat :=
  o.elim 1 c.length

def encodeOption {α : Type} (c : Codec α) (o : Option α) : Bytes :=
  o.elim [emptyStringCode] c.encode

def rlpEncodedFieldsLength (tx : TempoTransaction)
    (signatureLength : Option Signature → Nat) (skipFeeToken : Bool) : Nat :=
  u64.length tx.chainId + u128.length tx.maxPriorityFeePerGas +
    u128.length tx.maxFeePerGas + u64.length tx.gasLimit +
    call.list.length tx.calls + accessListItem.list.length tx.accessList +
    u256.length tx.nonceKey + u64.length tx.nonce + optionLength nonZeroU64 tx.validBefore +
    optionLength nonZeroU64 tx.validAfter +
    optionLength address (if skipFeeToken then none else tx.feeToken) +
    signatureLength tx.feePayerSignature +
    tempoSignedAuthorization.list.length tx.tempoAuthorizationList +
    tx.keyAuthorization.elim 0 signedKeyAuthorization.length

def rlpEncodeFields (tx : TempoTransaction)
    (encodeSignature : Option Signature → Bytes) (skipFeeToken : Bool) : Bytes :=
  u64.encode tx.chainId ++ (u128.encode tx.maxPriorityFeePerGas ++
    (u128.encode tx.maxFeePerGas ++ (u64.encode tx.gasLimit ++
    (call.list.encode tx.calls ++ (accessListItem.list.encode tx.accessList ++
    (u256.encode tx.nonceKey ++ (u64.encode tx.nonce ++ (encodeOption nonZeroU64 tx.validBefore ++
    (encodeOption nonZeroU64 tx.validAfter ++
    (encodeOption address (if skipFeeToken then none else tx.feeToken) ++
    (encodeSignature tx.feePayerSignature ++
    (tempoSignedAuthorization.list.encode tx.tempoAuthorizationList ++
    tx.keyAuthorization.elim [] signedKeyAuthorization.encode))))))))))))

def rlpEncodedFieldsLengthDefault (tx : TempoTransaction) : Nat :=
  tx.rlpEncodedFieldsLength (fun signature => signature.elim 1 fun s =>
      Header.lengthWithPayload ⟨true, vrsLength s⟩)
    false

def rlpEncodeFieldsDefault (tx : TempoTransaction) : Bytes :=
  tx.rlpEncodeFields (fun signature => signature.elim [emptyStringCode] fun s =>
      Header.encode ⟨true, vrsLength s⟩ ++ writeRlpVrs s)
    false

def decodeFeeToken : Reader (Option Address) := do
  let first ← peek
  match first with
  | none => Rlp.fail .inputTooShort
  | some b =>
    if b = emptyStringCode then do
      let _ ← advance 1
      pure none
    else do
      let kind ← txKind.decode
      pure (match kind with
        | .create => none
        | .call target => some target)

def decodeFeePayerSignature : Reader (Option Signature) := do
  let first ← peek
  match first with
  | none => Rlp.fail .inputTooShort
  | some b =>
    if b = emptyStringCode then do
      let _ ← advance 1
      pure none
    else do
      let header ← Header.decode
      let left ← remaining
      ensure (header.payloadLength ≤ left) .inputTooShort
      ensure (header.list = true) .unexpectedString
      -- the signature is read from a slice, which it has to exhaust
      let signatureBuf ← advance header.payloadLength
      match decodeRlpVrs signatureBuf with
      | .error e => Rlp.fail e
      | .ok (signature, rest) => do
        ensure (rest = []) .unexpectedLength
        pure (some signature)

/-- The authorization is there if the next byte starts a list; otherwise it
may be that of the signature that follows. -/
def decodeKeyAuthorization : Reader (Option SignedKeyAuthorization) := do
  let first ← peek
  match first with
  | none => pure none
  | some b =>
    if 0xc0 ≤ b.toNat then do
      let authorization ← signedKeyAuthorization.decode
      pure (some authorization)
    else pure none

def rlpDecodeFields : Reader TempoTransaction := do
  let chainId ← u64.decode
  let maxPriorityFeePerGas ← u128.decode
  let maxFeePerGas ← u128.decode
  let gasLimit ← u64.decode
  let calls ← call.list.decode
  let accessList ← accessListItem.list.decode
  let nonceKey ← u256.decode
  let nonce ← u64.decode
  let validBefore ← u64.decode
  let validAfter ← u64.decode
  let feeToken ← decodeFeeToken
  let feePayerSignature ← decodeFeePayerSignature
  let tempoAuthorizationList ← tempoSignedAuthorization.list.decode
  let keyAuthorization ← decodeKeyAuthorization
  let tx : TempoTransaction :=
    { chainId, feeToken, maxPriorityFeePerGas, maxFeePerGas, gasLimit, calls
      accessList, nonceKey, nonce, feePayerSignature
      validBefore := nonZero? validBefore
      validAfter := nonZero? validAfter
      keyAuthorization, tempoAuthorizationList }
  match tx.validate with
  | .ok () => pure tx
  | .error msg => Rlp.fail (.custom msg)

/-! What is signed. -/

/-- The sender does not commit to a fee token that a fee payer chooses. -/
def encodeForSigning (tx : TempoTransaction) : Bytes :=
  let skipFeeToken := tx.feePayerSignature.isSome
  let payloadLength := tx.rlpEncodedFieldsLength (fun _ => 1) skipFeeToken
  tempoTxTypeId :: (Header.encode ⟨true, payloadLength⟩ ++ tx.rlpEncodeFields
      (fun signature => if signature.isSome then [0] else [emptyStringCode])
      skipFeeToken)

/-- The fee payer commits to the sender and to the fee token. -/
def feePayerSignaturePayload (tx : TempoTransaction) (sender : Address) : Bytes :=
  let payloadLength :=
    tx.rlpEncodedFieldsLength (fun _ => address.length sender) false
  feePayerSignatureMagicByte :: (Header.encode ⟨true, payloadLength⟩ ++
    tx.rlpEncodeFields (fun _ => address.encode sender) false)

def uniqueTxIdentifierPayload (tx : TempoTransaction) (sender : Address) : Bytes :=
  tx.encodeForSigning ++ sender.toBytes

end TempoTransaction

/-- What an access key signs for an account. -/
def keychainSigningPayload (sigHash : B256) (userAddress : Address) : Bytes :=
  signatureTypeKeychainV2 :: (B256.toBytes sigHash ++ userAddress.toBytes)

structure AASigned where
  tx : TempoTransaction
  signature : TempoSignature
  deriving DecidableEq

namespace AASigned

def rlpHeader (x : AASigned) : Header :=
  ⟨true, x.tx.rlpEncodedFieldsLengthDefault + tempoSignature.length x.signature⟩

def rlpEncode (x : AASigned) : Bytes :=
  x.rlpHeader.encode ++ (x.tx.rlpEncodeFieldsDefault ++ tempoSignature.encode x.signature)

def rlpEncodedLength (x : AASigned) : Nat :=
  x.rlpHeader.lengthWithPayload

def rlpDecode : Reader AASigned := do
  let header ← Header.decode
  ensure (header.list = true) .unexpectedString
  let left ← remaining
  ensure (header.payloadLength ≤ left) .inputTooShort
  let tx ← TempoTransaction.rlpDecodeFields
  let sigBytes ← decodeBytes false
  let after ← remaining
  -- the length is checked before the signature is parsed
  ensure (left - after = header.payloadLength) .unexpectedLength
  match TempoSignature.fromBytes sigBytes with
  | .ok signature => pure { tx, signature }
  | .error msg => Rlp.fail (.custom msg)

end AASigned

end Tx

end Tempo
