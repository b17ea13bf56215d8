/-
The codec of signed transactions.  A valid transaction whose signatures fit the
length limit is read back, whatever follows it; announced lengths are right at
every level; and what was read is read again from its own encoding.
-/
import Tempo.Transaction.SigningPayload

namespace Tempo

namespace Tx

open Rlp List

/-! Fields with a placeholder are read back. -/

theorem zero_encode : u64.encode 0 = [emptyStringCode] := by
  decide

/-- A placeholder is how zero is written. -/
theorem encodeOption_nonZero (o : Option NonZeroU64) :
    TempoTransaction.encodeOption nonZeroU64 o = u64.encode ((o.map Subtype.val).getD 0) := by
  cases o with
  | none => exact zero_encode.symm
  | some x => rfl

theorem nonZero?_some (o : Option NonZeroU64) : nonZero? ((o.map Subtype.val).getD 0) = o := by
  cases o with
  | none => rfl
  | some x => exact dif_pos x.property

theorem decodeFeeToken_reads {o : Option Address}
    (hsize : (TempoTransaction.encodeOption address o).length < 2 ^ 64) (rest : Bytes) :
    Reads TempoTransaction.decodeFeeToken
      (TempoTransaction.encodeOption address o ++ rest) o rest := by
  cases o with
  | none => rfl
  | some a =>
    have hencode : TempoTransaction.encodeOption address (some a) =
      txKind.encode (.call a) := (txKind_encode_call a).symm
    obtain ⟨b, hfirst, hpeek⟩ := reads_peek (address_writes a) rest
    have hne : b ≠ emptyStringCode := by
      rintro rfl
      exact address_marked a hsize hfirst
    have hkind := txKind_returns (.call a) (hencode ▸ hsize) rest
    rw [txKind_encode_call] at hkind
    refine hpeek.bind ?_
    dsimp only
    rw [if_neg hne]
    exact hkind.bind (reads_pure.mpr ⟨rfl, rfl⟩)

/-! The signature of the fee payer. -/

theorem bool_measured : bool.Measured := by
  intro b
  cases b <;> decide

theorem vrsLength_eq (sig : Signature) : vrsLength sig = (writeRlpVrs sig).length := by
  rw [vrsLength, writeRlpVrs, length_append, length_append,
    bool_measured, u256_measured, u256_measured]
  omega

theorem decodeRlpVrs_writeRlpVrs {sig : Signature} (hsize : (writeRlpVrs sig).length < 2 ^ 64) :
    Reads decodeRlpVrs (writeRlpVrs sig) sig [] := by
  unfold writeRlpVrs at hsize ⊢
  rw [append_assoc] at hsize ⊢
  rw [← append_nil (bool.encode _ ++ _)]
  refine (bool_returns sig.yParity).field hsize fun hsize1 => ?_
  refine (u256_returns sig.r).field hsize1 fun hsize2 => ?_
  exact (u256_returns sig.s hsize2 []).bind (reads_pure.mpr ⟨rfl, rfl⟩)

def encodeFeePayerSignature (o : Option Signature) : Bytes :=
  o.elim [emptyStringCode] fun s =>
    Header.encode ⟨true, vrsLength s⟩ ++ writeRlpVrs s

theorem decodeFeePayerSignature_reads {o : Option Signature}
    (hsize : (encodeFeePayerSignature o).length < 2 ^ 64) (rest : Bytes) :
    Reads TempoTransaction.decodeFeePayerSignature (encodeFeePayerSignature o ++ rest) o rest := by
  cases o with
  | none => rfl
  | some sig =>
    change Reads _ ((Header.encode ⟨true, vrsLength sig⟩ ++ writeRlpVrs sig) ++ rest) _ _
    have hpayload := (length_lt_of_append hsize).2
    rw [vrsLength_eq, append_assoc]
    obtain ⟨b, hfirst, hpeek⟩ := reads_peek (Header.encode_ne_nil ⟨true, (writeRlpVrs sig).length⟩)
      (writeRlpVrs sig ++ rest)
    have hne : b ≠ emptyStringCode := by
      rintro rfl
      exact Trail.header_marked hpayload (by simp) hfirst
    have hheader : Reads Header.decode (Header.encode ⟨true, (writeRlpVrs sig).length⟩ ++
          (writeRlpVrs sig ++ rest)) ⟨true, (writeRlpVrs sig).length⟩ (writeRlpVrs sig ++ rest) :=
      Header.decode_encode hpayload (by simp) fun heq => nomatch heq
    have hslice : Reads (advance (writeRlpVrs sig).length)
        (writeRlpVrs sig ++ rest) (writeRlpVrs sig) rest := by
      change Except.ok (_, _) = Except.ok (_, _)
      rw [take_left' rfl, drop_left' rfl]
    refine hpeek.bind ?_
    dsimp only
    rw [if_neg hne]
    refine hheader.bind ((reads_remaining.mpr ⟨rfl, rfl⟩).bind
      ((Reads.ensure (by simp)).bind ((Reads.ensure rfl).bind (hslice.bind ?_))))
    rw [show decodeRlpVrs (writeRlpVrs sig) = .ok (sig, []) from
      decodeRlpVrs_writeRlpVrs hpayload]
    exact (Reads.ensure rfl).bind (reads_pure.mpr ⟨rfl, rfl⟩)

/-! The authorization of an access key. -/

theorem signedKeyAuthorization_head {s : SignedKeyAuthorization}
    (hsize : (signedKeyAuthorization.encode s).length < 2 ^ 64) :
    ∃ b, (signedKeyAuthorization.encode s).head? = some b ∧ 0xc0 ≤ b.toNat := by
  exact Trail.record_head (signedKeyAuthorization_fields s) hsize

/-- The guess from the first byte is right: the authorization is a list, and
what follows it is not. -/
theorem decodeKeyAuthorization_reads {o : Option SignedKeyAuthorization}
    (hfits : ∀ s ∈ o, s.signature.Fits)
    (hsize : (o.elim [] signedKeyAuthorization.encode).length < 2 ^ 64)
    {rest : Bytes} (hrest : ∀ b ∈ rest.head?, b.toNat < 0xc0) :
    Reads TempoTransaction.decodeKeyAuthorization
      (o.elim [] signedKeyAuthorization.encode ++ rest) o rest := by
  cases o with
  | none =>
    cases rest with
    | nil => rfl
    | cons b rest =>
      have hpeek : Reads peek (b :: rest) (some b) (b :: rest) := rfl
      refine hpeek.bind ?_
      dsimp only
      rw [if_neg (Nat.not_le.mpr (hrest b rfl))]
      exact reads_pure.mpr ⟨rfl, rfl⟩
  | some s =>
    have hread := signedKeyAuthorization_returns (hfits s rfl) hsize rest
    obtain ⟨b, hfirst, hlist⟩ := signedKeyAuthorization_head hsize
    obtain ⟨b', hfirst', hpeek⟩ := reads_peek (signedKeyAuthorization_writes s) rest
    rw [hfirst] at hfirst'
    cases hfirst'
    refine hpeek.bind ?_
    dsimp only
    rw [if_pos hlist]
    exact hread.bind (reads_pure.mpr ⟨rfl, rfl⟩)

/-! Transactions. -/

namespace TempoTransaction

/-- Every signature inside a transaction fits the length limit. -/
structure Fits (tx : TempoTransaction) : Prop where
  authorizations : ∀ a ∈ tx.tempoAuthorizationList, a.signature.Fits
  key : ∀ s ∈ tx.keyAuthorization, s.signature.Fits

theorem rlpDecodeFields_reads {tx : TempoTransaction}
    (hvalid : tx.validate = .ok ()) (hfits : tx.Fits)
    (hsize : tx.rlpEncodeFieldsDefault.length < 2 ^ 64) {rest : Bytes}
    (hrest : ∀ b ∈ rest.head?, b.toNat < 0xc0) :
    Reads rlpDecodeFields (tx.rlpEncodeFieldsDefault ++ rest) tx rest := by
  unfold rlpEncodeFieldsDefault rlpEncodeFields at hsize ⊢
  rw [encodeOption_nonZero, encodeOption_nonZero] at hsize ⊢
  refine (u64_returns tx.chainId).field hsize fun s1 => ?_
  refine (u128_returns tx.maxPriorityFeePerGas).field s1 fun s2 => ?_
  refine (u128_returns tx.maxFeePerGas).field s2 fun s3 => ?_
  refine (u64_returns tx.gasLimit).field s3 fun s4 => ?_
  refine (Codec.Returns.list call_measured call_writes
    fun c _ => call_returns c).field s4 fun s5 => ?_
  refine (Codec.Returns.list accessListItem_measured Codec.record_writes
    fun i _ => accessListItem_returns i).field s5 fun s6 => ?_
  refine (u256_returns tx.nonceKey).field s6 fun s7 => ?_
  refine (u64_returns tx.nonce).field s7 fun s8 => ?_
  refine (u64_returns _).field s8 fun s9 => ?_
  refine (u64_returns _).field s9 fun s10 => ?_
  obtain ⟨t1, s11⟩ := length_lt_of_append s10
  obtain ⟨t2, s12⟩ := length_lt_of_append s11
  rw [append_assoc]
  refine (decodeFeeToken_reads t1 _).bind ?_
  rw [append_assoc]
  refine (decodeFeePayerSignature_reads t2 _).bind ?_
  refine (Codec.Returns.list tempoSignedAuthorization_measured
    tempoSignedAuthorization_writes fun a ha =>
      tempoSignedAuthorization_returns (hfits.authorizations a ha)).field s12
    fun s13 => ?_
  refine (decodeKeyAuthorization_reads hfits.key s13 hrest).bind ?_
  simp only [nonZero?_some, Bool.false_eq_true, if_false, hvalid]
  exact reads_pure.mpr ⟨rfl, rfl⟩

end TempoTransaction

/-! Signed transactions. -/

namespace AASigned

structure Fits (x : AASigned) : Prop where
  tx : x.tx.Fits
  signature : x.signature.Fits

theorem fieldsLengthDefault_eq (tx : TempoTransaction) :
    tx.rlpEncodedFieldsLengthDefault = tx.rlpEncodeFieldsDefault.length := by
  refine tx.rlpEncodedFieldsLength_eq false ?_
  cases tx.feePayerSignature with
  | none => rfl
  | some sig =>
    change Header.lengthWithPayload _ = (_ ++ _ : Bytes).length
    rw [length_append, Header.encode_length, ← vrsLength_eq]
    rfl

theorem payload_eq (x : AASigned) : x.rlpHeader.payloadLength = (x.tx.rlpEncodeFieldsDefault ++
      tempoSignature.encode x.signature).length := by
  rw [length_append, ← fieldsLengthDefault_eq, ← tempoSignature_measured]
  rfl

theorem rlpEncodedLength_eq (x : AASigned) : x.rlpEncodedLength = x.rlpEncode.length := by
  unfold rlpEncodedLength rlpEncode
  rw [length_append, Header.encode_length, ← payload_eq]
  rfl

variable {rest bytes : Bytes} {x : AASigned}

/-- What follows the fields does not start like a list. -/
theorem signature_head {sig : TempoSignature}
    (hsize : (tempoSignature.encode sig).length < 2 ^ 64) :
    ∀ b ∈ (tempoSignature.encode sig ++ rest).head?, b.toNat < 0xc0 := by
  intro b hb
  have hpayload := (length_lt_of_append hsize).2
  rw [TempoSignature.encodeBytesInto_length] at hpayload
  obtain ⟨b', hfirst, hlist, -⟩ := @Trail.header_head ⟨false, sig.encodedLength⟩ hpayload
  have hencode : tempoSignature.encode sig = Header.encode
    ⟨false, sig.encodedLength⟩ ++ sig.encodeBytesInto := rfl
  rw [hencode, append_assoc, Trail.head?_append (Header.encode_ne_nil _), hfirst] at hb
  cases hb
  exact Nat.not_le.mp fun hle => nomatch hlist.mp hle

theorem rlpDecode_rlpEncode (hvalid : x.tx.validate = .ok ())
    (hfits : x.Fits) (hsize : x.rlpEncode.length < 2 ^ 64) (rest : Bytes) :
    Reads rlpDecode (x.rlpEncode ++ rest) x rest := by
  have hpayload := (length_lt_of_append hsize).2
  obtain ⟨hfields, hsig⟩ := length_lt_of_append hpayload
  have hsiglen := TempoSignature.encodeBytesInto_length x.signature
  have hheader : Reads Header.decode (x.rlpHeader.encode ++
      ((x.tx.rlpEncodeFieldsDefault ++ tempoSignature.encode x.signature) ++
        rest)) x.rlpHeader ((x.tx.rlpEncodeFieldsDefault ++
          tempoSignature.encode x.signature) ++ rest) := by
    refine Header.decode_encode (by rw [payload_eq]; exact hpayload)
      (by rw [payload_eq]; simp) fun heq => ?_
    exact nomatch congrArg Header.list heq
  have htx : Reads TempoTransaction.rlpDecodeFields
      ((x.tx.rlpEncodeFieldsDefault ++ tempoSignature.encode x.signature) ++
        rest) x.tx (tempoSignature.encode x.signature ++ rest) := by
    rw [append_assoc]
    exact TempoTransaction.rlpDecodeFields_reads hvalid hfits.tx hfields (signature_head hsig)
  have hbytes : Reads (decodeBytes false) (tempoSignature.encode x.signature ++ rest)
      x.signature.encodeBytesInto rest := by
    have hdata := (length_lt_of_append hsig).2
    have hlong := two_le_tempo x.signature
    rw [← hsiglen] at hlong
    have hread := @decodeBytes_header false _ hdata (fun _ => isSingle_of_length hlong) rest
    rw [hsiglen, ← append_assoc] at hread
    exact hread
  unfold rlpDecode rlpEncode
  rw [append_assoc]
  refine hheader.bind ((Reads.ensure rfl).bind
    ((reads_remaining.mpr ⟨rfl, rfl⟩).bind ((Reads.ensure ?_).bind
      (htx.bind (hbytes.bind ((reads_remaining.mpr ⟨rfl, rfl⟩).bind
        ((Reads.ensure ?_).bind ?_)))))))
  · rw [payload_eq]
    simp
  · rw [payload_eq, length_append, Nat.add_sub_cancel]
  · rw [TempoSignature.fromBytes_encodeBytesInto hfits.signature]
    exact reads_pure.mpr ⟨rfl, rfl⟩

/-! What is read fits. -/

theorem decodeAll_forall {α : Type} {c : Codec α} {P : α → Prop}
    (h : ∀ bytes a rest, Reads c.decode bytes a rest → P a) {fuel : Nat}
    {l : List α} (hl : c.decodeAll fuel bytes = .ok l) : ∀ a ∈ l, P a := by
  induction fuel generalizing bytes l with
  | zero =>
    cases bytes with
    | nil =>
      cases hl
      exact fun a ha => absurd ha not_mem_nil
    | cons b bytes => cases hl
  | succ fuel ih =>
    cases bytes with
    | nil =>
      cases hl
      exact fun a ha => absurd ha not_mem_nil
    | cons b bytes =>
      obtain ⟨⟨a, rest⟩, hfirst, hl⟩ := except_bind_eq_ok.mp hl
      obtain ⟨more, hmore, hl⟩ := except_bind_eq_ok.mp hl
      cases hl
      exact forall_mem_cons.mpr ⟨h _ _ _ hfirst, ih hmore⟩

theorem list_forall {α : Type} {c : Codec α} {P : α → Prop}
    (h : ∀ bytes a rest, Reads c.decode bytes a rest → P a) {l : List α}
    (hl : Reads c.list.decode bytes l rest) : ∀ a ∈ l, P a := by
  obtain ⟨s, b1, -, h1⟩ := reads_bind.mp hl
  refine decodeAll_forall h (?_ : c.decodeAll s.length s = _)
  revert h1
  cases c.decodeAll s.length s <;> intro h1 <;> cases h1
  rfl

theorem tempoSignedAuthorization_fits (bytes : Bytes) (a : TempoSignedAuthorization) (rest : Bytes)
    (h : Reads tempoSignedAuthorization.decode bytes a rest) : a.signature.Fits := by
  obtain ⟨_, _, _, _, hfields⟩ := Codec.record_reads h
  obtain ⟨chainId, b1, -, h1⟩ := reads_bind.mp hfields
  obtain ⟨target, b2, -, h2⟩ := reads_bind.mp h1
  obtain ⟨nonce, b3, -, h3⟩ := reads_bind.mp h2
  obtain ⟨sig, b4, hsig, h4⟩ := reads_bind.mp h3
  obtain ⟨rfl, -⟩ := reads_pure.mp h4
  obtain ⟨data, hparse⟩ := signature_reads hsig
  exact TempoSignature.fromBytes_fits hparse

theorem signedKeyAuthorization_fits (bytes : Bytes) (s : SignedKeyAuthorization) (rest : Bytes)
    (h : Reads signedKeyAuthorization.decode bytes s rest) : s.signature.Fits := by
  obtain ⟨_, _, _, _, hfields⟩ := Codec.record_reads h
  obtain ⟨authorization, b1, -, h1⟩ := reads_bind.mp hfields
  obtain ⟨sig, b2, hsig, h2⟩ := reads_bind.mp h1
  obtain ⟨rfl, -⟩ := reads_pure.mp h2
  obtain ⟨data, hparse⟩ := signature_reads hsig
  exact PrimitiveSignature.fromBytes_fits hparse

theorem decodeKeyAuthorization_fits {o : Option SignedKeyAuthorization}
    (h : Reads TempoTransaction.decodeKeyAuthorization bytes o rest) :
    ∀ s ∈ o, s.signature.Fits := by
  obtain ⟨first, b1, -, h1⟩ := reads_bind.mp h
  cases first with
  | none =>
    obtain ⟨rfl, -⟩ := reads_pure.mp h1
    exact fun s hs => nomatch hs
  | some b =>
    dsimp only at h1
    split at h1
    · obtain ⟨s, b2, hread, h2⟩ := reads_bind.mp h1
      obtain ⟨rfl, -⟩ := reads_pure.mp h2
      intro s' hs'
      cases hs'
      exact signedKeyAuthorization_fits _ _ _ hread
    · obtain ⟨rfl, -⟩ := reads_pure.mp h1
      exact fun s hs => nomatch hs

theorem rlpDecodeFields_sound {tx : TempoTransaction}
    (h : Reads TempoTransaction.rlpDecodeFields bytes tx rest) :
    tx.validate = .ok () ∧ tx.Fits := by
  unfold TempoTransaction.rlpDecodeFields at h
  -- no condition on the twelve fields before the authorization list
  iterate 12 obtain ⟨_, _, -, h⟩ := reads_bind.mp h
  obtain ⟨_, _, hlist, h⟩ := reads_bind.mp h
  obtain ⟨_, _, hkey, h⟩ := reads_bind.mp h
  dsimp only at h
  split at h
  · rename_i hvalid
    obtain ⟨rfl, -⟩ := reads_pure.mp h
    exact ⟨hvalid, list_forall tempoSignedAuthorization_fits hlist,
      decodeKeyAuthorization_fits hkey⟩
  · cases h

theorem rlpDecode_sound (h : Reads rlpDecode bytes x rest) : x.tx.validate = .ok () ∧ x.Fits := by
  iterate 4 obtain ⟨_, _, -, h⟩ := reads_bind.mp h
  obtain ⟨tx, _, htx, h⟩ := reads_bind.mp h
  obtain ⟨sigBytes, _, -, h⟩ := reads_bind.mp h
  iterate 2 obtain ⟨_, _, -, h⟩ := reads_bind.mp h
  obtain ⟨hvalid, hfits⟩ := rlpDecodeFields_sound htx
  split at h
  · rename_i hparse
    obtain ⟨rfl, -⟩ := reads_pure.mp h
    exact ⟨hvalid, hfits, TempoSignature.fromBytes_fits hparse⟩
  · cases h

/-- A signed transaction that is valid and whose signatures fit is read back,
whatever follows; lengths are announced as they are at every level; and what
was accepted is read again from its own encoding. -/
theorem signed_codec_roundTrips :
    (∀ x : AASigned, x.tx.validate = .ok () → x.Fits → x.rlpEncode.length < 2 ^ 64 →
      ∀ rest, Reads rlpDecode (x.rlpEncode ++ rest) x rest) ∧
    (∀ x : AASigned, x.rlpEncodedLength = x.rlpEncode.length ∧
      x.rlpHeader.payloadLength = (x.tx.rlpEncodeFieldsDefault ++
        tempoSignature.encode x.signature).length ∧ x.tx.rlpEncodedFieldsLengthDefault =
        x.tx.rlpEncodeFieldsDefault.length) ∧
    (tempoSignature.Measured ∧ primitiveSignature.Measured ∧ call.Measured ∧
      accessListItem.Measured ∧ tempoSignedAuthorization.Measured ∧
      signedKeyAuthorization.Measured ∧ keyAuthorization.Measured ∧
      tokenLimit.Measured ∧ callScope.Measured ∧ selectorRule.Measured) ∧
    ∀ (bytes rest : Bytes) (x : AASigned), Reads rlpDecode bytes x rest →
      x.rlpEncode.length < 2 ^ 64 → Reads rlpDecode x.rlpEncode x [] := by
  refine ⟨?_, ?_, ?_, ?_⟩
  · intro x hvalid hfits hsize rest
    exact rlpDecode_rlpEncode hvalid hfits hsize rest
  · intro x
    exact ⟨x.rlpEncodedLength_eq, x.payload_eq, fieldsLengthDefault_eq x.tx⟩
  · exact ⟨tempoSignature_measured, primitiveSignature_measured, call_measured,
      accessListItem_measured, tempoSignedAuthorization_measured,
      signedKeyAuthorization_measured, keyAuthorization_measured,
      tokenLimit_measured, callScope_measured, selectorRule_measured⟩
  · intro bytes rest x hread hsize
    obtain ⟨hvalid, hfits⟩ := rlpDecode_sound hread
    have hback := rlpDecode_rlpEncode hvalid hfits hsize []
    rwa [append_nil] at hback

/-- A transaction that authorizes a key with the given signature. -/
def authorizing (signature : PrimitiveSignature) (outer : TempoSignature) : AASigned where
  tx :=
    { SigningPayload.sponsored none ⟨0, 0, false⟩ with
      keyAuthorization := some
        { authorization :=
            { chainId := 1
              keyType := .p256
              keyId := ⟨7⟩
              expiry := none
              limits := some [⟨⟨8⟩, 100, 0⟩, ⟨⟨9⟩, 5, 60⟩]
              allowedCalls := some [⟨⟨3⟩, [⟨1, [⟨4⟩]⟩, ⟨2, []⟩]⟩]
              witness := none
              isAdmin := true
              account := none }
          signature } }
  signature := outer

/-- An access key that signs for an account and authorizes another key, with
bytes that follow. -/
theorem signed_codec_roundTrips_keychain : Reads rlpDecode ((authorizing (.secp256k1 ⟨5, 6, true⟩)
        (.keychain ⟨⟨2⟩, .webAuthn ⟨1, 2, 3, 4, [9, 9]⟩, .v2⟩)).rlpEncode ++ [0xc0, 1])
      (authorizing (.secp256k1 ⟨5, 6, true⟩)
        (.keychain ⟨⟨2⟩, .webAuthn ⟨1, 2, 3, 4, [9, 9]⟩, .v2⟩)) [0xc0, 1] := by
  refine signed_codec_roundTrips.1 _ rfl ⟨⟨?_, ?_⟩, ?_⟩ (by decide +kernel) _
  · exact fun a ha => absurd ha not_mem_nil
  · intro s hs
    cases hs
    trivial
  · change (2 : Nat) + 128 ≤ 2048
    omega

/-- The limit on the outer signature is not enough: a valid transaction with an
authorization whose WebAuthn data is too long is not read back. -/
theorem nested_signature_rejected :
    ∃ x : AASigned, x.tx.validate = .ok () ∧ x.signature.Fits ∧ x.rlpEncode.length < 2 ^ 64 ∧
      ∃ e, rlpDecode x.rlpEncode = .error e ∧ e = .custom "Invalid WebAuthn signature length" := by
  let x := authorizing (.webAuthn ⟨1, 2, 3, 4, replicate 1921 0⟩)
    (.primitive (.secp256k1 ⟨1, 2, false⟩))
  have hrun : (match rlpDecode x.rlpEncode with
      | .ok _ => false
      | .error e => decide (e = .custom "Invalid WebAuthn signature length")) =
        true := by
    decide +kernel
  refine ⟨x, rfl, trivial, by decide +kernel, ?_⟩
  cases hdecode : rlpDecode x.rlpEncode with
  | ok p =>
    rw [hdecode] at hrun
    cases hrun
  | error e =>
    rw [hdecode] at hrun
    exact ⟨e, rfl, of_decide_eq_true hrun⟩

end AASigned

end Tx

end Tempo
