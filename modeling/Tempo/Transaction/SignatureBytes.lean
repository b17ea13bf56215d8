/-
Signatures and their byte strings: the announced length is right, the byte
string determines the signature, and a signature is parsed back exactly if its
WebAuthn data fits the length limit.
-/
import Tempo.Library.Exec
import Tempo.Transaction.Signature

namespace Tempo

open B256 PrimitiveSignature Signature List

/-- The WebAuthn data, with the four words behind it, fits the limit. -/
def PrimitiveSignature.Fits : PrimitiveSignature → Prop
  | .webAuthn sig => sig.webauthnData.length + 128 ≤ maxWebauthnSignatureLength
  | _ => True

instance (sig : PrimitiveSignature) : Decidable sig.Fits := by
  cases sig <;> unfold PrimitiveSignature.Fits <;> infer_instance

def TempoSignature.Fits : TempoSignature → Prop
  | .primitive sig => sig.Fits
  | .keychain sig => sig.signature.Fits

instance (sig : TempoSignature) : Decidable sig.Fits := by
  cases sig <;> unfold TempoSignature.Fits <;> infer_instance

/-- Four words in a row. -/
def fourWords (a b c d : B256) : Bytes :=
  B256.toBytes a ++ (B256.toBytes b ++ (B256.toBytes c ++ B256.toBytes d))

@[simp] theorem fourWords_length (a b c d : B256) : (fourWords a b c d).length = 128 := by
  simp [fourWords]

namespace PrimitiveSignature

@[simp] theorem wordAt_head (a : B256) (rest : Bytes) : wordAt (toBytes a ++ rest) 0 = a := by
  have htake : (toBytes a ++ rest).take 32 = toBytes a := take_left' (toBytes_length a)
  rw [wordAt, Nat.mul_zero, drop_zero, htake, fromSlice_toBytes]

@[simp] theorem wordAt_tail (a : B256) (rest : Bytes) (i : Nat) :
    wordAt (toBytes a ++ rest) (i + 1) = wordAt rest i := by
  have hdrop : (toBytes a ++ rest).drop (32 * (i + 1)) = rest.drop (32 * i) := by
    rw [mul_add, mul_one, add_comm, ← drop_drop, drop_left' (toBytes_length a)]
  rw [wordAt, wordAt, hdrop]

/-- The words are found where they were put. -/
theorem words_fourWords (a b c d : B256) (rest : Bytes) :
    wordAt (fourWords a b c d ++ rest) 0 = a ∧ wordAt (fourWords a b c d ++ rest) 1 = b ∧
      wordAt (fourWords a b c d ++ rest) 2 = c ∧ wordAt (fourWords a b c d ++ rest) 3 = d := by
  simp [fourWords, wordAt_head, wordAt_tail]

theorem encodeBytesInto_length (sig : PrimitiveSignature) :
    sig.encodeBytesInto.length = sig.encodedLength := by
  cases sig with
  | secp256k1 sig =>
    simp [encodeBytesInto, encodedLength, asBytes, secp256k1SignatureLength]
  | p256 sig => simp [encodeBytesInto, encodedLength, p256SignatureLength]
  | webAuthn sig =>
    simp only [encodeBytesInto, encodedLength, length_cons, length_append, toBytes_length]
    omega

theorem encodeBytesInto_p256 (sig : P256SignatureWithPreHash) :
    encodeBytesInto (.p256 sig) = signatureTypeP256 ::
      (fourWords sig.r sig.s sig.pubKeyX sig.pubKeyY ++ [if sig.preHash then 1 else 0]) := by
  simp [encodeBytesInto, fourWords]

theorem encodeBytesInto_webAuthn (sig : WebAuthnSignature) :
    encodeBytesInto (.webAuthn sig) = signatureTypeWebauthn :: (sig.webauthnData ++
        fourWords sig.r sig.s sig.pubKeyX sig.pubKeyY) := by
  simp [encodeBytesInto, fourWords]

/-- No signature is shorter than a bare secp256k1 one, and only that one has
its length. -/
theorem le_encodedLength (sig : PrimitiveSignature) :
    secp256k1SignatureLength ≤ sig.encodedLength := by
  cases sig with
  | secp256k1 sig => exact le_rfl
  | p256 sig =>
    change 65 ≤ 1 + 129
    omega
  | webAuthn sig =>
    change 65 ≤ 1 + _ + 128
    omega

end PrimitiveSignature

theorem Signature.fromRaw_asBytes (sig : Signature) : fromRaw sig.asBytes = some sig := by
  obtain ⟨r, s, yParity⟩ := sig
  have hbyte : (asBytes ⟨r, s, yParity⟩)[64]? = some (if yParity then 28 else 27) := by
    rw [asBytes, getElem?_append_right (by simp)]
    simp
  have hr : (asBytes ⟨r, s, yParity⟩).take 32 = toBytes r := by
    rw [asBytes, append_assoc]
    exact take_left' (toBytes_length r)
  have hs : ((asBytes ⟨r, s, yParity⟩).drop 32).take 32 = toBytes s := by
    rw [asBytes, append_assoc, drop_left' (toBytes_length r)]
    exact take_left' (toBytes_length s)
  rw [fromRaw, hbyte, hr, hs, fromSlice_toBytes, fromSlice_toBytes]
  cases yParity <;> rfl

namespace PrimitiveSignature

variable {sig : PrimitiveSignature}

/-- Parsing and writing are inverse on the signatures that fit. -/
theorem fromBytes_encodeBytesInto (h : sig.Fits) : fromBytes sig.encodeBytesInto = .ok sig := by
  have hlength := encodeBytesInto_length sig
  cases sig with
  | secp256k1 sig =>
    have hraw := fromRaw_asBytes sig
    change fromBytes sig.asBytes = _
    change sig.asBytes.length = secp256k1SignatureLength at hlength
    cases hbytes : sig.asBytes with
    | nil =>
      rw [hbytes] at hlength
      cases hlength
    | cons typeId sigData =>
      rw [hbytes] at hlength hraw
      simp only [fromBytes, if_pos hlength, hraw]
  | p256 sig =>
    obtain ⟨hr, hs, hx, hy⟩ := words_fourWords sig.r sig.s sig.pubKeyX
      sig.pubKeyY [if sig.preHash then 1 else 0]
    have hlast : (fourWords sig.r sig.s sig.pubKeyX sig.pubKeyY ++
        [if sig.preHash then (1 : UInt8) else 0])[128]?.getD 0 =
          if sig.preHash then 1 else 0 := by
      simp
    rw [encodeBytesInto_p256, fromBytes]
    simp only [length_cons, length_append, fourWords_length,
      length_nil, secp256k1SignatureLength, p256SignatureLength,
      Nat.reduceAdd, Nat.reduceEqDiff, Nat.reduceLT, if_false, if_true, hr, hs, hx, hy, hlast]
    obtain ⟨r, s, pubKeyX, pubKeyY, preHash⟩ := sig
    cases preHash <;> rfl
  | webAuthn sig =>
    obtain ⟨hr, hs, hx, hy⟩ := words_fourWords sig.r sig.s sig.pubKeyX sig.pubKeyY []
    rw [append_nil] at hr hs hx hy
    have hfits : sig.webauthnData.length + 128 ≤ maxWebauthnSignatureLength := h
    have hdata : (sig.webauthnData ++ fourWords sig.r sig.s sig.pubKeyX
        sig.pubKeyY).length = sig.webauthnData.length + 128 := by
      rw [length_append, fourWords_length]
    rw [encodeBytesInto_webAuthn, fromBytes]
    rw [if_neg (by rw [length_cons, hdata, secp256k1SignatureLength]; omega),
      if_neg (by rw [length_cons, hdata]; omega), if_neg (by decide),
      if_pos rfl, if_pos ⟨by omega, by omega⟩]
    simp [hdata, hr, hs, hx, hy]

/-- What is parsed fits. -/
theorem fromBytes_fits {data : Bytes} (h : fromBytes data = .ok sig) : sig.Fits := by
  cases data with
  | nil => cases h
  | cons typeId sigData =>
    simp only [fromBytes] at h
    repeat' split at h
    all_goals cases h
    · trivial
    · trivial
    · change (sigData.splitAt _).1.length + 128 ≤ _
      rw [splitAt_eq, length_take]
      omega

theorem fourWords_injective {a b c d a' b' c' d' : B256} {rest rest' : Bytes}
    (h : fourWords a b c d ++ rest = fourWords a' b' c' d' ++ rest') :
    a = a' ∧ b = b' ∧ c = c' ∧ d = d' ∧ rest = rest' := by
  obtain ⟨ha, hb, hc, hd⟩ := words_fourWords a b c d rest
  obtain ⟨ha', hb', hc', hd'⟩ := words_fourWords a' b' c' d' rest'
  have hrest := (append_inj h (by simp)).2
  rw [h] at ha hb hc hd
  exact ⟨ha.symm.trans ha', hb.symm.trans hb', hc.symm.trans hc', hd.symm.trans hd', hrest⟩

theorem asBytes_injective {sig sig' : Signature} (h : sig.asBytes = sig'.asBytes) : sig = sig' := by
  have hraw := fromRaw_asBytes sig
  rw [h, fromRaw_asBytes sig'] at hraw
  exact (Option.some_inj.mp hraw).symm

theorem p256_injective {sig sig' : P256SignatureWithPreHash}
    (h : encodeBytesInto (.p256 sig) = encodeBytesInto (.p256 sig')) : sig = sig' := by
  rw [encodeBytesInto_p256, encodeBytesInto_p256] at h
  obtain ⟨hr, hs, hx, hy, hlast⟩ := fourWords_injective (cons.inj h).2
  have hpre : sig.preHash = sig'.preHash := by
    cases hp : sig.preHash <;> cases hp' : sig'.preHash <;>
      simp [hp, hp'] at hlast ⊢
  cases sig
  cases sig'
  cases hr; cases hs; cases hx; cases hy; cases hpre
  rfl

theorem webAuthn_injective {sig sig' : WebAuthnSignature}
    (h : encodeBytesInto (.webAuthn sig) = encodeBytesInto (.webAuthn sig')) : sig = sig' := by
  rw [encodeBytesInto_webAuthn, encodeBytesInto_webAuthn] at h
  obtain ⟨hdata, hwords⟩ := append_inj' (cons.inj h).2 (by simp)
  obtain ⟨hr, hs, hx, hy, -⟩ := fourWords_injective (congrArg (· ++ ([] : Bytes)) hwords)
  cases sig
  cases sig'
  cases hr; cases hs; cases hx; cases hy; cases hdata
  rfl

theorem p256_ne_webAuthn (sig : P256SignatureWithPreHash) (sig' : WebAuthnSignature) :
    encodeBytesInto (.p256 sig) ≠ encodeBytesInto (.webAuthn sig') := by
  intro h
  rw [encodeBytesInto_p256, encodeBytesInto_webAuthn] at h
  exact absurd (cons.inj h).1 (by decide)

theorem length_ne_secp256k1 (sig : PrimitiveSignature) (h : ∀ s, sig ≠ .secp256k1 s) :
    sig.encodedLength ≠ secp256k1SignatureLength := by
  cases sig with
  | secp256k1 s => exact absurd rfl (h s)
  | p256 sig =>
    change 1 + 129 ≠ 65
    omega
  | webAuthn sig =>
    change 1 + _ + 128 ≠ 65
    omega

/-- Length and first byte tell the kinds apart. -/
theorem encodeBytesInto_injective {sig' : PrimitiveSignature}
    (h : sig.encodeBytesInto = sig'.encodeBytesInto) : sig = sig' := by
  have hlength : sig.encodedLength = sig'.encodedLength := by
    rw [← encodeBytesInto_length, ← encodeBytesInto_length, h]
  cases sig with
  | secp256k1 sig =>
    cases sig' with
    | secp256k1 sig' => rw [asBytes_injective h]
    | p256 sig' | webAuthn sig' =>
      exact absurd hlength.symm (length_ne_secp256k1 _ nofun)
  | p256 sig =>
    cases sig' with
    | secp256k1 sig' => exact absurd hlength (length_ne_secp256k1 _ nofun)
    | p256 sig' => rw [p256_injective h]
    | webAuthn sig' => exact absurd h (p256_ne_webAuthn sig sig')
  | webAuthn sig =>
    cases sig' with
    | secp256k1 sig' => exact absurd hlength (length_ne_secp256k1 _ nofun)
    | p256 sig' => exact absurd h.symm (p256_ne_webAuthn sig' sig)
    | webAuthn sig' => rw [webAuthn_injective h]

/-- Only a bare secp256k1 signature may start like a keychain signature. -/
theorem head_of_ne_length (h : sig.encodedLength ≠ secp256k1SignatureLength) :
    ∃ typeId sigData, sig.encodeBytesInto = typeId :: sigData ∧
      (typeId = signatureTypeP256 ∨ typeId = signatureTypeWebauthn) := by
  cases sig with
  | secp256k1 sig => exact absurd rfl h
  | p256 sig => exact ⟨_, _, rfl, .inl rfl⟩
  | webAuthn sig => exact ⟨_, _, rfl, .inr rfl⟩

end PrimitiveSignature

namespace TempoSignature

open PrimitiveSignature

def keychainType : KeychainVersion → UInt8
  | .v1 => signatureTypeKeychain
  | .v2 => signatureTypeKeychainV2

theorem encodeBytesInto_keychain (sig : KeychainSignature) :
    encodeBytesInto (.keychain sig) = keychainType sig.version ::
      (sig.userAddress.toBytes ++ sig.signature.encodeBytesInto) := by
  obtain ⟨user, signature, version⟩ := sig
  cases version <;> rfl

theorem encodeBytesInto_length (sig : TempoSignature) :
    sig.encodeBytesInto.length = sig.encodedLength := by
  cases sig with
  | primitive sig => exact PrimitiveSignature.encodeBytesInto_length sig
  | keychain sig =>
    rw [encodeBytesInto_keychain, length_cons, length_append,
      PrimitiveSignature.encodeBytesInto_length, Address.toBytes_length]
    change _ = 1 + 20 + _
    omega

variable {sig : TempoSignature}

theorem fromBytes_encodeBytesInto (h : sig.Fits) : fromBytes sig.encodeBytesInto = .ok sig := by
  cases sig with
  | primitive sig =>
    have hparse : PrimitiveSignature.fromBytes sig.encodeBytesInto =
      .ok sig := PrimitiveSignature.fromBytes_encodeBytesInto h
    have hlength := PrimitiveSignature.encodeBytesInto_length sig
    change fromBytes sig.encodeBytesInto = _
    by_cases hsecp : sig.encodedLength = secp256k1SignatureLength
    · cases hbytes : sig.encodeBytesInto with
      | nil =>
        rw [hbytes, hsecp] at hlength
        cases hlength
      | cons typeId sigData =>
        rw [hbytes] at hparse hlength
        rw [fromBytes, if_neg fun hc => hc.2.1 (hlength.trans hsecp), hparse]
        rfl
    · obtain ⟨typeId, sigData, hbytes, htype⟩ := head_of_ne_length hsecp
      rw [hbytes] at hparse ⊢
      have hnot : ¬(typeId = signatureTypeKeychain ∨ typeId = signatureTypeKeychainV2) := by
        rcases htype with rfl | rfl <;> decide
      rw [fromBytes, if_neg fun hc => hnot hc.2.2, hparse]
      rfl
  | keychain sig =>
    have hparse : PrimitiveSignature.fromBytes sig.signature.encodeBytesInto =
      .ok sig.signature := PrimitiveSignature.fromBytes_encodeBytesInto h
    have hle := le_encodedLength sig.signature
    have hlength : (sig.userAddress.toBytes ++ sig.signature.encodeBytesInto).length =
          20 + sig.signature.encodedLength := by
      rw [length_append, Address.toBytes_length, PrimitiveSignature.encodeBytesInto_length]
    have htype : keychainType sig.version = signatureTypeKeychain ∨
        keychainType sig.version = signatureTypeKeychainV2 := by
      cases sig.version
      · exact .inl rfl
      · exact .inr rfl
    have hversion : (if keychainType sig.version = signatureTypeKeychain
        then KeychainVersion.v1 else .v2) = sig.version := by
      cases sig.version <;> rfl
    rw [secp256k1SignatureLength] at hle
    rw [encodeBytesInto_keychain, fromBytes, if_pos ⟨by
        rw [length_cons, hlength]; omega, by
        rw [length_cons, hlength, secp256k1SignatureLength]; omega,
      htype⟩, if_neg (by rw [hlength]; omega),
      drop_left' (Address.toBytes_length _),
      take_left' (Address.toBytes_length _), hparse,
      Address.fromSlice_toBytes, hversion]
    rfl

theorem fromBytes_fits {data : Bytes} (h : fromBytes data = .ok sig) : sig.Fits := by
  cases data with
  | nil => cases h
  | cons typeId sigData =>
    simp only [fromBytes] at h
    split at h
    · obtain ⟨-, h⟩ := except_ite_eq_ok.mp h
      obtain ⟨signature, hparse, h⟩ := except_bind_eq_ok.mp h
      cases h
      exact fromBytes_fits hparse
    · obtain ⟨signature, hparse, h⟩ := except_bind_eq_ok.mp h
      cases h
      exact fromBytes_fits hparse

theorem keychain_ne_primitive (sig : KeychainSignature) (primitive : PrimitiveSignature) :
    encodeBytesInto (.keychain sig) ≠ primitive.encodeBytesInto := by
  intro heq
  have hle := le_encodedLength sig.signature
  have hlength : 1 + 20 + sig.signature.encodedLength =
      primitive.encodedLength := by
    rw [← PrimitiveSignature.encodeBytesInto_length primitive, ← heq, encodeBytesInto_length]
    rfl
  obtain ⟨typeId, sigData, hbytes, htype⟩ :=
    head_of_ne_length (by omega : primitive.encodedLength ≠ _)
  rw [encodeBytesInto_keychain, hbytes] at heq
  have hfirst := (cons.inj heq).1
  rcases htype with rfl | rfl <;> cases hv : sig.version <;>
    rw [hv] at hfirst <;> exact absurd hfirst (by decide)

theorem keychainType_injective : Function.Injective keychainType := by
  intro version version' h
  cases version <;> cases version' <;>
    first | rfl | exact absurd h (by decide)

theorem keychain_injective {sig sig' : KeychainSignature}
    (h : encodeBytesInto (.keychain sig) = encodeBytesInto (.keychain sig')) : sig = sig' := by
  rw [encodeBytesInto_keychain, encodeBytesInto_keychain] at h
  obtain ⟨htype, hrest⟩ := cons.inj h
  obtain ⟨huser, hinner⟩ := append_inj hrest (by simp)
  have hversion := keychainType_injective htype
  have hsignature := encodeBytesInto_injective hinner
  have huser' := congrArg Address.fromSlice huser
  rw [Address.fromSlice_toBytes, Address.fromSlice_toBytes] at huser'
  cases sig
  cases sig'
  cases hversion; cases hsignature; cases huser'
  rfl

theorem encodeBytesInto_injective {sig' : TempoSignature}
    (h : sig.encodeBytesInto = sig'.encodeBytesInto) : sig = sig' := by
  cases sig with
  | primitive sig =>
    cases sig' with
    | primitive sig' =>
      rw [encodeBytesInto_injective h]
    | keychain sig' => exact absurd h.symm (keychain_ne_primitive sig' sig)
  | keychain sig =>
    cases sig' with
    | primitive sig' => exact absurd h (keychain_ne_primitive sig sig')
    | keychain sig' => rw [keychain_injective h]

end TempoSignature

end Tempo
