/-
Laws of the codecs of a transaction's parts: announced lengths are right, what
is written determines the value, and a value is read back if the signatures in
it fit the length limit.
-/
import Tempo.Transaction.SignatureBytes
import Tempo.Transaction.Transaction

namespace Tempo

open PrimitiveSignature List

namespace Tx

open Rlp

/-! Words. -/

theorem u64_returns (x : BitVec 64) : u64.Returns x := @Codec.uint_returns 8 (by decide) x

theorem u128_returns (x : BitVec 128) : u128.Returns x := @Codec.uint_returns 16 (by decide) x

theorem u256_returns (x : BitVec 256) : u256.Returns x := @Codec.uint_returns 32 (by decide) x

theorem address_returns (a : Address) : address.Returns a :=
  Codec.fixed_returns (by simp) (by simp) a

theorem b256_returns (x : B256) : b256.Returns x := Codec.fixed_returns (by simp) (by simp) x

theorem selector_returns (s : Selector) : selector.Returns s := by
  have hback : ∀ s : Selector, BitVec.ofNat 32 (ofBeBytes (beBytes 4 s.toNat)) = s := by
    intro s
    have hlt : s.toNat < 256 ^ 4 := Nat.lt_of_lt_of_eq s.isLt (by norm_num)
    rw [ofBeBytes_beBytes hlt, BitVec.ofNat_toNat, BitVec.setWidth_eq]
  exact @Codec.fixed_returns Selector 4 (fun s => beBytes 4 s.toNat)
    (fun s => BitVec.ofNat 32 (ofBeBytes s)) (fun s => beBytes_length 4 s.toNat) hback s

theorem nonZeroU64_returns (x : NonZeroU64) : nonZeroU64.Returns x :=
  Codec.Returns.via (u64_returns x.val) (dif_pos x.property)

theorem bool_returns (b : Bool) : bool.Returns b := by
  refine Codec.Returns.via (@Codec.uint_returns 1 (by decide) _) ?_
  cases b <;> rfl

theorem nonZeroU64_marked : Trail.Marked nonZeroU64 := by
  intro x _
  have hne : x.val.toNat ≠ 0 := fun hzero =>
    x.property (BitVec.eq_of_toNat_eq hzero)
  have hlt : x.val.toNat < 256 ^ 8 := Nat.lt_of_lt_of_eq x.val.isLt (by norm_num)
  have hlength : (minBytes x.val.toNat).length ≤ 8 := minBytes_length_le hlt
  change (encodeUint x.val.toNat).head? ≠ _
  rw [encodeUint_eq (by omega)]
  exact Trail.encodeBytes_marked (fun hnil => hne (minBytes_eq_nil.mp hnil)) (by omega)

/-! Signatures. -/

section Signature

variable {α : Type} {encodeBytesInto : α → Bytes} {encodedLength : α → Nat}
  {fromBytes : Bytes → Except String α}

theorem signature_measured (h : ∀ sig, (encodeBytesInto sig).length = encodedLength sig) :
    (signature encodeBytesInto encodedLength fromBytes).Measured := by
  intro sig
  change lengthOfLength _ + _ = (_ ++ _ : Bytes).length
  rw [length_append, Header.encode_length, h]

theorem isSingle_of_length {bytes : Bytes} (h : 2 ≤ bytes.length) : isSingle bytes = false := by
  match bytes, h with
  | _ :: _ :: _, _ => rfl

theorem signature_returns {sig : α} (hlength : (encodeBytesInto sig).length = encodedLength sig)
    (hlong : 2 ≤ encodedLength sig) (hparse : fromBytes (encodeBytesInto sig) = .ok sig) :
    (signature encodeBytesInto encodedLength fromBytes).Returns sig := by
  intro hsize rest
  have hpayload := (length_lt_of_append hsize).2
  change Reads _ ((Header.encode ⟨false, encodedLength sig⟩ ++ _) ++ rest) _ _
  rw [append_assoc, ← hlength]
  rw [← hlength] at hlong
  refine (decodeBytes_header hpayload (fun _ => isSingle_of_length hlong) rest).bind ?_
  rw [hparse]
  exact reads_pure.mpr ⟨rfl, rfl⟩

theorem signature_separates (hlength : ∀ sig, (encodeBytesInto sig).length = encodedLength sig)
    (hlong : ∀ sig, 2 ≤ encodedLength sig)
    (hinjective : ∀ {sig sig'}, encodeBytesInto sig = encodeBytesInto sig' → sig = sig') :
    (signature encodeBytesInto encodedLength fromBytes).Separates := by
  intro a b rest rest' ha hb heq
  have hpayload := (length_lt_of_append ha).2
  have hpayload' := (length_lt_of_append hb).2
  change (Header.encode ⟨false, encodedLength a⟩ ++ _) ++ _ =
    (Header.encode ⟨false, encodedLength b⟩ ++ _) ++ _ at heq
  rw [append_assoc, append_assoc] at heq
  have hnot : ∀ sig, (⟨false, encodedLength sig⟩ : Header) ≠ ⟨false, 1⟩ := by
    intro sig hone
    have hle := hlong sig
    have heq' := (Header.mk.inj hone).2
    omega
  obtain ⟨-, hsame, hrest⟩ := Header.separates (hlength a).symm
    (hlength b).symm hpayload hpayload' (fun hone => absurd hone (hnot a))
    (fun hone => absurd hone (hnot b)) heq
  exact ⟨hinjective hsame, hrest⟩

/-- What is read was parsed. -/
theorem signature_reads {bytes rest : Bytes} {sig : α}
    (h : Reads (signature encodeBytesInto encodedLength fromBytes).decode
      bytes sig rest) : ∃ data, fromBytes data = .ok sig := by
  obtain ⟨data, b1, -, h1⟩ := reads_bind.mp h
  cases hparse : fromBytes data with
  | error msg =>
    rw [hparse] at h1
    cases h1
  | ok sig' =>
    rw [hparse] at h1
    obtain ⟨rfl, -⟩ := reads_pure.mp h1
    exact ⟨data, hparse⟩

end Signature

theorem two_le_primitive (sig : PrimitiveSignature) : 2 ≤ sig.encodedLength :=
  le_trans (by decide) (le_encodedLength sig)

theorem two_le_tempo (sig : TempoSignature) : 2 ≤ sig.encodedLength := by
  cases sig with
  | primitive sig => exact two_le_primitive sig
  | keychain sig =>
    change 2 ≤ 1 + 20 + _
    omega

theorem primitiveSignature_measured : primitiveSignature.Measured :=
  signature_measured encodeBytesInto_length

theorem tempoSignature_measured : tempoSignature.Measured :=
  signature_measured TempoSignature.encodeBytesInto_length

theorem primitiveSignature_returns {sig : PrimitiveSignature} (h : sig.Fits) :
    primitiveSignature.Returns sig := signature_returns (encodeBytesInto_length sig)
    (two_le_primitive sig) (fromBytes_encodeBytesInto h)

theorem tempoSignature_returns {sig : TempoSignature} (h : sig.Fits) :
    tempoSignature.Returns sig := signature_returns (TempoSignature.encodeBytesInto_length sig)
    (two_le_tempo sig) (TempoSignature.fromBytes_encodeBytesInto h)

theorem primitiveSignature_separates : primitiveSignature.Separates :=
  signature_separates encodeBytesInto_length two_le_primitive encodeBytesInto_injective

theorem tempoSignature_separates : tempoSignature.Separates :=
  signature_separates TempoSignature.encodeBytesInto_length two_le_tempo
    TempoSignature.encodeBytesInto_injective

/-! Call targets. -/

theorem Address.toBytes_ne_nil (a : Address) : a.toBytes ≠ [] :=
  ne_nil_of_length_pos (by rw [Address.toBytes_length]; omega)

theorem B256.toBytes_ne_nil (x : B256) : B256.toBytes x ≠ [] :=
  ne_nil_of_length_pos (by rw [B256.toBytes_length]; omega)

theorem address_marked : Trail.Marked address :=
  @Trail.fixed_marked _ 20 Address.toBytes Address.fromSlice Address.toBytes_ne_nil

theorem b256_marked : Trail.Marked b256 :=
  @Trail.fixed_marked _ 32 B256.toBytes B256.fromSlice B256.toBytes_ne_nil

theorem address_measured : address.Measured :=
  @Codec.fixed_measured _ 20 Address.toBytes Address.fromSlice

theorem address_writes : address.Writes :=
  @Codec.fixed_writes _ 20 Address.toBytes Address.fromSlice

theorem b256_measured : b256.Measured := @Codec.fixed_measured _ 32 B256.toBytes B256.fromSlice

theorem b256_writes : b256.Writes := @Codec.fixed_writes _ 32 B256.toBytes B256.fromSlice

@[simp] theorem txKind_encode_call (target : Address) :
    txKind.encode (.call target) = address.encode target := by
  rw [txKind]

@[simp] theorem txKind_length_call (target : Address) :
    txKind.length (.call target) = address.length target := by
  rw [txKind]

theorem txKind_measured : txKind.Measured := by
  intro kind
  cases kind with
  | create => rfl
  | call target =>
    rw [txKind_length_call, txKind_encode_call, address_measured]

/-- The first byte of what is written is seen first. -/
theorem reads_peek {front : Bytes} (h : front ≠ []) (rest : Bytes) :
    ∃ b, front.head? = some b ∧ Reads peek (front ++ rest) (some b) (front ++ rest) := by
  cases front with
  | nil => exact absurd rfl h
  | cons b front => exact ⟨b, rfl, rfl⟩

theorem txKind_returns (kind : TxKind) : txKind.Returns kind := by
  intro hsize rest
  cases kind with
  | create => rfl
  | call target =>
    rw [txKind_encode_call] at hsize ⊢
    have hread := address_returns target hsize rest
    obtain ⟨b, hfirst, hpeek⟩ := reads_peek (address_writes target) rest
    have hne : b ≠ emptyStringCode := by
      rintro rfl
      exact address_marked target hsize hfirst
    refine hpeek.bind ?_
    dsimp only
    rw [if_neg hne]
    exact hread.bind (reads_pure.mpr ⟨rfl, rfl⟩)

/-! The rest of the laws of the words. -/

theorem u64_measured : u64.Measured := Codec.uint_measured 8
theorem u64_writes : u64.Writes := Codec.uint_writes 8
theorem u256_measured : u256.Measured := Codec.uint_measured 32

theorem u64_separates : u64.Separates := Codec.separates_of_returns u64_returns

theorem u128_separates : u128.Separates := Codec.separates_of_returns u128_returns

theorem u256_separates : u256.Separates := Codec.separates_of_returns u256_returns

theorem address_separates : address.Separates := Codec.separates_of_returns address_returns

theorem b256_separates : b256.Separates := Codec.separates_of_returns b256_returns

theorem nonZeroU64_separates : nonZeroU64.Separates := Codec.separates_of_returns nonZeroU64_returns

/-! Calls and access lists. -/

theorem call_fields (c : Call) : txKind.length c.to' + u256.length c.value + bytesLength c.input =
      (txKind.encode c.to' ++ (u256.encode c.value ++ encodeBytes c.input)).length := by
  rw [length_append, length_append, txKind_measured, u256_measured, encodeBytes_length, add_assoc]

theorem call_measured : call.Measured := Codec.record_measured call_fields

theorem call_writes : call.Writes := Codec.record_writes

theorem call_returns (c : Call) : call.Returns c := by
  refine Codec.record_returns (call_fields c) fun hsize rest => ?_
  refine (Reads.ensure (by simp)).bind ?_
  refine (txKind_returns c.to').field hsize fun hsize1 => ?_
  refine (u256_returns c.value).field hsize1 fun hsize2 => ?_
  exact (Codec.bytes_returns c.input hsize2 rest).bind (reads_pure.mpr ⟨rfl, rfl⟩)

theorem accessListItem_fields (i : AccessListItem) :
    address.length i.address + b256.list.length i.storageKeys =
      (address.encode i.address ++ b256.list.encode i.storageKeys).length := by
  rw [length_append, address_measured, b256_measured.list]

theorem accessListItem_measured : accessListItem.Measured :=
  Codec.record_measured accessListItem_fields

theorem accessListItem_returns (i : AccessListItem) : accessListItem.Returns i := by
  refine Codec.record_returns (accessListItem_fields i) fun hsize rest => ?_
  refine (address_returns i.address).field hsize fun hsize1 => ?_
  exact (Codec.Returns.list b256_measured b256_writes
    (fun x _ => b256_returns x) hsize1 rest).bind (reads_pure.mpr ⟨rfl, rfl⟩)

theorem call_separates : call.Separates := Codec.separates_of_returns call_returns

theorem accessListItem_separates : accessListItem.Separates :=
  Codec.separates_of_returns accessListItem_returns

/-! Authorizations of delegates. -/

theorem tempoSignedAuthorization_fields (a : TempoSignedAuthorization) :
    u256.length a.inner.chainId + address.length a.inner.address +
        u64.length a.inner.nonce + tempoSignature.length a.signature =
      (u256.encode a.inner.chainId ++ (address.encode a.inner.address ++
        (u64.encode a.inner.nonce ++ tempoSignature.encode a.signature))).length := by
  rw [length_append, length_append, length_append,
    u256_measured, address_measured, u64_measured, tempoSignature_measured, add_assoc, add_assoc]

theorem tempoSignedAuthorization_measured :
    tempoSignedAuthorization.Measured := Codec.record_measured tempoSignedAuthorization_fields

theorem tempoSignedAuthorization_writes : tempoSignedAuthorization.Writes := Codec.record_writes

theorem tempoSignedAuthorization_returns {a : TempoSignedAuthorization}
    (h : a.signature.Fits) : tempoSignedAuthorization.Returns a := by
  have hsig := tempoSignature_returns h
  refine Codec.record_returns (tempoSignedAuthorization_fields a) fun hsize rest => ?_
  refine (u256_returns a.inner.chainId).field hsize fun hsize1 => ?_
  refine (address_returns a.inner.address).field hsize1 fun hsize2 => ?_
  refine (u64_returns a.inner.nonce).field hsize2 fun hsize3 => ?_
  exact (hsig hsize3 rest).bind (reads_pure.mpr ⟨rfl, rfl⟩)

/-- The signature need not fit for the bytes to determine it. -/
theorem tempoSignedAuthorization_separates : tempoSignedAuthorization.Separates := by
  refine Codec.record_separates tempoSignedAuthorization_fields ?_
  intro a b hsize heq
  obtain ⟨hchain, hsize1, heq1⟩ := u256_separates.field hsize heq
  obtain ⟨haddress, hsize2, heq2⟩ := address_separates.field hsize1 heq1
  obtain ⟨hnonce, hsize3, heq3⟩ := u64_separates.field hsize2 heq2
  have hsignature := tempoSignature_separates.injective hsize3 heq3
  have hinner : a.inner = b.inner := Authorization.ext hchain haddress hnonce
  exact TempoSignedAuthorization.ext hinner hsignature

/-! Records with trailing optional fields. -/

section TrailingRecord

variable {α β γ : Type} {fixedLength : α → Nat} {encodeFixed : α → Bytes}
  {decodeFixed : Reader β} {t : Trail γ} {trail : α → γ}
  {build : β → γ → Except Error α} {a : α}

theorem trailing_fields (ht : t.Lawful) (h : fixedLength a = (encodeFixed a).length) :
    fixedLength a + t.length (trail a) = (encodeFixed a ++ t.encode (trail a)).length := by
  rw [length_append, h, ht.measured]

theorem trailingRecord_measured (ht : t.Lawful) (h : ∀ a, fixedLength a = (encodeFixed a).length) :
    (trailingRecord fixedLength encodeFixed decodeFixed t trail build).Measured :=
  Codec.record_measured fun a => trailing_fields ht (h a)

theorem trailingRecord_writes :
    (trailingRecord fixedLength encodeFixed decodeFixed t trail build).Writes := by
  exact Codec.record_writes

theorem trailingRecord_head (ht : t.Lawful) (h : fixedLength a = (encodeFixed a).length)
    (hsize : ((trailingRecord fixedLength encodeFixed decodeFixed t trail
      build).encode a).length < 2 ^ 64) :
    ∃ first, ((trailingRecord fixedLength encodeFixed decodeFixed t trail
      build).encode a).head? = some first ∧ 0xc0 ≤ first.toNat := by
  exact Trail.record_head (trailing_fields ht h) hsize

theorem trailingRecord_returns (ht : t.Lawful) {fixed : β}
    (h : fixedLength a = (encodeFixed a).length) (hfixed : (encodeFixed a).length < 2 ^ 64 → ∀ rest,
      Reads decodeFixed (encodeFixed a ++ rest) fixed rest)
    (htrail : t.Returns (trail a)) (hbuild : build fixed (trail a) = .ok a) :
    (trailingRecord fixedLength encodeFixed decodeFixed t trail build).Returns a := by
  refine Codec.record_returns (trailing_fields ht h) fun hsize rest => ?_
  obtain ⟨hsize1, hsize2⟩ := length_lt_of_append hsize
  rw [append_assoc]
  refine (hfixed hsize1 _).bind ?_
  have hmore := htrail hsize2 rest (encodeFixed a ++ (t.encode (trail a) ++ rest)).length
    (encodeFixed a ++ t.encode (trail a)).length (by simp only [length_append]; omega)
    (by simp only [length_append]; omega)
  refine hmore.bind ((Reads.ensure ?_).bind ?_)
  · -- the last field seen is a value
    cases t.isSome (trail a) <;> simp
  · rw [hbuild]
    exact reads_pure.mpr ⟨rfl, rfl⟩

end TrailingRecord

/-! Limits. -/

theorem nonZeroU64_measured : nonZeroU64.Measured := Codec.Measured.via u64_measured

theorem nonZeroU64_writes : nonZeroU64.Writes := Codec.Writes.via u64_writes

theorem periodTrail_lawful : (Trail.cons nonZeroU64 .nil).Lawful :=
  Trail.nil_lawful.cons nonZeroU64_measured nonZeroU64_writes nonZeroU64_separates nonZeroU64_marked

theorem nonZero?_get (x : BitVec 64) : ((nonZero? x).map Subtype.val).getD 0 = x := by
  unfold nonZero?
  split
  · rfl
  · rename_i hzero
    exact (not_not.mp hzero).symm

theorem tokenLimit_fixed (l : TokenLimit) : address.length l.token + u256.length l.limit =
      (address.encode l.token ++ u256.encode l.limit).length := by
  rw [length_append, address_measured, u256_measured]

theorem tokenLimit_measured : tokenLimit.Measured :=
  trailingRecord_measured periodTrail_lawful tokenLimit_fixed

theorem tokenLimit_writes : tokenLimit.Writes := trailingRecord_writes

theorem tokenLimit_returns (l : TokenLimit) : tokenLimit.Returns l := by
  have htrail : (Trail.cons nonZeroU64 .nil).Returns (nonZero? l.period, ()) :=
    Trail.Returns.cons Trail.nil_lawful nonZeroU64_writes nonZeroU64_marked
      (fun x _ => nonZeroU64_returns x) (Trail.nil_returns ())
  have hfixed : (address.encode l.token ++ u256.encode l.limit).length < 2 ^ 64 → ∀ rest, Reads (do
        let token ← address.decode
        let limit ← u256.decode
        pure (token, limit)) ((address.encode l.token ++
          u256.encode l.limit) ++ rest) (l.token, l.limit) rest := by
    intro hsize rest
    refine (address_returns l.token).field hsize fun hsize1 => ?_
    exact (u256_returns l.limit hsize1 rest).bind (reads_pure.mpr ⟨rfl, rfl⟩)
  refine trailingRecord_returns periodTrail_lawful (tokenLimit_fixed l) hfixed htrail ?_
  rw [nonZero?_get]

theorem tokenLimit_separates : tokenLimit.Separates := Codec.separates_of_returns tokenLimit_returns

/-! Call scopes. -/

theorem selector_measured : selector.Measured :=
  @Codec.fixed_measured _ 4 (fun s : Selector => beBytes 4 s.toNat)
    (fun s => BitVec.ofNat 32 (ofBeBytes s))

theorem selectorRule_fields (r : SelectorRule) :
    selector.length r.selector + address.list.length r.recipients = (selector.encode r.selector ++
        address.list.encode r.recipients).length := by
  rw [length_append, selector_measured, address_measured.list]

theorem selectorRule_measured : selectorRule.Measured := Codec.record_measured selectorRule_fields

theorem selectorRule_writes : selectorRule.Writes := Codec.record_writes

theorem selectorRule_returns (r : SelectorRule) : selectorRule.Returns r := by
  refine Codec.record_returns (selectorRule_fields r) fun hsize rest => ?_
  refine (selector_returns r.selector).field hsize fun hsize1 => ?_
  exact (Codec.Returns.list address_measured address_writes
    (fun a _ => address_returns a) hsize1 rest).bind (reads_pure.mpr ⟨rfl, rfl⟩)

theorem callScope_fields (s : CallScope) :
    address.length s.target + selectorRule.list.length s.selectorRules = (address.encode s.target ++
        selectorRule.list.encode s.selectorRules).length := by
  rw [length_append, address_measured, selectorRule_measured.list]

theorem callScope_measured : callScope.Measured := Codec.record_measured callScope_fields

theorem callScope_writes : callScope.Writes := Codec.record_writes

theorem callScope_returns (s : CallScope) : callScope.Returns s := by
  refine Codec.record_returns (callScope_fields s) fun hsize rest => ?_
  refine (address_returns s.target).field hsize fun hsize1 => ?_
  exact (Codec.Returns.list selectorRule_measured selectorRule_writes
    (fun r _ => selectorRule_returns r) hsize1 rest).bind (reads_pure.mpr ⟨rfl, rfl⟩)

theorem callScope_separates : callScope.Separates := Codec.separates_of_returns callScope_returns

/-! Authorizations of access keys. -/

theorem signatureType_measured : signatureType.Measured := by
  intro kind
  cases kind <;> decide

theorem signatureType_returns (kind : SignatureType) : signatureType.Returns kind := by
  intro hsize rest
  have hbyte := @Codec.uint_returns 1 (by decide) kind.toU8 hsize rest
  refine hbyte.bind ?_
  cases kind <;> rfl

end Tx

end Tempo
