/-
Laws of the authorization of an access key: its optional fields are told apart
from their placeholders, so that the encoding determines every field, and an
authorization is read back if the signature on it fits the length limit.
-/
import Tempo.Transaction.CodecLaws

namespace Tempo

namespace Tx

open Rlp

/-! The optional fields, from the last to the first. -/

theorem accountTrail_lawful : (Trail.cons address .nil).Lawful :=
  Trail.nil_lawful.cons address_measured address_writes address_separates address_marked

theorem markerTrail_lawful : (Trail.cons nonZeroU64 (.cons address .nil)).Lawful :=
  accountTrail_lawful.cons nonZeroU64_measured nonZeroU64_writes
    nonZeroU64_separates nonZeroU64_marked

theorem witnessTrail_lawful : (Trail.cons b256 (.cons nonZeroU64 (.cons address .nil))).Lawful :=
  markerTrail_lawful.cons b256_measured b256_writes b256_separates b256_marked

theorem scopesTrail_lawful :
    (Trail.cons callScope.list (.cons b256 (.cons nonZeroU64 (.cons address .nil)))).Lawful :=
  witnessTrail_lawful.cons callScope_measured.list Codec.list_writes
    (callScope_separates.list callScope_measured callScope_writes)
    (Trail.list_marked callScope_measured)

theorem limitsTrail_lawful : (Trail.cons tokenLimit.list (.cons callScope.list (.cons b256
      (.cons nonZeroU64 (.cons address .nil))))).Lawful :=
  scopesTrail_lawful.cons tokenLimit_measured.list Codec.list_writes
    (tokenLimit_separates.list tokenLimit_measured tokenLimit_writes)
    (Trail.list_marked tokenLimit_measured)

theorem keyAuthorizationTrail_lawful : keyAuthorizationTrail.Lawful :=
  limitsTrail_lawful.cons nonZeroU64_measured nonZeroU64_writes
    nonZeroU64_separates nonZeroU64_marked

theorem keyAuthorizationTrail_returns (x : KeyAuthorizationTrail) :
    keyAuthorizationTrail.Returns x := by
  obtain ⟨expiry, limits, allowedCalls, witness, marker, account, last⟩ := x
  have haccount : (Trail.cons address .nil).Returns (account, last) :=
    Trail.Returns.cons Trail.nil_lawful address_writes address_marked
      (fun a _ => address_returns a) (Trail.nil_returns last)
  have hmarker := Trail.Returns.cons accountTrail_lawful nonZeroU64_writes
    nonZeroU64_marked (o := marker) (fun m _ => nonZeroU64_returns m) haccount
  have hwitness := Trail.Returns.cons markerTrail_lawful b256_writes
    b256_marked (o := witness) (fun w _ => b256_returns w) hmarker
  have hscopes := Trail.Returns.cons witnessTrail_lawful Codec.list_writes
    (Trail.list_marked callScope_measured) (o := allowedCalls)
    (fun l _ => Codec.Returns.list callScope_measured callScope_writes
      fun s _ => callScope_returns s) hwitness
  have hlimits := Trail.Returns.cons scopesTrail_lawful Codec.list_writes
    (Trail.list_marked tokenLimit_measured) (o := limits)
    (fun l _ => Codec.Returns.list tokenLimit_measured tokenLimit_writes
      fun s _ => tokenLimit_returns s) hscopes
  exact Trail.Returns.cons limitsTrail_lawful nonZeroU64_writes
    nonZeroU64_marked (fun e _ => nonZeroU64_returns e) hlimits

/-! The authorization. -/

theorem keyAuthorization_fixed (k : KeyAuthorization) :
    u64.length k.chainId + signatureType.length k.keyType + address.length k.keyId =
      (u64.encode k.chainId ++ (signatureType.encode k.keyType ++
        address.encode k.keyId)).length := by
  rw [List.length_append, List.length_append, u64_measured,
    signatureType_measured, address_measured, add_assoc]

theorem keyAuthorization_measured : keyAuthorization.Measured :=
  trailingRecord_measured keyAuthorizationTrail_lawful keyAuthorization_fixed

theorem adminMarker_isSome (isAdmin : Bool) : (adminMarker isAdmin).isSome = isAdmin := by
  cases isAdmin <;> rfl

theorem adminMarker_accepted (isAdmin : Bool) :
    ((adminMarker isAdmin).any fun m => decide (m.val ≠ 1)) = false := by
  cases isAdmin <;> rfl

theorem keyAuthorization_returns (k : KeyAuthorization) : keyAuthorization.Returns k := by
  have hfixed : (u64.encode k.chainId ++ (signatureType.encode k.keyType ++
      address.encode k.keyId)).length < 2 ^ 64 → ∀ rest, Reads (do
        let chainId ← u64.decode
        let keyType ← signatureType.decode
        let keyId ← address.decode
        pure (chainId, keyType, keyId)) ((u64.encode k.chainId ++
          (signatureType.encode k.keyType ++ address.encode k.keyId)) ++ rest)
        (k.chainId, k.keyType, k.keyId) rest := by
    intro hsize rest
    refine (u64_returns k.chainId).field hsize fun hsize1 => ?_
    refine (signatureType_returns k.keyType).field hsize1 fun hsize2 => ?_
    exact (address_returns k.keyId hsize2 rest).bind (reads_pure.mpr ⟨rfl, rfl⟩)
  refine trailingRecord_returns keyAuthorizationTrail_lawful
    (keyAuthorization_fixed k) hfixed (keyAuthorizationTrail_returns k.trail) ?_
  simp only [KeyAuthorization.trail, adminMarker_accepted, adminMarker_isSome,
    Bool.false_eq_true, if_false]

theorem keyAuthorization_separates : keyAuthorization.Separates :=
  Codec.separates_of_returns keyAuthorization_returns

theorem signedKeyAuthorization_fields (s : SignedKeyAuthorization) :
    keyAuthorization.length s.authorization + primitiveSignature.length s.signature =
      (keyAuthorization.encode s.authorization ++
        primitiveSignature.encode s.signature).length := by
  rw [List.length_append, keyAuthorization_measured, primitiveSignature_measured]

theorem signedKeyAuthorization_measured : signedKeyAuthorization.Measured :=
  Codec.record_measured signedKeyAuthorization_fields

theorem signedKeyAuthorization_writes : signedKeyAuthorization.Writes := Codec.record_writes

theorem signedKeyAuthorization_returns {s : SignedKeyAuthorization}
    (h : s.signature.Fits) : signedKeyAuthorization.Returns s := by
  have hsig := primitiveSignature_returns h
  refine Codec.record_returns (signedKeyAuthorization_fields s) fun hsize rest => ?_
  refine (keyAuthorization_returns s.authorization).field hsize fun hsize1 => ?_
  exact (hsig hsize1 rest).bind (reads_pure.mpr ⟨rfl, rfl⟩)

/-- The signature need not fit for the bytes to determine it. -/
theorem signedKeyAuthorization_separates : signedKeyAuthorization.Separates := by
  refine Codec.record_separates signedKeyAuthorization_fields ?_
  intro a b hsize heq
  obtain ⟨hauthorization, hsize1, heq1⟩ := keyAuthorization_separates.field hsize heq
  exact SignedKeyAuthorization.ext hauthorization
    (primitiveSignature_separates.injective hsize1 heq1)

end Tx

end Tempo
