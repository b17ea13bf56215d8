/-
What is hashed and signed.  The sender's payload determines the transaction up
to the fee payer's choices, the fee payer's determines the sender as well, and
a payload of one kind is never one of another kind.
-/
import Tempo.Transaction.ConfigurableAccount
import Tempo.Transaction.KeyAuthorizationLaws

namespace Tempo

namespace Tx

open Rlp

/-! Fields with a placeholder. -/

section Option

variable {α : Type} {c : Codec α}

theorem optionLength_eq (h : c.Measured) (o : Option α) :
    TempoTransaction.optionLength c o = (TempoTransaction.encodeOption c o).length := by
  cases o with
  | none => rfl
  | some a => exact h a

/-- A placeholder is not the beginning of a value. -/
theorem encodeOption_field (hwrites : c.Writes) (hmarked : Trail.Marked c)
    (hseparates : c.Separates) {o o' : Option α} {more more' : Bytes}
    (hsize : (TempoTransaction.encodeOption c o ++ more).length < 2 ^ 64)
    (heq : TempoTransaction.encodeOption c o ++ more =
      TempoTransaction.encodeOption c o' ++ more') :
    o = o' ∧ more.length < 2 ^ 64 ∧ more = more' := by
  have hmore := (length_lt_of_append hsize).2
  have hvalue : ∀ (a : α) (front back : Bytes), (c.encode a ++ front).length < 2 ^ 64 →
      c.encode a ++ front ≠ emptyStringCode :: back := by
    intro a front back hfront hsame
    have hfirst := congrArg List.head? hsame
    rw [Trail.head?_append (hwrites a)] at hfirst
    exact hmarked a (length_lt_of_append hfront).1 hfirst
  cases o with
  | none =>
    cases o' with
    | none => exact ⟨rfl, hmore, (List.cons.inj heq).2⟩
    | some a' =>
      rw [heq] at hsize
      exact absurd heq.symm (hvalue a' more' more hsize)
  | some a =>
    cases o' with
    | none => exact absurd heq (hvalue a more more' hsize)
    | some a' =>
      obtain ⟨rfl, -, hrest⟩ := hseparates.field hsize heq
      exact ⟨rfl, hmore, hrest⟩

end Option

namespace TempoTransaction

/-- The fields other than the signature of the fee payer, with the fee token as
it is written. -/
def bare (tx : TempoTransaction) (skipFeeToken : Bool) : TempoTransaction :=
  { tx with
    feeToken := if skipFeeToken then none else tx.feeToken
    feePayerSignature := none }

theorem u128_measured : u128.Measured := Codec.uint_measured 16

variable {encodeSignature : Option Signature → Bytes} {sender sender' : Address}

theorem rlpEncodedFieldsLength_eq (tx : TempoTransaction)
    {signatureLength : Option Signature → Nat} (skipFeeToken : Bool)
    (h : signatureLength tx.feePayerSignature = (encodeSignature tx.feePayerSignature).length) :
    tx.rlpEncodedFieldsLength signatureLength skipFeeToken =
      (tx.rlpEncodeFields encodeSignature skipFeeToken).length := by
  have hkey : tx.keyAuthorization.elim 0 signedKeyAuthorization.length =
      (tx.keyAuthorization.elim [] signedKeyAuthorization.encode).length := by
    cases tx.keyAuthorization with
    | none => rfl
    | some s => exact signedKeyAuthorization_measured s
  simp only [rlpEncodedFieldsLength, rlpEncodeFields, List.length_append, h,
    hkey, u64_measured _, u128_measured _, u256_measured _,
    call_measured.list _, accessListItem_measured.list _,
    optionLength_eq nonZeroU64_measured, optionLength_eq address_measured,
    tempoSignedAuthorization_measured.list _]
  omega

theorem keyAuthorization_tail {o o' : Option SignedKeyAuthorization}
    (hsize : (o.elim [] signedKeyAuthorization.encode).length < 2 ^ 64)
    (heq : o.elim [] signedKeyAuthorization.encode =
      o'.elim [] signedKeyAuthorization.encode) : o = o' := by
  cases o with
  | none =>
    cases o' with
    | none => rfl
    | some s' => exact absurd heq.symm (signedKeyAuthorization_writes s')
  | some s =>
    cases o' with
    | none => exact absurd heq (signedKeyAuthorization_writes s)
    | some s' =>
      rw [signedKeyAuthorization_separates.injective hsize heq]

variable {tx tx' : TempoTransaction}

/-- The fields are determined in turn, whatever stands in the place of the fee
payer's signature, if it is known where that ends. -/
theorem rlpEncodeFields_separates {encodeSignature' : Option Signature → Bytes}
    {skip skip' : Bool} {P : Prop} (hsignature : ∀ more more',
      (encodeSignature tx.feePayerSignature ++ more).length < 2 ^ 64 →
      encodeSignature tx.feePayerSignature ++ more =
        encodeSignature' tx'.feePayerSignature ++ more' → P ∧ more = more')
    (hsize : (tx.rlpEncodeFields encodeSignature skip).length < 2 ^ 64)
    (heq : tx.rlpEncodeFields encodeSignature skip = tx'.rlpEncodeFields encodeSignature' skip') :
    P ∧ tx.bare skip = tx'.bare skip' := by
  obtain ⟨h1, s1, e1⟩ := u64_separates.field hsize heq
  obtain ⟨h2, s2, e2⟩ := u128_separates.field s1 e1
  obtain ⟨h3, s3, e3⟩ := u128_separates.field s2 e2
  obtain ⟨h4, s4, e4⟩ := u64_separates.field s3 e3
  obtain ⟨h5, s5, e5⟩ := (call_separates.list call_measured call_writes).field s4 e4
  obtain ⟨h6, s6, e6⟩ := (accessListItem_separates.list
    accessListItem_measured Codec.record_writes).field s5 e5
  obtain ⟨h7, s7, e7⟩ := u256_separates.field s6 e6
  obtain ⟨h8, s8, e8⟩ := u64_separates.field s7 e7
  obtain ⟨h9, s9, e9⟩ := encodeOption_field nonZeroU64_writes
    nonZeroU64_marked nonZeroU64_separates s8 e8
  obtain ⟨h10, s10, e10⟩ := encodeOption_field nonZeroU64_writes
    nonZeroU64_marked nonZeroU64_separates s9 e9
  obtain ⟨h11, s11, e11⟩ := encodeOption_field address_writes address_marked
    address_separates s10 e10
  obtain ⟨hp, e12⟩ := hsignature _ _ s11 e11
  obtain ⟨h13, s13, e13⟩ := (tempoSignedAuthorization_separates.list
    tempoSignedAuthorization_measured
    tempoSignedAuthorization_writes).field (length_lt_of_append s11).2 e12
  have h14 := keyAuthorization_tail s13 e13
  refine ⟨hp, ?_⟩
  simp [bare, h1, h2, h3, h4, h5, h6, h7, h8, h9, h10, h11, h13, h14]

/-- The byte in the place of the signature tells whether there is one. -/
theorem placeholder_field {p q : Bool} {more more' : Bytes}
    (h : (if p then [0] else [emptyStringCode]) ++ more =
      (if q then [0] else [emptyStringCode]) ++ more') : p = q ∧ more = more' := by
  cases p with
  | true =>
    cases q with
    | true => exact ⟨rfl, (List.cons.inj h).2⟩
    | false => exact absurd (List.cons.inj h).1 (by decide)
  | false =>
    cases q with
    | true => exact absurd (List.cons.inj h).1 (by decide)
    | false => exact ⟨rfl, (List.cons.inj h).2⟩

/-- What the sender commits to: everything but the value of the fee payer's
signature and, if there is one, the fee token. -/
def senderView (tx : TempoTransaction) : TempoTransaction × Bool :=
  (tx.bare tx.feePayerSignature.isSome, tx.feePayerSignature.isSome)

/-- The payload ends where its list ends. -/
theorem encodeForSigning_separates {rest rest' : Bytes}
    (hsize : tx.encodeForSigning.length < 2 ^ 64) (hsize' : tx'.encodeForSigning.length < 2 ^ 64)
    (heq : tx.encodeForSigning ++ rest = tx'.encodeForSigning ++ rest') :
    tx.senderView = tx'.senderView ∧ rest = rest' := by
  have hlength : ∀ o : Option Signature,
      (1 : Nat) = (if o.isSome then [0] else [emptyStringCode] : Bytes).length := by
    intro o
    split <;> rfl
  unfold encodeForSigning at hsize hsize' heq
  have hpayload := (length_lt_of_append (Nat.lt_of_succ_lt hsize)).2
  have hpayload' := (length_lt_of_append (Nat.lt_of_succ_lt hsize')).2
  obtain ⟨hfields, hrest⟩ := Header.separates_list (tx.rlpEncodedFieldsLength_eq _ (hlength _))
    (tx'.rlpEncodedFieldsLength_eq _ (hlength _)) hpayload hpayload' (List.cons.inj heq).2
  obtain ⟨hsome, hbare⟩ := rlpEncodeFields_separates
    (fun _ _ _ hsame => placeholder_field hsame) hpayload hfields
  refine ⟨?_, hrest⟩
  rw [senderView, senderView, hbare, hsome]

/-- The fields with a sender in the place of the signature. -/
def feePayerFields (tx : TempoTransaction) (sender : Address) : Bytes :=
  tx.rlpEncodeFields (fun _ => address.encode sender) false

theorem feePayerFields_length (tx : TempoTransaction) (sender : Address) :
    tx.rlpEncodedFieldsLength (fun _ => address.length sender) false =
      (tx.feePayerFields sender).length :=
  tx.rlpEncodedFieldsLength_eq false (address_measured sender)

theorem feePayerFields_injective (hsize : (tx.feePayerFields sender).length < 2 ^ 64)
    (heq : tx.feePayerFields sender = tx'.feePayerFields sender') :
    sender = sender' ∧ tx.bare false = tx'.bare false := by
  refine rlpEncodeFields_separates ?_ hsize heq
  intro more more' hshort hsame
  obtain ⟨hsender, -, hmore⟩ := address_separates.field hshort hsame
  exact ⟨hsender, hmore⟩

theorem feePayerSignaturePayload_eq (tx : TempoTransaction) (sender : Address) :
    tx.feePayerSignaturePayload sender = feePayerSignatureMagicByte ::
      (Header.encode ⟨true, (tx.feePayerFields sender).length⟩ ++ tx.feePayerFields sender) := by
  rw [← feePayerFields_length]
  rfl

theorem feePayerSignaturePayload_injective
    (hsize : (tx.feePayerSignaturePayload sender).length < 2 ^ 64)
    (heq : tx.feePayerSignaturePayload sender = tx'.feePayerSignaturePayload sender') :
    sender = sender' ∧ tx.bare false = tx'.bare false := by
  have hsize' := hsize
  rw [heq] at hsize'
  rw [feePayerSignaturePayload_eq, feePayerSignaturePayload_eq] at heq
  have hpayload := (length_lt_of_append (Nat.lt_of_succ_lt hsize)).2
  have hpayload' := (length_lt_of_append (Nat.lt_of_succ_lt hsize')).2
  have hlist := congrArg (fun front : Bytes => front ++ []) (List.cons.inj heq).2
  obtain ⟨hfields, -⟩ := Header.separates_list rfl rfl hpayload hpayload' hlist
  exact feePayerFields_injective hpayload hfields

end TempoTransaction

/-! The kinds of payloads. -/

/-- Everything that is hashed to be signed or to identify a transaction. -/
inductive SigningPayload where
  | sender (tx : TempoTransaction)
  | identified (tx : TempoTransaction) (account : Address)
  | feePayer (tx : TempoTransaction) (account : Address)
  | keychain (sigHash : B256) (userAddress : Address)
  | keyAuthorization (authorization : KeyAuthorization)
  | configurableAccount (innerDigest : B256) (account : Address) (configVersion : UInt64)

inductive PayloadKind where
  | sender
  | identified
  | feePayer
  | keychain
  | keyAuthorization
  | configurableAccount
  deriving DecidableEq

namespace SigningPayload

def kind : SigningPayload → PayloadKind
  | sender _ => .sender
  | identified _ _ => .identified
  | feePayer _ _ => .feePayer
  | keychain _ _ => .keychain
  | keyAuthorization _ => .keyAuthorization
  | configurableAccount _ _ _ => .configurableAccount

def bytes : SigningPayload → Bytes
  | sender tx => tx.encodeForSigning
  | identified tx account => tx.uniqueTxIdentifierPayload account
  | feePayer tx account => tx.feePayerSignaturePayload account
  | keychain sigHash userAddress => keychainSigningPayload sigHash userAddress
  | keyAuthorization authorization => Tx.keyAuthorization.encode authorization
  | configurableAccount innerDigest account configVersion =>
    configurableAccountPayload innerDigest account configVersion

theorem domain_head : configurableAccountSignatureDomain.head? = some 0x74 := by
  decide +kernel

/-- How the payloads of a kind start. -/
def Starts : PayloadKind → UInt8 → Prop
  | .sender, b => b = tempoTxTypeId
  | .identified, b => b = tempoTxTypeId
  | .feePayer, b => b = feePayerSignatureMagicByte
  | .keychain, b => b = signatureTypeKeychainV2
  | .keyAuthorization, b => 0xc0 ≤ b.toNat
  | .configurableAccount, b => b = 0x74

theorem keyAuthorization_head {k : KeyAuthorization}
    (hsize : (Tx.keyAuthorization.encode k).length < 2 ^ 64) :
    ∃ b, (Tx.keyAuthorization.encode k).head? = some b ∧ 0xc0 ≤ b.toNat := by
  exact trailingRecord_head keyAuthorizationTrail_lawful (keyAuthorization_fixed k) hsize

theorem bytes_starts {p : SigningPayload} (hsize : p.bytes.length < 2 ^ 64) :
    ∃ b, p.bytes.head? = some b ∧ Starts p.kind b := by
  cases p with
  | sender tx | identified tx account | feePayer tx account
  | keychain sigHash userAddress => exact ⟨_, rfl, rfl⟩
  | keyAuthorization authorization => exact keyAuthorization_head hsize
  | configurableAccount innerDigest account configVersion =>
    refine ⟨0x74, ?_, rfl⟩
    have hdomain := domain_head
    change (configurableAccountSignatureDomain ++ _ ++ _ ++ _).head? = _
    cases hbytes : configurableAccountSignatureDomain with
    | nil =>
      rw [hbytes] at hdomain
      cases hdomain
    | cons b front =>
      rw [hbytes] at hdomain
      exact hdomain

/-- Only the two payloads of the sender start alike. -/
theorem Starts.unique {k k' : PayloadKind} {b : UInt8} (h : Starts k b)
    (h' : Starts k' b) (hne : k ≠ k') :
    (k = .sender ∧ k' = .identified) ∨ (k = .identified ∧ k' = .sender) := by
  cases k <;> cases k' <;>
    first
    | exact absurd rfl hne
    | exact .inl ⟨rfl, rfl⟩
    | exact .inr ⟨rfl, rfl⟩
    | (simp only [Starts] at h h'
       subst h
       exact absurd h' (by decide))
    | (simp only [Starts] at h h'
       subst h'
       exact absurd h (by decide))

/-- The suffix is not empty, and the sender's payload ends where its list
ends. -/
theorem sender_ne_identified {tx tx' : TempoTransaction} {account : Address}
    (hsize : tx.encodeForSigning.length < 2 ^ 64) :
    tx.encodeForSigning ≠ tx'.uniqueTxIdentifierPayload account := by
  intro heq
  have hsize' := hsize
  rw [heq] at hsize'
  have happend : tx.encodeForSigning ++ [] = tx'.encodeForSigning ++ account.toBytes := by
    rw [List.append_nil]
    exact heq
  have hnil := (TempoTransaction.encodeForSigning_separates hsize
    (length_lt_of_append hsize').1 happend).2
  exact Address.toBytes_ne_nil account hnil.symm

theorem kind_eq {p q : SigningPayload} (hsize : p.bytes.length < 2 ^ 64)
    (heq : p.bytes = q.bytes) : p.kind = q.kind := by
  have hsize' := hsize
  rw [heq] at hsize'
  obtain ⟨b, hfirst, hstarts⟩ := bytes_starts hsize
  obtain ⟨b', hfirst', hstarts'⟩ := bytes_starts hsize'
  rw [heq, hfirst'] at hfirst
  cases hfirst
  by_contra hne
  rcases hstarts.unique hstarts' hne with ⟨hp, hq⟩ | ⟨hp, hq⟩
  · cases p <;> cases hp
    cases q <;> cases hq
    exact sender_ne_identified hsize heq
  · cases p <;> cases hp
    cases q <;> cases hq
    exact sender_ne_identified hsize' heq.symm

/-- Payloads determine what they commit to, and no byte string is a payload of
two kinds.  A payload is a buffer, whose length is a machine word. -/
theorem payloads_determine_content :
    (∀ tx tx' : TempoTransaction, tx.encodeForSigning.length < 2 ^ 64 →
      tx.encodeForSigning = tx'.encodeForSigning → tx.senderView = tx'.senderView) ∧
    (∀ (tx tx' : TempoTransaction) (sender sender' : Address),
      (tx.feePayerSignaturePayload sender).length < 2 ^ 64 → tx.feePayerSignaturePayload sender =
        tx'.feePayerSignaturePayload sender' → sender = sender' ∧ tx.bare false = tx'.bare false) ∧
    (∀ (tx tx' : TempoTransaction) (sender sender' : Address),
      (tx.uniqueTxIdentifierPayload sender).length < 2 ^ 64 → tx.uniqueTxIdentifierPayload sender =
        tx'.uniqueTxIdentifierPayload sender' →
      sender = sender' ∧ tx.encodeForSigning = tx'.encodeForSigning ∧
        tx.senderView = tx'.senderView) ∧ (∀ k k' : KeyAuthorization,
      (Tx.keyAuthorization.encode k).length < 2 ^ 64 →
      Tx.keyAuthorization.encode k = Tx.keyAuthorization.encode k' → k = k') ∧
    ∀ p q : SigningPayload, p.bytes.length < 2 ^ 64 → p.bytes = q.bytes → p.kind = q.kind := by
  refine ⟨?_, ?_, ?_, ?_, ?_⟩
  · intro tx tx' hsize heq
    have happend := congrArg (fun front : Bytes => front ++ []) heq
    exact (TempoTransaction.encodeForSigning_separates hsize (heq ▸ hsize) happend).1
  · intro tx tx' sender sender' hsize heq
    exact TempoTransaction.feePayerSignaturePayload_injective hsize heq
  · intro tx tx' sender sender' hsize heq
    obtain ⟨hpayload, hsuffix⟩ := List.append_inj' heq (by simp)
    have hsender := congrArg Address.fromSlice hsuffix
    rw [Address.fromSlice_toBytes, Address.fromSlice_toBytes] at hsender
    have hsmall : tx.encodeForSigning.length < 2 ^ 64 := (length_lt_of_append hsize).1
    have hview := (TempoTransaction.encodeForSigning_separates hsmall (hpayload ▸ hsmall) heq).1
    exact ⟨hsender, hpayload, hview⟩
  · intro k k' hsize heq
    exact keyAuthorization_separates.injective hsize heq
  · intro p q hsize heq
    exact kind_eq hsize heq

/-- A sponsored transfer, whose sender leaves the fee token open. -/
def sponsored (feeToken : Option Address) (sig : Signature) : TempoTransaction where
  chainId := 1
  feeToken
  maxPriorityFeePerGas := 0
  maxFeePerGas := 7
  gasLimit := 21000
  calls := [⟨.call ⟨5⟩, 0, [1, 2]⟩]
  accessList := []
  nonceKey := 0
  nonce := 3
  feePayerSignature := some sig
  validBefore := none
  validAfter := none
  keyAuthorization := none
  tempoAuthorizationList := []

/-- Two fee payers with two fee tokens: the sender signs the same. -/
theorem payloads_determine_sponsored :
    (sponsored none ⟨0, 0, false⟩).senderView = (sponsored (some ⟨9⟩) ⟨1, 2, true⟩).senderView :=
  payloads_determine_content.1 _ _ (by decide +kernel) (by decide +kernel)

end SigningPayload

end Tx

end Tempo
