/-
What a zone and its portal on Tempo exchange: withdrawals, deposits, enabled
tokens and the transitions of a settled batch, with the hashes that commit to
them.  The hash is a parameter; `CollisionFree` says which of its uses have no
collisions.
-/
import Tempo.Library.Bytes
import Tempo.Library.HashChain
import Tempo.Primitives.Address

namespace Tempo.Zones

open Function

def zoneInboxAddress : Address :=
  ⟨0x1c00000000000000000000000000000000000001#160⟩

/-- A withdrawal as the portal takes it from the queue. -/
structure Withdrawal where
  token : Address
  senderTag : B256
  to' : Address
  amount : Nat
  memo : B256
  gasLimit : Nat
  fallbackNonce : BitVec 64
  callbackData : Bytes
  encryptedSender : Bytes
  deriving DecidableEq, Repr

structure WithdrawalBounceBackDeposit where
  token : Address
  to' : Address
  amount : Nat
  deriving DecidableEq, Repr

/-- The recipient and memo of a deposit, encrypted to the sequencer. -/
structure DepositPayload where
  ephemeralPubkeyX : B256
  ephemeralPubkeyYParity : Nat
  ciphertext : Bytes
  nonce : BitVec 96
  tag : BitVec 128
  deriving DecidableEq, Repr

structure Deposit where
  token : Address
  sender : Address
  amount : Nat
  tempoRefundRecipient : Address
  keyIndex : Nat
  encrypted : DepositPayload
  deriving DecidableEq, Repr

/-- An entry of the deposit queue, under the discriminator it is hashed
with. -/
inductive QueuedDeposit where
  | withdrawalBounceBack (deposit : WithdrawalBounceBackDeposit)
  | deposit (deposit : Deposit)
  deriving DecidableEq, Repr

/-- A token with the metadata copied into the zone. -/
structure EnabledToken where
  token : Address
  name : String
  symbol : String
  currency : String
  deriving DecidableEq, Repr

structure BlockTransition where
  prevBlockHash : B256
  nextBlockHash : B256
  deriving DecidableEq, Repr

structure DepositQueueTransition (H : Type) where
  prevProcessedHash : H
  nextProcessedHash : H
  prevDepositNumber : Nat
  nextDepositNumber : Nat
  deriving DecidableEq, Repr

structure TokenEnablementTransition where
  prevProcessedTokenCount : Nat
  nextProcessedTokenCount : Nat
  deriving DecidableEq, Repr

/-- The fields of the settlement attestation, as they are hashed. -/
structure SettlementAttestation (H : Type) where
  zoneId : Nat
  sequencerSetVersion : Nat
  zoneHeight : Nat
  withdrawalBatchIndex : Nat
  verifier : Address
  tempoBlockNumber : Nat
  anchorBlockNumber : Nat
  anchorBlockHash : B256
  blockTransitionHash : H
  depositQueueTransitionHash : H
  tokenEnablementTransitionHash : H
  withdrawalQueueHash : H
  verifierConfigHash : H
  deriving DecidableEq, Repr

/-- The uses of `keccak256` by the zone contracts, one function for each kind
of preimage. -/
structure Keccak (H : Type) where
  withdrawal : Withdrawal → H → H
  queuedDeposit : QueuedDeposit → H → H
  tokenEnablement : EnabledToken → H → H
  blockTransition : BlockTransition → H
  depositQueueTransition : DepositQueueTransition H → H
  tokenEnablementTransition : TokenEnablementTransition → H
  verifierConfig : Bytes → H
  domainSeparator : Nat → Address → H
  settlementAttestation : SettlementAttestation H → H
  typedData : H → H → H
  proofOfPossession : Address → B256 → Nat → H

variable {H : Type} [Zero H]

/-- No two preimages of one kind have the same hash, and no link of a chain
hashes to the value that stands for the empty chain. -/
structure Keccak.CollisionFree (k : Keccak H) : Prop where
  withdrawal : HashChain.CollisionFree k.withdrawal
  queuedDeposit : HashChain.CollisionFree k.queuedDeposit
  tokenEnablement : HashChain.CollisionFree k.tokenEnablement
  blockTransition : Injective k.blockTransition
  depositQueueTransition : Injective k.depositQueueTransition
  tokenEnablementTransition : Injective k.tokenEnablementTransition
  verifierConfig : Injective k.verifierConfig
  domainSeparator : Injective2 k.domainSeparator
  settlementAttestation : Injective k.settlementAttestation
  typedData : Injective2 k.typedData

/-- Commit to a list of withdrawals, hashing from the last to the first. -/
def queueHash (k : Keccak H) (withdrawals : List Withdrawal) : H :=
  withdrawals.reverse.foldl (fun hash w => k.withdrawal w hash) 0

theorem queueHash_eq_wrap (k : Keccak H) (ws : List Withdrawal) :
    queueHash k ws = HashChain.wrap k.withdrawal 0 ws := List.foldl_reverse

/-! Hashes as terms: a hash without collisions to evaluate the model with. -/

/-- A hash that is its own preimage. -/
inductive Term where
  | zero
  | withdrawal (w : Withdrawal) (tail : Term)
  | queuedDeposit (d : QueuedDeposit) (prev : Term)
  | tokenEnablement (t : EnabledToken) (prev : Term)
  | blockTransition (t : BlockTransition)
  | depositQueueTransition (prevProcessedHash nextProcessedHash : Term)
      (prevDepositNumber nextDepositNumber : Nat)
  | tokenEnablementTransition (t : TokenEnablementTransition)
  | verifierConfig (config : Bytes)
  | domainSeparator (chainId : Nat) (portal : Address)
  | settlementAttestation (zoneId sequencerSetVersion zoneHeight
      withdrawalBatchIndex : Nat) (verifier : Address)
      (tempoBlockNumber anchorBlockNumber : Nat) (anchorBlockHash : B256)
      (blockTransitionHash depositQueueTransitionHash
        tokenEnablementTransitionHash withdrawalQueueHash verifierConfigHash : Term)
  | typedData (domain struct : Term)
  | proofOfPossession (portal : Address) (x : B256) (yParity : Nat)
  deriving DecidableEq, Repr

instance : Zero Term := ⟨.zero⟩

def termKeccak : Keccak Term where
  withdrawal := .withdrawal
  queuedDeposit := .queuedDeposit
  tokenEnablement := .tokenEnablement
  blockTransition := .blockTransition
  depositQueueTransition t := .depositQueueTransition t.prevProcessedHash t.nextProcessedHash
      t.prevDepositNumber t.nextDepositNumber
  tokenEnablementTransition := .tokenEnablementTransition
  verifierConfig := .verifierConfig
  domainSeparator := .domainSeparator
  settlementAttestation a := .settlementAttestation a.zoneId a.sequencerSetVersion a.zoneHeight
      a.withdrawalBatchIndex a.verifier a.tempoBlockNumber
      a.anchorBlockNumber a.anchorBlockHash a.blockTransitionHash
      a.depositQueueTransitionHash a.tokenEnablementTransitionHash
      a.withdrawalQueueHash a.verifierConfigHash
  typedData := .typedData
  proofOfPossession := .proofOfPossession

theorem termKeccak_collisionFree : termKeccak.CollisionFree where
  withdrawal := ⟨fun _ _ _ _ h => Term.withdrawal.inj h, fun _ _ h => nomatch h⟩
  queuedDeposit := ⟨fun _ _ _ _ h => Term.queuedDeposit.inj h, fun _ _ h => nomatch h⟩
  tokenEnablement := ⟨fun _ _ _ _ h => Term.tokenEnablement.inj h, fun _ _ h => nomatch h⟩
  blockTransition _ _ h := Term.blockTransition.inj h
  depositQueueTransition := by
    rintro ⟨a, b, c, d⟩ ⟨a', b', c', d'⟩ h
    obtain ⟨rfl, rfl, rfl, rfl⟩ := Term.depositQueueTransition.inj h
    rfl
  tokenEnablementTransition _ _ h := Term.tokenEnablementTransition.inj h
  verifierConfig _ _ h := Term.verifierConfig.inj h
  domainSeparator _ _ _ _ h := Term.domainSeparator.inj h
  settlementAttestation := by
    rintro ⟨⟩ ⟨⟩ h
    obtain ⟨rfl, rfl, rfl, rfl, rfl, rfl, rfl, rfl, rfl, rfl, rfl, rfl, rfl⟩ :=
      Term.settlementAttestation.inj h
    rfl
  typedData _ _ _ _ h := Term.typedData.inj h

end Tempo.Zones
