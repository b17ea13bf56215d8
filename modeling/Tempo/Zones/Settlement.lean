/-
Settlement of a zone: every accepted batch carries the signatures of a quorum
of the sequencers of its time, the batches form one chain, the cursors only
advance, and no list of signatures settles two batches.
-/
import Tempo.Zones.Sequencers

namespace Tempo.Zones

variable {H : Type} [Zero H] [DecidableEq H] {d : Deployment H} {signatures : List Bytes} {s : L1 H}
  {s' : L1 H} {t : Settlement H} {p : Portal H}

open L1 Deployment List

/-! What settles. -/

/-- The part of the portal that only a batch changes. -/
def Portal.cursors (p : Portal H) : Nat × B256 × Nat × Nat × Nat × Bool :=
  (p.withdrawalBatchIndex, p.blockHash, p.zoneHeight,
    p.lastProcessedDepositNumber, p.lastProcessedEnabledTokenCount,
    p.tokenEnablementCursorInitialized)

theorem Change.settled (h : Change d s s') : (∃ t signatures, Settles d s.portal t signatures ∧
      s' = ({ s with portal := settle s.portal t } : L1 H).logged
        (.batchSubmitted (acceptedBatch s.portal t signatures))) ∨
    s'.portal.cursors = s.portal.cursors ∧ s'.batches = s.batches := by
  cases h with
  | simple hsimple =>
    cases hsimple with
    | submitBatch hsettles => exact .inl ⟨_, _, hsettles, rfl⟩
    | governance | donation => exact .inr ⟨rfl, rfl⟩
    | deposit | enableToken | claimRefund =>
      right
      simp [Portal.cursors, L1.batches, withStatus, recorded, withToken, withRefund, logged,
        PortalEvent.batch?]
  | taking htaking =>
    right
    cases htaking <;>
      simp [Portal.cursors, L1.batches, taken, recorded, withRefund, logged, PortalEvent.batch?]
  | processed =>
    right
    simp [Portal.cursors, L1.batches, logged, PortalEvent.batch?]
  | status => exact .inr ⟨rfl, rfl⟩

/-! Quorums. -/

/-- One batch follows another: it starts at the block the other ended with,
higher up in the zone. -/
def Follows (b c : AcceptedBatch H) : Prop :=
  c.settlement.blockTransition.prevBlockHash = b.settlement.blockTransition.nextBlockHash ∧
    b.settlement.zoneHeight < c.settlement.zoneHeight

/-- Distinct sequencers, at least as many as the threshold of the time, are
recovered from the signatures of a batch. -/
def Quorum (d : Deployment H) (b : AcceptedBatch H) : Prop :=
  0 < b.threshold ∧ ∃ signers : List Address, signers.Nodup ∧ b.threshold ≤ signers.length ∧
    (∀ a ∈ signers, a ∈ b.sequencers) ∧ List.Forall₂ (fun signature a =>
      d.recover (d.settlementDigest b.settlement) signature = some a ∧ a ∈ b.sequencers)
      b.signatures signers

omit [Zero H] [DecidableEq H] in
theorem recoverSigners_spec {recover : Bytes → Option Address}
    {g : Governance} {recovered signers : List Address}
    (h : recoverSigners recover g recovered signatures = some signers) (hnodup : recovered.Nodup) :
    signers.Nodup ∧ ∃ new, signers = recovered ++ new ∧
      List.Forall₂ (fun signature a => recover signature = some a ∧ g.isSequencer a = true)
        signatures new ∧ ∀ a ∈ new, g.isSequencer a = true := by
  induction signatures generalizing recovered with
  | nil =>
    cases h
    exact ⟨hnodup, [], by simp, .nil, by simp⟩
  | cons signature rest ih =>
    rw [recoverSigners] at h
    cases hrecover : recover signature with
    | none =>
      simp only [hrecover] at h
      cases h
    | some signer =>
      simp only [hrecover] at h
      split at h
      · cases h
      rename_i hsigner
      split at h
      · cases h
      rename_i hfresh
      simp only [not_or, not_not] at hsigner
      have hnext : (recovered ++ [signer]).Nodup := nodup_append.mpr ⟨hnodup, by simp, by
          intro a ha b hb hab
          rw [mem_singleton.mp hb] at hab
          exact hfresh (hab ▸ ha)⟩
      obtain ⟨hall, new, rfl, hrest, hmembers⟩ := ih h hnext
      refine ⟨hall, signer :: new, by simp, .cons ⟨hrecover, hsigner.2⟩ hrest, ?_⟩
      intro a ha
      rcases mem_cons.mp ha with rfl | ha
      · exact hsigner.2
      · exact hmembers a ha

omit [Zero H] [DecidableEq H] in
theorem Settles.hasQuorum (h : Settles d p t signatures) (hg : p.governance.Coherent) :
    Quorum d (acceptedBatch p t signatures) := by
  obtain ⟨signers, hsigners⟩ := h.signers
  obtain ⟨hnodup, _, rfl, hrecovered, hmembers⟩ := recoverSigners_spec hsigners nodup_nil
  have hmember {a : Address} (ha : p.governance.isSequencer a = true) :
      a ∈ p.governance.sequencers := (hg.roles a).mp (beq_iff_eq.mp ha)
  refine ⟨hg.threshold_pos, signers, hnodup, ?_, fun a ha => hmember (hmembers a ha),
    hrecovered.imp fun _ _ ⟨hr, ha⟩ => ⟨hr, hmember ha⟩⟩
  rw [← hrecovered.length_eq]
  exact h.quorum

/-! Invariants. -/

theorem Change.coherent (h : Change d s s')
    (hs : s.portal.governance.Coherent) : s'.portal.governance.Coherent := by
  cases h with
  | simple hsimple =>
    cases hsimple with
    | governance hcall => exact (GovernanceCall.exec_roleChange hcall).coherent hs
    | enableToken => exact hs.of_settlers rfl
    | deposit => simpa [withStatus, recorded, logged] using hs
    | donation | claimRefund | submitBatch => exact hs
  | taking htaking =>
    cases htaking <;> simpa [taken, recorded, withRefund, logged] using hs
  | processed | status => exact hs

/-- The accepted batches are one chain that ends at the portal's cursor. -/
structure Chained (d : Deployment H) (s : L1 H) : Prop where
  index_eq : s.portal.withdrawalBatchIndex = s.batches.length
  indexes : s.batches.map (·.settlement.withdrawalBatchIndex) = range' 1 s.batches.length
  linked : s.batches.IsChain Follows
  last : ∀ b ∈ s.batches.getLast?, b.settlement.blockTransition.nextBlockHash = s.portal.blockHash ∧
      b.settlement.zoneHeight = s.portal.zoneHeight
  quorum : ∀ b ∈ s.batches, Quorum d b

omit [Zero H] [DecidableEq H] in
theorem batches_batchSubmitted (s : L1 H) (b : AcceptedBatch H) :
    (s.logged (.batchSubmitted b)).batches = s.batches ++ [b] := by
  simp [L1.batches, logged, PortalEvent.batch?]

/-- No batch is ever dropped from the history. -/
theorem Change.batches_mono (h : Change d s s') : s.batches <+: s'.batches := by
  rcases h.settled with ⟨t, signatures, -, rfl⟩ | ⟨-, hbatches⟩
  · rw [batches_batchSubmitted]
    exact prefix_append _ _
  · rw [hbatches]

theorem Change.chained (h : Change d s s')
    (hcoherent : s.portal.governance.Coherent) (hs : Chained d s) : Chained d s' := by
  rcases h.settled with ⟨t, signatures, hsettles, rfl⟩ | ⟨hcursors, hbatches⟩
  · have hbatches : (L1.logged { s with portal := settle s.portal t }
        (.batchSubmitted (acceptedBatch s.portal t signatures))).batches =
          s.batches ++ [acceptedBatch s.portal t signatures] := batches_batchSubmitted _ _
    refine ⟨?_, ?_, ?_, ?_, ?_⟩ <;> rw [hbatches]
    · rw [length_append, ← hs.index_eq]
      rfl
    · rw [map_append, hs.indexes, length_append]
      rw [length_singleton, range'_concat]
      have hindex : t.withdrawalBatchIndex = 1 + 1 * s.batches.length := by
        rw [hsettles.index_eq, hs.index_eq]
        omega
      rw [← hindex]
      rfl
    · rw [isChain_append]
      refine ⟨hs.linked, isChain_singleton _, fun b hb c hc => ?_⟩
      obtain ⟨hnext, hheight⟩ := hs.last b hb
      obtain rfl : acceptedBatch s.portal t signatures = c := by
        simpa using hc
      exact ⟨hsettles.prevBlockHash_eq.trans hnext.symm, hheight ▸ hsettles.height_lt⟩
    · intro b hb
      obtain rfl : acceptedBatch s.portal t signatures = b := by
        simpa using hb
      exact ⟨rfl, rfl⟩
    · intro b hb
      rcases mem_append.mp hb with hold | hnew
      · exact hs.quorum b hold
      · rw [mem_singleton.mp hnew]
        exact hsettles.hasQuorum hcoherent
  · simp only [Portal.cursors, Prod.mk.injEq] at hcursors
    obtain ⟨hindex, hhash, hheight, -⟩ := hcursors
    refine ⟨?_, ?_, ?_, ?_, ?_⟩ <;> rw [hbatches]
    · rw [hindex, hs.index_eq]
    · exact hs.indexes
    · exact hs.linked
    · rw [hhash, hheight]
      exact hs.last
    · exact hs.quorum

/-- The deposit cursor stays below the deposits, the token cursor below the
tokens and, once it is in use, close to them. -/
structure CursorsInRange (p : Portal H) : Prop where
  deposits : p.lastProcessedDepositNumber ≤ p.depositCount
  tokens : p.lastProcessedEnabledTokenCount ≤ p.enabledTokens.length
  outstanding : p.tokenEnablementCursorInitialized = true →
    p.enabledTokens.length - p.lastProcessedEnabledTokenCount ≤ maxUnprocessedTokenEnablements
  unused : p.tokenEnablementCursorInitialized = false →
    p.lastProcessedEnabledTokenCount = 0 ∧ p.enabledTokens.length = 1

/-- The cursors of `q` are not behind those of `p`. -/
structure CursorsAdvance (p q : Portal H) : Prop where
  deposits : p.lastProcessedDepositNumber ≤ q.lastProcessedDepositNumber
  tokens : p.lastProcessedEnabledTokenCount ≤ q.lastProcessedEnabledTokenCount

theorem Settles.cursorsInRange (h : Settles d p t signatures) (hp : CursorsInRange p) :
    CursorsInRange (settle p t) ∧ CursorsAdvance p (settle p t) := by
  have hprev := h.prevToken_eq
  have hle := h.token_le
  have hcount := h.token_le_count
  have hout := h.token_outstanding
  have hmod := Nat.mod_le p.enabledTokens.length (2 ^ 64)
  have hdeposits : p.lastProcessedDepositNumber ≤ (settle p t).lastProcessedDepositNumber :=
    h.prevDeposit_eq ▸ h.deposit_le
  obtain ⟨hd, htokens, houtstanding, hunused⟩ := hp
  cases hinit : p.tokenEnablementCursorInitialized with
  | true =>
    have hclose := houtstanding hinit
    rw [if_pos hinit] at hprev
    refine ⟨⟨h.deposit_le_count, ?_, fun _ => ?_, ?_⟩, hdeposits, ?_⟩
    all_goals simp only [settle, hinit, Bool.true_or, if_true]
    · omega
    · omega
    · simp
    · omega
  | false =>
    obtain ⟨hzero, hone⟩ := hunused hinit
    by_cases hnext : t.tokenEnablementTransition.nextProcessedTokenCount = 0
    · refine ⟨⟨h.deposit_le_count, ?_, ?_, fun _ => ?_⟩, hdeposits, ?_⟩
      all_goals simp [settle, hinit, hnext, hzero, hone]
    · have hclose := hout hinit hnext
      have hlength : p.enabledTokens.length % 2 ^ 64 =
          p.enabledTokens.length := Nat.mod_eq_of_lt (by omega)
      rw [hlength] at hclose hcount
      refine ⟨⟨h.deposit_le_count, ?_, fun _ => ?_, ?_⟩, hdeposits, ?_⟩
      all_goals simp only [settle, hinit, bne_iff_ne, hnext, ne_eq,
        not_false_eq_true, Bool.false_or, if_true]
      · exact hcount
      · exact hclose
      · simp [hnext]
      · omega

omit [Zero H] [DecidableEq H] in
theorem CursorsInRange.of_eq {q : Portal H} (hp : CursorsInRange p)
    (hcursors : q.cursors = p.cursors) (hcount : p.depositCount ≤ q.depositCount)
    (htokens : q.enabledTokens = p.enabledTokens) : CursorsInRange q ∧ CursorsAdvance p q := by
  simp only [Portal.cursors, Prod.mk.injEq] at hcursors
  obtain ⟨-, -, -, hdeposit, htoken, hinit⟩ := hcursors
  refine ⟨⟨?_, ?_, ?_, ?_⟩, hdeposit.ge, htoken.ge⟩
  · rw [hdeposit]
    exact hp.deposits.trans hcount
  · rw [htoken, htokens]
    exact hp.tokens
  · rw [hinit, htoken, htokens]
    exact hp.outstanding
  · rw [hinit, htoken, htokens]
    exact hp.unused

theorem Change.cursorsInRange (h : Change d s s') (hs : CursorsInRange s.portal) :
    CursorsInRange s'.portal ∧ CursorsAdvance s.portal s'.portal := by
  cases h with
  | simple hsimple =>
    cases hsimple with
    | submitBatch hsettles => exact hsettles.cursorsInRange hs
    | enableToken hinit hroom =>
      refine ⟨⟨hs.deposits, ?_, fun _ => ?_, fun hunused => ?_⟩, le_rfl, le_rfl⟩
      all_goals simp only [withToken, logged, length_append, length_singleton] at *
      · exact Nat.le_succ_of_le hs.tokens
      · omega
      · rw [hinit] at hunused
        cases hunused
    | deposit =>
      refine hs.of_eq ?_ ?_ ?_
      all_goals simp [Portal.cursors, withStatus, recorded, logged]
    | governance | donation | claimRefund => exact hs.of_eq rfl le_rfl rfl
  | taking htaking =>
    cases htaking <;> refine hs.of_eq ?_ ?_ ?_
    all_goals simp [Portal.cursors, taken, recorded, withRefund, logged]
  | processed | status => exact hs.of_eq rfl le_rfl rfl

/-! Runs. -/

/-- What holds of a portal's settlement at every point of its history. -/
structure SettlementInvariant (d : Deployment H) (s : L1 H) : Prop where
  coherent : s.portal.governance.Coherent
  chained : Chained d s
  cursors : CursorsInRange s.portal

omit [DecidableEq H] in
theorem Initialized.settlementInvariant (h : Initialized d s) : SettlementInvariant d s := by
  obtain ⟨balances, g, zoneId, messenger, verifier, t, hg, rfl⟩ := h.exists_eq
  refine ⟨hg.of_settlers rfl, ?_, ?_⟩
  · exact ⟨rfl, rfl, (List.IsChain.nil : List.IsChain Follows []),
      fun b hb => (nomatch hb), fun b hb => (nomatch hb)⟩
  · refine ⟨le_rfl, Nat.zero_le _, fun hinit => ?_, fun _ => ⟨rfl, rfl⟩⟩
    cases hinit

theorem Changes.settlementInvariant (h : Changes d s s') (hs : SettlementInvariant d s) :
    SettlementInvariant d s' ∧ CursorsAdvance s.portal s'.portal := by
  induction h with
  | refl => exact ⟨hs, le_rfl, le_rfl⟩
  | tail _ hlast ih =>
    obtain ⟨⟨hcoherent, hchained, hcursors⟩, hadvance⟩ := ih
    obtain ⟨hrange, hnext⟩ := hlast.cursorsInRange hcursors
    exact ⟨⟨hlast.coherent hcoherent, hlast.chained hcoherent hchained,
      hrange⟩, hadvance.deposits.trans hnext.deposits, hadvance.tokens.trans hnext.tokens⟩

theorem Reachable.settlementInvariant (h : Reachable d s) : SettlementInvariant d s := by
  obtain ⟨s0, hinit, hchanges⟩ := h.changes
  exact (hchanges.settlementInvariant hinit.settlementInvariant).1

/-! The digest and replay. -/

omit [DecidableEq H] in
theorem settlementDigest_injective (hcf : d.keccak.CollisionFree) :
    Function.Injective d.settlementDigest := by
  intro t u h
  obtain ⟨hdomain, hstruct⟩ := hcf.typedData h
  obtain ⟨hchain, hportal⟩ := hcf.domainSeparator hdomain
  have hfields := hcf.settlementAttestation hstruct
  simp only [SettlementAttestation.mk.injEq] at hfields
  obtain ⟨hzone, hversion, hheight, hindex, hverifier, htempo, hanchor,
    hanchorHash, hblocks, hdeposits, htokens, hqueue, hconfig⟩ := hfields
  have hb := hcf.blockTransition hblocks
  have hd := hcf.depositQueueTransition hdeposits
  have ht := hcf.tokenEnablementTransition htokens
  have hc := hcf.verifierConfig hconfig
  cases t
  cases u
  simp_all only

/-- Recovery is sound for the sequencers of the accepted batches: what is
recovered to one of them over the digest of a settlement was signed by it, and
a signature was made over one digest. -/
def SoundRecovery (d : Deployment H) (s : L1 H) (origin : Bytes → Option (Address × H)) : Prop :=
  ∀ b ∈ s.batches, ∀ a ∈ b.sequencers, ∀ t signature,
    d.recover (d.settlementDigest t) signature = some a →
      origin signature = some (a, d.settlementDigest t)

omit [Zero H] [DecidableEq H] in
/-- The signatures of a quorum were made over the digest of its batch. -/
theorem Quorum.origin {origin : Bytes → Option (Address × H)}
    (hsound : SoundRecovery d s origin) {b : AcceptedBatch H} (hb : b ∈ s.batches)
    (h : Quorum d b) : ∃ signers : List Address, signers.Nodup ∧ b.threshold ≤ signers.length ∧
      (∀ a ∈ signers, a ∈ b.sequencers) ∧ List.Forall₂ (fun signature a =>
        origin signature = some (a, d.settlementDigest b.settlement))
        b.signatures signers := by
  obtain ⟨-, signers, hnodup, hthreshold, hmembers, hrecovered⟩ := h
  exact ⟨signers, hnodup, hthreshold, hmembers,
    hrecovered.imp fun _ _ ⟨hr, ha⟩ => hsound b hb _ ha _ _ hr⟩

omit [DecidableEq H] in
/-- Batches with the same signatures are the same batch. -/
theorem Quorum.settlement_eq {origin : Bytes → Option (Address × H)}
    (hcf : d.keccak.CollisionFree) (hsound : SoundRecovery d s origin)
    {b c : AcceptedBatch H} (hmemb : b ∈ s.batches) (hmemc : c ∈ s.batches)
    (hb : Quorum d b) (hc : Quorum d c)
    (h : b.signatures = c.signatures) : b.settlement = c.settlement := by
  obtain ⟨signers, -, hthreshold, -, hforall⟩ := hb.origin hsound hmemb
  obtain ⟨others, -, -, -, hothers⟩ := hc.origin hsound hmemc
  rw [← h] at hothers
  have hpos : 0 < b.signatures.length := by
    rw [hforall.length_eq]
    exact hb.1.trans_le hthreshold
  obtain ⟨signature, rest, hsig⟩ := exists_cons_of_length_pos hpos
  rw [hsig] at hforall hothers
  obtain ⟨a, _, ha, -, -⟩ := forall₂_cons_left_iff.mp hforall
  obtain ⟨a', _, ha', -, -⟩ := forall₂_cons_left_iff.mp hothers
  rw [ha, Option.some.injEq, Prod.mk.injEq] at ha'
  exact settlementDigest_injective hcf ha'.2

omit [DecidableEq H] in
theorem Chained.signatures_nodup {origin : Bytes → Option (Address × H)}
    (hcf : d.keccak.CollisionFree) (hsound : SoundRecovery d s origin) (h : Chained d s) :
    (s.batches.map (·.signatures)).Nodup := by
  have hindexes : (s.batches.map (·.settlement.withdrawalBatchIndex)).Nodup := by
    rw [h.indexes]
    exact nodup_range'
  rw [List.Nodup, pairwise_map] at hindexes ⊢
  refine hindexes.imp_of_mem fun hb hc hne hsig => hne ?_
  rw [(h.quorum _ hb).settlement_eq hcf hsound hb hc (h.quorum _ hc) hsig]

/-- A settlement needs a fresh quorum, and batches chain. -/
theorem settlement_quorum {origin : Bytes → Option (Address × H)}
    (hcf : d.keccak.CollisionFree) {s : L1 H} (hsound : SoundRecovery d s origin)
    (hs : Reachable d s) :
    -- a successful call enters its batch, with the signers of its time
    (∀ env args s', Yields (d.submitBatch env args) s () s' →
      ∃ number hash, s'.batches = s.batches ++
        [{ settlement := d.settlementOf env s.portal args number hash
           signatures := args.signatures
           sequencers := s.portal.governance.sequencers
           threshold := s.portal.governance.sequencerThreshold }]) ∧
    -- a quorum of distinct sequencers signed the digest of each batch
    (∀ b ∈ s.batches, ∃ signers : List Address, signers.Nodup ∧ b.threshold ≤ signers.length ∧
      (∀ a ∈ signers, a ∈ b.sequencers) ∧ List.Forall₂ (fun signature a =>
        origin signature = some (a, d.settlementDigest b.settlement))
        b.signatures signers) ∧
    -- and the digest determines everything that was settled
    Function.Injective d.settlementDigest ∧
    s.batches.IsChain Follows ∧
    s.batches.map (·.settlement.withdrawalBatchIndex) = range' 1 s.batches.length ∧
    (s.batches.map (·.signatures)).Nodup ∧
    CursorsInRange s.portal ∧
    ∀ s', Relation.ReflTransGen (Step d) s s' →
      s.batches <+: s'.batches ∧ CursorsAdvance s.portal s'.portal := by
  have hinv := hs.settlementInvariant
  refine ⟨fun env args s' h => ?_, fun b hb => (hinv.chained.quorum b
    hb).origin hsound hb, settlementDigest_injective hcf, hinv.chained.linked,
    hinv.chained.indexes, hinv.chained.signatures_nodup hcf hsound,
    hinv.cursors, fun s' hrun => ⟨?_, ?_⟩⟩
  · obtain ⟨number, hash, t, rfl, -, rfl⟩ := yields_submitBatch h
    exact ⟨number, hash, batches_batchSubmitted _ _⟩
  · exact run_invariant (I := fun t => s.batches <+: t.batches)
      (fun _ _ ht hchange => ht.trans hchange.batches_mono) (Step.changes hrun) (prefix_refl _)
  · exact ((Step.changes hrun).settlementInvariant hinv).2

/-! Settled batches. -/

namespace Sample

/-- The signatures of both sequencers over the `i`-th digest. -/
def bothSign (i : UInt8) : List Bytes := [signature 0 i, signature 1 i]

def batchArgs (withdrawals : List Withdrawal) : BatchArgs Term where
  tempoBlockNumber := 90
  recentTempoBlockNumber := 0
  blockTransition := ⟨0, 1⟩
  depositQueueTransition := ⟨0, 0, 0, 0⟩
  tokenEnablementTransition := ⟨0, 1⟩
  withdrawalQueueHash := queueHash termKeccak withdrawals
  verifierConfig := []
  proof := .returns true
  nextZoneHeight := 1
  signatures := bothSign 0

def digest (p : Portal Term) (args : BatchArgs Term) : Term :=
  (deployment []).settlementDigest ((deployment []).settlementOf (env sequencer) p args 90 1)

def batchDigest (withdrawals : List Withdrawal) : Term :=
  digest (initial []).portal (batchArgs withdrawals)

def submit (signed : List Term) (args : BatchArgs Term) : PortalExec Term Unit :=
  (Call.outer (.call (env sequencer) (.submitBatch args))).exec (deployment signed)

def settled (withdrawals : List Withdrawal) : L1 Term :=
  finalState (submit [batchDigest withdrawals] (batchArgs withdrawals))
    (initial [batchDigest withdrawals])

def origin (signed : List Term) : Bytes → Option (Address × Term)
  | signer :: i :: _ => do
    let a ← sequencers[signer.toNat]?
    let digest ← signed[i.toNat]?
    pure (a, digest)
  | _ => none

theorem soundRecovery (signed : List Term) (s : L1 Term) :
    SoundRecovery (deployment signed) s (origin signed) := by
  intro b _ a _ t signature hrecover
  match signature with
  | [] | [_] => cases hrecover
  | signer :: i :: rest =>
    change (if rest.length = 63 ∧ signed[i.toNat]? = some _ then _ else none) = some a at hrecover
    split at hrecover
    · next hsigned => simp [origin, hrecover, hsigned.2]
    · cases hrecover

theorem initialized (signed : List Term) : Initialized (deployment signed) (initial signed) :=
  ⟨balances, env zoneFactoryAddress, initArgs, yields_finalState (by rfl)⟩

theorem reachable_settled (withdrawals : List Withdrawal)
    (h : succeeds (submit [batchDigest withdrawals] (batchArgs withdrawals))
      (initial [batchDigest withdrawals]) = true) :
    Reachable (deployment [batchDigest withdrawals]) (settled withdrawals) :=
  ⟨_, initialized _, .single ⟨_, yields_finalState h⟩⟩

/-- A batch on top of the first one. -/
def nextArgs : BatchArgs Term :=
  { batchArgs [] with
    blockTransition := ⟨1, 2⟩
    tokenEnablementTransition := ⟨1, 1⟩
    nextZoneHeight := 5
    signatures := bothSign 1 }

def signed : List Term := [batchDigest [], digest (settled []).portal nextArgs]

/-- Both batches are settled, and the first one is submitted again. -/
def settledTwice : L1 Term :=
  (deployment signed).history (initial signed) ([batchArgs [], nextArgs, batchArgs []].map
    fun args => .outer (.call (env sequencer) (.submitBatch args)))

end Sample

open Sample in
theorem settlement_quorum_settled :
    settledTwice.batches.map (fun b => (b.threshold, b.settlement.zoneHeight)) = [(2, 1), (2, 5)] ∧
      settledTwice.batches.IsChain Follows ∧
      (settledTwice.batches.map (·.signatures)).Nodup := by
  have h := settlement_quorum termKeccak_collisionFree (soundRecovery signed settledTwice)
    (Reachable.history ⟨_, initialized _, .refl⟩ _)
  exact ⟨by decide +kernel, h.2.2.2.1, h.2.2.2.2.2.1⟩

end Tempo.Zones
