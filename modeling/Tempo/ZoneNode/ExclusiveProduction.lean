/-
A sequencer node with its schedule.  One task ingests finalized blocks,
another consumes the queue; whatever the interleaving, every Tempo block in a
zone block the node may produce is one the portal has put it in charge of.
-/
import Tempo.ZoneNode.LearnedLeaders
import Tempo.ZoneNode.OperationalWork

namespace Tempo.ZoneNode

open PendingDeposits

universe u

variable {H : Type} {K : Type u} [DecidableEq K]

namespace AvailableTempoImport

variable {permit : ProductionPermit K} {available produced :
  AvailableTempoImport H}

/-- Before the first header the permit stops at, it stops at none. -/
theorem check_of_firstUnowned {headers : List (SealedHeader H)} {index : Nat} :
    match firstUnowned permit index headers with
    | none => ∀ h ∈ headers, permit.check h.number = none
    | some (stop, _) => index ≤ stop ∧
        ∀ h ∈ headers.take (stop - index), permit.check h.number = none := by
  induction headers generalizing index with
  | nil => simp [firstUnowned]
  | cons header rest ih =>
    rw [firstUnowned]
    cases hcheck : permit.check header.number with
    | some exit => simp
    | none =>
      have hrest := @ih (index + 1)
      cases hfirst : firstUnowned permit (index + 1) rest with
      | none =>
        rw [hfirst] at hrest
        simpa [hcheck] using hrest
      | some answer =>
        obtain ⟨stop, exit⟩ := answer
        rw [hfirst] at hrest
        obtain ⟨hle, howned⟩ := hrest
        refine ⟨Nat.le_of_succ_le hle, ?_⟩
        obtain ⟨k, rfl⟩ : ∃ k, stop = index + 1 + k := ⟨stop - (index + 1), by omega⟩
        rw [show index + 1 + k - index = k + 1 by omega, List.take_succ_cons]
        simpa [hcheck] using howned

/-- What the permit leaves: the same front, and a first part of the headers,
all of them owned. -/
theorem applyPermit_ok (h : available.applyPermit permit = .ok produced) :
    permit.check available.l1Block.header.number = none ∧ produced.l1Block = available.l1Block ∧
      (∃ count, produced.checkpointHeaders = available.checkpointHeaders.take count) ∧
      ∀ header ∈ produced.checkpointHeaders, permit.check header.number = none := by
  have howned : match firstUnowned permit 0 available.checkpointHeaders with
      | none => ∀ h ∈ available.checkpointHeaders,
          permit.check h.number = none
      | some (stop, _) => 0 ≤ stop ∧
          ∀ h ∈ available.checkpointHeaders.take (stop - 0), permit.check h.number = none :=
    check_of_firstUnowned
  unfold applyPermit at h
  cases hfront : permit.check available.l1Block.header.number with
  | some exit =>
    rw [hfront] at h
    cases h
  | none =>
    rw [hfront] at h
    cases hfirst : firstUnowned permit 0 available.checkpointHeaders with
    | none =>
      rw [hfirst] at h howned
      cases h
      exact ⟨rfl, rfl, ⟨_, (List.take_length).symm⟩, howned⟩
    | some answer =>
      obtain ⟨stop, exit⟩ := answer
      rw [hfirst] at h howned
      cases stop with
      | zero => cases h
      | succ index =>
        cases h
        exact ⟨rfl, rfl, ⟨index + 1, rfl⟩, howned.2⟩

theorem mem_headers {header : SealedHeader H} (h : header ∈ available.tempoImport.headers) :
    header = available.l1Block.header ∨ header ∈ available.checkpointHeaders := by
  unfold tempoImport at h
  split_ifs at h with hempty
  · exact .inl (List.mem_singleton.mp h)
  · exact .inr h

/-- Every header of a permitted block is owned. -/
theorem check_of_applyPermit (h : available.applyPermit permit = .ok produced) :
    ∀ header ∈ produced.tempoImport.headers, permit.check header.number = none := by
  obtain ⟨hfront, hblock, -, howned⟩ := applyPermit_ok h
  intro header hmem
  rcases mem_headers hmem with rfl | hcheckpoint
  · rw [hblock]
    exact hfront
  · exact howned header hcheckpoint

/-- What the engine takes from the queue: the front block, and the front
headers it decided to import without work, if any. -/
def FromQueue (queue : PendingDeposits H) (available : AvailableTempoImport H) : Prop :=
  queue.peek = some available.l1Block ∧
    ∃ count, available.checkpointHeaders = queue.peekHeaders count

theorem FromQueue.produces {queue : PendingDeposits H} (hqueue : FromQueue queue available)
    (h : available.applyPermit permit = .ok produced) : Produces queue produced.tempoImport := by
  obtain ⟨hpeek, count, hheaders⟩ := hqueue
  obtain ⟨-, hblock, ⟨count', hfront⟩, -⟩ := applyPermit_ok h
  unfold tempoImport
  split_ifs with hempty
  · exact ⟨available.l1Block, hpeek, by rw [hblock]⟩
  · refine ⟨min count' count, ?_⟩
    rw [hfront, hheaders, peekHeaders, peekHeaders, ← List.map_take, List.take_take]

end AvailableTempoImport

theorem ProductionPermit.check_eq_none {permit : ProductionPermit K}
    {anchor : Nat} (h : permit.check anchor = none) :
    ∃ record, permit.schedule.leaderFor anchor = some record ∧
      record.leader = permit.localEd25519PublicKey := by
  unfold check at h
  cases hleader : permit.schedule.leaderFor anchor with
  | none =>
    rw [hleader] at h
    cases h
  | some record =>
    simp only [hleader] at h
    split_ifs at h with howned
    exact ⟨record, rfl, howned⟩

variable [DecidableEq H]

/-- A node in multi-sequencer mode. -/
structure ProducerState (H : Type) (K : Type u) where
  node : NodeState H
  schedule : LeadershipScheduleState K
  /-- Finalized height when the process started. -/
  historicalReplayThrough : Nat
  /-- The block whose transition has been applied and that is enqueued
  next. -/
  ingested : Option Nat

namespace ProducerState

/-- The block the subscriber fetches next. -/
def nextBlockToSync (node : NodeState H) : Nat :=
  max (node.chain.tempoNumHash.number + 1) ((node.queue.lastEnqueued.map (·.number + 1)).getD 0)

def permit (s : ProducerState H K) (key : K) : ProductionPermit K :=
  ⟨s.schedule, key⟩

/-- A process started on a chain: the schedule is seeded at the
checkpoint. -/
inductive Launch {l1 : FinalizedL1 H} (portal : PortalLeaders l1)
    (manifest : ZoneManifest K) (chain : ZoneChain H) : ProducerState H K → Prop where
  | seeded (schedule : LeadershipScheduleState K) (replay : Nat)
      (hseed : seedLeadershipSchedule manifest portal.snapshot
        chain.tempoNumHash.number .uninitialized = .ok schedule) :
      Launch portal manifest chain
        { node := .launch chain
          schedule :=
            schedule.recordAppliedAnchor chain.tempoNumHash.number
          historicalReplayThrough := replay
          ingested := none }

variable {l1 : FinalizedL1 H}

/-- The events of a node's life, with the transition of a block applied before
the block becomes consumable. -/
inductive Step (portal : PortalLeaders l1) (manifest : ZoneManifest K)
    (key : K) : ProducerState H K → ProducerState H K → Prop where
  | recover {s : ProducerState H K} {queue : PendingDeposits H}
      (hrecover : Yields (recoverDeferredWork l1 s.node.deferredWorkStart
        s.node.chain.tempoNumHash) s.node.queue () queue) :
      Step portal manifest key s
        { s with node := { s.node with queue := queue, following := true } }
  | ingest {s : ProducerState H K} {schedule : LeadershipScheduleState K}
      (hfollowing : s.node.following = true)
      (hok : ingestLeadership manifest s.historicalReplayThrough s.schedule
        (l1.block (nextBlockToSync s.node)).events = .ok schedule) :
      Step portal manifest key s
        { s with
          schedule := schedule
          ingested := some (nextBlockToSync s.node) }
  | enqueue {s : ProducerState H K} {n : Nat} (hingested : s.ingested = some n) :
      Step portal manifest key s
        { s with
          node :=
            { s.node with
              queue := finalState (tryEnqueueSealed (l1.block n)) s.node.queue }
          ingested := none }
  | reconnect {s : ProducerState H K} :
      Step portal manifest key s { s with ingested := none }
  | produce {s : ProducerState H K} {available produced :
        AvailableTempoImport H} (block : ZoneBlock H)
      (hqueue : available.FromQueue s.node.queue)
      (hpermit : available.applyPermit (s.permit key) = .ok produced)
      (himport : block.tempoImport = produced.tempoImport) :
      Step portal manifest key s
        { s with
          node :=
            { s.node with
              chain := s.node.chain.push block
              queue := finalState (consumeProduced block.tempoImport) s.node.queue }
          schedule := s.schedule.recordAppliedAnchor block.tempoImport.anchor.number }
  | follow {s : ProducerState H K} (block : ZoneBlock H)
      (hfollows : Follows l1 s.node block.tempoImport) :
      Step portal manifest key s
        { s with
          node :=
            { s.node with
              chain := s.node.chain.push block
              queue := finalState (reconcileCanonicalImport block.tempoImport) s.node.queue }
          schedule := s.schedule.recordAppliedAnchor block.tempoImport.anchor.number }
  | redeliver {s : ProducerState H K} (block : ZoneBlock H) (hmem : block ∈ s.node.chain.blocks) :
      Step portal manifest key s
        { s with
          node :=
            { s.node with
              queue := finalState (reconcileCanonicalImport block.tempoImport) s.node.queue } }
  | restart {s s' : ProducerState H K} (lost : Nat)
      (hlaunch : Launch portal manifest (s.node.chain.unwind lost) s') :
      Step portal manifest key s s'

/-- The states of the node with the key `key`, first started at the checkpoint
`start`. -/
def Reachable (portal : PortalLeaders l1) (manifest : ZoneManifest K) (key : K)
    (start : Nat) (s : ProducerState H K) : Prop :=
  ∃ s₀, Launch portal manifest ⟨l1.numHash start, []⟩ s₀ ∧
    Relation.ReflTransGen (Step portal manifest key) s₀ s

/-- The schedule knows the leaders of every block that is or will be in the
queue, before the block gets there. -/
structure Fenced (portal : PortalLeaders l1) (manifest : ZoneManifest K)
    (genesis operational consumed tip start learned : Nat)
    (s : ProducerState H K) : Prop where
  synced : NodeState.Synced l1 genesis operational consumed tip s.node
  knows : Knows portal manifest start learned s.schedule
  start_le : start ≤ consumed
  applied_le : ∀ A, s.schedule.appliedAnchor = some A → A ≤ consumed
  learned_eq : learned = tip ∨ learned = tip + 1
  ingested : ∀ n, s.ingested = some n → s.node.following = true ∧ n = tip + 1 ∧ learned = n

omit [DecidableEq H] in
/-- A following node fetches the block after the end of its queue. -/
theorem nextBlockToSync_eq {genesis operational consumed tip : Nat} {node : NodeState H}
    (h : NodeState.Synced l1 genesis operational consumed tip node)
    (hfollowing : node.following = true) : nextBlockToSync node = tip + 1 := by
  rw [nextBlockToSync, h.tempoNumHash, l1.number_numHash]
  cases h.queue with
  | fresh hempty hnot hstart => simp [hnot] at hfollowing
  | following hin hstart =>
    have hle := hin.le_tip
    rcases hin.last with hlast | ⟨hnone, -, htip⟩
    · simp only [hlast, Option.map_some, Option.getD_some, l1.number_numHash]
      omega
    · simp only [hnone, Option.map_none, Option.getD_none]
      omega

namespace Fenced

variable {portal : PortalLeaders l1} {manifest : ZoneManifest K} {key : K}
  {genesis operational consumed tip start learned : Nat}
  {s s' : ProducerState H K}

omit [DecidableEq H] in
theorem launch {chain : ZoneChain H}
    (hsynced : NodeState.Synced l1 genesis operational consumed consumed (.launch chain))
    (hlaunch : Launch portal manifest chain s) :
    Fenced portal manifest genesis operational consumed consumed consumed consumed s := by
  obtain ⟨schedule, replay, hseed⟩ := hlaunch
  have hcheckpoint : chain.tempoNumHash.number = consumed := by
    rw [← l1.number_numHash consumed]
    exact congrArg NumHash.number hsynced.tempoNumHash
  rw [hcheckpoint] at hseed ⊢
  obtain ⟨hknows, happlied⟩ := Knows.seed hseed
  refine ⟨hsynced, hknows.recordAppliedAnchor consumed, le_rfl, ?_,
    .inl rfl, fun n hn => nomatch hn⟩
  exact appliedAnchor_le (by simp [happlied]) le_rfl

omit [DecidableEq K] [DecidableEq H] in
/-- A block the zone has consumed, by the node itself or from a peer. -/
theorem consume (h : Fenced portal manifest genesis operational consumed tip start learned s)
    {block : ZoneBlock H} {node' : NodeState H}
    {operational' consumed' : Nat} (hlt : consumed < consumed')
    (hchain : node'.chain = s.node.chain.push block)
    (hfollowing : node'.following = s.node.following)
    (hnode : NodeState.Synced l1 genesis operational' consumed' tip node') :
    Fenced portal manifest genesis operational' consumed' tip start learned
      { s with
        node := node'
        schedule := s.schedule.recordAppliedAnchor block.tempoImport.anchor.number } := by
  have hanchor : block.tempoImport.anchor = l1.numHash consumed' := by
    rw [← hnode.tempoNumHash, hchain]
    rfl
  refine ⟨hnode, h.knows.recordAppliedAnchor _, h.start_le.trans hlt.le, ?_,
    h.learned_eq, fun n hn => ?_⟩
  · refine appliedAnchor_le (fun A hA => (h.applied_le A hA).trans hlt.le) ?_
    rw [hanchor, l1.number_numHash]
  · rw [hfollowing]
    exact h.ingested n hn

omit [DecidableEq H] in
/-- The transition of the next block is applied, for the first time or
again. -/
theorem ingest (h : Fenced portal manifest genesis operational consumed tip start learned s)
    {schedule : LeadershipScheduleState K} (hfollowing : s.node.following = true)
    (hok : ingestLeadership manifest s.historicalReplayThrough s.schedule
      (l1.block (nextBlockToSync s.node)).events = .ok schedule) :
    Fenced portal manifest genesis operational consumed tip start (tip + 1)
      { s with
        schedule := schedule
        ingested := some (nextBlockToSync s.node) } := by
  rw [nextBlockToSync_eq h.synced hfollowing] at hok ⊢
  have hnext : ∀ n, some (tip + 1) = some n →
      s.node.following = true ∧ n = tip + 1 ∧ tip + 1 = n := by
    rintro n ⟨⟩
    exact ⟨hfollowing, rfl, rfl⟩
  rcases h.learned_eq with rfl | rfl
  · obtain ⟨hknows, happlied⟩ := h.knows.ingest_next hok
    refine ⟨h.synced, hknows, h.start_le, ?_, .inr rfl, hnext⟩
    rw [happlied]
    exact h.applied_le
  · obtain rfl := h.knows.ingest_again hok
    exact ⟨h.synced, h.knows, h.start_le, h.applied_le, .inr rfl, hnext⟩

omit [DecidableEq H] in
/-- What the permit lets through is in the queue, and the portal has put the
node in charge of it. -/
theorem permitted (h : Fenced portal manifest genesis operational consumed tip start learned s)
    {available produced : AvailableTempoImport H} (hqueue : available.FromQueue s.node.queue)
    (hpermit : available.applyPermit (s.permit key) = .ok produced)
    {header : SealedHeader H} (hmem : header ∈ produced.tempoImport.headers) :
    (∃ t, portal.Leads header.number t ∧
      manifest.leaderEd25519BySecp256k1Address t.newLeader = some key) ∧
    ∃ last, s.node.queue.lastEnqueued = some last ∧ header.number ≤ last.number := by
  obtain ⟨record, hleader, hkey⟩ := ProductionPermit.check_eq_none
    (AvailableTempoImport.check_of_applyPermit hpermit header hmem)
  have hproduces := hqueue.produces hpermit
  cases h.synced.queue with
  | fresh hempty hnot hstart =>
    exact absurd (hempty ▸ hproduces) (not_produces_empty _)
  | following hin hstart =>
    obtain ⟨hlow, hhigh⟩ := hin.bounds_of_produces hproduces hmem
    have hlearned : header.number ≤ learned := by
      rcases h.learned_eq with rfl | rfl
      · exact hhigh
      · exact Nat.le_succ_of_le hhigh
    obtain ⟨t, hleads, hfound⟩ := h.knows.leaderFor (h.start_le.trans hlow.le) hlearned
      (fun A hA => (h.applied_le A hA).trans hlow.le) hleader
    refine ⟨⟨t, hleads, hfound.trans (congrArg some hkey)⟩, ?_⟩
    rcases hin.last with hlast | ⟨-, -, htip⟩
    · refine ⟨_, hlast, ?_⟩
      rwa [l1.number_numHash]
    · omega

theorem step (h : Fenced portal manifest genesis operational consumed tip start learned s)
    (hstep : Step portal manifest key s s') :
    ∃ operational' consumed' tip' start' learned',
      Fenced portal manifest genesis operational' consumed' tip' start' learned' s' := by
  cases hstep with
  | recover hrecover =>
    refine ⟨_, _, _, _, _, h.synced.recover hrecover, h.knows, h.start_le,
      h.applied_le, h.learned_eq, fun n hn => ⟨rfl, (h.ingested n hn).2⟩⟩
  | ingest hfollowing hok => exact ⟨_, _, _, _, _, h.ingest hfollowing hok⟩
  | @enqueue n hingested =>
    obtain ⟨hfollowing, rfl, rfl⟩ := h.ingested n hingested
    have hfirst : s.node.queue.lastEnqueued = none →
        tip + 1 = s.node.chain.tempoNumHash.number + 1 := by
      intro hnone
      rw [← nextBlockToSync_eq h.synced hfollowing, nextBlockToSync, hnone]
      simp
    obtain ⟨tip', htip', hsynced⟩ := h.synced.enqueue hfollowing hfirst
    refine ⟨_, _, tip', _, tip + 1, hsynced, h.knows, h.start_le,
      h.applied_le, ?_, fun n hn => nomatch hn⟩
    rcases htip' with rfl | rfl
    · exact .inr rfl
    · exact .inl rfl
  | reconnect =>
    exact ⟨_, _, _, _, _, h.synced, h.knows, h.start_le, h.applied_le,
      h.learned_eq, fun n hn => nomatch hn⟩
  | produce block hqueue hpermit himport =>
    obtain ⟨operational', consumed', hlt, hsynced⟩ :=
      h.synced.produce (himport ▸ hqueue.produces hpermit)
    exact ⟨_, _, _, _, _, h.consume hlt rfl rfl hsynced⟩
  | follow block hfollows =>
    obtain ⟨operational', consumed', hlt, hsynced⟩ := h.synced.follow hfollows
    exact ⟨_, _, _, _, _, h.consume hlt rfl rfl hsynced⟩
  | redeliver block hmem =>
    exact ⟨_, _, _, _, _, h.synced.redeliver hmem, h.knows, h.start_le,
      h.applied_le, h.learned_eq, h.ingested⟩
  | restart lost hlaunch =>
    obtain ⟨operational', consumed', hsynced⟩ := h.synced.restart lost
    exact ⟨_, _, _, _, _, launch hsynced hlaunch⟩

end Fenced

theorem Reachable.fenced {portal : PortalLeaders l1}
    {manifest : ZoneManifest K} {key : K} {genesis : Nat}
    {s : ProducerState H K} (h : Reachable portal manifest key genesis s) :
    ∃ operational consumed tip start learned,
      Fenced portal manifest genesis operational consumed tip start learned
        s := by
  obtain ⟨s0, hlaunch, hsteps⟩ := h
  induction hsteps with
  | refl => exact ⟨_, _, _, _, _, Fenced.launch (.launch rfl .genesis) hlaunch⟩
  | tail _ hstep ih =>
    obtain ⟨_, _, _, _, _, hfenced⟩ := ih
    exact hfenced.step hstep

/-- Whatever two nodes have ingested and wherever they started, each produces
only from blocks it leads and has ingested, and no block is produced from by
both. -/
theorem production_exclusive {portal : PortalLeaders l1}
    {manifest : ZoneManifest K} {key key' : K} (hkeys : key ≠ key')
    {start start' : Nat} {s s' : ProducerState H K} (hs : Reachable portal manifest key start s)
    (hs' : Reachable portal manifest key' start' s')
    {available produced available' produced' : AvailableTempoImport H}
    (hqueue : available.FromQueue s.node.queue)
    (hpermit : available.applyPermit (s.permit key) = .ok produced)
    (hqueue' : available'.FromQueue s'.node.queue)
    (hpermit' : available'.applyPermit (s'.permit key') = .ok produced') :
    (∀ header ∈ produced.tempoImport.headers, (∃ t, portal.Leads header.number t ∧
        manifest.leaderEd25519BySecp256k1Address t.newLeader = some key) ∧
      ∃ last, s.node.queue.lastEnqueued = some last ∧ header.number ≤ last.number) ∧
    ∀ header ∈ produced.tempoImport.headers, ∀ header' ∈ produced'.tempoImport.headers,
        header.number ≠ header'.number := by
  obtain ⟨_, _, _, _, _, hfenced⟩ := hs.fenced
  obtain ⟨_, _, _, _, _, hfenced'⟩ := hs'.fenced
  refine ⟨fun header hmem => hfenced.permitted hqueue hpermit hmem, ?_⟩
  intro header hmem header' hmem' hsame
  obtain ⟨⟨t, hleads, hkey⟩, -⟩ := hfenced.permitted hqueue hpermit hmem
  obtain ⟨⟨t', hleads', hkey'⟩, -⟩ := hfenced'.permitted hqueue' hpermit' hmem'
  obtain rfl := hleads.unique portal (hsame ▸ hleads')
  exact hkeys (Option.some.inj (hkey.symm.trans hkey'))

end ProducerState

/-- A portal created in block 2 under its first leader, who is replaced in
block 4. -/
def sampleTransition (n : Nat) : Option LeaderTransition :=
  if n = 2 then some ⟨0, ⟨11#160⟩, 1, 2⟩
  else if n = 4 then some ⟨⟨11#160⟩, ⟨12#160⟩, 2, 4⟩
  else none

def leaderL1 : FinalizedL1 Nat where
  block n :=
    { header := ⟨⟨n, n - 1, 0, []⟩, n⟩
      events := ⟨[], [], (sampleTransition n).toList⟩ }
  number_block _ := rfl
  parentHash_block _ := rfl

theorem latest_sampleTransition (n : Nat) : latestTransition sampleTransition n =
      if n < 2 then none
      else if n < 4 then sampleTransition 2 else sampleTransition 4 := by
  induction n with
  | zero => rfl
  | succ n ih =>
    rw [latestTransition, ih, sampleTransition]
    rcases (by omega : n = 0 ∨ n = 1 ∨ n = 2 ∨ n = 3 ∨ 4 ≤ n) with
      rfl | rfl | rfl | rfl | hlarge
    · rfl
    · rfl
    · rfl
    · rfl
    · have hfour : n + 1 ≠ 2 ∧ n + 1 ≠ 4 ∧ ¬n < 2 ∧ ¬n < 4 ∧ ¬n + 1 < 2 ∧ ¬n + 1 < 4 := by omega
      simp [hfour]

theorem sampleTransition_cases {n : Nat} {t : LeaderTransition} (h : sampleTransition n = some t) :
    n = 2 ∧ t = ⟨0, ⟨11#160⟩, 1, 2⟩ ∨ n = 4 ∧ t = ⟨⟨11#160⟩, ⟨12#160⟩, 2, 4⟩ := by
  unfold sampleTransition at h
  split_ifs at h with htwo hfour
  · exact .inl ⟨htwo, (Option.some.inj h).symm⟩
  · exact .inr ⟨hfour, (Option.some.inj h).symm⟩

def samplePortal : PortalLeaders leaderL1 where
  transition := sampleTransition
  events_eq _ := rfl
  activation_eq n t h := by
    rcases sampleTransition_cases h with ⟨rfl, rfl⟩ | ⟨rfl, rfl⟩
    · rfl
    · rfl
  genesis_eq := rfl
  epoch_succ n previous t hprevious h := by
    rw [latest_sampleTransition] at hprevious
    rcases sampleTransition_cases h with ⟨hn, rfl⟩ | ⟨hn, rfl⟩
    · obtain rfl : n = 1 := by omega
      cases hprevious
    · obtain rfl : n = 3 := by omega
      cases hprevious
      rfl
  deployed n := 2 ≤ n

def sampleManifest : ZoneManifest Nat where
  nodes := [⟨1, some ⟨11#160⟩⟩, ⟨2, some ⟨12#160⟩⟩]
  historicalLeaders := []

/-- The first leader's node, started before the portal existed: block 1 is
queued and the creation in block 2 has just been ingested. -/
def firstProducer : ProducerState Nat Nat where
  node := ⟨⟨leaderL1.numHash 0, []⟩,
    ⟨[leaderL1.block 1], none, some (leaderL1.numHash 1)⟩, none, true⟩
  schedule := ⟨⟨[(0, ⟨1, 1, 0⟩)], List.pairwise_singleton _ _⟩, some 0, none⟩
  historicalReplayThrough := 0
  ingested := some 2

theorem reachable_firstProducer :
    ProducerState.Reachable samplePortal sampleManifest 1 0 firstProducer := by
  have hlaunch : ProducerState.Launch samplePortal sampleManifest ⟨leaderL1.numHash 0, []⟩ _ :=
    .seeded .uninitialized 0 rfl
  exact ⟨_, hlaunch, Relation.ReflTransGen.single (.recover rfl)
    |>.tail (.ingest rfl rfl)
    |>.tail (.enqueue rfl)
    |>.tail (.ingest rfl rfl)⟩

/-- The first leader may import a block of before the portal's creation, when
the portal had no leader. -/
theorem produces_before_creation :
    ∃ (available produced : AvailableTempoImport Nat) (header : SealedHeader Nat),
      ProducerState.Reachable samplePortal sampleManifest 1 0 firstProducer ∧
        available.FromQueue firstProducer.node.queue ∧
        available.applyPermit (firstProducer.permit 1) = .ok produced ∧
        header ∈ produced.tempoImport.headers ∧ samplePortal.leaderAt header.number = none :=
  ⟨⟨leaderL1.block 1, []⟩, ⟨leaderL1.block 1, []⟩, (leaderL1.block 1).header,
    reachable_firstProducer, ⟨rfl, 0, rfl⟩, rfl, List.mem_singleton_self _, rfl⟩

/-- The second leader's node, started at block 3. -/
def secondProducer : ProducerState Nat Nat where
  node := ⟨⟨leaderL1.numHash 3, []⟩,
    ⟨[leaderL1.block 4], none, some (leaderL1.numHash 4)⟩, none, true⟩
  schedule := ⟨⟨[(0, ⟨1, 1, 0⟩), (4, ⟨2, 2, 4⟩)], by simp⟩, some 3, none⟩
  historicalReplayThrough := 0
  ingested := none

theorem reachable_secondProducer : ProducerState.Reachable samplePortal sampleManifest 2 3
      secondProducer := by
  have hlaunch : ProducerState.Launch samplePortal sampleManifest ⟨leaderL1.numHash 3, []⟩ _ :=
    .seeded ⟨⟨[(0, ⟨1, 1, 0⟩)], List.pairwise_singleton _ _⟩, none, none⟩ 0 rfl
  exact ⟨_, hlaunch, Relation.ReflTransGen.single (.recover rfl)
    |>.tail (.ingest rfl rfl)
    |>.tail (.enqueue rfl)⟩

/-- Both leaders of the sample get a permit, for different blocks. -/
theorem production_exclusive_handover :
    let first : AvailableTempoImport Nat := ⟨leaderL1.block 1, []⟩
    let second : AvailableTempoImport Nat :=
      ⟨leaderL1.block 4, [(leaderL1.block 4).header]⟩
    first.applyPermit (firstProducer.permit 1) = .ok first ∧
      second.applyPermit (secondProducer.permit 2) = .ok second ∧
      ∀ header ∈ first.tempoImport.headers, ∀ header' ∈ second.tempoImport.headers,
          header.number ≠ header'.number := by
  intro first second
  have hfirst : first.applyPermit (firstProducer.permit 1) = .ok first := rfl
  have hsecond : second.applyPermit (secondProducer.permit 2) = .ok second := rfl
  exact ⟨hfirst, hsecond, (ProducerState.production_exclusive (by decide)
    reachable_firstProducer reachable_secondProducer ⟨rfl, 0, rfl⟩ hfirst ⟨rfl, 1, rfl⟩ hsecond).2⟩

end Tempo.ZoneNode
