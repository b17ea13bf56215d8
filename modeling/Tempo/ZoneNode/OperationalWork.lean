/-
One zone node over its lifetime: Tempo blocks are enqueued, consumed as leader
or as follower, delivered again, and the node restarts.  In every reachable
state the portal work offered to the next full block is the work since the
last one.
-/
import Tempo.ZoneNode.QueueInvariant
import Tempo.ZoneNode.ZoneChain

namespace Tempo.ZoneNode

open PendingDeposits

variable {H : Type} [DecidableEq H]

structure NodeState (H : Type) where
  chain : ZoneChain H
  queue : PendingDeposits H
  /-- First Tempo block whose work the restarted queue lacks. -/
  deferredWorkStart : Option Nat
  /-- The subscriber enqueues only after recovery has succeeded. -/
  following : Bool

/-- What the leader does with the queue after building a block. -/
def consumeProduced (i : TempoImport H) : QueueExec H Unit :=
  match i with
  | .checkpointOnly _ _ => deferThrough i.anchor
  | .full _ => confirmOperational i.anchor

/-- What a follower does with the queue once a block is canonical, and again
whenever the same block is delivered. -/
def reconcileCanonicalImport (i : TempoImport H) : QueueExec H Unit :=
  match i with
  | .checkpointOnly _ _ => deferThrough i.anchor
  | .full _ => confirmOperationalThrough i.anchor

/-- The leader imports a run of headers from the front of its queue, or the
front block with all its work. -/
def Produces (queue : PendingDeposits H) : TempoImport H → Prop
  | .checkpointOnly headers _ => ∃ count, headers = queue.peekHeaders count
  | .full header => ∃ front, queue.peek = some front ∧ header = front.header

/-- A follower imports finalized headers after the local checkpoint, all of
them enqueued before. -/
def Follows (l1 : FinalizedL1 H) (s : NodeState H) (i : TempoImport H) : Prop :=
  ∃ anchor last, s.queue.lastEnqueued = some last ∧ anchor ≤ last.number ∧
    i.headers = (l1.between s.chain.tempoNumHash.number anchor).map (·.header)

namespace NodeState

/-- A node started on a chain. -/
def launch (chain : ZoneChain H) : NodeState H where
  chain := chain
  queue := .empty
  deferredWorkStart :=
    if chain.latestOperationalTempoBlock < chain.tempoNumHash.number then
      some (chain.latestOperationalTempoBlock + 1)
    else none
  following := false

/-- The events of a node's life.  A restart may lose blocks that were not yet
persisted. -/
inductive Step (l1 : FinalizedL1 H) : NodeState H → NodeState H → Prop where
  | recover {s : NodeState H} {queue : PendingDeposits H}
      (hrecover : Yields (recoverDeferredWork l1 s.deferredWorkStart
        s.chain.tempoNumHash) s.queue () queue) :
      Step l1 s { s with queue := queue, following := true }
  | enqueue {s : NodeState H} (n : Nat) (hfollowing : s.following = true)
      (hfirst : s.queue.lastEnqueued = none → n = s.chain.tempoNumHash.number + 1) :
      Step l1 s
        { s with
          queue := finalState (tryEnqueueSealed (l1.block n)) s.queue }
  | produce {s : NodeState H} (block : ZoneBlock H)
      (hproduces : Produces s.queue block.tempoImport) :
      Step l1 s
        { s with
          chain := s.chain.push block
          queue := finalState (consumeProduced block.tempoImport) s.queue }
  | follow {s : NodeState H} (block : ZoneBlock H) (hfollows : Follows l1 s block.tempoImport) :
      Step l1 s
        { s with
          chain := s.chain.push block
          queue := finalState (reconcileCanonicalImport block.tempoImport) s.queue }
  | redeliver {s : NodeState H} (block : ZoneBlock H) (hmem : block ∈ s.chain.blocks) :
      Step l1 s
        { s with
          queue := finalState (reconcileCanonicalImport block.tempoImport) s.queue }
  | restart {s : NodeState H} (lost : Nat) :
      Step l1 s (launch (s.chain.unwind lost))

/-- The states of a node whose zone was created at the Tempo block
`genesis`. -/
def Reachable (l1 : FinalizedL1 H) (genesis : Nat) : NodeState H → Prop :=
  Relation.ReflTransGen (Step l1) (launch ⟨l1.numHash genesis, []⟩)

/-- The queue of a node whose chain has consumed Tempo up to `consumed` and
processed it up to `operational`: empty until the subscriber follows. -/
inductive QueueStatus (l1 : FinalizedL1 H) (operational consumed : Nat) :
    Nat → NodeState H → Prop where
  | fresh {s : NodeState H} (hqueue : s.queue = .empty) (hfollowing : s.following = false)
      (hstart : s.deferredWorkStart =
        if operational < consumed then some (operational + 1) else none) :
      QueueStatus l1 operational consumed consumed s
  | following {tip : Nat} {s : NodeState H} (hstep : InStep l1 operational consumed tip s.queue)
      (hstart : s.deferredWorkStart = none ∨ s.queue.lastEnqueued ≠ none) :
      QueueStatus l1 operational consumed tip s

/-- A node whose chain imports finalized Tempo and whose queue is in step with
its chain. -/
structure Synced (l1 : FinalizedL1 H) (genesis operational consumed tip : Nat)
    (s : NodeState H) : Prop where
  genesis_eq : s.chain.genesis = l1.numHash genesis
  anchored : Anchored l1 genesis s.chain.blocks operational consumed
  queue : QueueStatus l1 operational consumed tip s

end NodeState

omit [DecidableEq H] in
theorem not_produces_empty (i : TempoImport H) : ¬Produces .empty i := by
  cases i with
  | full header => simp [Produces, peek, empty]
  | checkpointOnly headers nonempty =>
    simp [Produces, peekHeaders, empty, nonempty]

section Reconcile

variable {l1 : FinalizedL1 H} {genesis operational consumed tip : Nat}
  {q : PendingDeposits H} {blocks : List (ZoneBlock H)} {block : ZoneBlock H}

theorem InStep.produce (h : InStep l1 operational consumed tip q)
    (hchain : Anchored l1 genesis blocks operational consumed)
    (hproduces : Produces q block.tempoImport) :
    ∃ operational' consumed' q', consumed < consumed' ∧
      Yields (consumeProduced block.tempoImport) q () q' ∧ q'.lastEnqueued = q.lastEnqueued ∧
        Anchored l1 genesis (block :: blocks) operational' consumed' ∧
          InStep l1 operational' consumed' tip q' := by
  cases himport : block.tempoImport with
  | full header =>
    rw [himport] at hproduces
    obtain ⟨front, hfront, rfl⟩ := hproduces
    have hlt : consumed < tip := by
      by_contra hge
      obtain rfl : consumed = tip := by
        have := h.le_tip
        omega
      simp [PendingDeposits.peek, h.pending] at hfront
    have hblock : front = l1.block (consumed + 1) := by
      rw [PendingDeposits.peek, h.pending, l1.between_cons hlt] at hfront
      exact (Option.some.inj hfront).symm
    subst hblock
    obtain ⟨q', hyields, hlast, hstep⟩ := h.confirmOperational hlt
    exact ⟨_, _, q', Nat.lt_succ_self _, hyields, hlast, .full hchain himport, hstep⟩
  | checkpointOnly headers nonempty =>
    rw [himport] at hproduces
    obtain ⟨count, hheaders⟩ := hproduces
    rw [PendingDeposits.peekHeaders, h.pending, l1.take_between] at hheaders
    obtain ⟨hlt, hanchor⟩ := l1.anchor_eq (i := .checkpointOnly headers nonempty) hheaders
    obtain ⟨q', hyields, hlast, hstep⟩ := h.deferThrough hlt.le (min_le_right _ _)
    rw [consumeProduced, hanchor]
    refine ⟨_, _, q', hlt, hyields, hlast, .checkpointOnly hchain hlt ?_ ?_, hstep⟩
    · rw [himport]
      rfl
    · rw [himport]
      exact hheaders

omit [DecidableEq H] in
/-- The leader's headers are those of the blocks in its queue. -/
theorem InStep.bounds_of_produces (h : InStep l1 operational consumed tip q)
    {i : TempoImport H} (hproduces : Produces q i) {header : SealedHeader H}
    (hmem : header ∈ i.headers) : consumed < header.number ∧ header.number ≤ tip := by
  have hqueued : ∃ block ∈ q.pending, block.header = header := by
    cases i with
    | full front =>
      obtain ⟨block, hpeek, rfl⟩ := hproduces
      obtain rfl := List.mem_singleton.mp hmem
      exact ⟨block, List.mem_of_mem_head? hpeek, rfl⟩
    | checkpointOnly headers nonempty =>
      obtain ⟨count, rfl⟩ := hproduces
      obtain ⟨block, hblock, rfl⟩ := List.mem_map.mp hmem
      exact ⟨block, List.mem_of_mem_take hblock, rfl⟩
  obtain ⟨block, hblock, rfl⟩ := hqueued
  rw [h.pending, l1.mem_between] at hblock
  obtain ⟨n, hlow, hhigh, rfl⟩ := hblock
  rw [l1.number_block]
  exact ⟨hlow, hhigh⟩

/-- A new block that a follower has made canonical. -/
theorem InStep.follow (h : InStep l1 operational consumed tip q)
    (hchain : Anchored l1 genesis blocks operational consumed) {anchor : Nat}
    (hanchor : anchor ≤ tip) (hheaders : block.tempoImport.headers =
      (l1.between consumed anchor).map (·.header)) :
    ∃ operational' consumed' q', consumed < consumed' ∧
      Yields (reconcileCanonicalImport block.tempoImport) q () q' ∧
        q'.lastEnqueued = q.lastEnqueued ∧
        Anchored l1 genesis (block :: blocks) operational' consumed' ∧
          InStep l1 operational' consumed' tip q' := by
  obtain ⟨hlt, heq⟩ := l1.anchor_eq hheaders
  cases himport : block.tempoImport with
  | full header =>
    rw [himport] at heq hheaders
    obtain ⟨q', hyields, hlast, hstep⟩ := h.confirmOperationalThrough hlt hanchor
    have hnext : anchor = consumed + 1 := by
      have hlength := congrArg List.length hheaders
      simp only [TempoImport.headers, List.length_map, l1.length_between,
        List.length_singleton] at hlength
      omega
    subst hnext
    rw [reconcileCanonicalImport, heq]
    refine ⟨_, _, q', hlt, hyields, hlast, .full hchain ?_, hstep⟩
    rw [l1.between_succ] at hheaders
    rw [himport, List.head_eq_of_cons_eq hheaders]
  | checkpointOnly headers nonempty =>
    rw [himport] at heq hheaders
    obtain ⟨q', hyields, hlast, hstep⟩ := h.deferThrough hlt.le hanchor
    rw [reconcileCanonicalImport, heq]
    refine ⟨_, _, q', hlt, hyields, hlast, .checkpointOnly hchain hlt ?_ ?_, hstep⟩
    · rw [himport]
      rfl
    · rw [himport]
      exact hheaders

/-- A canonical block delivered again changes nothing. -/
theorem InStep.redeliver (h : InStep l1 operational consumed tip q)
    (hchain : Anchored l1 genesis blocks operational consumed) (hmem : block ∈ blocks) :
    Yields (reconcileCanonicalImport block.tempoImport) q () q := by
  obtain ⟨a, hle, hanchor, hoperational⟩ := hchain.of_mem hmem
  cases himport : block.tempoImport with
  | full header =>
    rw [himport] at hanchor hoperational
    rw [reconcileCanonicalImport, hanchor]
    exact h.confirmOperationalThrough_old (hoperational (by simp [TempoImport.operationalNumber]))
  | checkpointOnly headers nonempty =>
    rw [himport] at hanchor
    rw [reconcileCanonicalImport, hanchor]
    exact h.deferThrough_old hle

/-- Nor does it before the subscriber follows. -/
theorem reconcileCanonicalImport_empty (i : TempoImport H) :
    Yields (reconcileCanonicalImport i) .empty () .empty := by
  cases i with
  | full header | checkpointOnly headers nonempty =>
    exact yields_bind.mpr ⟨(), .empty, rfl, rfl⟩

end Reconcile

namespace NodeState

variable {l1 : FinalizedL1 H} {genesis : Nat} {s s' : NodeState H}

/-- Recovery leaves a fresh node in step with its chain, and a following one
alone. -/
theorem QueueStatus.recover {operational consumed tip : Nat}
    (h : QueueStatus l1 operational consumed tip s)
    (hle : operational ≤ consumed) {queue : PendingDeposits H}
    (hrecover : Yields (recoverDeferredWork l1 s.deferredWorkStart
      (l1.numHash consumed)) s.queue () queue) :
    QueueStatus l1 operational consumed tip { s with queue := queue, following := true } := by
  cases h with
  | fresh hqueue hfollowing hstart =>
    rw [hstart, hqueue] at hrecover
    split_ifs at hrecover with hlt
    · obtain ⟨q', hyields, hstep⟩ := InStep.recoverDeferredWork l1 hlt
      obtain rfl : q' = queue := hyields.finalState_eq.symm.trans hrecover.finalState_eq
      refine .following hstep (.inr ?_)
      rcases hstep.last with hlast | ⟨-, hop, -⟩
      · exact fun hnone => Option.some_ne_none _ (hlast.symm.trans hnone)
      · exact absurd hop hlt.ne
    · obtain ⟨-, rfl⟩ := hrecover.pure
      obtain rfl : operational = consumed := by omega
      refine .following (InStep.empty l1 operational) (.inl ?_)
      rw [hstart, if_neg hlt]
  | following hstep hstart =>
    have hsame : queue = s.queue := by
      cases hdeferred : s.deferredWorkStart with
      | none =>
        rw [hdeferred] at hrecover
        exact (hrecover.pure).2.symm
      | some start =>
        have hsome : s.queue.lastEnqueued.isSome := by
          rw [Option.isSome_iff_ne_none]
          exact hstart.resolve_left (by simp [hdeferred])
        rw [hdeferred, recoverDeferredWork] at hrecover
        simp only [yields_steps, hsome, ↓reduceIte] at hrecover
        exact hrecover.2.symm
    subst hsame
    exact .following hstep hstart

/-! One lemma for each event: what it does to the chain's boundaries and to
the end of the queue. -/

namespace Synced

variable {operational consumed tip : Nat}

omit [DecidableEq H] in
theorem launch {chain : ZoneChain H} (hgenesis : chain.genesis = l1.numHash genesis)
    (hanchored : Anchored l1 genesis chain.blocks operational consumed) :
    Synced l1 genesis operational consumed consumed (.launch chain) := by
  refine ⟨hgenesis, hanchored, .fresh rfl rfl ?_⟩
  rw [NodeState.launch, chain.latestOperationalTempoBlock_eq, hanchored.lastFullImport hgenesis,
    hanchored.tempoNumHash hgenesis, l1.number_numHash]

omit [DecidableEq H] in
theorem tempoNumHash (h : Synced l1 genesis operational consumed tip s) :
    s.chain.tempoNumHash = l1.numHash consumed := h.anchored.tempoNumHash h.genesis_eq

theorem recover (h : Synced l1 genesis operational consumed tip s) {queue : PendingDeposits H}
    (hrecover : Yields (recoverDeferredWork l1 s.deferredWorkStart
      s.chain.tempoNumHash) s.queue () queue) :
    Synced l1 genesis operational consumed tip { s with queue := queue, following := true } := by
  rw [h.tempoNumHash] at hrecover
  exact ⟨h.genesis_eq, h.anchored, h.queue.recover h.anchored.le hrecover⟩

theorem enqueue (h : Synced l1 genesis operational consumed tip s) {n : Nat}
    (hfollowing : s.following = true) (hfirst : s.queue.lastEnqueued = none →
      n = s.chain.tempoNumHash.number + 1) :
    ∃ tip', (tip' = tip ∨ tip' = tip + 1) ∧ Synced l1 genesis operational consumed tip'
        { s with
          queue := finalState (tryEnqueueSealed (l1.block n)) s.queue } := by
  rw [h.tempoNumHash, l1.number_numHash] at hfirst
  cases h.queue with
  | fresh hempty hnot hstart => simp [hnot] at hfollowing
  | following hin hstart =>
    rcases hin.tryEnqueueSealed hfirst with hsame | ⟨rfl, hnext⟩
    · rw [hsame]
      exact ⟨tip, .inl rfl, h.genesis_eq, h.anchored, .following hin hstart⟩
    · exact ⟨tip + 1, .inr rfl, h.genesis_eq, h.anchored,
        .following hnext (.inr (hnext.lastEnqueued_ne_none (Nat.lt_succ_of_le hin.le_tip)))⟩

variable {block : ZoneBlock H}

theorem produce (h : Synced l1 genesis operational consumed tip s)
    (hproduces : Produces s.queue block.tempoImport) :
    ∃ operational' consumed', consumed < consumed' ∧ Synced l1 genesis operational' consumed' tip
        { s with
          chain := s.chain.push block
          queue := finalState (consumeProduced block.tempoImport) s.queue } := by
  cases h.queue with
  | fresh hempty hnot hstart =>
    exact absurd (hempty ▸ hproduces) (not_produces_empty _)
  | following hin hstart =>
    obtain ⟨operational', consumed', q', hlt, hyields, hlast, hchain',
      hin'⟩ := hin.produce h.anchored hproduces
    rw [hyields.finalState_eq]
    exact ⟨operational', consumed', hlt, h.genesis_eq, hchain', .following hin' (hlast ▸ hstart)⟩

theorem follow (h : Synced l1 genesis operational consumed tip s)
    (hfollows : Follows l1 s block.tempoImport) :
    ∃ operational' consumed', consumed < consumed' ∧ Synced l1 genesis operational' consumed' tip
        { s with
          chain := s.chain.push block
          queue := finalState (reconcileCanonicalImport block.tempoImport) s.queue } := by
  obtain ⟨anchor, last, hlast, hle, hheaders⟩ := hfollows
  rw [h.tempoNumHash, l1.number_numHash] at hheaders
  cases h.queue with
  | fresh hempty hnot hstart => simp [hempty, empty] at hlast
  | following hin hstart =>
    obtain ⟨operational', consumed', q', hlt, hyields, hsame, hchain',
      hin'⟩ := hin.follow h.anchored (hin.le_last hlast hle) hheaders
    rw [hyields.finalState_eq]
    exact ⟨operational', consumed', hlt, h.genesis_eq, hchain', .following hin' (hsame ▸ hstart)⟩

theorem redeliver (h : Synced l1 genesis operational consumed tip s)
    (hmem : block ∈ s.chain.blocks) :
    Synced l1 genesis operational consumed tip
      { s with
        queue := finalState (reconcileCanonicalImport block.tempoImport) s.queue } := by
  refine ⟨h.genesis_eq, h.anchored, ?_⟩
  cases h.queue with
  | fresh hempty hnot hstart =>
    rw [hempty, (reconcileCanonicalImport_empty _).finalState_eq]
    exact .fresh rfl hnot hstart
  | following hin hstart =>
    rw [(hin.redeliver h.anchored hmem).finalState_eq]
    exact .following hin hstart

omit [DecidableEq H] in
theorem restart (h : Synced l1 genesis operational consumed tip s) (lost : Nat) :
    ∃ operational' consumed', Synced l1 genesis operational' consumed' consumed'
        (.launch (s.chain.unwind lost)) := by
  obtain ⟨operational', consumed', hkept⟩ := h.anchored.unwind lost
  exact ⟨operational', consumed', launch h.genesis_eq hkept⟩

end Synced

theorem Reachable.synced (h : Reachable l1 genesis s) :
    ∃ operational consumed tip, Synced l1 genesis operational consumed tip s := by
  induction h with
  | refl => exact ⟨genesis, genesis, genesis, .launch rfl .genesis⟩
  | tail _ hstep ih =>
    obtain ⟨operational, consumed, tip, hs⟩ := ih
    cases hstep with
    | recover hrecover => exact ⟨_, _, _, hs.recover hrecover⟩
    | enqueue n hfollowing hfirst =>
      obtain ⟨tip', -, hs'⟩ := hs.enqueue hfollowing hfirst
      exact ⟨_, _, _, hs'⟩
    | produce block hproduces =>
      obtain ⟨_, _, -, hs'⟩ := hs.produce hproduces
      exact ⟨_, _, _, hs'⟩
    | follow block hfollows =>
      obtain ⟨_, _, -, hs'⟩ := hs.follow hfollows
      exact ⟨_, _, _, hs'⟩
    | redeliver block hmem => exact ⟨_, _, _, hs.redeliver hmem⟩
    | restart lost =>
      obtain ⟨_, _, hs'⟩ := hs.restart lost
      exact ⟨_, _, _, hs'⟩

/-- Work offered for the next full block is the work of the finalized blocks
after the last full import, in order. -/
theorem operationalWork_exactly_once (hrun : Reachable l1 genesis s)
    {anchor : NumHash H} {work : List (L1BlockDeposits H)}
    (hwork : s.queue.operationalWork anchor = .ok work) :
    anchor = l1.numHash (s.chain.tempoNumHash.number + 1) ∧ work.flatMap (·.events.deposits) =
        (l1.between s.chain.lastFullImport anchor.number).flatMap (·.events.deposits) ∧
      work.flatMap (·.events.enabledTokens) =
        (l1.between s.chain.lastFullImport anchor.number).flatMap (·.events.enabledTokens) := by
  obtain ⟨operational, consumed, tip, hgenesis, hanchored, hqueue⟩ := hrun.synced
  cases hqueue with
  | fresh hempty hnot hstart =>
    rw [hempty] at hwork
    exact nomatch hwork
  | following hin hstart =>
    obtain ⟨rfl, -, hitems⟩ := hin.operationalWork hwork
    rw [hanchored.tempoNumHash hgenesis, hanchored.lastFullImport hgenesis,
      l1.number_numHash, l1.number_numHash]
    exact ⟨rfl, hitems _ workItems_deposits, hitems _ workItems_enabledTokens⟩

end NodeState

/-- Finalized Tempo in which every block bounces one withdrawal back and
enables one token. -/
def sampleL1 : FinalizedL1 Nat where
  block n :=
    { header := ⟨⟨n, n - 1, 0, []⟩, n⟩
      events :=
        { deposits := [.withdrawalBounceBack ⟨Zones.zoneInboxAddress,
            Zones.zoneInboxAddress, n⟩]
          enabledTokens := [⟨Zones.zoneInboxAddress, n.repr, "TKN", "USD"⟩]
          leaderTransitions := [] } }
  number_block _ := rfl
  parentHash_block _ := rfl

/-- A zone block that imports the header of Tempo block 1 only. -/
def sampleCheckpoint : ZoneBlock Nat where
  tempoImport := .checkpointOnly [(sampleL1.block 1).header] (by simp)
  receipts := some [[⟨Zones.zoneInboxAddress, .other⟩]]
  recorded := by decide

/-- The node after a checkpoint block, a restart, and the next Tempo block. -/
def sampleNode : NodeState Nat where
  chain := ⟨sampleL1.numHash 0, [sampleCheckpoint]⟩
  queue :=
    { pending := [sampleL1.block 2]
      deferred := some (.new (sampleL1.block 1))
      lastEnqueued := some (sampleL1.numHash 2) }
  deferredWorkStart := some 1
  following := true

namespace NodeState

theorem reachable_sampleNode : Reachable sampleL1 0 sampleNode := by
  have hfirst : Step sampleL1 (launch ⟨sampleL1.numHash 0, []⟩) _ := .recover rfl
  exact Relation.ReflTransGen.single hfirst
    |>.tail (.enqueue 1 rfl fun _ => rfl)
    |>.tail (.produce sampleCheckpoint ⟨1, rfl⟩)
    |>.tail (.restart 0)
    |>.tail (.recover rfl)
    |>.tail (.enqueue 2 rfl nofun)

/-- After the restart the next full block owes the work of both blocks. -/
theorem operationalWork_exactly_once_restarted :
    ∃ work, sampleNode.queue.operationalWork (sampleL1.numHash 2) = .ok work ∧
      work.flatMap (·.events.deposits) = (sampleL1.between 0 2).flatMap (·.events.deposits) := by
  have hwork : sampleNode.queue.operationalWork (sampleL1.numHash 2) =
      .ok [(DeferredPortalWork.new (sampleL1.block 1)).aggregatedBlock, sampleL1.block 2] := rfl
  exact ⟨_, hwork, (operationalWork_exactly_once reachable_sampleNode hwork).2.1⟩

end NodeState

end Tempo.ZoneNode
