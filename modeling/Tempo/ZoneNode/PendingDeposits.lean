/-
The queue of finalized Tempo blocks a zone still has to process.  Blocks that
were imported by their header only leave their portal work in a side buffer,
which the next full import consumes.
-/
import Tempo.Library.Exec
import Tempo.ZoneNode.L1Blocks

namespace Tempo.ZoneNode

variable {H : Type}

/-- Portal work crossed by checkpoint-only zone blocks. -/
structure DeferredPortalWork (H : Type) where
  lastHeader : SealedHeader H
  eventBlocks : List L1PortalEvents
  deriving DecidableEq, Repr

namespace DeferredPortalWork

/-- Blocks without deposits and token enablements leave no trace. -/
def pushEvents (eventBlocks : List L1PortalEvents) (events : L1PortalEvents) :
    List L1PortalEvents :=
  if events.deposits.isEmpty ∧ events.enabledTokens.isEmpty then eventBlocks
  else eventBlocks ++ [events]

def new (block : L1BlockDeposits H) : DeferredPortalWork H :=
  ⟨block.header, pushEvents [] block.events⟩

def push (work : DeferredPortalWork H) (block : L1BlockDeposits H) : DeferredPortalWork H :=
  ⟨block.header, pushEvents work.eventBlocks block.events⟩

def aggregatedBlock (work : DeferredPortalWork H) : L1BlockDeposits H where
  header := work.lastHeader
  events := work.eventBlocks.foldl L1PortalEvents.extendOperational .empty

end DeferredPortalWork

structure PendingDeposits (H : Type) where
  /-- Blocks not yet processed by the zone. -/
  pending : List (L1BlockDeposits H)
  /-- Work owed by the next full block. -/
  deferred : Option (DeferredPortalWork H)
  /-- Highest block ever enqueued. -/
  lastEnqueued : Option (NumHash H)
  deriving DecidableEq, Repr

inductive QueueError (H : Type) where
  | outOfOrder (number latest : Nat)
  | conflictingBlock (number : Nat) (existing received : H)
  | numberOverflow
  | nonContiguous (expected received : Nat)
  | parentMismatch (number : Nat) (expected received : H)
  | emptyQueue
  | confirmationMismatch (expected front : NumHash H)
  | consumedConflict (number : Nat) (queued consumed : H)
  | deferredConflict (number : Nat) (deferred consumed : H)
  | anchorMismatch (expected front : NumHash H)
  | nonemptyQueue
  | emptyRange
  | recoveredMismatch (range checkpoint : NumHash H)
  deriving DecidableEq, Repr

abbrev QueueExec (H : Type) := EStateM (QueueError H) (PendingDeposits H)

namespace PendingDeposits

def empty : PendingDeposits H :=
  ⟨[], none, none⟩

variable [DecidableEq H]

/-- Append a finalized block; false for the current tip seen again. -/
def tryEnqueue (block : L1BlockDeposits H) : QueueExec H Bool := do
  let header := block.header
  let last ← reads (·.lastEnqueued)
  match last with
  | none =>
    updates fun q =>
      { q with
        lastEnqueued := some header.numHash
        pending := q.pending ++ [block] }
    pure true
  | some last =>
    require (¬header.number < last.number) (.outOfOrder header.number last.number)
    if header.number = last.number then do
      require (header.hash = last.hash) (.conflictingBlock header.number last.hash header.hash)
      pure false
    else do
      require (last.number + 1 < 2 ^ 64) .numberOverflow
      require (header.number = last.number + 1) (.nonContiguous (last.number + 1) header.number)
      require (header.parentHash = last.hash)
        (.parentMismatch header.number last.hash header.parentHash)
      updates fun q =>
        { q with
          lastEnqueued := some header.numHash
          pending := q.pending ++ [block] }
      pure true

/-- The entry point of the subscriber: a block that is still pending is
recognised first. -/
def tryEnqueueSealed (block : L1BlockDeposits H) : QueueExec H Bool := do
  let header := block.header
  let queued ← reads fun q =>
    q.pending.find? fun queued => queued.header.number = header.number
  match queued with
  | some queued =>
    require (queued.header.hash = header.hash)
      (.conflictingBlock header.number queued.header.hash header.hash)
    pure false
  | none => tryEnqueue block

def peek (q : PendingDeposits H) : Option (L1BlockDeposits H) :=
  q.pending.head?

def peekHeaders (q : PendingDeposits H) (maximum : Nat) : List (SealedHeader H) :=
  (q.pending.take maximum).map (·.header)

def confirm (expected : NumHash H) : QueueExec H (L1BlockDeposits H) := do
  let front ← reads (·.pending.head?)
  let front ← orFail front .emptyQueue
  require (front.header.numHash = expected) (.confirmationMismatch expected front.header.numHash)
  updates fun q => { q with pending := q.pending.tail }
  pure front

/-- Move the front block to the deferred work. -/
def deferBlock (deferred : Option (DeferredPortalWork H))
    (block : L1BlockDeposits H) : Option (DeferredPortalWork H) :=
  match deferred with
  | some work => some (work.push block)
  | none => some (.new block)

/-- The loop of `deferThrough`; on a conflict the blocks before it have
already been moved. -/
def deferLoop (expected : NumHash H) (lastEnqueued : Option (NumHash H)) :
    List (L1BlockDeposits H) → Option (DeferredPortalWork H) →
      EStateM.Result (QueueError H) (PendingDeposits H) Unit
  | [], deferred => .ok () ⟨[], deferred, lastEnqueued⟩
  | block :: rest, deferred =>
    let front := block.header.numHash
    if expected.number < front.number then
      .ok () ⟨block :: rest, deferred, lastEnqueued⟩
    else if front.number < expected.number ∨ front.hash = expected.hash then
      deferLoop expected lastEnqueued rest (deferBlock deferred block)
    else
      .error (.consumedConflict front.number front.hash expected.hash)
        ⟨block :: rest, deferred, lastEnqueued⟩

/-- Defer every pending block through a canonical checkpoint anchor. -/
def deferThrough (expected : NumHash H) : QueueExec H Unit := do
  fun q => deferLoop expected q.lastEnqueued q.pending q.deferred
  let deferred ← reads (·.deferred)
  match deferred with
  | none => pure ()
  | some work =>
    require (work.lastHeader.number = expected.number → work.lastHeader.hash = expected.hash)
      (.deferredConflict expected.number work.lastHeader.hash expected.hash)

/-- Deferred portal work followed by the current block. -/
def operationalWork (q : PendingDeposits H) (expected : NumHash H) :
    Except (QueueError H) (List (L1BlockDeposits H)) :=
  match q.pending.head? with
  | none => .error .emptyQueue
  | some current =>
    if current.header.numHash = expected then
      .ok ((q.deferred.map (·.aggregatedBlock)).toList ++ [current])
    else .error (.anchorMismatch expected current.header.numHash)

/-- Confirm a full import and release the deferred work it consumed. -/
def confirmOperational (expected : NumHash H) : QueueExec H Unit := do
  let _ ← confirm expected
  updates fun q => { q with deferred := none }

/-- The loop of `confirmOperationalThrough`. -/
def confirmLoop (expected : NumHash H) (deferred : Option (DeferredPortalWork H))
    (lastEnqueued : Option (NumHash H)) :
    List (L1BlockDeposits H) → EStateM.Result (QueueError H) (PendingDeposits H) Unit
  | [] => .ok () ⟨[], deferred, lastEnqueued⟩
  | block :: rest =>
    let front := block.header.numHash
    if expected.number < front.number then
      .ok () ⟨block :: rest, deferred, lastEnqueued⟩
    else if front.number < expected.number ∨ front.hash = expected.hash then
      confirmLoop expected deferred lastEnqueued rest
    else
      .error (.consumedConflict front.number front.hash expected.hash)
        ⟨block :: rest, deferred, lastEnqueued⟩

/-- Confirm every pending block through a canonical full import.  Work
deferred by newer blocks stays. -/
def confirmOperationalThrough (expected : NumHash H) : QueueExec H Unit := do
  fun q => confirmLoop expected q.deferred q.lastEnqueued q.pending
  updates fun q =>
    { q with
      deferred := q.deferred.filter fun work => expected.number < work.lastHeader.number }

/-- Seed the work found on restart. -/
def restoreDeferred (work : DeferredPortalWork H) : QueueExec H Unit := do
  let q ← reads id
  require (q.pending.isEmpty ∧ q.deferred.isNone ∧ q.lastEnqueued.isNone) .nonemptyQueue
  updates fun q =>
    { q with
      lastEnqueued := some work.lastHeader.numHash
      deferred := some work }

end PendingDeposits

/-- The finalized blocks of an inclusive range, as fetched over RPC. -/
def FinalizedL1.fetchL1Blocks (l1 : FinalizedL1 H) (first last : Nat) : List (L1BlockDeposits H) :=
  (List.range' first (last + 1 - first)).map l1.block

/-- Rebuild the work that the last checkpoint-only zone blocks left behind. -/
def recoverDeferredWork [DecidableEq H] (l1 : FinalizedL1 H)
    (deferredWorkStart : Option Nat) (checkpoint : NumHash H) : QueueExec H Unit := do
  match deferredWorkStart with
  | none => pure ()
  | some start =>
    let lastEnqueued ← reads (·.lastEnqueued)
    if lastEnqueued.isSome then pure ()
    else if checkpoint.number < start then pure ()
    else do
      let blocks := l1.fetchL1Blocks start checkpoint.number
      let work ← orFail (blocks.foldl PendingDeposits.deferBlock none) .emptyRange
      require (work.lastHeader.numHash = checkpoint)
        (.recoveredMismatch work.lastHeader.numHash checkpoint)
      PendingDeposits.restoreDeferred work

end Tempo.ZoneNode
