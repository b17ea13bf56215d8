/-
The log answers of a zone's redacted RPC.  A filter is narrowed to its caller
before the chain is read, the logs found are filtered again, and the fields that
would count the logs of others are numbered anew.
-/
import Tempo.Library.Bytes
import Tempo.Tip20.State

namespace Tempo.ZoneRpc

open Function List

def transferTopic : B256 :=
  0xddf252ad1be2c89b69c2b068fc378daa952ba7f163c4a11628f55a4df523b3ef#256

def approvalTopic : B256 :=
  0x8c5be1e5ebec7d5bd14f71427d1e84f3dd0314c0f7b2291e5b200ac8c7c3b925#256

def transferWithMemoTopic : B256 :=
  0x57bc7354aa85aed339e000bccffabbc529466af35f0772c8f8ee1145927de7f0#256

def mintTopic : B256 :=
  0x0f6798a560793a54c3bcfe86a93cde1e73087d944c0ea20544137d4121396885#256

def burnTopic : B256 :=
  0xcc16f5dbb4873280815c1ee09dbd06736cffcc184412cf7a71a0fdb75d397ca5#256

def transferBlockedTopic : B256 :=
  0x361d86e46fd139dc3eac4148f16b53597f0f8ddd9aba772aae0034bda5531b1c#256

def whitelistedTopics : Finset B256 :=
  {transferTopic, approvalTopic, transferWithMemoTopic, mintTopic, burnTopic,
    transferBlockedTopic}

def twoPartyTopics : Finset B256 :=
  {transferTopic, approvalTopic, transferWithMemoTopic, transferBlockedTopic}

/-- The address as an indexed topic. -/
def intoWord (a : Address) : B256 :=
  a.word.setWidth 256

def ofWord (word : B256) : Address :=
  ⟨word.setWidth 160⟩

structure Header where
  number : Nat
  hash : B256
  timestamp : Nat
  deriving DecidableEq

structure LogData where
  address : Address
  topics : List B256
  data : Bytes
  deriving DecidableEq

structure Log extends LogData where
  header : Header
  transactionHash : Option B256
  transactionIndex : Option Nat
  logIndex : Option Nat
  removed : Bool
  deriving DecidableEq

structure Receipt where
  transactionHash : B256
  transactionIndex : Option Nat
  gasUsed : Nat
  cumulativeGasUsed : Nat
  logs : List Log
  logsBloom : Nat
  deriving DecidableEq

/-- A block with the receipts that the node has built of it, each with the logs
of its transaction. -/
structure Block where
  header : Header
  receipts : List Receipt
  logs_own : ∀ r ∈ receipts, r.logs.Nodup ∧
    ∀ log ∈ r.logs, log.transactionHash = some r.transactionHash ∧ log.removed = false

structure JsonRpcError where
  code : Int
  message : String
  deriving DecidableEq

def invalidParams (message : String) : JsonRpcError :=
  ⟨-32602, message⟩

structure Filter (β : Type) where
  blockOption : β
  address : Finset Address
  topics : Fin 4 → Finset B256

inductive FilterKind (β : Type) where
  | log (f : Filter β)
  | block

structure ActiveFilter (β : Type) where
  block : Nat
  kind : FilterKind β

/-- What the node takes from its libraries: the receipt in the data of a
`TransferBlocked` event and its decoding, the signer of a transaction, the bloom
of a list of logs, the blocks that a block option stands for, the first
unpolled block given for a poll, the logs that a filter matches, where an empty
set stands for any value, and the store of the active filters. -/
structure Backend (β σ : Type) where
  eventReceipt : Bytes → Option Bytes
  claimReceipt : Bytes → Option ClaimReceipt
  sender : B256 → Address
  bloom : List Log → Nat
  blockRange : β → Option Nat → List Header → Except JsonRpcError (Header → Bool)
  matchesBlock : β → Header → Bool
  isMatch : Filter β → LogData → Bool
  isMatch_iff : ∀ {f log}, isMatch f log = true ↔ (f.address = ∅ ∨ log.address ∈ f.address) ∧
    ∀ i : Fin 4, f.topics i = ∅ ∨ ∃ x, log.topics[i.val]? = some x ∧ x ∈ f.topics i
  newFilter : σ → ActiveFilter β → Nat × σ
  activeFilter : σ → Nat → Option (ActiveFilter β)
  poll : σ → Nat → Nat → σ

variable {β σ : Type} (b : Backend β σ)

/-! ### Visibility -/

def decodeTransferBlocked (log : LogData) : Option (Address × ClaimReceipt) :=
  match log.topics with
  | topic0 :: _ :: receiver :: _ :: _ =>
    if topic0 = transferBlockedTopic then
      (b.eventReceipt log.data).bind fun bytes =>
        (b.claimReceipt bytes).map (ofWord receiver, ·)
    else none
  | _ => none

def isTransferBlockedCallerEligible (log : LogData) (caller : Address) : Bool :=
  if log.address ≠ receivePolicyGuardAddress then false
  else
    match decodeTransferBlocked b log with
    | none => false
    | some (receiver, receipt) =>
      caller = receiver || caller = receipt.originator ||
        (!receipt.recoveryAuthority.isZero && caller = receipt.recoveryAuthority)

def isCallerEligible (log : LogData) (caller : Address) : Bool :=
  match log.topics[0]? with
  | none => false
  | some topic0 =>
    if topic0 = transferBlockedTopic then
      isTransferBlockedCallerEligible b log caller
    else if topic0 = transferTopic ∨ topic0 = approvalTopic ∨ topic0 = transferWithMemoTopic then
      log.topics[1]? = some (intoWord caller) || log.topics[2]? = some (intoWord caller)
    else if topic0 = mintTopic ∨ topic0 = burnTopic then
      log.topics[1]? = some (intoWord caller)
    else false

def isLogVisible (log : LogData) (caller : Address) : Bool :=
  log.topics[0]?.any (· ∈ whitelistedTopics) && isCallerEligible b log caller

structure LogOrderingRedactor where
  currentTx : Option B256 := none
  nextIndex : Nat := 0

namespace LogOrderingRedactor

def redact (r : LogOrderingRedactor) (log : Log) : Log × LogOrderingRedactor :=
  let index := if r.currentTx = log.transactionHash then r.nextIndex else 0
  ({ log with transactionIndex := some 0, logIndex := some index },
    ⟨log.transactionHash, index + 1⟩)

def redactAll : LogOrderingRedactor → List Log → List Log
  | _, [] => []
  | r, log :: logs => (r.redact log).1 :: redactAll (r.redact log).2 logs

end LogOrderingRedactor

def filterLogs (logs : List Log) (caller : Address) : List Log :=
  LogOrderingRedactor.redactAll {} (logs.filter fun log => isLogVisible b log.toLogData caller)

def filterReceiptLogs (r : Receipt) : Receipt :=
  let logs := filterLogs b r.logs (b.sender r.transactionHash)
  { r with
    transactionIndex := some 0
    cumulativeGasUsed := r.gasUsed
    logs := logs
    logsBloom := b.bloom logs }

/-! ### Filters -/

namespace Filter

variable (f : Filter β)

def scopeFilterAddresses (zoneTokens : Finset Address) : Except JsonRpcError (Filter β) :=
  if f.address = ∅ then
    .ok { f with address := insert receivePolicyGuardAddress zoneTokens }
  else if f.address ⊆ insert receivePolicyGuardAddress zoneTokens then .ok f
  else .error (invalidParams "invalid filter address")

def scopeFilter : Filter β :=
  let events :=
    if f.topics 0 = ∅ then whitelistedTopics
    else (f.topics 0).filter (· ∈ whitelistedTopics)
  { f with
    -- no event has topic zero
    topics := update f.topics 0 (if events = ∅ then {0} else events) }

/-- The filter with its events replaced and one indexed topic pinned. -/
def pin (events : Finset B256) (i : Fin 4) (word : B256) : Filter β :=
  { f with
    topics := update (update f.topics 0 events) i {word} }

def scopeFilterForCaller (caller : Address) : Except JsonRpcError (Filter β) :=
  let f := f.scopeFilter
  let singles := (f.topics 0).filter (· ≠ transferBlockedTopic)
  let pairs := (f.topics 0).filter (· ∈ twoPartyTopics)
  if (f.topics 0).card = 1 ∧ 0 ∈ f.topics 0 then .ok f
  else if intoWord caller ∈ f.topics 1 ∧ singles ≠ ∅ then
    .ok (f.pin singles 1 (intoWord caller))
  else if intoWord caller ∈ f.topics 2 ∧ pairs ≠ ∅ then
    .ok (f.pin pairs 2 (intoWord caller))
  else
    .error (invalidParams
      "private log filter must include authenticated caller in topic1 or topic2")

def scope (zoneTokens : Finset Address) (caller : Address) : Except JsonRpcError (Filter β) := do
  let f ← f.scopeFilterAddresses zoneTokens
  f.scopeFilterForCaller caller

end Filter

/-- A log as the tokens and the guard emit them: no event has topic zero, and
`TransferBlocked` is the guard's, with a receipt that decodes. -/
def WellFormed (log : LogData) : Prop :=
  log.topics[0]? ≠ some 0 ∧ (log.topics[0]? = some transferBlockedTopic →
      log.address = receivePolicyGuardAddress ∧ (decodeTransferBlocked b log).isSome)

variable {b} {f f' : Filter β} {log : LogData} {caller : Address}
  {tokens : Finset Address} {x word : B256} {events : Finset B256} {i : Fin 4}

theorem ofWord_intoWord (a : Address) : ofWord (intoWord a) = a := by
  simp [ofWord, intoWord]

theorem visible_of_topic1 (hx : log.topics[0]? = some x)
    (hlisted : x ∈ whitelistedTopics) (hne : x ≠ transferBlockedTopic)
    (hword : log.topics[1]? = some (intoWord caller)) : isLogVisible b log caller = true := by
  simp only [isLogVisible, isCallerEligible, hx, Option.any_some, hlisted, hne,
    hword, decide_true, Bool.true_and, Bool.true_or, if_false]
  simp only [whitelistedTopics, Finset.mem_insert, Finset.mem_singleton, hne, or_false] at hlisted
  split_ifs with htwo hone
  · rfl
  · rfl
  · tauto

theorem visible_of_topic2 (hlog : WellFormed b log)
    (hx : log.topics[0]? = some x) (htwo : x ∈ twoPartyTopics)
    (hword : log.topics[2]? = some (intoWord caller)) : isLogVisible b log caller = true := by
  have hlisted : x ∈ whitelistedTopics := by
    simp only [twoPartyTopics, whitelistedTopics, Finset.mem_insert, Finset.mem_singleton] at htwo ⊢
    tauto
  simp only [isLogVisible, isCallerEligible, hx, Option.any_some, hlisted,
    hword, decide_true, Bool.true_and, Bool.or_true]
  split_ifs with hblocked hpair hone
  · obtain ⟨haddress, hdecodes⟩ := hlog.2 (by rw [hx, hblocked])
    obtain ⟨⟨receiver, receipt⟩, hdecode⟩ := Option.isSome_iff_exists.mp hdecodes
    -- the decoded receiver is the caller, whatever the receipt says
    have hreceiver : caller = receiver := by
      unfold decodeTransferBlocked at hdecode
      split at hdecode
      · rename_i htopics
        rw [htopics] at hword
        split at hdecode
        · simp only [Option.bind_eq_some_iff, Option.map_eq_some_iff] at hdecode
          obtain ⟨_, -, _, -, heq⟩ := hdecode
          rw [← (Prod.mk.inj heq).1, Option.some.inj hword, ofWord_intoWord]
        · cases hdecode
      · cases hdecode
    simp [isTransferBlockedCallerEligible, haddress, hdecode, hreceiver]
  · rfl
  all_goals
    simp only [twoPartyTopics, Finset.mem_insert, Finset.mem_singleton] at htwo
    tauto

namespace Filter

theorem mem_scopeFilter (hx : x ∈ f.scopeFilter.topics 0) (hzero : x ≠ 0) :
    x ∈ whitelistedTopics ∧ (f.topics 0 = ∅ ∨ x ∈ f.topics 0) := by
  simp only [scopeFilter, update_self] at hx
  split_ifs at hx with hany hnone hnone
  · exact absurd (Finset.mem_singleton.mp hx) hzero
  · exact ⟨hx, .inl hany⟩
  · exact absurd (Finset.mem_singleton.mp hx) hzero
  · obtain ⟨hmem, hlisted⟩ := Finset.mem_filter.mp hx
    exact ⟨hlisted, .inr hmem⟩

/-- What a log matched by a pinned filter looks like, and that the filter it
was made from matches it too. -/
theorem isMatch_pin (hlog : WellFormed b log) (hi : i ≠ 0)
    (hevents : events ≠ ∅) (hsub : events ⊆ f.scopeFilter.topics 0)
    (hword : word ∈ f.scopeFilter.topics i)
    (h : b.isMatch (f.scopeFilter.pin events i word) log = true) :
    b.isMatch f log = true ∧ log.topics[i.val]? = some word ∧
      ∃ x ∈ events, log.topics[0]? = some x ∧ x ∈ whitelistedTopics := by
  rw [b.isMatch_iff] at h ⊢
  obtain ⟨haddress, htopics⟩ := h
  have hpinned : log.topics[i.val]? = some word := by
    simpa [pin] using htopics i
  obtain ⟨x, hx, hmem⟩ : ∃ x, log.topics[0]? = some x ∧ x ∈ events := by
    simpa [pin, hi.symm, hevents] using htopics 0
  obtain ⟨hlisted, huser⟩ := mem_scopeFilter (hsub hmem) (fun hzero => hlog.1 (hzero ▸ hx))
  refine ⟨⟨haddress, fun j => ?_⟩, hpinned, x, hmem, hx, hlisted⟩
  by_cases hj : j = 0
  · subst hj
    exact huser.imp_right fun h => ⟨x, hx, h⟩
  · by_cases hji : j = i
    · subst hji
      simp only [scopeFilter, update_of_ne hj] at hword
      exact .inr ⟨word, hpinned, hword⟩
    · simpa [pin, scopeFilter, hj, hji] using htopics j

theorem scopeFilterForCaller_sound
    (h : f.scopeFilterForCaller caller = .ok f') (hlog : WellFormed b log)
    (hmatch : b.isMatch f' log = true) :
    isLogVisible b log caller = true ∧ b.isMatch f log = true := by
  simp only [scopeFilterForCaller] at h
  split_ifs at h with hdummy hone htwo
  · cases h
    -- the dummy topic: no well-formed log has it
    obtain ⟨y, hy⟩ := Finset.card_eq_one.mp hdummy.1
    rw [hy, Finset.mem_singleton] at hdummy
    have hfirst := (b.isMatch_iff.mp hmatch).2 0
    rw [hy, ← hdummy.2] at hfirst
    exact absurd (by simpa using hfirst) hlog.1
  · cases h
    obtain ⟨huser, hword, x, hx, hfirst, hlisted⟩ := isMatch_pin hlog (by decide)
      hone.2 (Finset.filter_subset _ _) hone.1 hmatch
    exact ⟨visible_of_topic1 hfirst hlisted (Finset.mem_filter.mp hx).2 hword, huser⟩
  · cases h
    obtain ⟨huser, hword, x, hx, hfirst, -⟩ := isMatch_pin hlog (by decide)
      htwo.2 (Finset.filter_subset _ _) htwo.1 hmatch
    exact ⟨visible_of_topic2 hlog hfirst (Finset.mem_filter.mp hx).2 hword, huser⟩

theorem scope_sound (h : f.scope tokens caller = .ok f')
    (hlog : WellFormed b log) (hmatch : b.isMatch f' log = true) :
    isLogVisible b log caller = true ∧ b.isMatch f log = true := by
  simp only [scope, scopeFilterAddresses] at h
  split_ifs at h with hall hsome
  · obtain ⟨hvisible, huser⟩ := scopeFilterForCaller_sound h hlog hmatch
    exact ⟨hvisible, b.isMatch_iff.mpr ⟨.inl hall, (b.isMatch_iff.mp huser).2⟩⟩
  · exact scopeFilterForCaller_sound h hlog hmatch
  · cases h

end Filter

/-! ### Answers -/

variable (b)

namespace Block

def logs (removed : Bool) (block : Block) : List Log :=
  (block.receipts.flatMap Receipt.logs).map ({ · with removed })

def matchingLogs (f : Filter β) (removed : Bool) (block : Block) : List Log :=
  if b.matchesBlock f.blockOption block.header then
    (block.logs removed).filter fun log => b.isMatch f log.toLogData
  else []

end Block

def bestNumber (chain : List Block) : Nat :=
  ((chain.map Block.header).getLast?.map Header.number).getD 0

def visibleLogs (chain : List Block) (f : Filter β) (start : Option Nat)
    (caller : Address) : Except JsonRpcError (List Log) := do
  let selected ← b.blockRange f.blockOption start (chain.map Block.header)
  let logs := chain.flatMap fun block =>
    if selected block.header then block.matchingLogs b f false else []
  return filterLogs b logs caller

def transactionReceipt (chain : List Block) (hash : B256) (caller : Address) : Option Receipt :=
  ((chain.flatMap Block.receipts).find? (·.transactionHash = hash)).bind fun r =>
      if b.sender r.transactionHash ≠ caller then none
      else some (filterReceiptLogs b r)

/-- The stream of a subscription, over the blocks of its notifications: those
reverted by each, marked as removed, then those committed. -/
def wsSubscribeLogs (f : Filter β) (tokens : Finset Address) (caller : Address)
    (blocks : List (Block × Bool)) : Except JsonRpcError (List Log) := do
  let f ← f.scope tokens caller
  let logs := blocks.flatMap fun (block, removed) =>
    block.matchingLogs b f removed
  return filterLogs b logs caller

structure Server (σ : Type) where
  zoneTokens : Finset Address
  filters : σ
  filterOwners : Nat → Option Address

inductive Request (β : Type) where
  | getLogs (f : Filter β)
  | newFilter (f : Filter β)
  | newBlockFilter
  | getFilterLogs (id : Nat)
  | getFilterChanges (id : Nat)
  | transactionReceipt (hash : B256)

inductive Answer where
  | logs (logs : List Log)
  | hashes (hashes : List B256)
  | empty
  | filterId (id : Nat)
  | receipt (receipt : Option Receipt)
  deriving DecidableEq

namespace Server

variable (s : Server σ)

def install (filter : ActiveFilter β) (caller : Address) : Except JsonRpcError Answer × Server σ :=
  let (id, filters) := b.newFilter s.filters filter
  (.ok (.filterId id), { s with filters, filterOwners := update s.filterOwners id (some caller) })

/-- The filter, if the caller owns it and the backend still has it. -/
def ensureFilterOwner (id : Nat) (caller : Address) :
    Except JsonRpcError (ActiveFilter β) × Server σ :=
  let notFound := .error (invalidParams "filter not found")
  if s.filterOwners id ≠ some caller then (notFound, s)
  else
    match b.activeFilter s.filters id with
    | some filter => (.ok filter, s)
    | none =>
      (notFound, { s with filterOwners := update s.filterOwners id none })

def respond (chain : List Block) (caller : Address) :
    Request β → Except JsonRpcError Answer × Server σ
  | .getLogs f =>
    (do return .logs (← visibleLogs b chain (← f.scope s.zoneTokens caller) none caller), s)
  | .newFilter f =>
    match f.scope s.zoneTokens caller with
    | .error e => (.error e, s)
    | .ok f => s.install b ⟨bestNumber chain, .log f⟩ caller
  | .newBlockFilter => s.install b ⟨bestNumber chain, .block⟩ caller
  | .getFilterLogs id =>
    match s.ensureFilterOwner b id caller with
    | (.error e, s) => (.error e, s)
    | (.ok filter, s) =>
      match filter.kind with
      | .log f => ((visibleLogs b chain f none caller).map .logs, s)
      | .block => (.error (invalidParams "filter not found"), s)
  | .getFilterChanges id =>
    match s.ensureFilterOwner b id caller with
    | (.error e, s) => (.error e, s)
    | (.ok filter, s) =>
      if bestNumber chain < filter.block then (.ok .empty, s)
      else
        let s := { s with filters := b.poll s.filters id (bestNumber chain + 1) }
        match filter.kind with
        | .log f =>
          ((visibleLogs b chain f (some filter.block) caller).map .logs, s)
        | .block =>
          let fresh := (chain.map Block.header).filter (filter.block ≤ ·.number)
          (.ok (.hashes (fresh.map Header.hash)), s)
  | .transactionReceipt hash =>
    (.ok (.receipt (transactionReceipt b chain hash caller)), s)

end Server

/-! ### What the caller may know -/

def Log.unnumbered (log : Log) : Log :=
  { log with transactionIndex := none, logIndex := none }

/-- The logs the caller may see, without their positions. -/
def seen (caller : Address) (logs : List Log) : List Log :=
  (logs.filter fun log => isLogVisible b log.toLogData caller).map Log.unnumbered

/-- The header and the logs that the caller may see. -/
def Block.view (caller : Address) (block : Block) : Header × List Log :=
  (block.header, seen b caller (block.receipts.flatMap Receipt.logs))

/-- A transaction of the caller, with its logs that the caller may see. -/
def Receipt.view (caller : Address) (r : Receipt) : B256 × Nat × List Log :=
  (r.transactionHash, r.gasUsed, seen b caller r.logs)

def ownView (caller : Address) (chain : List Block) : List (B256 × Nat × List Log) :=
  ((chain.flatMap Block.receipts).filter (b.sender ·.transactionHash = caller)).map
    (Receipt.view b caller)

/-- What a receipt shows of a transaction. -/
def shownReceipt : B256 × Nat × List Log → Receipt
  | (hash, gas, logs) =>
    let logs := LogOrderingRedactor.redactAll {} logs
    ⟨hash, some 0, gas, gas, logs, b.bloom logs⟩

variable {b} {chain chain' : List Block} {logs : List Log}

theorem redactAll_unnumbered (r : LogOrderingRedactor) :
    r.redactAll (logs.map Log.unnumbered) = r.redactAll logs := by
  induction logs generalizing r with
  | nil => rfl
  | cons log logs ih => exact congrArg (cons _) (ih _)

theorem filterLogs_eq :
    filterLogs b logs caller = LogOrderingRedactor.redactAll {} (seen b caller logs) :=
  (redactAll_unnumbered _).symm

@[simp] theorem seen_flatMap {α : Type} (l : List α) (g : α → List Log) :
    seen b caller (l.flatMap g) = l.flatMap fun x => seen b caller (g x) := by
  simp [seen, filter_flatMap, map_flatMap]

theorem seen_logs (removed : Bool) (block : Block) :
    seen b caller (block.logs removed) = (block.view b caller).2.map ({ · with removed }) := by
  simp [seen, Block.logs, Block.view, filter_map, comp_def, Log.unnumbered]

theorem seen_filter {p : Log → Bool} (hp : ∀ log : Log, p log.unnumbered = p log) :
    seen b caller (logs.filter p) = (seen b caller logs).filter p := by
  simp [seen, filter_map, filter_filter, comp_def, hp, Bool.and_comm]

theorem seen_matchingLogs (removed : Bool) {x y : Block} (h : x.view b caller = y.view b caller) :
    seen b caller (x.matchingLogs b f removed) = seen b caller (y.matchingLogs b f removed) := by
  have hheader : x.header = y.header := congrArg Prod.fst h
  simp only [Block.matchingLogs, hheader]
  split
  · rw [seen_filter fun _ => rfl, seen_filter fun _ => rfl, seen_logs, seen_logs, h]
  · rfl

/-- Lists with one image under `v` agree on what depends on that image only. -/
theorem flatMap_eq_of_map_eq {α γ δ : Type} {v : α → γ} {g : α → List δ}
    (hg : ∀ x y, v x = v y → g x = g y) :
    ∀ {l l' : List α}, l.map v = l'.map v → l.flatMap g = l'.flatMap g
  | [], [], _ => rfl
  | x :: l, y :: l', h => by
    obtain ⟨hxy, hrest⟩ := cons.inj h
    rw [flatMap_cons, flatMap_cons, hg x y hxy, flatMap_eq_of_map_eq hg hrest]

theorem transactionReceipt_eq (chain : List Block) (hash : B256) :
    transactionReceipt b chain hash caller = if b.sender hash = caller then
      (((chain.flatMap Block.receipts).find? (·.transactionHash = hash)).map
        (Receipt.view b caller)).map (shownReceipt b) else none := by
  unfold transactionReceipt
  cases hr : (chain.flatMap Block.receipts).find? (·.transactionHash = hash) with
  | none => simp
  | some r =>
    obtain rfl : r.transactionHash = hash := by simpa using find?_some hr
    by_cases hown : b.sender r.transactionHash = caller
    · simp [hown, filterReceiptLogs, filterLogs_eq, Receipt.view, shownReceipt]
    · simp [hown]

theorem transactionReceipt_ownView (h : ownView b caller chain = ownView b caller chain')
    (hash : B256) :
    transactionReceipt b chain hash caller = transactionReceipt b chain' hash caller := by
  rw [transactionReceipt_eq, transactionReceipt_eq]
  split
  · rename_i hown
    have hview (c : List Block) :
        ((c.flatMap Block.receipts).find? (·.transactionHash = hash)).map (Receipt.view b caller) =
          (ownView b caller c).find? (·.1 = hash) := by
      rw [ownView, find?_map, find?_filter]
      congr 2
      funext r
      by_cases hr : r.transactionHash = hash
      · simp [Receipt.view, hr, hown]
      · simp [Receipt.view, hr]
    rw [hview, hview, h]
  · rfl

theorem logs_find? {rs : List Receipt} (hash : B256)
    (hnodup : (rs.map Receipt.transactionHash).Nodup)
    (hlogs : ∀ r ∈ rs, ∀ log ∈ r.logs, log.transactionHash = some r.transactionHash) :
    (rs.find? (·.transactionHash = hash)).elim [] Receipt.logs =
      (rs.flatMap Receipt.logs).filter (·.transactionHash = some hash) := by
  induction rs with
  | nil => rfl
  | cons r rs ih =>
    obtain ⟨hr, hrs⟩ := forall_mem_cons.mp hlogs
    obtain ⟨hfirst, hrest⟩ := nodup_cons.mp hnodup
    rw [flatMap_cons, filter_append, ← ih hrest hrs]
    by_cases heq : r.transactionHash = hash
    · have hnone : rs.find? (·.transactionHash = hash) = none :=
        find?_eq_none.mpr fun x hx h => hfirst (mem_map.mpr ⟨x, hx, by simpa [heq] using h⟩)
      have hown : r.logs.filter (·.transactionHash = some hash) = r.logs :=
        filter_eq_self.mpr fun log hlog => by simp [hr log hlog, heq]
      simp [heq, hnone, hown]
    · have hother : r.logs.filter (·.transactionHash = some hash) = [] :=
        filter_eq_nil_iff.mpr fun log hlog => by simp [hr log hlog, heq]
      simp [heq, hother]

/-- No transaction is in a chain twice. -/
abbrev UniqueHashes (chain : List Block) : Prop :=
  ((chain.flatMap Block.receipts).map Receipt.transactionHash).Nodup

/-- The logs of an answer with a receipt, none without one. -/
def receiptLogs (b : Backend β σ) (chain : List Block) (hash : B256) (caller : Address) :
    List Log :=
  (transactionReceipt b chain hash caller).elim [] Receipt.logs

theorem receiptLogs_eq (hnodup : UniqueHashes chain) (hash : B256) :
    receiptLogs b chain hash caller = if b.sender hash = caller then
      LogOrderingRedactor.redactAll {} ((chain.flatMap fun block => (block.view b caller).2).filter
        (·.transactionHash = some hash)) else [] := by
  have hlogs := logs_find? hash hnodup fun r hr log hlog => by
    obtain ⟨block, -, hr⟩ := mem_flatMap.mp hr
    exact ((block.logs_own r hr).2 log hlog).1
  have hseen : (chain.flatMap fun block => (block.view b caller).2).filter
      (·.transactionHash = some hash) = seen b caller
        (((chain.flatMap Block.receipts).flatMap Receipt.logs).filter
          (·.transactionHash = some hash)) := by
    rw [seen_filter fun _ => rfl, flatMap_assoc, seen_flatMap]
    rfl
  rw [receiptLogs, transactionReceipt_eq, hseen, ← hlogs]
  split
  · cases (chain.flatMap Block.receipts).find? (·.transactionHash = hash) <;> rfl
  · rfl

/-- Two chains look the same to the caller. -/
def SameView (b : Backend β σ) (caller : Address) (chain chain' : List Block) : Prop :=
  chain.map (Block.view b caller) = chain'.map (Block.view b caller)

namespace SameView

variable (h : SameView b caller chain chain')
include h

theorem headers : chain.map Block.header = chain'.map Block.header := by
  simpa [Block.view, comp_def] using congrArg (map Prod.fst) h

theorem visibleLogs_eq (start : Option Nat) :
    visibleLogs b chain f start caller = visibleLogs b chain' f start caller := by
  have hlogs (selected : Header → Bool) : seen b caller (chain.flatMap fun block =>
          if selected block.header then block.matchingLogs b f false else []) =
        seen b caller (chain'.flatMap fun block =>
          if selected block.header then block.matchingLogs b f false else []) := by
    rw [seen_flatMap, seen_flatMap]
    apply flatMap_eq_of_map_eq _ h
    intro x y hxy
    rw [show x.header = y.header from congrArg Prod.fst hxy]
    split
    · exact seen_matchingLogs false hxy
    · rfl
  simp [visibleLogs, h.headers, filterLogs_eq, hlogs]

theorem respond_eq (s : Server σ) (r : Request β) (hr : ∀ hash, r ≠ .transactionReceipt hash) :
    s.respond b chain caller r = s.respond b chain' caller r := by
  have hbest : bestNumber chain = bestNumber chain' := by
    rw [bestNumber, bestNumber, h.headers]
  cases r with
  | transactionReceipt hash => exact absurd rfl (hr hash)
  | _ => simp [Server.respond, hbest, h.headers, h.visibleLogs_eq]

theorem receiptLogs_eq (hnodup : UniqueHashes chain) (hnodup' : UniqueHashes chain')
    (hash : B256) : receiptLogs b chain hash caller = receiptLogs b chain' hash caller := by
  rw [ZoneRpc.receiptLogs_eq hnodup, ZoneRpc.receiptLogs_eq hnodup',
    flatMap_eq_of_map_eq (fun _ _ => congrArg Prod.snd) h]

end SameView

theorem wsSubscribeLogs_eq {blocks blocks' : List (Block × Bool)}
    (h : blocks.map (Prod.map (Block.view b caller) id) =
      blocks'.map (Prod.map (Block.view b caller) id)) :
    wsSubscribeLogs b f tokens caller blocks = wsSubscribeLogs b f tokens caller blocks' := by
  have hlogs (f : Filter β) := flatMap_eq_of_map_eq
    (g := fun e : Block × Bool => seen b caller (e.1.matchingLogs b f e.2)) (by
      rintro ⟨x, removed⟩ ⟨y, _⟩ hxy
      obtain ⟨hview, rfl⟩ := Prod.mk.inj hxy
      exact seen_matchingLogs removed hview) h
  simp [wsSubscribeLogs, filterLogs_eq, seen_flatMap, hlogs]

/-- A scoped filter matches only logs that its caller may see and that the
caller asked for.  The answers to the caller, with what they leave in the server,
are the same on two chains with the same logs for it to see, as are the logs of
its receipts and of a subscription; a whole receipt depends on the caller's own
transactions only. -/
theorem log_answers_private (b : Backend β σ) (caller : Address) :
    (∀ (f narrowed : Filter β) tokens, f.scope tokens caller = .ok narrowed →
      ∀ log, WellFormed b log → b.isMatch narrowed log = true →
        isLogVisible b log caller = true ∧ b.isMatch f log = true) ∧
    (∀ chain chain', SameView b caller chain chain' →
      (∀ (s : Server σ) r, (∀ hash, r ≠ .transactionReceipt hash) →
        s.respond b chain caller r = s.respond b chain' caller r) ∧
      (UniqueHashes chain → UniqueHashes chain' → ∀ hash,
        receiptLogs b chain hash caller = receiptLogs b chain' hash caller)) ∧
    (∀ chain chain', ownView b caller chain = ownView b caller chain' → ∀ (s : Server σ) hash,
      s.respond b chain caller (.transactionReceipt hash) =
        s.respond b chain' caller (.transactionReceipt hash)) ∧
    ∀ blocks blocks' : List (Block × Bool), blocks.map (Prod.map (Block.view b caller) id) =
        blocks'.map (Prod.map (Block.view b caller) id) →
      ∀ (f : Filter β) tokens, wsSubscribeLogs b f tokens caller blocks =
        wsSubscribeLogs b f tokens caller blocks' :=
  ⟨fun _ _ _ h _ hlog hmatch => Filter.scope_sound h hlog hmatch,
    fun _ _ h => ⟨h.respond_eq, h.receiptLogs_eq⟩,
    fun _ _ h s hash => by rw [Server.respond, Server.respond, transactionReceipt_ownView h],
    fun _ _ h _ _ => wsSubscribeLogs_eq h⟩

namespace Sample

def backend : Backend Unit (List (ActiveFilter Unit)) where
  eventReceipt _ := none
  claimReceipt _ := none
  sender := ofWord
  bloom := length
  blockRange _ _ _ := .ok fun _ => true
  matchesBlock _ _ := true
  isMatch f log := (f.address = ∅ ∨ log.address ∈ f.address) ∧
    ∀ i : Fin 4, f.topics i = ∅ ∨ log.topics[i.val]?.any (· ∈ f.topics i)
  isMatch_iff := by simp [Option.any_eq_true]
  newFilter filters filter := (filters.length, filters ++ [filter])
  activeFilter filters id := filters[id]?
  poll filters id block := filters.modify id ({ · with block })

def server : Server (List (ActiveFilter Unit)) :=
  ⟨{pathUsdAddress}, [], fun _ => none⟩

def paid : LogData :=
  ⟨pathUsdAddress, [transferTopic, intoWord ⟨1⟩, intoWord ⟨2⟩], []⟩

def minted : LogData :=
  ⟨pathUsdAddress, [mintTopic, intoWord ⟨2⟩], []⟩

def filter : Filter Unit :=
  ⟨(), ∅, fun i => if i = 1 then {intoWord ⟨1⟩} else ∅⟩

/-- A receipt, from the position of the transaction and the number of logs and
the gas before it. -/
def receipt (hash : B256) (position first before gas : Nat) (logs : List LogData) : Receipt :=
  ⟨hash, some position, gas, before + gas, (logs.zipIdx first).map fun (log, index) =>
    ⟨log, ⟨7, 7, 0⟩, some hash, some position, some index, false⟩, logs.length⟩

def alone : Block :=
  ⟨⟨7, 7, 0⟩, [receipt 1 0 0 0 5 [paid]], by decide⟩

def crowded : Block :=
  ⟨⟨7, 7, 0⟩, [receipt 2 0 0 0 9 [minted], receipt 1 1 1 9 5 [paid]], by decide⟩

end Sample

open Sample in
/-- A transaction of another account before the caller's own leaves no trace. -/
theorem log_answers_private_hidden :
    (∃ narrowed, filter.scope server.zoneTokens ⟨1⟩ = .ok narrowed ∧
      backend.isMatch narrowed paid = true ∧ isLogVisible backend paid ⟨1⟩ = true) ∧
    server.respond backend [crowded] ⟨1⟩ (.getLogs filter) =
      server.respond backend [alone] ⟨1⟩ (.getLogs filter) ∧
    receiptLogs backend [crowded] 1 ⟨1⟩ = receiptLogs backend [alone] 1 ⟨1⟩ ∧
    server.respond backend [crowded] ⟨1⟩ (.transactionReceipt 1) =
      server.respond backend [alone] ⟨1⟩ (.transactionReceipt 1) ∧
    wsSubscribeLogs backend filter {pathUsdAddress} ⟨1⟩ [(crowded, false)] =
      wsSubscribeLogs backend filter {pathUsdAddress} ⟨1⟩ [(alone, false)] := by
  obtain ⟨hscope, hchain, hown, hstream⟩ := log_answers_private backend ⟨1⟩
  have hpaid : WellFormed backend paid := ⟨by decide, fun h => absurd h (by decide)⟩
  obtain ⟨hanswers, hreceipts⟩ := hchain [crowded] [alone] rfl
  refine ⟨⟨_, rfl, ?_, ?_⟩, hanswers _ _ nofun, hreceipts (by decide) (by decide) _,
    hown _ _ rfl _ _, hstream _ _ rfl _ _⟩
  · decide
  · exact (hscope filter _ server.zoneTokens rfl paid hpaid (by decide)).1

end Tempo.ZoneRpc
