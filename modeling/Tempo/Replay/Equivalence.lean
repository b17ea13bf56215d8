/-
A replay that succeeds is the run the transaction would make on the block: it
takes the same branches and writes the same slots, provided no access failed
when it was recorded and no replayed change crosses zero differently.  An
access that fails leaves no trace in the recording, so that nothing can be
said about a transaction that goes on after a failure.
-/
import Tempo.Replay.Accesses

namespace Tempo

namespace Transaction

variable {α : Type}

/-- No access of a run fails. -/
def Succeeds (t : Transaction α) (j : Journal) : Prop :=
  ∀ e ∈ t.branches j, ∀ err, e.2 ≠ .failed err

theorem recording_access (op : Access) (next : Response → Transaction α) (j : Journal) :
    recording (.access op next) j = (j.perform op).actions ++
      recording (next (j.perform op).response) (j.perform op).journal := rfl

theorem writes_access (op : Access) (next : Response → Transaction α) (j : Journal) :
    writes (.access op next) j = (j.perform op).writes ++
      writes (next (j.perform op).response) (j.perform op).journal := rfl

/-- The rest of a recording is replayed next to a run on the block. -/
def Replays (db : Cache) (parent : Slot → B256) (final : TxChanges)
    (t : Transaction α) (j₀ j₁ : Journal) : Prop :=
  ∃ c, Represents db parent c j₁ ∧ Untouched parent c j₀ ∧
    TxChanges.replayFrom db c (t.recording j₀) = .ok final ∧
    SameCrossings db c (t.recording j₀) ∧ t.Succeeds j₀

variable {db : Cache} {parent : Slot → B256}

/-- One access: the block answers what was recorded. -/
theorem Replays.step {final : TxChanges} (op : Access)
    (next : Response → Transaction α) (j0 j1 : Journal)
    (h : Replays db parent final (.access op next) j0 j1) :
    (handle op j0).1 = (handle op j1).1 ∧
      Replays db parent final (next (handle op j0).1) (handle op j0).2 (handle op j1).2 := by
  obtain ⟨c, hrep, hun, hreplay, hcross, hok⟩ := h
  rw [recording_access] at hreplay hcross
  obtain ⟨c1, hfirst, hrest⟩ := replayFrom_append.mp hreplay
  obtain ⟨hcross1, hcross2⟩ := hcross.append hfirst
  unfold Succeeds at hok
  have hok2 : (next (j0.perform op).response).Succeeds (j0.perform op).journal :=
    fun e he => hok e (List.mem_cons_of_mem _ he)
  cases hupdate : op.update with
  | none =>
    obtain ⟨hresponse, hj0, hj1, -, -, hrep1, hun1⟩ := read_replayed hupdate hrep hun hfirst
    refine ⟨hresponse, c1, ?_, ?_, hrest, hcross2, hok2⟩
    · change Represents db parent c1 (j1.perform op).journal
      rwa [hj1]
    · change Untouched parent c1 (j0.perform op).journal
      rwa [hj0]
  | some u =>
    have hp0 := perform_update hupdate j0
    have hp1 := perform_update hupdate j1
    cases hvalue : u.change (j0.present u.slot) with
    | error e =>
      have hfail : (j0.perform op).response = .failed e := by
        rw [hp0, Journal.update, hvalue]
        rfl
      exact absurd hfail (hok _ List.mem_cons_self e)
    | ok value =>
      have hj0 : j0.perform op = j0.sstoreInner u.slot value
          (u.record (j0.present u.slot) value) := by
        rw [hp0, Journal.update, hvalue]
      rw [hj0] at hfirst hcross1
      obtain ⟨after, hup⟩ := update_replayed hupdate hvalue hrep hun hfirst
      have hj1 : j1.perform op = j1.sstoreInner u.slot after
          (u.record (j1.present u.slot) after) := by
        rw [hp1, Journal.update, hup.change]
      have hcrossing : crossing (j1.present u.slot) after = crossing (j0.present u.slot) value := by
        rcases hup.matching with ⟨hsame, rfl, -⟩ | ⟨action, hrec, hdelta, -⟩
        · rw [hsame]
        · rw [hrec] at hcross1
          obtain ⟨hpresent, -, -⟩ := hrep.sloadCurrentOr (hun u.slot)
          have hhead := hcross1.1 _ _ _ hdelta value after
          rw [hpresent, hvalue, hup.change] at hhead
          exact hhead rfl rfl
      refine ⟨?_, c1, ?_, ?_, hrest, hcross2, hok2⟩
      · change (j0.perform op).response = (j1.perform op).response
        rw [hj0, hj1]
        exact congrArg Response.wrote hcrossing.symm
      · change Represents db parent c1 (j1.perform op).journal
        rw [hj1]
        exact hup.represents
      · change Untouched parent c1 (j0.perform op).journal
        rw [hj0]
        exact hup.untouched

theorem replayActions_ok {actions : List StorageAction} {slots : Slot → Option (B256 × B256)}
    (h : replayActions db actions = .ok slots) :
    ∃ c, TxChanges.replayFrom db .empty actions = .ok c ∧ slots = c.writtenSlots := by
  unfold replayActions at h
  cases hreplay : TxChanges.replayFrom db .empty actions with
  | error e =>
    rw [hreplay] at h
    cases h
  | ok c =>
    rw [hreplay] at h
    cases h
    exact ⟨c, rfl, rfl⟩

/-- The replay and the run on the block go side by side. -/
theorem replayed_beside (t : Transaction α) {c : TxChanges}
    (hreplay : TxChanges.replayFrom db .empty (t.recording (.start parent)) = .ok c)
    (hcross : SameCrossings db .empty (t.recording (.start parent)))
    (hok : t.Succeeds (.start parent)) :
    t.branches (.start parent) = t.branches (.start (blockState db parent)) ∧
      (t.execute (.start parent)).1 = (t.execute (.start (blockState db parent))).1 ∧
      c.writtenSlots = (t.execute (.start (blockState db parent))).2.writtenSlots := by
  have hstart : Replays db parent c t (.start parent) (.start (blockState db parent)) :=
    ⟨.empty, represents_start, fun _ _ => rfl, hreplay, hcross, hok⟩
  obtain ⟨hbranches, hvalue, c', hrep, -, hend, -⟩ := Program.lockstep Replays.step hstart
  cases hend
  exact ⟨hbranches, hvalue, hrep.writtenSlots_eq⟩

/-- A recording that replays on a block is the transaction's run there. -/
theorem replay_is_execution (t : Transaction α) (parent : Slot → B256)
    (db : Cache) {slots : Slot → Option (B256 × B256)}
    (hreplay : replayActions db (t.recording (.start parent)) = .ok slots)
    (hcross : SameCrossings db .empty (t.recording (.start parent)))
    (hok : t.Succeeds (.start parent)) :
    t.branches (.start (blockState db parent)) = t.branches (.start parent) ∧
      (t.execute (.start (blockState db parent))).1 = (t.execute (.start parent)).1 ∧ slots =
        (t.execute (.start (blockState db parent))).2.writtenSlots := by
  obtain ⟨c, hc, rfl⟩ := replayActions_ok hreplay
  obtain ⟨hbranches, hvalue, hslots⟩ := replayed_beside t hc hcross hok
  exact ⟨hbranches.symm, hvalue.symm, hslots⟩

/-! Examples of replays. -/

def sampleSlot (n : Nat) : Slot :=
  ⟨⟨1⟩, BitVec.ofNat 256 n⟩

/-- A block whose first account has the given storage. -/
def sampleCache (storage : B256 → Option B256) : Cache :=
  fun address => if address = ⟨1⟩ then some ⟨some storage, false⟩ else none

/-- A transfer that reads a flag, pays from one slot and credits another. -/
def sampleTransfer : Transaction Unit :=
  .access (.sload (sampleSlot 0)) fun _ =>
    .access (.sdec (sampleSlot 1) 5) fun _ =>
      .access (.sinc (sampleSlot 2) 5) fun _ => .done ()

def sampleParent (slot : Slot) : B256 :=
  if slot = sampleSlot 1 then 20 else if slot = sampleSlot 2 then 3 else 0

/-- The payer has received 10 more in the block. -/
def sampleBlock : Cache :=
  sampleCache fun key => if key = 1 then some 30 else none

theorem sampleTransfer_crossings : SameCrossings sampleBlock .empty
    (sampleTransfer.recording (.start sampleParent)) := by
  refine ⟨nofun, fun c1 h1 => ⟨?_, fun c2 h2 => ⟨?_, fun _ _ => trivial⟩⟩⟩
  · cases h1
    intro slot value f hdelta before after hbefore hafter
    cases hdelta
    cases hbefore
    cases hafter
    decide +kernel
  · cases h1
    cases h2
    intro slot value f hdelta before after hbefore hafter
    cases hdelta
    cases hbefore
    cases hafter
    decide +kernel

theorem replay_is_execution_transfer : ∃ slots, replayActions sampleBlock
        (sampleTransfer.recording (.start sampleParent)) = .ok slots ∧
      slots (sampleSlot 1) = some (30, 25) ∧ slots = (sampleTransfer.execute
        (.start (blockState sampleBlock sampleParent))).2.writtenSlots := by
  refine ⟨_, rfl, rfl, ?_⟩
  refine (replay_is_execution sampleTransfer sampleParent sampleBlock rfl
    sampleTransfer_crossings ?_).2.2
  intro e he err heq
  have hbranches : sampleTransfer.branches (.start sampleParent) =
      [(.sload (sampleSlot 0), .value 0), (.sdec (sampleSlot 1) 5, .wrote .kept),
        (.sinc (sampleSlot 2) 5, .wrote .kept)] := rfl
  rw [hbranches] at he
  simp only [List.mem_cons, List.not_mem_nil, or_false] at he
  rcases he with rfl | rfl | rfl <;> cases heq

/-- A payment that falls back to a note when it fails. -/
def fallbackPayment : Transaction Unit :=
  .access (.sdec (sampleSlot 1) 25) fun response =>
    match response with
    | .failed _ => .access (.sstore (sampleSlot 0) 1) fun _ => .done ()
    | _ => .done ()

/-- The failed payment is not recorded: it is replayed as failed on a block
where it would succeed. -/
theorem failure_replayed_stale :
    SameCrossings sampleBlock .empty (fallbackPayment.recording (.start sampleParent)) ∧
      ∃ slots, replayActions sampleBlock
          (fallbackPayment.recording (.start sampleParent)) = .ok slots ∧
        slots (sampleSlot 0) = some (0, 1) ∧
        (fallbackPayment.execute (.start (blockState sampleBlock
          sampleParent))).2.writtenSlots (sampleSlot 0) = none ∧
        (fallbackPayment.execute (.start (blockState sampleBlock
          sampleParent))).2.writtenSlots (sampleSlot 1) = some (30, 5) ∧
        fallbackPayment.branches (.start (blockState sampleBlock
          sampleParent)) ≠ fallbackPayment.branches (.start sampleParent) := by
  refine ⟨⟨nofun, fun _ _ => trivial⟩, _, rfl, rfl, rfl, rfl, ?_⟩
  intro h
  have hlength := congrArg List.length h
  revert hlength
  decide +kernel

/-! Blocks filled from recordings made on their parent. -/

section Fill

variable (commit : Cache → (Slot → Option (B256 × B256)) → Cache) (parent)

/-- Transactions executed one after the other, whatever a commit is. -/
def executeAll : Cache → List (Transaction α) → List α × Cache
  | db, [] => ([], db)
  | db, t :: rest =>
    let (value, j) := t.execute (.start (blockState db parent))
    let (values, db) := executeAll (commit db j.writtenSlots) rest
    (value :: values, db)

/-- The loop of the builder over transactions without an expiring nonce: each is
executed, or replayed and given the value it was recorded with, or left out. -/
inductive Fills : Cache → List (Transaction α) → List (Transaction α × α) → Cache → Prop
  | done {pre} : Fills pre [] [] pre
  | execute {pre post t rest block}
      (h : Fills (commit pre (execute t (.start (blockState pre parent))).2.writtenSlots)
        rest block post) :
      Fills pre (t :: rest) ((t, (execute t (.start (blockState pre parent))).1) :: block) post
  | replay {pre post t rest block slots}
      (hreplay : replayActions pre (recording t (.start parent)) = .ok slots)
      (hcross : SameCrossings pre .empty (recording t (.start parent)))
      (hok : Succeeds t (.start parent)) (h : Fills (commit pre slots) rest block post) :
      Fills pre (t :: rest) ((t, (execute t (.start parent)).1) :: block) post
  | skip {pre post t rest block} (h : Fills pre rest block post) : Fills pre (t :: rest) block post

variable {commit parent} {db' : Cache} {ts : List (Transaction α)}
  {block : List (Transaction α × α)}

/-- Executing the block again gives the values and the database it was built
with. -/
theorem filled_block_reexecutes (h : Fills parent commit db ts block db') :
    (block.map Prod.fst).Sublist ts ∧
      executeAll parent commit db (block.map Prod.fst) = (block.map Prod.snd, db') := by
  induction h with
  | done => exact ⟨.slnil, rfl⟩
  | execute h ih => exact ⟨ih.1.cons_cons _, by simp only [List.map_cons, executeAll, ih.2]⟩
  | @replay db db' t rest block slots hreplay hcross hok h ih =>
    obtain ⟨c, hc, rfl⟩ := replayActions_ok hreplay
    obtain ⟨-, hvalue, hslots⟩ := replayed_beside t hc hcross hok
    have hlast := ih.2
    rw [hslots] at hlast
    refine ⟨ih.1.cons_cons _, ?_⟩
    simp only [List.map_cons, executeAll, hlast, hvalue]
  | skip h ih => exact ⟨ih.1.cons _, ih.2⟩

/-- The transfer is replayed, left out and executed. -/
theorem filled_block_reexecutes_transfers :
    let commit : Cache → (Slot → Option (B256 × B256)) → Cache := fun db slots => sampleCache
      fun key => ((slots ⟨⟨1⟩, key⟩).map Prod.snd).or (cachedStorageValue db ⟨⟨1⟩, key⟩)
    ∃ db', blockState db' sampleParent (sampleSlot 1) = 20 ∧
      executeAll sampleParent commit sampleBlock [sampleTransfer, sampleTransfer] =
        ([(), ()], db') := by
  intro commit
  have hok : sampleTransfer.Succeeds (.start sampleParent) := by
    intro e he err
    rcases he with _ | ⟨_, _ | ⟨_, _ | ⟨_, ⟨⟩⟩⟩⟩ <;> exact nofun
  have hfill : Fills sampleParent commit sampleBlock
      [sampleTransfer, sampleTransfer, sampleTransfer] _ _ :=
    .replay rfl sampleTransfer_crossings hok (.skip (.execute .done))
  exact ⟨_, by decide +kernel, (filled_block_reexecutes hfill).2⟩

end Fill

end Transaction

end Tempo
