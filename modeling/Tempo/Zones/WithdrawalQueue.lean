/-
The portal's queue of withdrawals: one slot a batch, holding the hash chain of
the withdrawals of that batch not yet processed.  `Represents` relates it to
the lists themselves, and the operations to taking withdrawals off the front.
-/
import Tempo.Zones.Messages

namespace Tempo.Zones

open Function HashChain

variable {H : Type}

structure WithdrawalQueue (H : Type) where
  head : Nat
  tail : Nat
  slots : Nat → H

namespace WithdrawalQueue

variable [Zero H]

def empty : WithdrawalQueue H :=
  { head := 0, tail := 0, slots := fun _ => 0 }

variable [DecidableEq H]

/-- Store the chain of a batch at the tail; an empty batch takes no slot. -/
def enqueue (q : WithdrawalQueue H) (withdrawalQueueHash : H) : WithdrawalQueue H :=
  if withdrawalQueueHash = 0 then q
  else
    { q with
      slots := Function.update q.slots q.tail withdrawalQueueHash
      tail := q.tail + 1 }

/-- Take `withdrawal` off the head slot, `none` when the slot does not hold
the chain of it and `remainingQueue`. -/
def dequeue (k : Keccak H) (q : WithdrawalQueue H) (withdrawal : Withdrawal)
    (remainingQueue : H) : Option (WithdrawalQueue H) :=
  if k.withdrawal withdrawal remainingQueue ≠ q.slots q.head then none
  else some
    { q with
      slots := Function.update q.slots q.head remainingQueue
      head := if remainingQueue = 0 then q.head + 1 else q.head }

/-- The chains that remain behind each withdrawal, computed from the last one
to the first. -/
def remainingQueues (k : Keccak H) (withdrawals : List Withdrawal) (remainingQueue : H) : List H :=
  (withdrawals.foldr (fun w (queues, nextQueue) =>
    (nextQueue :: queues, k.withdrawal w nextQueue)) ([], remainingQueue)).1

omit [Zero H] [DecidableEq H] in
theorem remainingQueues_eq (k : Keccak H) (ws : List Withdrawal) (r : H) :
    remainingQueues k ws r = remainders k.withdrawal r ws := by
  have hboth : ws.foldr (fun w (p : List H × H) =>
      (p.2 :: p.1, k.withdrawal w p.2)) ([], r) = (remainders k.withdrawal r ws,
          wrap k.withdrawal r ws) := by
    induction ws with
    | nil => rfl
    | cons w ws ih => rw [List.foldr_cons, ih]; rfl
  exact congrArg Prod.fst hboth

/-! The lists behind the slots. -/

/-- The queue holds these lists, oldest first, and nothing else. -/
structure Represents (k : Keccak H) (q : WithdrawalQueue H)
    (pending : List (List Withdrawal)) : Prop where
  tail_eq : q.tail = q.head + pending.length
  slot_eq : ∀ i, (hi : i < pending.length) → q.slots (q.head + i) = queueHash k pending[i]
  slot_zero : ∀ i, i < q.head ∨ q.tail ≤ i → q.slots i = 0
  nonempty : ∀ ws ∈ pending, ws ≠ []

omit [DecidableEq H] in
theorem represents_empty (k : Keccak H) : Represents k (empty : WithdrawalQueue H) [] where
  tail_eq := rfl
  slot_eq := fun _ hi => absurd hi (Nat.not_lt_zero _)
  slot_zero := fun _ _ => rfl
  nonempty := fun _ hws => absurd hws List.not_mem_nil

/-- The lists left when one more batch is queued. -/
def pushBatch (pending : List (List Withdrawal)) (ws : List Withdrawal) : List (List Withdrawal) :=
  if ws = [] then pending else pending ++ [ws]

/-- The lists left when the front withdrawal is taken off. -/
def dropFront : List (List Withdrawal) → List (List Withdrawal)
  | [] => []
  | ws :: rest => if ws.tail = [] then rest else ws.tail :: rest

theorem dropFront_cons (w : Withdrawal) (ws : List Withdrawal) (rest : List (List Withdrawal)) :
    dropFront ((w :: ws) :: rest) = if ws = [] then rest else ws :: rest :=
  rfl

theorem pushBatch_flatten (pending : List (List Withdrawal)) (ws : List Withdrawal) :
    (pushBatch pending ws).flatten = pending.flatten ++ ws := by
  unfold pushBatch
  split
  · next hnil => simp [hnil]
  · simp

section Operations

variable {k : Keccak H} {q : WithdrawalQueue H} {pending : List (List Withdrawal)}

omit [DecidableEq H] in
/-- What the head slot holds. -/
theorem Represents.head_slot (h : Represents k q pending) :
    q.slots q.head = queueHash k (pending.headD []) := by
  cases pending with
  | nil =>
    have htail := h.tail_eq
    exact h.slot_zero _ (.inr (le_of_eq htail))
  | cons ws rest => exact h.slot_eq 0 (Nat.zero_lt_succ _)

omit [DecidableEq H] in
theorem queueHash_eq_zero_iff (hcf : k.CollisionFree) {ws : List Withdrawal} :
    queueHash k ws = 0 ↔ ws = [] := by
  rw [queueHash_eq_wrap]
  exact wrap_eq_zero_iff hcf.withdrawal

theorem Represents.enqueue (hcf : k.CollisionFree)
    (h : Represents k q pending) (ws : List Withdrawal) :
    Represents k (q.enqueue (queueHash k ws)) (pushBatch pending ws) := by
  unfold WithdrawalQueue.enqueue pushBatch
  by_cases hws : ws = []
  · rw [if_pos hws, if_pos ((queueHash_eq_zero_iff hcf).mpr hws)]
    exact h
  · rw [if_neg hws, if_neg (mt (queueHash_eq_zero_iff hcf).mp hws)]
    obtain ⟨head, tail, slots⟩ := q
    obtain ⟨htail, hslot, hzero, hnonempty⟩ := h
    dsimp only at htail hslot hzero
    refine ⟨?_, fun i hi => ?_, fun i hi => ?_, ?_⟩
    · simp only [List.length_append, List.length_singleton]
      omega
    · dsimp only
      rw [List.length_append, List.length_singleton] at hi
      by_cases hlast : i < pending.length
      · rw [update_of_ne (by omega), hslot i hlast, List.getElem_append_left hlast]
      · obtain rfl : i = pending.length := by omega
        rw [← htail, update_self, List.getElem_concat_length rfl]
    · dsimp only at hi ⊢
      rw [update_of_ne (by omega)]
      exact hzero i (by omega)
    · intro vs hvs
      rcases List.mem_append.mp hvs with hold | hnew
      · exact hnonempty vs hold
      · rw [List.mem_singleton.mp hnew]
        exact hws

omit [DecidableEq H] in
/-- A claimed front part and remainder fit the head slot exactly when the
oldest list starts with that part and the remainder commits to the rest. -/
theorem Represents.fits_iff (hcf : k.CollisionFree)
    (h : Represents k q pending) (ws : List Withdrawal) (r : H) :
    wrap k.withdrawal r ws = q.slots q.head ↔
      ∃ rest, pending.headD [] = ws ++ rest ∧ r = queueHash k rest := by
  rw [h.head_slot, queueHash_eq_wrap, wrap_eq_iff hcf.withdrawal]
  simp [queueHash_eq_wrap]

/-- Taking a withdrawal off needs it to be the front one, and leaves the
others. -/
theorem Represents.dequeue (hcf : k.CollisionFree)
    (h : Represents k q pending) {w : Withdrawal} {r : H}
    {q' : WithdrawalQueue H} (hq : q.dequeue k w r = some q') :
    pending.flatten = w :: (dropFront pending).flatten ∧ Represents k q' (dropFront pending) := by
  unfold WithdrawalQueue.dequeue at hq
  split at hq
  · cases hq
  rename_i hslot
  obtain ⟨rest, hfront, hr⟩ := (h.fits_iff hcf [w] r).mp (not_not.mp hslot)
  have hr0 : r = 0 ↔ rest = [] := hr ▸ queueHash_eq_zero_iff hcf
  cases hq
  cases pending with
  | nil => cases hfront
  | cons front others =>
    obtain rfl : front = w :: rest := hfront
    obtain ⟨head, tail, slots⟩ := q
    obtain ⟨htail, hslots, hzero, hnonempty⟩ := h
    rw [List.length_cons] at htail
    rw [List.forall_mem_cons] at hnonempty
    rw [dropFront_cons]
    dsimp only at htail hslots hzero ⊢
    by_cases hrest : rest = []
    -- the slot is exhausted: it is cleared and the head moves on
    · rw [if_pos hrest, if_pos (hr0.mpr hrest), hrest]
      refine ⟨rfl, ?_, fun i hi => ?_, fun i hi => ?_, hnonempty.2⟩
      · dsimp only
        omega
      · dsimp only
        have hi' := hslots (i + 1) (Nat.succ_lt_succ hi)
        rw [show head + (i + 1) = head + 1 + i by omega] at hi'
        rw [update_of_ne (by omega), hi']
        rfl
      · dsimp only at hi ⊢
        by_cases hhead : i = head
        · rw [hhead, update_self, hr0.mpr hrest]
        · rw [update_of_ne hhead]
          exact hzero i (by omega)
    · rw [if_neg hrest, if_neg (mt hr0.mp hrest)]
      refine ⟨rfl, htail, fun i hi => ?_, fun i hi => ?_,
        List.forall_mem_cons.mpr ⟨hrest, hnonempty.2⟩⟩
      · dsimp only
        cases i with
        | zero => exact (update_self ..).trans hr
        | succ i =>
          rw [update_of_ne (by omega)]
          exact hslots (i + 1) hi
      · dsimp only at hi ⊢
        rw [update_of_ne (by omega)]
        exact hzero i hi

end Operations

/-! Batches queued while one is being processed. -/

/-- Slots past the tail hold nothing. -/
def Clean (q : WithdrawalQueue H) : Prop :=
  ∀ i, q.tail ≤ i → q.slots i = 0

/-- `q'` holds what `q` holds, and possibly more behind it. -/
structure Extends (q q' : WithdrawalQueue H) : Prop where
  head_eq : q'.head = q.head
  tail_le : q.tail ≤ q'.tail
  slots_eq : ∀ i, i < q.tail → q'.slots i = q.slots i

omit [Zero H] [DecidableEq H] in
theorem Extends.refl (q : WithdrawalQueue H) : Extends q q := ⟨rfl, le_rfl, fun _ _ => rfl⟩

omit [Zero H] [DecidableEq H] in
theorem Extends.trans {q1 q2 q3 : WithdrawalQueue H} (h : Extends q1 q2)
    (h' : Extends q2 q3) : Extends q1 q3 where
  head_eq := h'.head_eq.trans h.head_eq
  tail_le := h.tail_le.trans h'.tail_le
  slots_eq i hi := (h'.slots_eq i (hi.trans_le h.tail_le)).trans (h.slots_eq i hi)

theorem enqueue_extends (q : WithdrawalQueue H) (hash : H) : Extends q (q.enqueue hash) := by
  unfold enqueue
  split
  · exact .refl q
  · exact ⟨rfl, Nat.le_succ _, fun i hi =>
      update_of_ne (ne_of_lt hi) _ _⟩

variable {k : Keccak H} {w : Withdrawal} {ws : List Withdrawal} {q q' : WithdrawalQueue H} {r : H}

theorem Clean.enqueue (h : q.Clean) (hash : H) : (q.enqueue hash).Clean := by
  unfold WithdrawalQueue.enqueue
  split
  · exact h
  · intro i hi
    change q.tail + 1 ≤ i at hi
    change update q.slots q.tail hash i = 0
    rw [update_of_ne (by omega)]
    exact h i (by omega)

omit [DecidableEq H] in
theorem Represents.clean {k : Keccak H} {pending : List (List Withdrawal)}
    (h : Represents k q pending) :
    q.Clean := fun i hi => h.slot_zero i (.inr hi)

/-- Taking the first of several withdrawals that fit the head slot. -/
theorem dequeue_of_fits (hfits : wrap k.withdrawal r (w :: ws) = q.slots q.head) :
    ∃ q', q.dequeue k w (wrap k.withdrawal r ws) = some q' := by
  exact ⟨_, if_neg (not_not.mpr hfits)⟩

/-- The others then fit the head slot, also once more was queued. -/
theorem fits_of_dequeue (hne : ∀ w tail, k.withdrawal w tail ≠ 0)
    {q'' : WithdrawalQueue H} (hclean : q.Clean)
    (hq : q.dequeue k w (wrap k.withdrawal r ws) = some q')
    (hext : Extends q' q'') (hws : ws ≠ []) : wrap k.withdrawal r ws = q''.slots q''.head := by
  unfold dequeue at hq
  split at hq
  · cases hq
  rename_i hslot
  have hrest : wrap k.withdrawal r ws ≠ 0 := by
    cases ws with
    | nil => exact absurd rfl hws
    | cons v vs => exact hne _ _
  have hlt : q.head < q.tail := by
    by_contra hge
    have hzero := hclean q.head (not_lt.mp hge)
    rw [← not_not.mp hslot] at hzero
    exact hne _ _ hzero
  rw [if_neg hrest, Option.some.injEq] at hq
  subst hq
  rw [hext.head_eq, hext.slots_eq _ hlt]
  change _ = update q.slots q.head _ q.head
  rw [update_self]

theorem Clean.dequeue (hne : ∀ w tail, k.withdrawal w tail ≠ 0)
    (h : q.Clean) (hq : q.dequeue k w r = some q') : q'.Clean := by
  unfold WithdrawalQueue.dequeue at hq
  split at hq
  · cases hq
  rename_i hslot
  rw [Option.some.injEq] at hq
  subst hq
  intro i hi
  change update q.slots q.head r i = 0
  by_cases hhead : i = q.head
  · have hzero := h q.head (hhead ▸ hi)
    rw [← not_not.mp hslot] at hzero
    exact absurd hzero (hne _ _)
  · rw [update_of_ne hhead]
    exact h i hi

end WithdrawalQueue

end Tempo.Zones
