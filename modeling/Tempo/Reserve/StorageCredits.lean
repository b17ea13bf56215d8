/-
Storage credits of the channel reserve.  A channel has a slot while it has a
deposit, so opening one creates a slot and closing it clears the slot; every
call keeps the credits of the payers backed by the balance of the reserve.
-/
import Tempo.Reserve.Aborts
import Tempo.StorageCredits.Backing

namespace Tempo

open ChannelReserve

variable {P : TempoPrecompileError → Prop} {w : ReserveWorld} {d : ChannelDescriptor}
  {state : PackedChannelState}

namespace ReserveWorld

open StorageCredits

/-- The credits are backed, and only channels with a deposit have a slot. -/
structure Funded (w : ReserveWorld) : Prop where
  backed : Backed w 0
  slots : ∀ d, (w.reserve.channelStates d).deposit = 0 → w.reserve.channelStates d = .blank

/-- Unless a credit was lost. -/
def Fine (w : ReserveWorld) : Prop :=
  Saturated w ∨ w.Funded

def Live (d : ChannelDescriptor) (w : ReserveWorld) : Prop :=
  Saturated w ∨ w.Funded ∧ w.reserve.channelStates d ≠ .blank

def Free (d : ChannelDescriptor) (w : ReserveWorld) : Prop :=
  Saturated w ∨ w.Funded ∧ w.reserve.channelStates d = .blank

/-- From `J` a computation ends in `K` or with an error of `P`, unless a credit
was lost. -/
def Leads {α : Type} (P : TempoPrecompileError → Prop)
    (J : ReserveWorld → Prop) (m : Exec ReserveWorld α) (K : α → ReserveWorld → Prop) : Prop :=
  ∀ ⦃w⦄, J w → Wp m w K fun e w' => Saturated w' ∨ P e

section Rules

variable {α β : Type} {J : ReserveWorld → Prop} {m : Exec ReserveWorld α}
  {K : α → ReserveWorld → Prop} {k : α → Exec ReserveWorld β} {L : β → ReserveWorld → Prop}

theorem Leads.bind (hm : Leads P J m K) (hk : ∀ a, Leads P (K a) (k a) L) :
    Leads P J (m >>= k) L := fun _ hw => (hm hw).bind fun a _ ha => hk a ha

theorem Leads.ite {c : Prop} [Decidable c] {x y : Exec ReserveWorld α}
    (hx : c → Leads P J x K) (hy : ¬c → Leads P J y K) : Leads P J (if c then x else y) K :=
  fun _ hw => wp_ite.mpr ⟨fun hc => hx hc hw, fun hc => hy hc hw⟩

theorem leads_pure (a : α) : Leads P J (pure a) fun _ => J := fun _ hw => hw

/-- What is known of values does not depend on the state. -/
theorem leads_and {p : Prop} (h : p → Leads P J m K) :
    Leads P (fun w => p ∧ J w) m K := fun _ hw => h hw.1 hw.2

variable {e : TempoPrecompileError} {o : Option α}

theorem leads_require (p : Prop) [Decidable p]
    (he : P e) : Leads P J (require p e) fun _ w => p ∧ J w :=
  fun _ hw => wp_require.mpr ⟨fun hp => ⟨hp, hw⟩, fun _ => .inr he⟩

theorem leads_query (f : ChannelReserve → α) : Leads P J (query f) fun _ => J := fun _ hw => hw

theorem leads_expect {msg : String} (he : P (.aborted msg)) : Leads P J (expect o msg) fun _ => J :=
  fun _ hw => wp_orFail.mpr ⟨fun _ _ => hw, fun _ => .inr he⟩

/-- What only moves tokens, or fails, leaves the credits as they are. -/
theorem leads_onTokens {m : Exec TokenWorld α} (hm : Throws P (onTokens m))
    (hJ : ∀ w tokens, J w → J { w with tokens }) : Leads P J (onTokens m) fun _ => J := by
  intro w hw
  refine (hm.wp w).mono (fun a w' hyields => ?_) fun _ _ => .inr
  obtain ⟨tokens, -, rfl⟩ := hyields.focus
  exact hJ w tokens hw

theorem leads_require_bind {p : Prop} [Decidable p]
    {k : PUnit → Exec ReserveWorld β} (he : P e) (hk : p → Leads P J (k ⟨⟩) L) :
    Leads P J (require p e >>= k) L := (leads_require p he).bind fun _ => leads_and hk

theorem leads_orFail_bind (he : P e) (hk : ∀ a, o = some a → Leads P J (k a) L) :
    Leads P J (orFail o e >>= k) L := fun _ hw => wp_bind.mpr
    (wp_orFail.mpr ⟨fun a ha => hk a ha hw, fun _ => .inr he⟩)

/-- A statement under a condition, in front of the rest. -/
theorem Leads.when_bind {c : Prop} [Decidable c] {x : Exec ReserveWorld PUnit}
    {k : PUnit → Exec ReserveWorld β} (hx : Leads P J x fun _ => J) (hk : Leads P J (k ⟨⟩) L) :
    Leads P J (if c then x >>= k else k ⟨⟩) L := .ite (fun _ => hx.bind fun _ => hk) fun _ => hk

end Rules

section Tokens

variable (tokens : TokenWorld)

theorem Funded.withTokens (h : w.Funded) : Funded { w with tokens } :=
  ⟨⟨h.backed.mode, h.backed.bound, h.backed.words, h.backed.covered⟩, h.slots⟩

theorem Fine.withTokens (h : w.Fine) : Fine { w with tokens } :=
  h.imp id fun hfunded => hfunded.withTokens tokens

theorem Live.fine (h : w.Live d) : w.Fine := h.imp id And.left

theorem Live.withTokens (h : w.Live d) : Live d { w with tokens } :=
  h.imp id fun ⟨hfunded, hlive⟩ => ⟨hfunded.withTokens tokens, hlive⟩

theorem Free.withTokens (h : w.Free d) : Free d { w with tokens } :=
  h.imp id fun ⟨hfunded, hfree⟩ => ⟨hfunded.withTokens tokens, hfree⟩

end Tokens

variable {spec : TempoHardfork} {w' : ReserveWorld}

theorem ne_blank (h : state.deposit ≠ 0) : state ≠ .blank := by
  rintro rfl
  exact h rfl

/-- The slots after a write of one of them. -/
theorem slots_putState (hcore : w'.core = w.core.putState d state)
    (hstate : state.deposit = 0 → state = .blank)
    (h : ∀ e, (w.reserve.channelStates e).deposit = 0 →
      w.reserve.channelStates e = .blank) (e : ChannelDescriptor) :
    (w'.reserve.channelStates e).deposit = 0 → w'.reserve.channelStates e = .blank := by
  have hstates : w'.reserve.channelStates = Function.update w.reserve.channelStates d state :=
    congrArg (fun w => w.reserve.channelStates) hcore
  rw [hstates, Function.update_apply]
  split
  · exact hstate
  · exact h e

theorem writeState_minting (d : ChannelDescriptor) (state : PackedChannelState) :
    Keeps (Minting w) (writeState spec d state) := fun w1 hw =>
    have h := (update_minting (w1.reserve.channelStates d = .blank)
      (state = .blank) : Keeps (Minting w) (update (CreditState.sstore spec
        (w1.reserve.channelStates d = .blank) (state = .blank)))) hw
    ⟨h.counters, h.mode, h.bound, h.balance⟩

theorem writeState_saturated (d : ChannelDescriptor) (state : PackedChannelState) :
    Keeps Saturated (writeState spec d state) := fun _ hw => CreditState.sstore_saturated _ _ hw

/-- Rewriting the slot of a channel mints and spends nothing. -/
theorem writeState_leads {P : TempoPrecompileError → Prop} (hstate : state.deposit ≠ 0) :
    Leads P (Live d) (writeState spec d state) fun _ => Fine := by
  rintro w (hlost | ⟨⟨hbacked, hslots⟩, hlive⟩)
  · exact .inl (writeState_saturated d state hlost)
  · have hminting := (writeState_minting d state :
      Keeps (Minting w) (writeState spec d state)) hbacked.minting
    refine .inr ⟨(hminting.backed hbacked).mono (Nat.le_add_right _ _), ?_⟩
    exact slots_putState (w := w) rfl (fun hzero => absurd hzero hstate) hslots

end ReserveWorld

namespace ChannelReserve

open ReserveWorld StorageCredits

variable {env : ReserveEnv}

theorem creditChannelStorageSlots_saturated (payer : Address) (slots : Nat) :
    Keeps Saturated (creditChannelStorageSlots env payer slots) :=
  .ite (keeps_pure _) (creditStorageSlots_saturated _ _ _)

theorem creditChannelStorageSlots_backed (hspec : .t7 ≤ env.spec)
    (payer : Address) {pending slots : Nat} (h : Backed w (pending + slots)) :
    Wp (creditChannelStorageSlots env payer slots) w
      (fun _ w' => Backed w' pending) fun e _ => NotFatal e := by
  unfold creditChannelStorageSlots
  split
  · exact h.mono (Nat.le_add_right _ _)
  · rename_i hslots
    exact (creditStorageSlots_backed hspec _ payer hslots h).mono
      (fun _ _ hs => hs) fun _ _ hfalse => hfalse.elim

theorem deleteChannelState_saturated (payer : Address) :
    Keeps Saturated (deleteChannelStateAndCreditPayer env d payer) :=
  (trackMintedCredits_saturated (writeState_saturated _ _)).bind fun _ =>
    creditChannelStorageSlots_saturated _ _

/-- A closed channel leaves its credit to the payer. -/
theorem deleteChannelState_leads (hP : ∀ ⦃e⦄, NotFatal e → P e)
    (hspec : .t7 ≤ env.spec) (payer : Address) :
    Leads P (Live d) (deleteChannelStateAndCreditPayer env d payer) fun _ => Fine := by
  rintro w (hlost | ⟨⟨hbacked, hslots⟩, -⟩)
  · exact (deleteChannelState_saturated payer hlost).mono (fun _ _ => .inl) fun _ _ => .inl
  · have hcredits : Wp (deleteChannelStateAndCreditPayer env d payer) w
        (fun _ w' => Backed w' 0) fun e _ => NotFatal e :=
      (trackMintedCredits_backed hspec (writeState_minting d .blank)
        (.updates _) hbacked).bind fun r _ hr =>
          creditChannelStorageSlots_backed hspec payer hr
    refine (hcredits.of_wp fun _ w' hyields hw' => ?_).mono
      (fun _ _ => .inr) fun _ _ he => .inr (hP he)
    exact ⟨hw', slots_putState (deleteChannelStateAndCreditPayer_core d payer hyields)
      (fun _ => rfl) hslots⟩

theorem writeChannelStateSpending_saturated (payer : Address) :
    Keeps Saturated (writeChannelStateSpendingCredit env payer d state) :=
  .ite ((keeps_reads _).bind fun _ => .ite (writeState_saturated _ _)
    ((writeCounter_saturated _ _).bind fun _ =>
      (withBudget_saturated (writeState_saturated _ _)).bind fun _ =>
        (keeps_require _ _).bind fun _ =>
          creditChannelStorageSlots_saturated _ _))
    (writeState_saturated _ _)

/-- A new channel spends one credit of its payer if there is one. -/
theorem writeChannelStateSpending_backed (hspec : .t7 ≤ env.spec)
    (payer : Address) (hstate : state ≠ .blank)
    (hfree : w.reserve.channelStates d = .blank) (h : Backed w 0) :
    Wp (writeChannelStateSpendingCredit env payer d state) w
      (fun _ w' => Saturated w' ∨ Backed w' 0) fun e w' => Saturated w' ∨ NotFatal e := by
  rw [writeChannelStateSpendingCredit, if_pos hspec, query, wp_reads_bind]
  by_cases hzero : w.reserve.channelStorageCredits payer = 0
  · rw [if_pos hzero]
    have hminting := (writeState_minting d state :
      Keeps (Minting w) (writeState env.spec d state)) h.minting
    exact .inr ((hminting.backed h).mono (Nat.le_add_right _ _))
  · rw [if_neg hzero]
    -- the counter is cleared before the rest of it is written again
    have hclear : Wp (writeCounter env.spec payer 0) w
        (fun _ w' => w'.reserve.channelStates d = .blank ∧ (Saturated w' ∨
            Backed w' (0 + w.reserve.channelStorageCredits payer))) fun _ _ => False :=
      (clearCounter_backed hspec hzero h).of_wp fun _ w' hyields hw' => by
        have hcore := writeCounter_preserves core_ignores payer 0 hyields
        have hstates : w'.reserve.channelStates = w.reserve.channelStates :=
          congrArg (fun w => w.reserve.channelStates) hcore
        exact ⟨hstates ▸ hfree, hw'⟩
    refine (hclear.mono (fun _ _ hw => hw)
      fun _ _ hfalse => hfalse.elim).bind fun _ w1 hcleared => ?_
    obtain ⟨hfree1, hlost | hbacked⟩ := hcleared
    · refine Wp.mono (Keeps.bind (withBudget_saturated
        (writeState_saturated d state)) (fun r => ?_) hlost) (fun _ _ => .inl) fun _ _ => .inl
      exact (keeps_require _ _).bind fun _ =>
        creditChannelStorageSlots_saturated _ _
    · have hbalance := hbacked.covered
      refine ((withBudget_create hspec hzero (s := w1)
        (n := HasCredits.counters w1) ?_ rfl (by omega)).mono
        (fun _ _ hw => hw) fun _ _ hfalse => hfalse.elim).bind fun r w2 hspent => ?_
      · change ((HasCredits.credits w1).setBudget _).sstore env.spec
          (decide (w1.reserve.channelStates d = .blank)) (decide (state = .blank)) = _
        rw [decide_eq_true hfree1, decide_eq_false hstate]
      · obtain ⟨hdelta, hcounters, hmode, hless⟩ := hspent
        have hone : (-r.2).toNat = 1 := by omega
        refine wp_require_bind.mpr ⟨fun _ => ?_, fun hne => absurd hone hne⟩
        have hrest : Backed w2 (0 + (w.reserve.channelStorageCredits payer - (-r.2).toNat)) := by
          refine ⟨hmode, ?_, hcounters ▸ hbacked.words, ?_⟩
          · have hbound := hbacked.bound
            omega
          · rw [hcounters]
            omega
        exact (creditChannelStorageSlots_backed hspec payer hrest).mono
          (fun _ _ => .inr) fun _ _ => .inr

section

variable (hP : ∀ ⦃e⦄, NotFatal e → P e)
include hP

theorem writeChannelStateSpending_leads
    (hspec : .t7 ≤ env.spec) (payer : Address) (hstate : state.deposit ≠ 0) :
    Leads P (Free d) (writeChannelStateSpendingCredit env payer d state) fun _ => Fine := by
  rintro w (hlost | ⟨⟨hbacked, hslots⟩, hfree⟩)
  · exact (writeChannelStateSpending_saturated payer hlost).mono (fun _ _ => .inl) fun _ _ => .inl
  · refine ((writeChannelStateSpending_backed hspec payer (ne_blank hstate)
      hfree hbacked).of_wp fun _ w' hyields hw' => ?_).mono
      (fun _ _ hw' => hw') fun _ _ he => he.imp id fun he => hP he
    refine hw'.imp id fun hbacked' => ⟨hbacked', ?_⟩
    exact slots_putState (writeChannelStateSpendingCredit_core payer d state hyields)
      (fun hzero => absurd hzero hstate) hslots

theorem loadExistingState_leads : Leads P Fine (loadExistingState d) fun state w =>
      state.deposit ≠ 0 ∧ Live d w := by
  intro w hw
  refine ((loadExistingState_throws (fun _ => hP nofun) d).wp w).mono
    (fun state w' hload => ?_) fun _ _ => .inr
  obtain ⟨rfl, rfl, hdeposit⟩ := loadExistingState_yields hload
  exact ⟨hdeposit, hw.imp id fun hfunded => ⟨hfunded, ne_blank hdeposit⟩⟩

theorem checkOpen_leads (d : ChannelDescriptor) : Leads P Fine (checkOpen d) fun _ => Free d := by
  have hthrows : Throws P (checkOpen d) := .bind (.reads _) fun _ => .bind (.reads _) fun _ =>
      .require _ (hP nofun)
  intro w hw
  refine (hthrows.wp w).mono (fun _ w' hcheck => ?_) fun _ _ => .inr
  obtain ⟨rfl, hzero, -⟩ := checkOpen_yields hcheck
  exact hw.imp id fun hfunded => ⟨hfunded, hfunded.slots d hzero⟩

theorem validateVoucher_leads {J : ReserveWorld → Prop}
    (h : Tip20.RaisesOnly env.toEnv P) (d : ChannelDescriptor)
    (cumulativeAmount : Nat) (signature : B256) :
    Leads P J (validateVoucher env d cumulativeAmount signature) fun _ => J := by
  intro w hw
  refine ((validateVoucher_throws h (fun _ => hP nofun) d _ _).wp w).mono
    (fun _ w' hvalid => ?_) fun _ _ => .inr
  rw [(validateVoucher_yields hvalid).1]
  exact hw

end

/-! Operations. -/

theorem requestClose_leads (hP : ∀ ⦃e⦄, NotFatal e → P e) (msgSender : Address) :
    Leads P Fine (requestClose env msgSender d) fun _ => Fine := by
  refine (loadExistingState_leads hP).bind fun state => leads_and fun hdeposit => ?_
  exact leads_require_bind (hP nofun) fun _ => .ite (fun _ _ => Live.fine)
    fun _ => writeState_leads hdeposit

section Operations

variable (hP : ∀ ⦃e⦄, NotFatal e → P e) (h : Tip20.RaisesOnly env.toEnv P)
include hP h

theorem settle_leads (msgSender : Address) (cumulativeAmount : Nat) (signature : B256) :
    Leads P Fine (settle env msgSender d cumulativeAmount signature) fun _ => Fine := by
  refine (loadExistingState_leads hP).bind fun state => leads_and fun hdeposit => ?_
  refine leads_require_bind (hP nofun) fun _ => ?_
  refine leads_require_bind (hP nofun) fun _ => ?_
  refine leads_require_bind (hP nofun) fun _ => ?_
  refine (validateVoucher_leads hP h d _ _).bind fun _ => ?_
  refine (leads_expect (hP nofun)).bind fun delta => ?_
  refine (leads_onTokens (fromAddress_throws h _) fun _ => Live.withTokens).bind
    fun _ => .ite (fun _ => ?_) fun _ => ?_
  · exact (leads_onTokens (deliverCapture_throws h _ _ _ _ _)
      fun _ => Live.withTokens).bind fun _ => writeState_leads hdeposit
  · refine (leads_onTokens (ensureSender_throws h _ _) fun _ => Live.withTokens).bind fun _ => ?_
    refine Leads.bind (writeState_leads hdeposit) fun _ => ?_
    exact leads_onTokens (payOut_throws h _ _ _) fun _ => Fine.withTokens

theorem topUp_leads (msgSender : Address) (additionalDeposit : Nat) :
    Leads P Fine (topUp env msgSender d additionalDeposit) fun _ => Fine := by
  refine (loadExistingState_leads hP).bind fun state => leads_and fun hdeposit => ?_
  refine leads_require_bind (hP nofun) fun _ => .ite (fun _ => .ite (fun _ => ?_)
    fun _ => writeState_leads hdeposit) fun _ => ?_
  · exact fun _ => Live.fine
  · refine leads_orFail_bind (hP nofun) fun nextDeposit hadd => ?_
    refine (leads_onTokens (fromAddress_throws h _) fun _ => Live.withTokens).bind fun _ => ?_
    refine (leads_onTokens (pullDeposit_throws h _ _ _ _ _)
      fun _ => Live.withTokens).bind fun _ => writeState_leads ?_
    have hsum := checkedAdd_eq_some.mp hadd
    dsimp only
    omega

variable (hspec : .t7 ≤ env.spec)
include hspec

theorem open_leads (msgSender payee operator token : Address)
    (deposit : Nat) (salt : B256) (authorizedSigner : Address) :
    Leads P Fine (open_ env msgSender payee operator token deposit salt
      authorizedSigner) fun _ => Fine := by
  refine leads_require_bind (hP nofun) fun _ => ?_
  refine (leads_onTokens (fromAddress_throws h _) fun _ => Fine.withTokens).bind fun _ => ?_
  refine leads_require_bind (hP nofun) fun hdeposit => ?_
  refine (leads_query _).bind fun _ => ?_
  refine leads_require_bind (hP nofun) fun _ => ?_
  refine (checkOpen_leads hP _).bind fun _ => ?_
  refine (leads_onTokens (pullDeposit_throws h _ _ _ _ _) fun _ => Free.withTokens).bind fun _ => ?_
  refine (writeChannelStateSpending_leads hP hspec msgSender hdeposit).bind fun _ => ?_
  intro w hw
  exact hw.imp id fun hfunded =>
    ⟨⟨hfunded.backed.mode, hfunded.backed.bound, hfunded.backed.words,
      hfunded.backed.covered⟩, hfunded.slots⟩

theorem close_leads (msgSender : Address)
    (cumulativeAmount captureAmount : Nat) (signature : B256) :
    Leads P Fine (close env msgSender d cumulativeAmount captureAmount
      signature) fun _ => Fine := by
  refine (loadExistingState_leads hP).bind fun state => leads_and fun hdeposit => ?_
  refine leads_require_bind (hP nofun) fun _ => ?_
  refine leads_require_bind (hP nofun) fun _ => ?_
  refine leads_require_bind (hP nofun) fun _ => ?_
  refine .when_bind (validateVoucher_leads hP h d _ _) ?_
  refine (leads_expect (hP nofun)).bind fun delta => (leads_expect (hP nofun)).bind fun refund => ?_
  refine .ite (fun _ => ?_) fun _ => ?_
  · refine (leads_onTokens (fromAddress_throws h _) fun _ => Live.withTokens).bind fun _ => ?_
    refine .when_bind (leads_onTokens (deliverCapture_throws h _ _ _ _ _)
      fun _ => Live.withTokens) ?_
    exact .when_bind (leads_onTokens (deliverRefund_throws h _ _ _)
      fun _ => Live.withTokens) (deleteChannelState_leads hP hspec _)
  · refine (deleteChannelState_leads hP hspec _).bind fun _ => ?_
    refine (leads_onTokens (fromAddress_throws h _) fun _ => Fine.withTokens).bind fun _ => ?_
    have hpayOut : ∀ to' amount, Leads P Fine (payOut env d.token to' amount) fun _ => Fine :=
      fun _ _ => leads_onTokens (payOut_throws h _ _ _) fun _ => Fine.withTokens
    have hback := Leads.ite (c := refund ≠ 0)
      (fun _ => hpayOut d.payer refund) fun _ => leads_pure ()
    refine .ite (fun _ => ?_) fun _ => hback
    exact (leads_onTokens (ensureSender_throws h _ _)
      fun _ => Fine.withTokens).bind fun _ => (hpayOut _ _).bind fun _ => hback

theorem withdraw_leads (msgSender : Address) :
    Leads P Fine (withdraw env msgSender d) fun _ => Fine := by
  refine (loadExistingState_leads hP).bind fun state => leads_and fun hdeposit => ?_
  refine leads_require_bind (hP nofun) fun _ => ?_
  refine leads_require_bind (hP nofun) fun _ => ?_
  refine (leads_expect (hP nofun)).bind fun refund => .ite (fun _ => ?_) fun _ => ?_
  · refine .ite (fun _ => ?_) fun _ => deleteChannelState_leads hP hspec _
    exact (leads_onTokens (fromAddress_throws h _) fun _ => Live.withTokens).bind fun _ =>
        (leads_onTokens (deliverRefund_throws h _ _ _) fun _ => Live.withTokens).bind fun _ =>
            deleteChannelState_leads hP hspec _
  · refine (deleteChannelState_leads hP hspec _).bind fun _ =>
      .ite (fun _ => ?_) fun _ => leads_pure ()
    exact (leads_onTokens (fromAddress_throws h _) fun _ => Fine.withTokens).bind fun _ =>
        leads_onTokens (payOut_throws h _ _ _) fun _ => Fine.withTokens

end Operations

end ChannelReserve

open StorageCredits

/-- A world between calls: the credits are ready, and only channels with a
deposit have a slot, unless a credit was lost. -/
def ReserveWorld.Settled (w : ReserveWorld) : Prop :=
  Saturated w ∨ (preserving w).Funded

theorem ReserveWorld.Settled.ready (h : w.Settled) :
    Ready w := h.imp id fun hfunded => hfunded.backed

theorem ReserveWorld.Fine.settled (h : w.Fine) : w.Settled := by
  rcases h with hlost | hfunded
  · exact .inl hlost
  · rcases hfunded.backed.ready with hlost | hbacked
    · exact .inl hlost
    · exact .inr ⟨hbacked, hfunded.slots⟩

theorem ReserveCall.exec_settled {env : ReserveEnv}
    {P : TempoPrecompileError → Prop} (c : ReserveCall) (hspec : .t7 ≤ env.spec)
    (hP : ∀ ⦃e⦄, NotFatal e → P e) (henv : env.AnswersOnly P) (hw : w.Settled) :
    Wp (c.exec env) w (fun _ w' => w'.Settled) fun e w' => Saturated w' ∨ P e := by
  have h : Tip20.RaisesOnly env.toEnv P :=
    ⟨henv, fun _ => hP nofun, fun _ => hP nofun, fun _ => hP nofun, hP nofun⟩
  have hbody : ReserveWorld.Leads P ReserveWorld.Fine (c.body env) fun _ => ReserveWorld.Fine := by
    cases c with
    | open_ =>
      exact (open_leads hP h hspec _ _ _ _ _ _ _).bind fun _ => ReserveWorld.leads_pure _
    | settle => exact settle_leads hP h _ _ _
    | topUp => exact topUp_leads hP h _ _
    | requestClose => exact requestClose_leads hP _
    | close => exact close_leads hP h hspec _ _ _ _
    | withdraw => exact withdraw_leads hP h hspec _
  have hmode : Wp (preserveStorageCredits env.spec) w
      (fun _ w' => w'.Fine) fun e w' => Saturated w' ∨ P e := by
    rw [preserveStorageCredits, if_pos hspec]
    exact hw
  refine hmode.bind fun _ w1 hw1 => ?_
  exact (hbody hw1).mono (fun _ _ => ReserveWorld.Fine.settled) fun _ _ he => he

/-- A call of the reserve, a change of the tokens, or a new transaction. -/
inductive ReserveWorld.CreditStep : ReserveWorld → ReserveWorld → Prop
  | call {w w' : ReserveWorld} (env : ReserveEnv) (c : ReserveCall)
      (hspec : .t7 ≤ env.spec) (h : Yields (c.exec env) w () w') :
      CreditStep w w'
  | tokens (w : ReserveWorld) (tokens : TokenWorld) :
      CreditStep w { w with tokens }
  | transaction (w : ReserveWorld) (channelOpenContextHash : B256)
      (mode : CreditMode) (budget pendingRefunds : Nat) :
      CreditStep w { w with
        reserve.openedThisTx := fun _ => false
        reserve.channelOpenContextHash := channelOpenContextHash
        credits := { w.credits with mode, budget, pendingRefunds } }

theorem ReserveWorld.run_settled {w' : ReserveWorld}
    (hrun : Relation.ReflTransGen ReserveWorld.CreditStep w w') (h : w.Settled) : w'.Settled := by
  refine run_invariant (I := ReserveWorld.Settled) (fun w1 w2 h1 hstep => ?_) hrun h
  cases hstep with
  | call env c hspec hcall =>
    have hany : env.AnswersOnly fun _ => True := by
      constructor <;> intros <;> trivial
    exact (wp_iff.mp (c.exec_settled hspec (fun _ _ => trivial) hany h1)).1 _ _ hcall
  | tokens tokens => exact h1.imp id fun hfunded => hfunded.withTokens tokens
  | transaction =>
    rcases h1 with hlost | ⟨⟨-, hbound, hwords, hcovered⟩, hslots⟩
    · exact .inl hlost
    · exact .inr ⟨⟨rfl, hbound, hwords, hcovered⟩, hslots⟩

end Tempo
