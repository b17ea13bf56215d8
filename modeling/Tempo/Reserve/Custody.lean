/-
The reserve holds what its channels are owed, and pays each channel out once.
A channel id contains the context hash of the transaction that opened it, so
an id is opened in that transaction or never, and only once there; what its
payee ever receives stays below the largest valid voucher presented.
-/
import Tempo.Reserve.Aborts
import Tempo.Tip20.Supply

namespace Tempo

open Function PackedChannelState ReserveCall Relation

variable {env : ReserveEnv} {c : ReserveCall}

/-- What the reserve holds for a channel. -/
def PackedChannelState.owed (state : PackedChannelState) : Nat :=
  state.deposit - state.settled

/-- What went through a channel, and the largest valid voucher presented. -/
structure ChannelAccount where
  deposited : Nat
  delivered : Nat
  refunded : Nat
  vouched : Nat
  deriving DecidableEq

namespace ChannelAccount

def add (a : ChannelAccount) (p : Payments) (vouched : Nat) : ChannelAccount :=
  ⟨a.deposited + p.pulled, a.delivered + p.captured, a.refunded + p.returned, max a.vouched vouched⟩

/-- The books of a channel agree with its state. -/
structure Agrees (a : ChannelAccount) (state : PackedChannelState) : Prop where
  settled : state.settled ≤ state.deposit
  conserved : a.delivered + a.refunded + (state.deposit - state.settled) = a.deposited
  live : state.deposit ≠ 0 → a.delivered = state.settled ∧ a.refunded = 0
  vouched : a.delivered ≤ a.vouched

end ChannelAccount

namespace ReserveCall

def msgSender : ReserveCall → Address
  | open_ sender _ _ _ _ _ _ | settle sender _ _ _ | topUp sender _ _
  | requestClose sender _ | close sender _ _ _ _ | withdraw sender _ => sender

/-- What the payee has received in all once the call ends the channel. -/
def finalAmount (w : ReserveWorld) (c : ReserveCall) : Option Nat :=
  match c with
  | close _ _ _ captureAmount _ => some captureAmount
  | withdraw _ _ => some (c.before w).settled
  | _ => none

variable {w : ReserveWorld} {a : ChannelAccount}

section

variable (h : c.Accepts env w)
include h

/-- What a channel is owed changes by what goes in and out. -/
theorem Accepts.owed (hsettled : (c.before w).settled ≤ (c.before w).deposit) :
    (c.after env w).settled ≤ (c.after env w).deposit ∧
    (c.after env w).owed + (c.payments w).captured + (c.payments w).returned =
      (c.before w).owed + (c.payments w).pulled := by
  cases c with
  | open_ =>
    obtain ⟨-, -, hnone, -⟩ := h
    simp only [after, payments, owed]
    omega
  | settle =>
    obtain ⟨-, hle, hlt, -⟩ := h
    simp only [after, payments, owed]
    omega
  | topUp =>
    simp only [after, payments, owed]
    omega
  | requestClose =>
    simp only [after, payments, owed]
    split
    · omega
    · exact ⟨hsettled, rfl⟩
  | close =>
    obtain ⟨-, hle, -, hdeposit, -⟩ := h
    simp only [after, payments, owed, blank]
    omega
  | withdraw =>
    simp only [after, payments, owed, blank]
    omega

/-- While a channel lives, its payee has received what is settled, and no
more than some voucher presented. -/
theorem Accepts.captured (hsettled : (c.before w).settled ≤ (c.before w).deposit) :
    ((c.after env w).deposit ≠ 0 → (c.before w).settled + (c.payments w).captured =
        (c.after env w).settled ∧ (c.payments w).returned = 0) ∧ ((c.payments w).captured = 0 ∨
      (c.before w).settled + (c.payments w).captured ≤ c.vouches env) := by
  cases c with
  | open_ =>
    obtain ⟨-, -, hnone, -⟩ := h
    rw [hnone, Nat.le_zero] at hsettled
    exact ⟨fun _ => ⟨hsettled, rfl⟩, .inl rfl⟩
  | settle =>
    obtain ⟨-, -, hlt, hvalid⟩ := h
    refine ⟨fun _ => ⟨Nat.add_sub_of_le hlt.le, rfl⟩, .inr ?_⟩
    simp only [payments, vouches, if_pos hvalid]
    omega
  | topUp => exact ⟨fun _ => ⟨rfl, rfl⟩, .inl rfl⟩
  | requestClose =>
    refine ⟨fun _ => ⟨?_, rfl⟩, .inl rfl⟩
    simp only [after, payments]
    split
    · rfl
    · rfl
  | close sender d cumulativeAmount captureAmount signature =>
    obtain ⟨-, hle, hcumulative, -, hvalid⟩ := h
    refine ⟨fun hlive => absurd rfl hlive, ?_⟩
    simp only [payments]
    by_cases hlt : (before w (close sender d cumulativeAmount captureAmount
        signature)).settled < captureAmount
    · simp only [vouches, if_pos (hvalid hlt)]
      omega
    · exact .inl (by omega)
  | withdraw => exact ⟨fun hlive => absurd rfl hlive, .inl rfl⟩

theorem Accepts.live (hopens : c.opens = false) : (c.before w).deposit ≠ 0 := by
  cases c with
  | open_ => cases hopens
  | requestClose => exact h
  | settle | topUp | close | withdraw => exact h.1

/-- A call keeps the books of its channel; an id that is opened has none. -/
theorem Accepts.agrees (hbooks : a.Agrees (c.before w)) (hnew : c.opens = true → a.deposited = 0) :
    (a.add (c.payments w) (c.vouches env)).Agrees (c.after env w) := by
  obtain ⟨hsettled, howed⟩ := h.owed hbooks.settled
  obtain ⟨hlive, hvouched⟩ := h.captured hbooks.settled
  have hconserved := hbooks.conserved
  have hbound := hbooks.vouched
  have hbefore : a.delivered = (c.before w).settled ∧ a.refunded = 0 := by
    cases hopens : c.opens with
    | false => exact hbooks.live (h.live hopens)
    | true =>
      have hzero := hnew hopens
      cases c with
      | open_ =>
        obtain ⟨-, -, hnone, -⟩ := h
        have hle := hbooks.settled
        omega
      | _ => cases hopens
  unfold PackedChannelState.owed at howed
  refine ⟨hsettled, ?_, fun hne => ?_, ?_⟩
  · simp only [ChannelAccount.add]
    omega
  · obtain ⟨hcaptured, hreturned⟩ := hlive hne
    simp only [ChannelAccount.add]
    omega
  · simp only [ChannelAccount.add]
    omega

/-- When a channel ends, the payee has the final amount and the payer the
rest. -/
theorem Accepts.final (hbooks : a.Agrees (c.before w))
    {amount : Nat} (hfinal : c.finalAmount w = some amount) :
    a.delivered + (c.payments w).captured = amount ∧
      a.refunded + (c.payments w).returned + amount = a.deposited := by
  have hconserved := hbooks.conserved
  have hsettled := hbooks.settled
  cases c with
  | close =>
    cases hfinal
    obtain ⟨hdelivered, hrefunded⟩ := hbooks.live h.1
    obtain ⟨-, hle, -, hdeposit, -⟩ := h
    simp only [payments]
    omega
  | withdraw =>
    cases hfinal
    obtain ⟨hdelivered, hrefunded⟩ := hbooks.live h.1
    simp only [payments]
    omega
  | open_ | settle | topUp | requestClose => cases hfinal

theorem Accepts.payer_ne (hsender : c.msgSender ≠ tip20ChannelReserveAddress)
    (hpulled : (c.payments w).pulled ≠ 0) : (c.channel w).payer ≠ tip20ChannelReserveAddress := by
  cases c with
  | open_ => exact hsender
  | topUp =>
    obtain ⟨-, rfl⟩ := h
    exact hsender
  | settle | requestClose | close | withdraw => exact absurd rfl hpulled

end

variable {d : ChannelDescriptor} {p : Payments} {tokens tokens' : TokenWorld}
  (h : Pays env d p tokens tokens')
include h

/-- The reserve gains what is pulled and loses what is paid. -/
theorem Pays.held (hpayer : p.pulled ≠ 0 → d.payer ≠ tip20ChannelReserveAddress) :
    tokens.held tip20ChannelReserveAddress d.token + p.pulled ≤
      tokens'.held tip20ChannelReserveAddress d.token + (p.captured + p.returned) := by
  obtain ⟨t1, t2, hpull, hcapture, hreturn⟩ := h
  have hin := hpull.held_in ChannelReserve.reserve_not_virtual hpayer
  have hout1 := hcapture.held_out
  have hout2 := hreturn.held_out
  omega

theorem Pays.other {token : Address}
    (hne : token ≠ d.token) : tokens'.tokens token = tokens.tokens token := by
  obtain ⟨t1, t2, hpull, hcapture, hreturn⟩ := h
  rw [hreturn.other hne, hcapture.other hne, hpull.other hne]

theorem Pays.silent {holder : Address}
    (hsilent : tokens.Silent holder) : tokens'.Silent holder := by
  obtain ⟨t1, t2, hpull, hcapture, hreturn⟩ := h
  exact hreturn.silent (hcapture.silent (hpull.silent hsilent))

end ReserveCall

/-- The reserve, the books of its channels, and the context hashes of the
transactions so far. -/
structure ReserveRun where
  world : ReserveWorld
  accounts : ChannelDescriptor → ChannelAccount
  contexts : Set B256

namespace ReserveRun

/-- The books after a call that succeeds. -/
def book (env : ReserveEnv) (r : ReserveRun) (c : ReserveCall) :
    ChannelDescriptor → ChannelAccount :=
  Function.update r.accounts (c.channel r.world)
    ((r.accounts (c.channel r.world)).add (c.payments r.world) (c.vouches env))

/-- Calls on the reserve by others, calls on tokens that do not act for it,
and the start of a transaction, whose context hash is new if there is one.
What happens to storage credits between transactions is left open. -/
inductive Step : ReserveRun → ReserveRun → Prop
  | call {r : ReserveRun} (env : ReserveEnv) (c : ReserveCall)
      {w' : ReserveWorld} (hspec : .t5 ≤ env.spec) (hexact : env.Exact)
      (hsender : c.msgSender ≠ tip20ChannelReserveAddress) (h : Yields (c.exec env) r.world () w') :
      Step r ⟨w', r.book env c, r.contexts⟩
  | token {r : ReserveRun} (env : Env) (self : Address) (c : TokenCall)
      {tokens : TokenWorld} (hspec : .t5 ≤ env.spec) (htoken : self.isTip20 = true)
      (hext : c.External tip20ChannelReserveAddress)
      (h : Yields (onToken self (c.exec env self)) r.world.tokens () tokens) :
      Step r { r with world.tokens := tokens }
  | transaction {r : ReserveRun} (hash : B256) (credits : CreditState)
      (hfresh : hash = 0 ∨ hash ∉ r.contexts) :
      Step r
        { world :=
            { r.world with
              reserve.openedThisTx := fun _ => false
              reserve.channelOpenContextHash := hash
              credits }
          accounts := r.accounts
          contexts := insert hash r.contexts }

/-- No channel yet, and no transaction. -/
structure Fresh (r : ReserveRun) : Prop where
  states : ∀ d, r.world.reserve.channelStates d = .blank
  accounts : ∀ d, r.accounts d = ⟨0, 0, 0, 0⟩
  context : r.world.reserve.channelOpenContextHash = 0
  silent : r.world.tokens.Silent tip20ChannelReserveAddress

/-- What the channels of a token are owed. -/
def owed (r : ReserveRun) (token : Address) (d : ChannelDescriptor) : Nat :=
  if d.token = token then (r.world.reserve.channelStates d).owed else 0

structure Sound (r : ReserveRun) : Prop where
  agrees : ∀ d, (r.accounts d).Agrees (r.world.reserve.channelStates d)
  known : ∀ d, (r.accounts d).deposited ≠ 0 →
    d.expiringNonceHash ≠ 0 ∧ d.expiringNonceHash ∈ r.contexts ∧
    (d.expiringNonceHash = r.world.reserve.channelOpenContextHash →
      r.world.reserve.openedThisTx d = true)
  context : r.world.reserve.channelOpenContextHash = 0 ∨
    r.world.reserve.channelOpenContextHash ∈ r.contexts
  held : ∀ token, TotalLE (r.owed token) (r.world.tokens.held tip20ChannelReserveAddress token)
  silent : r.world.tokens.Silent tip20ChannelReserveAddress

variable {r r' : ReserveRun}

theorem Fresh.sound (h : r.Fresh) : r.Sound := by
  refine ⟨fun d => ?_, fun d hne => ?_, .inl h.context, fun token s => ?_, h.silent⟩
  · rw [h.states, h.accounts]
    exact ⟨le_rfl, rfl, fun hne => absurd rfl hne, le_rfl⟩
  · rw [h.accounts] at hne
    exact absurd rfl hne
  · simp [owed, h.states, PackedChannelState.owed, PackedChannelState.blank]

section Call

variable {w' : ReserveWorld}

theorem states_call (heffect : c.Effect env r.world w') :
    w'.reserve.channelStates = update r.world.reserve.channelStates
      (c.channel r.world) (c.after env r.world) :=
  congrArg (fun w => w.reserve.channelStates) heffect.core

/-- An id that can be opened was never opened. -/
theorem Sound.unopened (h : r.Sound) (haccepts : c.Accepts env r.world) (hopens : c.opens = true) :
    (r.accounts (c.channel r.world)).deposited = 0 := by
  cases c with
  | open_ =>
    obtain ⟨-, -, -, hfree⟩ := haccepts
    by_contra hne
    obtain ⟨-, -, hopened⟩ := h.known _ hne
    rw [hopened rfl] at hfree
    cases hfree
  | _ => cases hopens

theorem Sound.agrees_call (h : r.Sound) (heffect : c.Effect env r.world w')
    (d : ChannelDescriptor) : (r.book env c d).Agrees (w'.reserve.channelStates d) := by
  rw [states_call heffect, book]
  by_cases heq : d = c.channel r.world
  · subst heq
    rw [update_self, update_self]
    exact heffect.accepts.agrees (h.agrees _) (h.unopened heffect.accepts)
  · rw [update_of_ne heq, update_of_ne heq]
    exact h.agrees d

theorem Sound.deposited_ne (h : r.Sound) {d : ChannelDescriptor}
    (hlive : (r.world.reserve.channelStates d).deposit ≠ 0) : (r.accounts d).deposited ≠ 0 := by
  have hconserved := (h.agrees d).conserved
  have hsettled := (h.agrees d).settled
  obtain ⟨hdelivered, -⟩ := (h.agrees d).live hlive
  omega

theorem Sound.known_call (h : r.Sound) (heffect : c.Effect env r.world w')
    (d : ChannelDescriptor) (hne : (r.book env c d).deposited ≠ 0) :
    d.expiringNonceHash ≠ 0 ∧ d.expiringNonceHash ∈ r.contexts ∧
      (d.expiringNonceHash = r.world.reserve.channelOpenContextHash →
        w'.reserve.openedThisTx d = true) := by
  have hopened : w'.reserve.openedThisTx = if c.opens then
      update r.world.reserve.openedThisTx (c.channel r.world) true
      else r.world.reserve.openedThisTx :=
    congrArg (fun w => w.reserve.openedThisTx) heffect.core
  -- either the call has opened the channel, or it was known before
  have hknown : (c.opens = true ∧ d = c.channel r.world) ∨ (r.accounts d).deposited ≠ 0 := by
    by_cases heq : d = c.channel r.world
    · cases hopens : c.opens with
      | true => exact .inl ⟨rfl, heq⟩
      | false =>
        exact .inr (heq ▸ h.deposited_ne (heffect.accepts.live hopens))
    · rw [book, update_of_ne heq] at hne
      exact .inr hne
  rcases hknown with ⟨hopens, rfl⟩ | hbefore
  · rw [hopened, if_pos hopens, update_self]
    have haccepts := heffect.accepts
    cases c with
    | open_ =>
      obtain ⟨-, hhash, -, -⟩ := haccepts
      exact ⟨hhash, h.context.resolve_left hhash, fun _ => rfl⟩
    | _ => cases hopens
  · obtain ⟨hhash, hused, hmarked⟩ := h.known d hbefore
    refine ⟨hhash, hused, fun hcontext => ?_⟩
    rw [hopened]
    split
    · rw [update_apply, hmarked hcontext, ite_self]
    · exact hmarked hcontext

theorem Sound.held_call (h : r.Sound) (heffect : c.Effect env r.world w')
    (hsender : c.msgSender ≠ tip20ChannelReserveAddress) (token : Address) :
    TotalLE (owed ⟨w', r.book env c, r.contexts⟩ token)
      (w'.tokens.held tip20ChannelReserveAddress token) := by
  have howed : owed ⟨w', r.book env c, r.contexts⟩ token =
      update (r.owed token) (c.channel r.world) (if (c.channel r.world).token = token then
          (c.after env r.world).owed else 0) := by
    funext d
    unfold owed
    rw [states_call heffect]
    by_cases heq : d = c.channel r.world
    · subst heq
      rw [update_self, update_self]
    · rw [update_of_ne heq, update_of_ne heq]
  rw [howed]
  refine (h.held token).update ?_
  unfold owed
  by_cases htoken : (c.channel r.world).token = token
  · subst htoken
    obtain ⟨-, hbalance⟩ := heffect.accepts.owed (h.agrees _).settled
    have hheld := heffect.pays.held (heffect.accepts.payer_ne hsender)
    unfold before at hbalance
    rw [if_pos rfl, if_pos rfl]
    omega
  · rw [if_neg htoken, if_neg htoken]
    unfold TokenWorld.held
    rw [heffect.pays.other (Ne.symm htoken)]

end Call

theorem reserve_not_burnable {env : Env} (hspec : .t5 ≤ env.spec) (self : Address) :
    ¬Tip20.Burnable env self tip20ChannelReserveAddress := by
  intro h
  refine h (.inl ⟨(.t5, [tip20ChannelReserveAddress]), ?_, hspec, .head _⟩)
  simp [protectedAddresses]

theorem Sound.step (h : r.Sound) (hstep : Step r r') : r'.Sound := by
  cases hstep with
  | call env c hspec hexact hsender hcall =>
    have heffect := exec_effect hexact hcall
    have hcontext : _ = r.world.reserve.channelOpenContextHash :=
      congrArg (fun w => w.reserve.channelOpenContextHash) heffect.core
    refine ⟨h.agrees_call heffect, ?_, ?_, h.held_call heffect hsender,
      heffect.pays.silent h.silent⟩
    · intro d hne
      obtain ⟨hhash, hused, hmarked⟩ := h.known_call heffect d hne
      exact ⟨hhash, hused, fun heq => hmarked (heq.trans hcontext)⟩
    · exact hcontext ▸ h.context
  | token env self c hspec htoken hext hcall =>
    obtain ⟨hheld, hsilent⟩ := c.exec_held htoken (by decide) (by decide)
      (hext.not_takes (reserve_not_burnable hspec self) (by decide)) hext.not_grants h.silent hcall
    exact ⟨h.agrees, h.known, h.context, fun token =>
      (h.held token).mono (hheld token), hsilent⟩
  | transaction hash credits hfresh =>
    refine ⟨h.agrees, fun d hne => ?_, .inr (Set.mem_insert _ _), h.held, h.silent⟩
    obtain ⟨hhash, hused, -⟩ := h.known d hne
    refine ⟨hhash, Set.mem_insert_of_mem _ hused, fun heq => ?_⟩
    have hcontext : d.expiringNonceHash = hash := heq
    rcases hfresh with hzero | hnew
    · exact absurd (hcontext.trans hzero) hhash
    · exact absurd (hcontext ▸ hused) hnew

theorem run_sound (h : r.Sound) (hrun : ReflTransGen Step r r') :
    r'.Sound := run_invariant (I := Sound) (fun _ _ hr hstep => hr.step hstep) hrun h

/-- Over any run: the reserve holds what the channels of every token are owed;
no channel has settled more than its deposit, so no expectation fails; what a
payee received is what is settled and covered by a voucher, and what went in
comes out in full; a call moves exactly the amounts that are booked; and when
a channel ends its payee has the final amount and its payer the rest. -/
theorem channels_custodied {r₀ r : ReserveRun} (hfresh : r₀.Fresh) (hrun : ReflTransGen Step r₀ r) :
    (∀ token, TotalLE (r.owed token) (r.world.tokens.held tip20ChannelReserveAddress token)) ∧
    (∀ d, (r.world.reserve.channelStates d).settled ≤ (r.world.reserve.channelStates d).deposit) ∧
    (∀ (env : ReserveEnv) (c : ReserveCall), env.AnswersOnly NotAborted →
      ∀ msg w', (c.exec env).run r.world ≠ .error (.aborted msg) w') ∧
    (∀ d, (r.accounts d).delivered ≤ (r.accounts d).vouched ∧
      if (r.world.reserve.channelStates d).deposit ≠ 0 then
        (r.accounts d).delivered = (r.world.reserve.channelStates d).settled ∧
        (r.accounts d).deposited = (r.world.reserve.channelStates d).deposit ∧
        (r.accounts d).refunded = 0
      else (r.accounts d).delivered + (r.accounts d).refunded = (r.accounts d).deposited) ∧
    ∀ (env : ReserveEnv) (c : ReserveCall) (w' : ReserveWorld), env.Exact →
      Yields (c.exec env) r.world () w' →
      ReserveCall.Pays env (c.channel r.world) (c.payments r.world) r.world.tokens w'.tokens ∧
      ∀ amount, c.finalAmount r.world = some amount →
        (r.book env c (c.channel r.world)).delivered = amount ∧
        (r.book env c (c.channel r.world)).refunded + amount =
          (r.book env c (c.channel r.world)).deposited := by
  have hsound := run_sound hfresh.sound hrun
  refine ⟨hsound.held, fun d => (hsound.agrees d).settled,
    fun env c henv msg w' hrun => ?_, fun d => ⟨(hsound.agrees d).vouched, ?_⟩,
    fun env c w' hexact hcall => ?_⟩
  · exact (wp_iff.mp (c.exec_throws henv fun d =>
      (hsound.agrees d).settled)).2 _ _ hrun msg rfl
  · have hconserved := (hsound.agrees d).conserved
    have hsettled := (hsound.agrees d).settled
    split
    · obtain ⟨hdelivered, hrefunded⟩ := (hsound.agrees d).live ‹_›
      omega
    · omega
  · have heffect := exec_effect hexact hcall
    refine ⟨heffect.pays, fun amount hfinal => ?_⟩
    obtain ⟨hdelivered, hrest⟩ := heffect.accepts.final (hsound.agrees _) hfinal
    have hpulled : (c.payments r.world).pulled = 0 := by
      cases c with
      | close | withdraw => rfl
      | open_ | settle | topUp | requestClose => cases hfinal
    rw [book, update_self, ChannelAccount.add, hpulled]
    exact ⟨hdelivered, hrest⟩

/-- A channel of 100 settled at 40 and closed with 60 of a voucher for 70. -/
theorem channels_custodied_closed :
    let token : Address := ⟨0x20c0000000000000000000000000000000000001#160⟩
    let payer : Address := ⟨1⟩
    let payee : Address := ⟨2⟩
    let env : ReserveEnv :=
      { Env.permissive .t12 with recoverSigner _ _ _ := some payer }
    let tokens : TokenWorld := { TokenWorld.empty with
      tokens := update (fun _ => Token.blank) token (Token.endowed 0 payer 500) }
    let d : ChannelDescriptor := ⟨payer, payee, 0, token, 0, 0, 7⟩
    let w₀ : ReserveWorld :=
      ⟨tokens, ⟨fun _ => .blank, fun _ => 0, fun _ => false, 0⟩, ⟨0, .refund, 0, 0, false⟩⟩
    let w₁ : ReserveWorld := { w₀ with reserve.channelOpenContextHash := 7 }
    let w₂ := finalState ((open_ payer payee 0 token 100 0 0).exec env) w₁
    let w₃ := finalState ((settle payee d 40 0).exec env) w₂
    let w₄ := finalState ((close payee d 70 60 0).exec env) w₃
    w₃.tokens.held tip20ChannelReserveAddress token = 60 ∧
      w₄.tokens.held tip20ChannelReserveAddress token = 0 ∧
      w₄.tokens.held payee token = 60 ∧ w₄.tokens.held payer token = 440 ∧
      ∃ r : ReserveRun, r.world = w₄ ∧ r.accounts d = ⟨100, 60, 40, 70⟩ ∧
        ∀ msg w', ((withdraw payer d).exec env).run r.world ≠ .error (.aborted msg) w' := by
  intro token payer payee env tokens d w₀ w₁ w₂ w₃ w₄
  have hvalues : w₃.tokens.held tip20ChannelReserveAddress token = 60 ∧
      w₄.tokens.held tip20ChannelReserveAddress token = 0 ∧
      w₄.tokens.held payee token = 60 ∧ w₄.tokens.held payer token = 440 := by
    decide +kernel
  let r₀ : ReserveRun := ⟨w₀, fun _ => ⟨0, 0, 0, 0⟩, ∅⟩
  have hsilent : tokens.Silent tip20ChannelReserveAddress :=
    @TokenWorld.Silent.putCtx .empty _ token ⟨.endowed 0 payer 500, ⟨0, fun _ => 0⟩⟩
      (fun _ _ => rfl) fun _ => rfl
  have hfresh : r₀.Fresh := ⟨fun _ => rfl, fun _ => rfl, rfl, hsilent⟩
  let r₁ : ReserveRun := ⟨w₁, r₀.accounts, insert 7 ∅⟩
  let r₂ : ReserveRun := ⟨w₂, r₁.book env (.open_ payer payee 0 token 100 0 0), r₁.contexts⟩
  let r₃ : ReserveRun := ⟨w₃, r₂.book env (.settle payee d 40 0), r₂.contexts⟩
  let r₄ : ReserveRun := ⟨w₄, r₃.book env (.close payee d 70 60 0), r₃.contexts⟩
  have hcall {r : ReserveRun} (c : ReserveCall) (hsender : c.msgSender ≠ tip20ChannelReserveAddress)
      (hc : succeeds (c.exec env) r.world = true) :
      Step r ⟨finalState (c.exec env) r.world, r.book env c, r.contexts⟩ :=
    .call env c (by decide) (.inl (by decide)) hsender (yields_finalState hc)
  have hrun : ReflTransGen Step r₀ r₄ :=
    (((ReflTransGen.single (.transaction 7 w₀.credits (.inr (Set.notMem_empty _)))).tail
      (hcall (r := r₁) _ (by decide) (by decide +kernel))).tail
      (hcall (r := r₂) _ (by decide) (by decide +kernel))).tail
      (hcall (r := r₃) _ (by decide) (by decide +kernel))
  have haccounts : r₄.accounts d = ⟨100, 60, 40, 70⟩ := by
    decide +kernel
  have hall := channels_custodied hfresh hrun
  have hquiet : env.AnswersOnly NotAborted := by
    constructor <;> intros <;> contradiction
  exact ⟨hvalues.1, hvalues.2.1, hvalues.2.2.1, hvalues.2.2.2, r₄, rfl,
    haccounts, hall.2.2.1 env _ hquiet⟩

end ReserveRun

end Tempo
