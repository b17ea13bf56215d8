/-
What the movements of a ledger do to the balance of an account that holds
funds for others.  Such an account is not the token itself nor the fee manager,
so nothing is taken from it but by movements that debit it.
-/
import Tempo.Tip20.Calls
import Tempo.Tip20.World

namespace Tempo

open Function

namespace LedgerStep

variable {spec : TempoHardfork} {self holder : Address} {m : Movement}
  {l l' : Ledger} (h : LedgerStep spec self m l l') {amount : Nat}
include h

/-- An account that is not debited keeps what it holds. -/
theorem balance_le (hself : holder ≠ self) (hfee : holder ≠ tipFeeManagerAddress)
    (hdebit : ∀ amount, m.Debits holder amount → amount = 0) :
    l.balances holder ≤ l'.balances holder := by
  induction h with
  | idle => exact le_rfl
  | transfer l from' to' amount opted funds target shift =>
    simp only [Ledger.movedBalances, if_neg target]
    refine le_move _ _ fun heq => hdebit amount ?_
    subst heq
    exact .transfer _ _ _
  | mint l to' amount opted cap shift => exact le_credit _ _ _ _
  | burn l from' amount opted funds supply shift =>
    simp only [Ledger.movedBalances, if_true]
    by_cases heq : holder = from'
    · subst heq
      rw [hdebit amount (.burn _ _), debit_self, Nat.sub_zero]
    · rw [debit_of_ne _ heq]
  | feePre l from' amount opted funds shift =>
    refine le_move _ _ fun heq => hdebit amount ?_
    subst heq
    exact .feePre _ _
  | feePost l to' amount opted funds shift =>
    exact le_move _ _ fun heq => absurd heq.symm hfee
  | setSupplyCap => exact le_rfl
  | distribute l l' from' amount moved opted ih =>
    refine ih fun x hx => ?_
    cases hx
    exact hdebit amount (.distribute _ _)
  | setRecipient l h recipient opted shift =>
    simp [Ledger.hook_balances]
  | claim l h opted shift =>
    exact le_move _ _ fun heq => absurd heq.symm hself

/-- An account that is credited and not debited gains the amount. -/
theorem credited
    (hcredit : m.Credits holder amount) (hdebit : ∀ amount, m.Debits holder amount → amount = 0) :
    l.balances holder + amount ≤ l'.balances holder := by
  cases hcredit with
  | transfer from' =>
    cases h with
    | transfer _ _ _ _ opted funds target shift =>
      simp only [Ledger.movedBalances, if_neg target, credit_self]
      by_cases heq : holder = from'
      · subst heq
        rw [hdebit amount (.transfer _ _ _), debit_self, Nat.sub_zero]
      · rw [debit_of_ne _ heq]
  | mint =>
    cases h with
    | mint _ _ _ opted cap shift =>
      simp [credit_self]

/-- A transfer or burn takes no more than its amount. -/
theorem balance_le_add (hm : (∃ to', m = .transfer holder to' amount) ∨ m = .burn holder amount) :
    l.balances holder ≤ l'.balances holder + amount := by
  rcases hm with ⟨to', rfl⟩ | rfl
  · cases h with
    | transfer _ _ _ _ opted funds target shift =>
      simp only [Ledger.movedBalances, if_neg target]
      exact le_move_add _ _ _ _
  · cases h with
    | burn _ _ _ opted funds supply shift =>
      simp only [Ledger.movedBalances, if_true, debit_self]
      omega

end LedgerStep

namespace TokenWorld

/-- What an account holds of a token. -/
def held (w : TokenWorld) (holder token : Address) : Nat :=
  (w.tokens token).balances holder

/-- An account has granted no allowance. -/
def Silent (w : TokenWorld) (holder : Address) : Prop :=
  ∀ token, NoAllowance holder (w.ctx token)

variable {w : TokenWorld} {holder self : Address} {s : TokenCtx}

theorem held_putCtx_self : (w.putCtx self s).held holder self = s.token.balances holder := by
  simp [held, putCtx]

theorem held_putCtx_of_ne {token : Address} (h : token ≠ self) :
    (w.putCtx self s).held holder token = w.held holder token := by
  simp [held, putCtx, update_of_ne h]

theorem Silent.putCtx (h : w.Silent holder) (hself : NoAllowance holder ⟨s.token, w.guard⟩) :
    (w.putCtx self s).Silent holder := by
  intro token spender
  by_cases heq : token = self
  · subst heq
    simp only [TokenWorld.putCtx, ctx, update_self]
    exact hself spender
  · simp only [TokenWorld.putCtx, ctx, update_of_ne heq]
    exact h token spender

end TokenWorld

/-- A call that takes nothing from an account leaves it what it holds. -/
theorem TokenCall.exec_held {env : Env} {self holder : Address}
    {c : TokenCall} {w w' : TokenWorld} (htoken : self.isTip20 = true)
    (hholder : holder.isTip20 = false) (hfee : holder ≠ tipFeeManagerAddress)
    (htakes : ¬c.Takes env self holder) (hgrants : ¬c.Grants holder) (hsilent : w.Silent holder)
    (h : Yields (onToken self (c.exec env self)) w () w') :
    (∀ token, w.held holder token ≤ w'.held holder token) ∧ w'.Silent holder := by
  obtain ⟨s, hrun, rfl⟩ := yields_onToken.mp h
  obtain ⟨m, heffect⟩ := exec_effect (Address.ne_of_isTip20 htoken (by decide)) hrun
  refine ⟨fun token => ?_, hsilent.putCtx (heffect.noAllowance hgrants (hsilent self))⟩
  by_cases heq : token = self
  · subst heq
    rw [TokenWorld.held_putCtx_self]
    exact heffect.step.balance_le (Address.ne_of_isTip20 htoken hholder).symm hfee fun amount hm =>
        (heffect.debit_zero htakes (hsilent token) amount hm).2
  · rw [TokenWorld.held_putCtx_of_ne heq]

namespace TokenCall

/-- A successful call on some token that neither takes from an account nor
grants on its behalf. -/
def Spares (holder : Address) (w w' : TokenWorld) : Prop :=
  ∃ (env : Env) (self : Address) (c : TokenCall), self.isTip20 = true ∧ ¬c.Takes env self holder ∧
    ¬c.Grants holder ∧ Yields (onToken self (c.exec env self)) w () w'

/-- Whatever others do with any tokens, an account that has granted no
allowance keeps what it holds. -/
theorem silent_holder_keeps {holder : Address} {w w' : TokenWorld}
    (hholder : holder.isTip20 = false) (hfee : holder ≠ tipFeeManagerAddress)
    (hsilent : w.Silent holder) (hrun : Relation.ReflTransGen (Spares holder) w w') :
    w'.Silent holder ∧ ∀ token, w.held holder token ≤ w'.held holder token := by
  induction hrun with
  | refl => exact ⟨hsilent, fun _ => le_rfl⟩
  | tail _ hcall ih =>
    obtain ⟨env, self, c, htoken, htakes, hgrants, hyields⟩ := hcall
    obtain ⟨hheld, hquiet⟩ := exec_held htoken hholder hfee htakes hgrants ih.1 hyields
    exact ⟨hquiet, fun token => (ih.2 token).trans (hheld token)⟩

/-- The first account lets the third spend, who sends to the second, and
transfers some itself; the second account does nothing. -/
theorem silent_holder_keeps_approved :
    let token : Address := ⟨0x20c0000000000000000000000000000000000001#160⟩
    let holder : Address := ⟨2⟩
    let w₀ : TokenWorld := { TokenWorld.empty with
      tokens := update (fun _ => Token.blank) token { Token.blank with
        totalSupply := 170
        balances := update (update (fun _ => 0) ⟨1⟩ 100) holder 70 } }
    let run := fun (c : TokenCall) (w : TokenWorld) =>
      finalState (onToken token (c.exec (.permissive .t6) token)) w
    let w₁ := run (approve ⟨1⟩ ⟨3⟩ 50) w₀
    let w₂ := run (transferFrom ⟨3⟩ ⟨1⟩ holder 20) w₁
    let w₃ := run (transfer ⟨1⟩ ⟨4⟩ 30) w₂
    w₃.Silent holder ∧ w₀.held holder token = 70 ∧ w₃.held ⟨1⟩ token = 50 ∧
      w₀.held holder token ≤ w₃.held holder token := by
  intro token holder w₀ run w₁ w₂ w₃
  have hcall {w : TokenWorld} (c : TokenCall) (htakes : ¬c.Takes (.permissive .t6) token holder)
      (hgrants : ¬c.Grants holder)
      (hc : succeeds (onToken token (c.exec (.permissive .t6) token)) w = true) :
      Spares holder w (run c w) :=
    ⟨_, token, c, by decide, htakes, hgrants, yields_finalState hc⟩
  have hother : (⟨1⟩ : Address) ≠ holder := by decide
  have hrun : Relation.ReflTransGen (Spares holder) w₀ w₃ :=
    ((Relation.ReflTransGen.single (hcall (approve ⟨1⟩ ⟨3⟩ 50) id hother (by decide))).tail
      (hcall (w := w₁) (transferFrom ⟨3⟩ ⟨1⟩ holder 20) id id (by decide))).tail
      (hcall (w := w₂) (transfer ⟨1⟩ ⟨4⟩ 30) hother id (by decide))
  have hsilent : w₀.Silent holder :=
    @TokenWorld.Silent.putCtx .empty _ token ⟨w₀.tokens token, ⟨0, fun _ => 0⟩⟩
      (fun _ _ => rfl) fun _ => rfl
  obtain ⟨hstill, hkept⟩ := silent_holder_keeps (by decide) (by decide) hsilent hrun
  exact ⟨hstill, by decide, by decide, hkept token⟩

end TokenCall

open Tip20 (Outcome Resolved)

/-- An amount is sent on and arrives; a zero amount is not sent. -/
inductive Sends (env : Env) (token from' to' : Address) : Nat → TokenWorld → TokenWorld → Prop
  | nothing (w : TokenWorld) : Sends env token from' to' 0 w w
  | transfer {amount : Nat} {w : TokenWorld} {t : Address} {s : TokenCtx}
      (htoken : token.isTip20 = true) (hto : Resolved env to' t)
      (h : Outcome env.spec token (.transfer from' t amount) (w.ctx token) s) :
      Sends env token from' to' amount w (w.putCtx token s)

namespace Sends

variable {env : Env} {token from' to' holder : Address} {amount : Nat} {w w' : TokenWorld}

theorem other (h : Sends env token from' to' amount w w') {t : Address}
    (hne : t ≠ token) : w'.tokens t = w.tokens t := by
  cases h with
  | nothing => rfl
  | transfer htoken hto hout =>
    simp [TokenWorld.putCtx, update_of_ne hne]

theorem silent (h : Sends env token from' to' amount w w')
    (hsilent : w.Silent holder) : w'.Silent holder := by
  cases h with
  | nothing => exact hsilent
  | transfer htoken hto hout =>
    refine hsilent.putCtx fun spender => ?_
    have hle := hout.allowances holder spender
    rw [hsilent token spender] at hle
    exact Nat.le_zero.mp hle

/-- The sender loses no more than the amount. -/
theorem held_out (h : Sends env token holder to' amount w w') :
    w.held holder token ≤ w'.held holder token + amount := by
  cases h with
  | nothing => exact le_rfl
  | transfer htoken hto hout =>
    rw [TokenWorld.held_putCtx_self]
    exact hout.step.balance_le_add (.inl ⟨_, rfl⟩)

/-- A recipient other than the sender gains the amount. -/
theorem held_in (h : Sends env token from' holder amount w w') (hholder : holder.isVirtual = false)
    (hfrom : amount ≠ 0 → from' ≠ holder) :
    w.held holder token + amount ≤ w'.held holder token := by
  cases h with
  | nothing => exact le_rfl
  | transfer htoken hto hout =>
    obtain rfl := hto.eq_of_not_virtual hholder
    rw [TokenWorld.held_putCtx_self]
    refine hout.step.credited (.transfer _ _ _) fun x hx => ?_
    cases hx
    by_contra hne
    exact hfrom hne rfl

end Sends

end Tempo
