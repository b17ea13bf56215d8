/-
Conservation of a token's supply: whatever the calls, the balances add up to
the total supply, which stays under the cap.
-/
import Tempo.Tip20.Calls

namespace Tempo

open Finset

variable {amount : Nat}

namespace Ledger

/-- Balances add up to the supply, and the supply fits under its cap. -/
structure Conserved (l : Ledger) : Prop where
  total : ∑ a, l.balances a = l.totalSupply
  capped : l.totalSupply ≤ l.supplyCap
  word : l.supplyCap ≤ maxWord 128

variable {l l' : Ledger}

theorem Conserved.balance_le (hc : l.Conserved) (a : Address) : l.balances a ≤ maxWord 128 := by
  have hentry := le_sum_entry l.balances a
  rw [hc.total] at hentry
  exact hentry.trans (hc.capped.trans hc.word)

/-- A movement that keeps the sum of the balances and the supply figures. -/
theorem Conserved.of_sum_eq (h : l.Conserved) (hsum : ∑ a, l'.balances a = ∑ a, l.balances a)
    (hsupply : l'.totalSupply = l.totalSupply)
    (hcap : l'.supplyCap = l.supplyCap) : l'.Conserved := by
  obtain ⟨htotal, hcapped, hword⟩ := h
  exact ⟨by rw [hsum, htotal, hsupply], by rw [hsupply, hcap]; exact hcapped,
    by rw [hcap]; exact hword⟩

theorem sum_movedBalances {from' to' : Address} (hto : to' ≠ 0)
    (hfunds : amount ≤ l.balances from') :
    ∑ a, l.movedBalances from' to' amount a = ∑ a, l.balances a := by
  rw [movedBalances, if_neg hto]
  exact sum_move l.balances to' hfunds

theorem conserved_step {spec : TempoHardfork} {self : Address} {m : Movement}
    (h : l.Conserved) (hstep : LedgerStep spec self m l l') : l'.Conserved := by
  induction hstep with
  | idle => exact h
  | transfer l from' to' amount opted hfunds hto =>
    exact h.of_sum_eq (sum_movedBalances hto hfunds) (by simp) (by simp)
  | mint l to' amount opted hcap =>
    refine ⟨?_, by simpa using hcap, by simpa using h.word⟩
    simp [sum_credit, h.total]
  | burn l from' amount opted hfunds hsupply =>
    refine ⟨?_, ?_, by simpa using h.word⟩
    · have hsum := sum_debit l.balances hfunds
      have htotal := h.total
      simp only [movedBalances, if_true]
      omega
    · have hcapped := h.capped
      simp only [hook_supplyCap]
      omega
  | feePre l from' amount opted hfunds | feePost l to' amount opted hfunds =>
    exact h.of_sum_eq (sum_move _ _ hfunds) (by simp) (by simp)
  | setSupplyCap l cap hsupply hword => exact ⟨h.total, hsupply, hword⟩
  | distribute l l' from' amount _ _ ih =>
    exact (ih h).of_sum_eq rfl rfl rfl
  | setRecipient => exact h.of_sum_eq (by simp) (by simp) (by simp)
  | claim l holder opted =>
    exact h.of_sum_eq (sum_move _ _ (min_le_right _ _)) (by simp) (by simp)

/-- Credits that follow a debit of the same amount fit in a word. -/
theorem Conserved.credit_after_debit (h : l.Conserved) {from' : Address}
    (hfunds : amount ≤ l.balances from') (to' : Address) :
    debit l.balances from' amount to' + amount ≤ maxWord 128 := by
  have hsum := sum_debit l.balances hfunds
  have hentry := le_sum_entry (debit l.balances from' amount) to'
  have htotal := h.total
  have hcapped := h.capped
  have hword := h.word
  omega

/-- Credits that pass the cap check fit in a word. -/
theorem Conserved.credit_under_cap (h : l.Conserved)
    (hcap : l.totalSupply + amount ≤ l.supplyCap) (to' : Address) :
    l.balances to' + amount ≤ maxWord 128 := by
  have hentry := le_sum_entry l.balances to'
  have htotal := h.total
  have hword := h.word
  omega

end Ledger

namespace TokenCall

open Tip20

variable {self : Address} {s s' : TokenCtx}

theorem step_conserved (hself : self.isTip20 = true)
    (h : s.token.Conserved) (hstep : Step self s s') : s'.token.Conserved := by
  obtain ⟨env, c, hc⟩ := hstep
  obtain ⟨m, hm, _⟩ := exec_moved (Address.ne_of_isTip20 hself (by decide))
    (Address.ne_of_isTip20 hself (by decide)) hc
  exact Ledger.conserved_step h hm

theorem reachable_conserved (hself : self.isTip20 = true)
    (h : Reachable self s) : s.token.Conserved := by
  obtain ⟨env, currency, quoteToken, admin, guard, s0, hinit, hrun⟩ := h
  refine run_invariant (I := fun s => s.token.Conserved) (fun _ _ => step_conserved hself) hrun ?_
  rw [(initializeToken_yields hinit).1]
  exact ⟨sum_eq_zero fun _ _ => rfl, Nat.zero_le _, le_rfl⟩

/-- A transfer's two balance writes succeed whenever the sender has the
funds. -/
theorem move_succeeds (h : s.token.Conserved) {from' : Address}
    (hfunds : amount ≤ s.token.balances from') (to' : Address) :
    ∃ s', Yields (do
      decrementBalance self from' amount
      incrementBalance to' amount) s () s' := by
  have hfit := h.credit_after_debit hfunds to'
  have hwide : maxWord 128 ≤ maxWord 256 := by decide
  simp only [decrementBalance, incrementBalance, getBalance, setBalance,
    yields_bind, yields_reads, yields_orFail, yields_updates,
    checkedSub_eq_some, checkedAdd_eq_some]
  exact ⟨_, (), _, ⟨_, _, ⟨rfl, rfl⟩, _, _, ⟨⟨hfunds, rfl⟩, rfl⟩, rfl⟩,
    _, _, ⟨rfl, rfl⟩, _, _, ⟨⟨hfit.trans hwide, rfl⟩, rfl⟩, rfl⟩

/-- A mint's balance write succeeds whenever the cap allows the amount. -/
theorem increment_succeeds (h : s.token.Conserved)
    (hcap : s.token.totalSupply + amount ≤ s.token.supplyCap)
    (to' : Address) : ∃ s', Yields (incrementBalance to' amount) s () s' := by
  have hfit := h.credit_under_cap hcap to'
  have hwide : maxWord 128 ≤ maxWord 256 := by decide
  simp only [incrementBalance, getBalance, setBalance, yields_bind,
    yields_reads, yields_orFail, yields_updates, checkedAdd_eq_some]
  exact ⟨_, _, _, ⟨rfl, rfl⟩, _, _, ⟨⟨hfit.trans hwide, rfl⟩, rfl⟩, rfl⟩

/-- In every reachable state the balances add up to the total supply, the
supply is under its cap and the cap is a 128-bit word; so neither the credit
of a transfer nor that of a mint can overflow. -/
theorem supply_conserved (hself : self.isTip20 = true) (h : Reachable self s) :
    ∑ a, s.token.balances a = s.token.totalSupply ∧
    s.token.totalSupply ≤ s.token.supplyCap ∧
    s.token.supplyCap ≤ 2 ^ 128 - 1 ∧
    (∀ from' to' amount, amount ≤ s.token.balances from' → ∃ s', Yields (do
        decrementBalance self from' amount
        incrementBalance to' amount) s () s') ∧
    (∀ to' amount, s.token.totalSupply + amount ≤ s.token.supplyCap →
      ∃ s', Yields (incrementBalance to' amount) s () s') := by
  have hcons := reachable_conserved hself h
  exact ⟨hcons.total, hcons.capped, hcons.word,
    fun _ to' _ hfunds => move_succeeds hcons hfunds to',
    fun to' _ hcap => increment_succeeds hcons hcap to'⟩

/-- Initialisation, the admin making themselves an issuer, a mint to the
admin and a transfer of a part of it. -/
theorem supply_conserved_transfer :
    let self : Address := .newTip20 1
    let admin : Address := ⟨1⟩
    let payee : Address := ⟨2⟩
    let env := Env.permissive .t8
    let s₀ := finalState (initializeToken env "USD" pathUsdAddress admin)
      ⟨Token.blank, ⟨0, fun _ => 0⟩⟩
    let s₁ := finalState (exec env self (.grantRole admin admin issuerRole)) s₀
    let s₂ := finalState (exec env self (.mint admin admin 100)) s₁
    let s₃ := finalState (exec env self (.transfer admin payee 40)) s₂
    s₃.token.balances admin = 60 ∧ s₃.token.balances payee = 40 ∧
      ∑ a, s₃.token.balances a = 100 := by
  intro self admin payee env s₀ s₁ s₂ s₃
  have hrun : Relation.ReflTransGen (Step self) s₀ s₃ :=
    Relation.ReflTransGen.single ⟨env, _, yields_finalState (by decide)⟩
    |>.tail ⟨env, _, yields_finalState (by decide)⟩
    |>.tail ⟨env, _, yields_finalState (by decide)⟩
  have hreach : Reachable self s₃ := ⟨env, _, _, _, _, s₀, yields_finalState (by decide), hrun⟩
  have hsum := (supply_conserved (Address.newTip20_isTip20 1) hreach).1
  exact ⟨by decide, by decide, hsum.trans (by decide)⟩

end TokenCall

/-- A deployed dollar token whose whole supply is with one holder. -/
def Token.endowed (quoteToken holder : Address) (amount : Nat) : Token :=
  { Token.blank with
    deployed := true
    currency := "USD"
    quoteToken := quoteToken
    nextQuoteToken := quoteToken
    supplyCap := maxWord 128
    totalSupply := amount
    balances := Function.update (fun _ => 0) holder amount }

theorem Token.blank_conserved : Token.blank.Conserved :=
  ⟨by simp [Token.blank], le_rfl, Nat.zero_le _⟩

theorem Token.endowed_conserved (quoteToken holder : Address) {amount : Nat}
    (h : amount ≤ maxWord 128) : (endowed quoteToken holder amount).Conserved := by
  refine ⟨?_, h, le_rfl⟩
  have hsum := sum_update (fun _ x => x) (fun _ => 0) holder amount
  simpa [endowed] using hsum

end Tempo
