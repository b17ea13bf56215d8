/-
The quote-token graph.  Creating tokens and changing quote tokens, in whatever
order and by whomever, leaves every token with a finite chain of quote tokens
to the root, so the loops that walk such chains end.
-/
import Tempo.Library.Chain
import Tempo.Library.Fuel
import Tempo.Tip20.Calls
import Tempo.Tip20.World

namespace Tempo

open Tip20 Address Function Relation

variable {w w' : TokenWorld}

namespace TokenWorld

def quoteOf (w : TokenWorld) (token : Address) : Address :=
  (w.tokens token).quoteToken

/-- Where a chain of quote tokens may stop. -/
def IsRoot (a : Address) : Prop := a = pathUsdAddress ∨ a = 0

/-- `a` is unset or a deployed token. -/
def Usable (w : TokenWorld) (a : Address) : Prop :=
  a = 0 ∨ (w.tokens a).deployed = true

/-- Deployed tokens have token addresses, nobody has a role on another
address, quote tokens and staged ones are deployed, pathUSD has neither, and
every chain ends. -/
structure QuoteGraph (w : TokenWorld) : Prop where
  tokenAddress : ∀ a, (w.tokens a).deployed = true → a.isTip20 = true
  vacant : ∀ a, (w.tokens a).deployed = false →
    w.quoteOf a = 0 ∧ ∀ account role, (w.tokens a).roles account role = false
  quotes : ∀ a, (w.tokens a).deployed = true → w.Usable (w.quoteOf a)
  staged : ∀ a, (w.tokens a).deployed = true → w.Usable (w.tokens a).nextQuoteToken
  root : w.quoteOf pathUsdAddress = 0 ∧ (w.tokens pathUsdAddress).nextQuoteToken = 0
  ends : ∀ a, Ends w.quoteOf IsRoot a

variable {token : Address} {t : Token}

theorem empty_quoteGraph : empty.QuoteGraph where
  tokenAddress _ h := by cases h
  vacant _ _ := ⟨rfl, fun _ _ => rfl⟩
  quotes _ h := by cases h
  staged _ h := by cases h
  root := ⟨rfl, rfl⟩
  ends a := by
    by_cases ha : IsRoot a
    · exact ⟨_, .stop ha⟩
    · exact ⟨_, .step ha (.stop (.inr rfl))⟩

theorem zero_chain : Chain w.quoteOf IsRoot 0 [0] := .stop (.inr rfl)

variable {a admin msgSender : Address} {l : List Address} {env : Env}

/-- The chain of a usable address visits usable addresses only. -/
theorem QuoteGraph.chain_usable (h : w.QuoteGraph)
    (hl : Chain w.quoteOf IsRoot a l) (ha : w.Usable a) : ∀ b ∈ l, w.Usable b := by
  induction hl with
  | stop _ =>
    intro b hb
    rwa [List.mem_singleton.mp hb]
  | @step a l hroot rest ih =>
    intro b hb
    rcases List.mem_cons.mp hb with rfl | hb
    · exact ha
    · refine ih (ha.elim (fun hzero => ?_) (h.quotes a)) b hb
      exact absurd (.inr hzero) hroot

/-- No token is on the chain of its own quote token. -/
theorem QuoteGraph.quote_avoids (h : w.QuoteGraph)
    (ha : a ≠ 0) : ∃ l, Chain w.quoteOf IsRoot (w.quoteOf a) l ∧ a ∉ l := by
  obtain ⟨l, hl⟩ := h.ends a
  cases hl with
  | stop hroot =>
    obtain rfl := hroot.resolve_right ha
    rw [h.root.1]
    exact ⟨_, zero_chain, by simpa using ha⟩
  | step hroot rest =>
    exact ⟨_, rest, (List.nodup_cons.mp (Chain.step hroot rest).nodup).1⟩

/-- Writing the record `t` of a deployed token, with a quote token whose chain
avoids it. -/
theorem QuoteGraph.write (h : w.QuoteGraph) (hw : w'.tokens = update w.tokens token t)
    (hdeployed : t.deployed = true) (htip20 : token.isTip20 = true)
    (hquote : w.Usable t.quoteToken) (hstaged : w.Usable t.nextQuoteToken)
    (hroot : token = pathUsdAddress → t.quoteToken = 0 ∧ t.nextQuoteToken = 0)
    (hchain : ∃ l, Chain w.quoteOf IsRoot t.quoteToken l ∧ token ∉ l) : w'.QuoteGraph := by
  have hself : w'.tokens token = t := by rw [hw, update_self]
  have hother : ∀ a, a ≠ token → w'.tokens a = w.tokens a := by
    intro a ha
    rw [hw, update_of_ne ha]
  have hof : w'.quoteOf = update w.quoteOf token t.quoteToken := by
    funext a
    by_cases ha : a = token
    · rw [ha, quoteOf, hself, update_self]
    · rw [quoteOf, hother a ha, update_of_ne ha, quoteOf]
  have husable : ∀ a, w.Usable a → w'.Usable a := by
    intro a ha
    by_cases hat : a = token
    · exact .inr (by rw [hat, hself, hdeployed])
    · rwa [Usable, hother a hat]
  have htoken : ∀ {P : Address → Token → Prop}, P token t →
      (∀ a, a ≠ token → P a (w.tokens a)) → ∀ a, P a (w'.tokens a) := by
    intro P hat hrest a
    by_cases ha : a = token
    · rw [ha, hself]
      exact hat
    · rw [hother a ha]
      exact hrest a ha
  refine ⟨?_, ?_, ?_, ?_, ?_, ?_⟩
  · exact htoken (P := fun a t => t.deployed = true → a.isTip20 = true)
      (fun _ => htip20) fun a _ => h.tokenAddress a
  · refine htoken (P := fun _ t => t.deployed = false → t.quoteToken = 0 ∧
      ∀ account role, t.roles account role = false) ?_ fun a _ => h.vacant a
    intro hvacant
    rw [hdeployed] at hvacant
    cases hvacant
  · exact htoken (P := fun _ t => t.deployed = true →
      w'.Usable t.quoteToken) (fun _ => husable _ hquote) fun a _ hd => husable _ (h.quotes a hd)
  · exact htoken (P := fun _ t => t.deployed = true →
      w'.Usable t.nextQuoteToken) (fun _ => husable _ hstaged)
      fun a _ hd => husable _ (h.staged a hd)
  · exact htoken (P := fun a t => a = pathUsdAddress →
      t.quoteToken = 0 ∧ t.nextQuoteToken = 0) hroot (fun a _ ha => ha ▸ h.root) pathUsdAddress rfl
  · intro a
    obtain ⟨l, hl, havoid⟩ := hchain
    rw [hof]
    exact (h.ends a).update hl havoid

variable {account current quoteToken : Address} {u : Unit} {currency : String} {role : B256}

/-- Roles are only held on deployed tokens. -/
theorem QuoteGraph.deployed_of_role (h : w.QuoteGraph)
    (hheld : (w.tokens token).roles account role = true) : (w.tokens token).deployed = true := by
  by_contra hvacant
  have hnone := (h.vacant token (by simpa using hvacant)).2 account role
  rw [hnone] at hheld
  cases hheld

theorem QuoteGraph.deployed_of_checkRole (h : w.QuoteGraph)
    (hrole : Yields (onToken token (checkRole account role)) w u w') :
    (w.tokens token).deployed = true := by
  obtain ⟨s, hs, _⟩ := yields_onToken.mp hrole
  simp only [checkRole, yields_steps] at hs
  exact h.deployed_of_role hs.1

/-- Writing a deployed token without changing its quote token. -/
theorem QuoteGraph.restage (h : w.QuoteGraph) (hw : w'.tokens = update w.tokens token t)
    (hdeployed : (w.tokens token).deployed = true) (hkept : t.deployed = (w.tokens token).deployed)
    (hquote : t.quoteToken = w.quoteOf token) (hstaged : w.Usable t.nextQuoteToken)
    (hroot : token = pathUsdAddress → t.nextQuoteToken = 0) : w'.QuoteGraph := by
  have htip20 := h.tokenAddress token hdeployed
  refine h.write hw (hkept.trans hdeployed) htip20 ?_ hstaged ?_ ?_
  · rw [hquote]
    exact h.quotes token hdeployed
  · intro hpath
    refine ⟨?_, hroot hpath⟩
    rw [hquote, hpath]
    exact h.root.1
  · rw [hquote]
    exact h.quote_avoids (ne_of_isTip20 htip20 zero_isTip20)

/-! The walks. -/

/-- A walk that succeeds has followed the chain, which misses the token. -/
theorem walkToRoot_yields {fuel : Nat} (h : Yields (walkToRoot token fuel current) w u w') :
    w' = w ∧ (token ≠ pathUsdAddress → ∃ l, Chain w.quoteOf IsRoot current l ∧ token ∉ l) := by
  induction fuel generalizing current with
  | zero => exact absurd h (by simp [walkToRoot])
  | succ fuel ih =>
    unfold walkToRoot at h
    by_cases hpath : current = pathUsdAddress
    · rw [if_pos hpath, yields_pure] at h
      refine ⟨h.2.symm, fun hne => ⟨_, .stop (.inl hpath), ?_⟩⟩
      rw [List.mem_singleton, hpath]
      exact hne
    · simp only [if_neg hpath, fromAddress, getQuoteToken, yields_steps] at h
      obtain ⟨hself, htip20, h⟩ := h
      obtain ⟨hw, hrest⟩ := ih h
      refine ⟨hw, fun hne => ?_⟩
      obtain ⟨l, hl, havoid⟩ := hrest hne
      have hzero := ne_of_isTip20 htip20 zero_isTip20
      refine ⟨_, .step (not_or.mpr ⟨hpath, hzero⟩) hl, ?_⟩
      rw [List.mem_cons, not_or]
      exact ⟨Ne.symm hself, havoid⟩

theorem walkToRoot_halts (h : Chain w.quoteOf IsRoot current l) :
    Halts .outOfFuel (fun fuel => walkToRoot token fuel current) w := by
  induction h with
  | @stop current hroot =>
    refine .succ (.ite (fun _ => .pure _) fun hpath => ?_)
    obtain rfl := hroot.resolve_left hpath
    -- a chain that ends at the zero address ends the walk with an error
    refine .require_bind (by simp) fun _ => .require_bind (by simp) ?_
    intro htip20
    cases htip20
  | @step current l hroot rest ih =>
    exact .succ (.ite (fun _ => .pure _) fun _ =>
      .require_bind (by simp) fun _ => .require_bind (by simp) fun _ =>
        .reads_bind ih)

theorem findPathToRoot_halts (h : Chain w.quoteOf IsRoot current l) :
    Halts .outOfFuel (fun fuel => StablecoinDex.findPathToRoot fuel current) w := by
  induction h with
  | @stop current hroot =>
    refine .succ (.ite (fun _ => .pure _) fun hpath => ?_)
    obtain rfl := hroot.resolve_left hpath
    refine .require_bind (by simp) fun htip20 => ?_
    cases htip20
  | @step current l hroot rest ih =>
    exact .succ (.ite (fun _ => .pure _) fun _ =>
      .require_bind (by simp) fun _ => .reads_bind (.bind ih fun _ _ _ _ => .pure _))

theorem completeQuoteTokenUpdate_halts (h : w.QuoteGraph) (token msgSender : Address) :
    Halts .outOfFuel (fun fuel =>
      completeQuoteTokenUpdate fuel token msgSender) w := by
  have hrole : Halts .outOfFuel (fun _ => onToken token (checkRole msgSender defaultAdminRole)) w :=
    .focus (.reads_bind (.require (by simp)))
  refine .bind hrole fun _ w1 _ hw => .reads_bind (.bind ?_ fun _ _ _ _ =>
    .updates _)
  rw [(checkRole_readOnly _ _).onToken hw]
  exact walkToRoot_halts (h.ends _).choose_spec

/-! Every call keeps the graph. -/

/-- A token call that needs a role and changes neither the quote token nor
the staged one. -/
def RoleOp (m : Exec TokenCtx Unit) : Prop :=
  ∀ ⦃s u s'⦄, Yields m s u s' → (∃ account role, s.token.roles account role = true) ∧
    s'.token.deployed = s.token.deployed ∧ s'.token.quoteToken = s.token.quoteToken ∧
    s'.token.nextQuoteToken = s.token.nextQuoteToken

theorem roleOp_of_write {role : TokenCtx → B256} {g : TokenCtx → TokenCtx}
    (hg : ∀ s, (g s).token.deployed = s.token.deployed ∧
      (g s).token.quoteToken = s.token.quoteToken ∧
      (g s).token.nextQuoteToken = s.token.nextQuoteToken) :
    RoleOp (do
      let required ← reads role
      checkRole account required
      updates g) := by
  intro s u s' h
  simp only [checkRole, yields_reads_bind] at h
  obtain ⟨_, s1, hcheck, h⟩ := h.bind
  rw [yields_reads_bind, yields_require] at hcheck
  obtain ⟨hheld, rfl⟩ := hcheck
  rw [yields_updates] at h
  rw [← h]
  exact ⟨⟨_, _, hheld⟩, hg s⟩

theorem QuoteGraph.roleOp (h : w.QuoteGraph) {m : Exec TokenCtx Unit}
    (hm : RoleOp m) (hrun : Yields (onToken token m) w u w') : w'.QuoteGraph := by
  obtain ⟨s, hs, rfl⟩ := yields_onToken.mp hrun
  obtain ⟨⟨account, role, hheld⟩, hdeployed, hquote, hnext⟩ := hm hs
  have hlive := h.deployed_of_role hheld
  refine h.restage (t := s.token) rfl hlive hdeployed hquote ?_ ?_
  · rw [hnext]
    exact h.staged token hlive
  · intro hpath
    rw [hnext, TokenWorld.ctx, hpath]
    exact h.root.2

theorem checkQuoteCurrency_readOnly (currency : String) (quoteToken : Address) :
    ReadOnly (Tip20Factory.checkQuoteCurrency currency quoteToken) :=
  .ite (.bind (.require _ _) fun _ => .bind (.reads _) fun _ =>
    .require _ _) (.pure _)

variable (h : w.QuoteGraph)
include h

/-- A new token, at an address that was not one, with a usable quote token. -/
theorem QuoteGraph.deploy (htip20 : token.isTip20 = true)
    (hvacant : (w.tokens token).deployed = false) (hquote : w.Usable quoteToken)
    (hroot : token = pathUsdAddress → quoteToken = 0) (hrun : Yields (onToken token
      (initializeToken env currency quoteToken admin)) w u w') : w'.QuoteGraph := by
  obtain ⟨s, hs, rfl⟩ := yields_onToken.mp hrun
  obtain ⟨_, _, hdeployed, hq, hn⟩ := initializeToken_yields hs
  obtain ⟨l, hl⟩ := h.ends quoteToken
  have havoid : token ∉ l := by
    intro hmem
    rcases h.chain_usable hl hquote token hmem with hzero | hlive
    · exact ne_of_isTip20 htip20 zero_isTip20 hzero
    · rw [hvacant] at hlive
      cases hlive
  refine h.write (t := s.token) rfl hdeployed htip20 ?_ ?_ ?_ ?_
  · rwa [hq]
  · rwa [hn]
  · rw [hq, hn]
    exact fun hpath => ⟨hroot hpath, hroot hpath⟩
  · rw [hq]
    exact ⟨l, hl, havoid⟩

theorem QuoteGraph.createToken
    {keccakId : Address → B256 → BitVec 64} {sender : Address} {salt : B256}
    (hrun : Yields (Tip20Factory.createToken env keccakId sender salt currency
      quoteToken admin) w a w') : w'.QuoteGraph := by
  simp only [Tip20Factory.createToken, Tip20Factory.isTip20, yields_steps] at hrun
  obtain ⟨htaken, hvalid, hrun⟩ := hrun
  replace hrun := hrun.skip (checkQuoteCurrency_readOnly _ _)
  simp only [fromAddress, yields_require_bind] at hrun
  obtain ⟨hsize, htip20, hrun⟩ := hrun
  obtain ⟨_, hinit⟩ := Yields.of_bind_pure hrun
  rw [Bool.and_eq_true] at hvalid
  rw [htip20, Bool.true_and] at htaken
  refine h.deploy htip20 htaken (.inr hvalid.2) ?_ hinit
  intro hpath
  have hid : keccakId sender salt = 0 := id_eq_zero_of_pathUsd hpath
  simp [Tip20Factory.computeTip20Address, hid, reservedSize] at hsize

theorem QuoteGraph.createTokenReservedAddress
    (hrun : Yields (Tip20Factory.createTokenReservedAddress env token currency
      quoteToken admin) w a w') : w'.QuoteGraph := by
  simp only [Tip20Factory.createTokenReservedAddress, Tip20Factory.isTip20, yields_steps] at hrun
  obtain ⟨htip20, htaken, hrun⟩ := hrun
  rw [htip20, Bool.true_and] at htaken
  have hquote : ∀ {k : Exec TokenWorld Address}, Yields (if quoteToken ≠ 0 then do
        let valid ← reads fun w =>
          quoteToken.isTip20 && (w.tokens quoteToken).deployed
        require (token ≠ pathUsdAddress ∧ valid = true) (.tip20 .invalidQuoteToken)
        Tip20Factory.checkQuoteCurrency currency quoteToken
        k
      else k) w a w' → w.Usable quoteToken ∧
        (token = pathUsdAddress → quoteToken = 0) ∧ Yields k w a w' := by
    intro k hk
    by_cases hzero : quoteToken = 0
    · rw [if_neg (not_not.mpr hzero)] at hk
      exact ⟨.inl hzero, fun _ => hzero, hk⟩
    · simp only [if_pos hzero, yields_steps] at hk
      obtain ⟨⟨hpath, hvalid⟩, hk⟩ := hk
      replace hk := hk.skip (checkQuoteCurrency_readOnly _ _)
      rw [Bool.and_eq_true] at hvalid
      exact ⟨.inr hvalid.2, fun h => absurd h hpath, hk⟩
  obtain ⟨husable, hroot, hrun⟩ := hquote hrun
  simp only [fromAddress, yields_require_bind] at hrun
  obtain ⟨_, hinit⟩ := Yields.of_bind_pure hrun.2.2
  exact h.deploy htip20 htaken husable hroot hinit

theorem QuoteGraph.setNextQuoteToken {newQuoteToken : Address}
    (hrun : Yields (Tip20.setNextQuoteToken token msgSender newQuoteToken)
      w u w') : w'.QuoteGraph := by
  obtain ⟨_, hrole, hrun⟩ := (checkRole_readOnly _ _).onToken.yields_bind hrun
  simp only [Tip20Factory.isTip20, getCurrency, yields_steps] at hrun
  obtain ⟨hpath, hvalid, hrun⟩ := hrun
  replace hrun := hrun.skip (checkQuoteCurrency_readOnly _ _)
  obtain rfl := hrun.updates
  rw [Bool.and_eq_true] at hvalid
  exact h.restage rfl (h.deployed_of_checkRole hrole) rfl rfl
    (.inr hvalid.2) fun h => absurd h hpath

theorem QuoteGraph.completeQuoteTokenUpdate {fuel : Nat}
    (hrun : Yields (Tip20.completeQuoteTokenUpdate fuel token msgSender)
      w u w') : w'.QuoteGraph := by
  obtain ⟨_, hrole, hrun⟩ := (checkRole_readOnly _ _).onToken.yields_bind hrun
  rw [yields_reads_bind] at hrun
  obtain ⟨_, w1, hwalk, hrun⟩ := hrun.bind
  obtain ⟨hw, hchain⟩ := walkToRoot_yields hwalk
  rw [hw] at hrun
  obtain rfl := hrun.updates
  have hlive := h.deployed_of_checkRole hrole
  have hstaged := h.staged token hlive
  refine h.write rfl hlive (h.tokenAddress token hlive) hstaged hstaged ?_ ?_
  · rintro rfl
    exact ⟨h.root.2, h.root.2⟩
  · by_cases hpath : token = pathUsdAddress
    · subst hpath
      rw [h.root.2]
      exact ⟨_, zero_chain, by simp [pathUsdAddress_ne_zero]⟩
    · exact hchain hpath

end TokenWorld

/-- Calls that create tokens, change quote tokens or administer roles. -/
inductive QuoteCall where
  | createToken (sender : Address) (salt : B256) (currency : String) (quoteToken admin : Address)
  | createTokenReservedAddress (address : Address) (currency : String) (quoteToken admin : Address)
  | setNextQuoteToken (token msgSender newQuoteToken : Address)
  | completeQuoteTokenUpdate (token msgSender : Address)
  | grantRole (token msgSender account : Address) (role : B256)
  | revokeRole (token msgSender account : Address) (role : B256)
  | renounceRole (token msgSender : Address) (role : B256)
  | setRoleAdmin (token msgSender : Address) (role adminRole : B256)

namespace QuoteCall

open TokenWorld

/-- Run a call with at most `fuel` iterations of its loop. -/
def exec (env : Env) (keccakId : Address → B256 → BitVec 64) (fuel : Nat) :
    QuoteCall → Exec TokenWorld Unit
  | .createToken sender salt currency quoteToken admin => do
    let _ ← Tip20Factory.createToken env keccakId sender salt currency quoteToken admin
    pure ()
  | .createTokenReservedAddress address currency quoteToken admin => do
    let _ ← Tip20Factory.createTokenReservedAddress env address currency quoteToken admin
    pure ()
  | .setNextQuoteToken token sender newQuoteToken =>
    Tip20.setNextQuoteToken token sender newQuoteToken
  | .completeQuoteTokenUpdate token sender =>
    Tip20.completeQuoteTokenUpdate fuel token sender
  | .grantRole token sender account role =>
    onToken token (Tip20.grantRole sender account role)
  | .revokeRole token sender account role =>
    onToken token (Tip20.revokeRole sender account role)
  | .renounceRole token sender role =>
    onToken token (Tip20.renounceRole sender role)
  | .setRoleAdmin token sender role adminRole =>
    onToken token (Tip20.setRoleAdmin sender role adminRole)

/-- One successful call. -/
def Step (w w' : TokenWorld) : Prop :=
  ∃ (env : Env) (keccakId : Address → B256 → BitVec 64) (fuel : Nat)
    (c : QuoteCall), Yields (c.exec env keccakId fuel) w () w'

theorem step_quoteGraph (h : w.QuoteGraph) (hstep : Step w w') : w'.QuoteGraph := by
  obtain ⟨env, keccakId, fuel, c, hc⟩ := hstep
  cases c with
  | createToken sender salt currency quoteToken admin =>
    obtain ⟨a, hcreate⟩ := Yields.of_bind_pure hc
    exact h.createToken hcreate
  | createTokenReservedAddress address currency quoteToken admin =>
    obtain ⟨a, hcreate⟩ := Yields.of_bind_pure hc
    exact h.createTokenReservedAddress hcreate
  | setNextQuoteToken token sender newQuoteToken =>
    exact h.setNextQuoteToken hc
  | completeQuoteTokenUpdate token sender =>
    exact h.completeQuoteTokenUpdate hc
  | grantRole token sender account role =>
    have hop : RoleOp (Tip20.grantRole sender account role) :=
      roleOp_of_write fun _ => ⟨rfl, rfl, rfl⟩
    exact h.roleOp hop hc
  | revokeRole token sender account role =>
    have hop : RoleOp (Tip20.revokeRole sender account role) :=
      roleOp_of_write fun _ => ⟨rfl, rfl, rfl⟩
    exact h.roleOp hop hc
  | renounceRole token sender role =>
    have hop : RoleOp (Tip20.renounceRole sender role) :=
      @roleOp_of_write sender (fun _ => role) _ fun _ => ⟨rfl, rfl, rfl⟩
    exact h.roleOp hop hc
  | setRoleAdmin token sender role adminRole =>
    have hop : RoleOp (Tip20.setRoleAdmin sender role adminRole) :=
      roleOp_of_write fun _ => ⟨rfl, rfl, rfl⟩
    exact h.roleOp hop hc

theorem reachable_quoteGraph (h : ReflTransGen Step TokenWorld.empty w) : w.QuoteGraph :=
  run_invariant (I := QuoteGraph) (fun _ _ => step_quoteGraph) h empty_quoteGraph

theorem quoteOf_zero (h : w.QuoteGraph) : w.quoteOf 0 = 0 := by
  refine (h.vacant 0 ?_).1
  by_contra hlive
  have htip20 := h.tokenAddress 0 (by simpa using hlive)
  cases htip20

/-- A root leads only to roots. -/
theorem isRoot_quoteOf (h : w.QuoteGraph) {a : Address} (ha : IsRoot a) : IsRoot (w.quoteOf a) := by
  rcases ha with rfl | rfl
  · exact .inr h.root.1
  · exact .inr (quoteOf_zero h)

theorem iterate_pathUsd_ne (h : w.QuoteGraph) {n : Nat} (hn : 0 < n) :
    w.quoteOf^[n] pathUsdAddress ≠ pathUsdAddress := by
  obtain ⟨k, rfl⟩ : ∃ k, n = k + 1 := ⟨n - 1, by omega⟩
  rw [iterate_succ_apply, h.root.1, iterate_fixed (quoteOf_zero h)]
  exact pathUsdAddress_ne_zero.symm

/-- From every deployed token, following quote tokens reaches pathUSD or the
zero address and never comes back, so the two loops that walk the chain end:
given enough iterations their outcome is settled. -/
theorem quoteGraph_acyclic (h : ReflTransGen Step TokenWorld.empty w) :
    (∀ a, (w.tokens a).deployed = true →
      (∃ n, w.quoteOf^[n] a = pathUsdAddress ∨ w.quoteOf^[n] a = 0) ∧
      ∀ n, 0 < n → w.quoteOf^[n] a ≠ a) ∧ (∀ token msgSender, Halts .outOfFuel (fun fuel =>
      Tip20.completeQuoteTokenUpdate fuel token msgSender) w) ∧
    (∀ token, Halts .outOfFuel (fun fuel =>
      StablecoinDex.findPathToRoot fuel token) w) := by
  have hg := reachable_quoteGraph h
  refine ⟨fun a hlive => ⟨(hg.ends a).iterate, fun n hn => ?_⟩, completeQuoteTokenUpdate_halts hg,
    fun token => findPathToRoot_halts (hg.ends token).choose_spec⟩
  have hzero := ne_of_isTip20 (hg.tokenAddress a hlive) zero_isTip20
  by_cases hpath : a = pathUsdAddress
  · rw [hpath]
    exact iterate_pathUsd_ne hg hn
  · exact (hg.ends a).iterate_ne (not_or.mpr ⟨hpath, hzero⟩) (fun b => isRoot_quoteOf hg) hn

/-- Two tokens under pathUSD; the first is requoted to the second after the
second has moved out of its chain. -/
theorem quoteGraph_acyclic_requoted :
    let a : Address := .newTip20 1
    let b : Address := .newTip20 2
    let admin : Address := ⟨7⟩
    let run := fun (c : QuoteCall) (w : TokenWorld) =>
      finalState (c.exec (.permissive .t8) (fun _ _ => 0) 4) w
    let w₁ := run (.createTokenReservedAddress pathUsdAddress "USD" 0 admin) TokenWorld.empty
    let w₂ := run (.createTokenReservedAddress a "USD" pathUsdAddress admin) w₁
    let w₃ := run (.createTokenReservedAddress b "USD" a admin) w₂
    let w₄ := run (.setNextQuoteToken a admin b) w₃
    let w₅ := run (.setNextQuoteToken b admin pathUsdAddress) w₄
    let w₆ := run (.completeQuoteTokenUpdate b admin) w₅
    let w₇ := run (.completeQuoteTokenUpdate a admin) w₆
    w₇.quoteOf a = b ∧ w₇.quoteOf b = pathUsdAddress ∧ ∀ n, 0 < n → w₇.quoteOf^[n] a ≠ a := by
  intro a b admin run w₁ w₂ w₃ w₄ w₅ w₆ w₇
  have hrun : ∀ (c : QuoteCall) (w : TokenWorld),
      succeeds (c.exec (.permissive .t8) (fun _ _ => 0) 4) w = true → Step w (run c w) :=
    fun c w h => ⟨_, _, _, c, yields_finalState h⟩
  have hreach : ReflTransGen Step TokenWorld.empty w₇ := ReflTransGen.refl
    |>.tail (hrun _ _ (by decide))
    |>.tail (hrun _ w₁ (by decide))
    |>.tail (hrun _ w₂ (by decide))
    |>.tail (hrun _ w₃ (by decide))
    |>.tail (hrun _ w₄ (by decide))
    |>.tail (hrun _ w₅ (by decide))
    |>.tail (hrun _ w₆ (by decide))
  exact ⟨by decide, by decide, ((quoteGraph_acyclic hreach).1 a (by decide)).2⟩

end QuoteCall

end Tempo
