/-
Storage credits of the two accounts that hand them on to users, the exchange
and the channel reserve, over whole runs.
-/
import Tempo.Dex.StorageCredits
import Tempo.Reserve.StorageCredits
import Tempo.Tip20.Supply

namespace Tempo

namespace StorageCredits

open HasCredits

/-- An account whose users have no credits yet. -/
structure Fresh {σ : Type} [HasCredits σ] (s : σ) : Prop where
  bound : (credits s).balance ≤ maxWord 64
  counters : ∀ user, counters s user = 0

/-- The users of an account are promised no more than its balance and the
credits the slots of their counters were paid with. -/
def Covers {σ : Type} [HasCredits σ] (s : σ) : Prop :=
  ∑ user, counters s user ≤ (credits s).balance +
    (Finset.univ.filter fun user => 0 < counters s user).card

/-- Over any run of operations of the exchange, and of calls of the reserve,
in which no credit is lost at the largest balance: the credits of the users
are covered, and no operation stops with a failed check of the bookkeeping. -/
theorem credits_covered :
    (∀ s₀ s : DexCredits, Fresh s₀ → Relation.ReflTransGen DexCredits.Step s₀ s →
      (s.credits.saturated = false → Covers s) ∧
      ∀ (spec : TempoHardfork) (actions : List DexAction) msg s',
        .t7 ≤ spec → (DexAction.operation spec actions).run s =
          .error (.fatal msg) s' → s'.credits.saturated = true) ∧ ∀ w₀ w : ReserveWorld, Fresh w₀ →
      (∀ d, (w₀.reserve.channelStates d).deposit = 0 → w₀.reserve.channelStates d = .blank) →
      Relation.ReflTransGen ReserveWorld.CreditStep w₀ w →
      (w.credits.saturated = false → Covers w) ∧
      ∀ (env : ReserveEnv) (c : ReserveCall) msg w', .t7 ≤ env.spec →
        env.AnswersOnly NotFatal → (c.exec env).run w =
          .error (.fatal msg) w' → w'.credits.saturated = true := by
  constructor
  · intro s₀ s hfresh hrun
    have hready := DexCredits.run_ready hrun (ready_of_fresh hfresh.bound hfresh.counters)
    refine ⟨hready.covers, fun spec actions msg s' hspec herror => ?_⟩
    have hop := DexAction.operation_ready hspec actions hready
    exact ((wp_iff.mp hop).2 _ _ herror).resolve_right fun he => he msg rfl
  · intro w₀ w hfresh hslots hrun
    have hsettled := ReserveWorld.run_settled hrun
      ((ready_of_fresh hfresh.bound hfresh.counters).imp id fun hbacked => ⟨hbacked, hslots⟩)
    refine ⟨hsettled.ready.covers, fun env c msg w' hspec henv herror => ?_⟩
    have hcall := c.exec_settled hspec (fun _ he => he) henv hsettled
    exact ((wp_iff.mp hcall).2 _ _ herror).resolve_right fun he => he msg rfl

/-- A cancelled order of three slots leaves a counter of three over a balance
of two, and a channel that was opened and closed a counter of one over an empty
balance. -/
theorem credits_covered_closed :
    let maker : Address := ⟨1⟩
    let cancelled : SlotWrites :=
      ⟨[(false, true), (false, true), (false, true)], .ok (), nofun⟩
    let s₀ : DexCredits := ⟨⟨0, .refund, 0, 0, false⟩, fun _ => 0⟩
    let s := finalState (DexAction.operation .t7 [.delete maker cancelled]) s₀
    let token : Address := ⟨0x20c0000000000000000000000000000000000001#160⟩
    let payee : Address := ⟨2⟩
    let env : ReserveEnv :=
      { Env.permissive .t12 with recoverSigner _ _ _ := some maker }
    let tokens : TokenWorld := { TokenWorld.empty with
      tokens := Function.update (fun _ => Token.blank) token (Token.endowed 0 maker 500) }
    let w₀ : ReserveWorld :=
      ⟨tokens, ⟨fun _ => .blank, fun _ => 0, fun _ => false, 7⟩, ⟨0, .refund, 0, 0, false⟩⟩
    let w₁ := finalState ((ReserveCall.open_ maker payee 0 token 100 0 0).exec env) w₀
    let w₂ := finalState ((ReserveCall.close payee
      ⟨maker, payee, 0, token, 0, 0, 7⟩ 70 60 0).exec env) w₁
    s.credits.balance = 2 ∧ s.dexStorageCredits maker = 3 ∧ Covers s ∧
      w₂.credits.balance = 0 ∧ w₂.reserve.channelStorageCredits maker = 1 ∧ Covers w₂ := by
  intro maker cancelled s₀ s token payee env tokens w₀ w₁ w₂
  have hvalues : s.credits.balance = 2 ∧ s.dexStorageCredits maker = 3 ∧
      w₂.credits.balance = 0 ∧ w₂.reserve.channelStorageCredits maker = 1 ∧
      s.credits.saturated = false ∧ w₂.credits.saturated = false := by
    decide +kernel
  obtain ⟨hbalance, hcounter, hbalance', hcounter', hnone, hnone'⟩ := hvalues
  have hdex := credits_covered.1 s₀ s ⟨Nat.zero_le _, fun _ => rfl⟩
    (.single (.operation .t7 _ (by decide) (yields_finalState (by decide +kernel))))
  have hreserve := credits_covered.2 w₀ w₂ ⟨Nat.zero_le _, fun _ => rfl⟩
    (fun _ _ => rfl) ((Relation.ReflTransGen.single
      (.call env _ (by decide) (yields_finalState (by decide +kernel)))).tail
      (.call env _ (by decide) (yields_finalState (by decide +kernel))))
  exact ⟨hbalance, hcounter, hdex.1 hnone, hbalance', hcounter', hreserve.1 hnone'⟩

end StorageCredits

end Tempo
