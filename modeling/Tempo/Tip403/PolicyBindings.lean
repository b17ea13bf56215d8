/-
The transfer policy of a token.  It was kept with the token; from T9 on it is a
binding in the registry, with the old slot as fallback until the token is
migrated.  Policy 0 rejects everything, so an unset binding is told from a set
one by a flag.
-/
import Mathlib.Data.Set.Card
import Tempo.Tip20.QuoteGraph
import Tempo.Tip403.Registry

namespace Tempo

structure TokenTransferPolicy where
  policyId : Nat
  isSet : Bool

/-- The tokens, the policies and the bindings between them. -/
structure BindingWorld where
  tokens : TokenWorld
  registry : Tip403Registry
  tokenTransferPolicies : Address → TokenTransferPolicy

variable {spec : TempoHardfork} {w w' : BindingWorld} {token t : Address}

namespace BindingWorld

def registeredTokenTransferPolicyId (w : BindingWorld) (token : Address) : Option Nat :=
  let binding := w.tokenTransferPolicies token
  if binding.isSet then some binding.policyId else none

def setTokenTransferPolicy (w : BindingWorld) (token : Address) (policyId : Nat) : BindingWorld :=
  { w with
    tokenTransferPolicies := Function.update w.tokenTransferPolicies token ⟨policyId, true⟩ }

def legacyTransferPolicyId (w : BindingWorld) (token : Address) : Nat :=
  (w.tokens.tokens token).transferPolicyId

def writeLegacy (w : BindingWorld) (token : Address) (policyId : Nat) : BindingWorld :=
  { w with
    tokens := w.tokens.modify token fun t =>
      { t with transferPolicyId := policyId } }

def deleteLegacyTransferPolicyId (w : BindingWorld) (token : Address) : BindingWorld :=
  w.writeLegacy token 0

def transferPolicyId (spec : TempoHardfork) (w : BindingWorld) (token : Address) : Nat :=
  if .t9 ≤ spec then
    match w.registeredTokenTransferPolicyId token with
    | some policyId => policyId
    | none => w.legacyTransferPolicyId token
  else w.legacyTransferPolicyId token

def isTip20 (w : BindingWorld) (token : Address) : Bool :=
  token.isTip20 && (w.tokens.tokens token).deployed

/-- The body of the loop, with the number of tokens migrated so far. -/
def migrateToken (acc : BindingWorld × Nat) (token : Address) : BindingWorld × Nat :=
  if acc.1.isTip20 token = false ∨ (acc.1.registeredTokenTransferPolicyId token).isSome then acc
  else
    ((acc.1.setTokenTransferPolicy token (acc.1.legacyTransferPolicyId token)
      ).deleteLegacyTransferPolicyId token, acc.2 + 1)

def migrateTransferPolicyIds (w : BindingWorld) (tokens : List Address) : BindingWorld × Nat :=
  tokens.foldl migrateToken (w, 0)

variable {acc : BindingWorld × Nat}

theorem registered_set (w : BindingWorld) (token t : Address) (policyId : Nat) :
    (w.setTokenTransferPolicy token policyId).registeredTokenTransferPolicyId t
      = if t = token then some policyId
        else w.registeredTokenTransferPolicyId t := by
  unfold registeredTokenTransferPolicyId setTokenTransferPolicy
  by_cases ht : t = token
  · simp [ht]
  · simp [ht]

/-- The token is one that a migration takes over. -/
def Pending (w : BindingWorld) (token : Address) : Prop :=
  w.isTip20 token = true ∧ w.registeredTokenTransferPolicyId token = none

theorem migrateToken_of_not_pending (h : ¬acc.1.Pending token) : migrateToken acc token = acc := by
  unfold migrateToken
  rw [if_pos]
  by_cases htip : acc.1.isTip20 token = true
  · exact .inr (Option.isSome_iff_ne_none.mpr fun hnone => h ⟨htip, hnone⟩)
  · exact .inl (Bool.eq_false_iff.mpr htip)

theorem migrateToken_of_pending (h : acc.1.Pending token) : migrateToken acc token =
      ((acc.1.setTokenTransferPolicy token (acc.1.legacyTransferPolicyId token)
        ).deleteLegacyTransferPolicyId token, acc.2 + 1) := by
  unfold migrateToken
  simp [h.1, h.2]

/-- What a step binds: the token in question, to its old policy. -/
theorem registered_migrateToken (h : acc.1.Pending token) (t : Address) :
    (migrateToken acc token).1.registeredTokenTransferPolicyId t =
      if t = token then some (acc.1.legacyTransferPolicyId token)
      else acc.1.registeredTokenTransferPolicyId t := by
  rw [migrateToken_of_pending h]
  exact registered_set acc.1 token t _

theorem migrateToken_keeps_bound (h : acc.1.registeredTokenTransferPolicyId t ≠ none) :
    (migrateToken acc token).1.registeredTokenTransferPolicyId t ≠ none := by
  by_cases hp : acc.1.Pending token
  · rw [registered_migrateToken hp]
    split
    · exact Option.some_ne_none _
    · exact h
  · rwa [migrateToken_of_not_pending hp]

theorem migrateToken_isTip20 : (migrateToken acc token).1.isTip20 t = acc.1.isTip20 t := by
  by_cases hp : acc.1.Pending token
  · rw [migrateToken_of_pending hp]
    by_cases ht : t = token
    · simp [isTip20, deleteLegacyTransferPolicyId, writeLegacy,
        setTokenTransferPolicy, TokenWorld.modify, ht]
    · simp [isTip20, deleteLegacyTransferPolicyId, writeLegacy,
        setTokenTransferPolicy, TokenWorld.modify, ht]
  · rw [migrateToken_of_not_pending hp]

theorem migrateToken_policy (hspec : .t9 ≤ spec) :
    (migrateToken acc token).1.transferPolicyId spec t = acc.1.transferPolicyId spec t := by
  by_cases hp : acc.1.Pending token
  · unfold transferPolicyId
    rw [if_pos hspec, if_pos hspec, registered_migrateToken hp]
    by_cases ht : t = token
    · rw [if_pos ht, ht, hp.2]
    · rw [if_neg ht, migrateToken_of_pending hp]
      simp [legacyTransferPolicyId, deleteLegacyTransferPolicyId, writeLegacy,
        setTokenTransferPolicy, TokenWorld.modify, ht]
  · rw [migrateToken_of_not_pending hp]

/-! The loop. -/

theorem foldl_policy (hspec : .t9 ≤ spec) (tokens : List Address) :
    (tokens.foldl migrateToken acc).1.transferPolicyId spec t = acc.1.transferPolicyId spec t := by
  induction tokens generalizing acc with
  | nil => rfl
  | cons token tokens ih => exact ih.trans (migrateToken_policy hspec)

theorem foldl_keeps_bound (tokens : List Address)
    (h : acc.1.registeredTokenTransferPolicyId t ≠ none) :
    (tokens.foldl migrateToken acc).1.registeredTokenTransferPolicyId t ≠
      none := by
  induction tokens generalizing acc with
  | nil => exact h
  | cons token tokens ih => exact ih (migrateToken_keeps_bound h)

theorem foldl_isTip20 (tokens : List Address) :
    (tokens.foldl migrateToken acc).1.isTip20 t = acc.1.isTip20 t := by
  induction tokens generalizing acc with
  | nil => rfl
  | cons token tokens ih => exact ih.trans migrateToken_isTip20

/-- No given token is left behind. -/
theorem foldl_not_pending (tokens : List Address) (ht : t ∈ tokens) :
    ¬(tokens.foldl migrateToken acc).1.Pending t := by
  induction tokens generalizing acc with
  | nil => cases ht
  | cons token tokens ih =>
    rcases List.mem_cons.mp ht with rfl | ht
    · rintro ⟨htip, hnone⟩
      rw [List.foldl_cons, foldl_isTip20, migrateToken_isTip20] at htip
      by_cases hbound : acc.1.registeredTokenTransferPolicyId t = none
      · have hset := registered_migrateToken ⟨htip, hbound⟩ t
        rw [if_pos rfl] at hset
        exact foldl_keeps_bound tokens (hset ▸ Option.some_ne_none _) hnone
      · exact foldl_keeps_bound (t :: tokens) hbound hnone
    · exact ih ht

theorem foldl_of_not_pending (tokens : List Address) (h : ∀ t ∈ tokens, ¬acc.1.Pending t) :
    tokens.foldl migrateToken acc = acc := by
  induction tokens with
  | nil => rfl
  | cons token tokens ih =>
    rw [List.foldl_cons, migrateToken_of_not_pending (h token List.mem_cons_self)]
    exact ih fun t ht => h t (List.mem_cons_of_mem token ht)

/-- The tokens that are bound in the second world only. -/
def newlyBound (w w' : BindingWorld) : Set Address :=
  {t | w.registeredTokenTransferPolicyId t = none ∧
    w'.registeredTokenTransferPolicyId t ≠ none}

theorem foldl_count (tokens : List Address) : (tokens.foldl migrateToken acc).2 =
      acc.2 + (newlyBound acc.1 (tokens.foldl migrateToken acc).1).ncard := by
  induction tokens generalizing acc with
  | nil =>
    have hnone : newlyBound acc.1 acc.1 = ∅ := Set.eq_empty_of_forall_notMem fun t ht => ht.2 ht.1
    rw [List.foldl_nil, hnone, Set.ncard_empty, add_zero]
  | cons token tokens ih =>
    rw [List.foldl_cons, ih]
    by_cases hp : acc.1.Pending token
    · have hbound := registered_migrateToken hp
      have hset : newlyBound acc.1 (tokens.foldl migrateToken (migrateToken acc token)).1 =
          insert token (newlyBound (migrateToken acc token).1
            (tokens.foldl migrateToken (migrateToken acc token)).1) := by
        ext t
        by_cases ht : t = token
        · have : (migrateToken acc token ).1.registeredTokenTransferPolicyId token ≠ none := by
            simp [hbound]
          simp [newlyBound, ht, hp.2, foldl_keeps_bound tokens this]
        · simp [newlyBound, ht, hbound]
      rw [hset, Set.ncard_insert_of_notMem _ (Set.toFinite _), migrateToken_of_pending hp]
      · omega
      · intro hmem
        have := hmem.1
        rw [hbound, if_pos rfl] at this
        cases this
    · rw [migrateToken_of_not_pending hp]

/-! Calls. -/

def onTokens {α : Type} (m : Exec TokenWorld α) : Exec BindingWorld α :=
  focus BindingWorld.tokens (fun w tokens => { w with tokens }) m

/-- The policy of a new token; before T9 its slot was written with it. -/
def bindNew (spec : TempoHardfork) (token : Address) : Exec BindingWorld Unit :=
  if .t9 ≤ spec then
    updates fun w => w.setTokenTransferPolicy token allowAllPolicyId
  else pure ()

def changeTransferPolicyId (spec : TempoHardfork) (msgSender token : Address)
    (newPolicyId : Nat) : Exec BindingWorld Unit := do
  onTokens (onToken token (Tip20.checkRole msgSender defaultAdminRole))
  let registry ← reads BindingWorld.registry
  require (registry.policyExists newPolicyId) (.tip20 .invalidTransferPolicyId)
  if .t9 ≤ spec then
    updates fun w => w.setTokenTransferPolicy token newPolicyId
  else updates fun w => w.writeLegacy token newPolicyId

end BindingWorld

open BindingWorld

/-- What changes bindings; the hash of a salt is given by `keccakId`. -/
inductive BindingCall where
  | migrateTransferPolicyIds (tokens : List Address)
  | createToken (sender : Address) (salt : B256) (currency : String) (quoteToken admin : Address)
  | createTokenReservedAddress (address : Address) (currency : String) (quoteToken admin : Address)
  | changeTransferPolicyId (msgSender token : Address) (newPolicyId : Nat)

namespace BindingCall

variable (keccakId : Address → B256 → BitVec 64)

def exec (env : Env) : BindingCall → Exec BindingWorld Unit
  | migrateTransferPolicyIds tokens =>
    updates fun w => (w.migrateTransferPolicyIds tokens).1
  | createToken sender salt currency quoteToken admin => do
    let _ ← onTokens (Tip20Factory.createToken env keccakId sender salt currency quoteToken admin)
    bindNew env.spec (Tip20Factory.computeTip20Address keccakId sender salt).1
  | createTokenReservedAddress address currency quoteToken admin => do
    let _ ← onTokens (Tip20Factory.createTokenReservedAddress env address currency quoteToken admin)
    bindNew env.spec address
  | changeTransferPolicyId msgSender token newPolicyId =>
    BindingWorld.changeTransferPolicyId env.spec msgSender token newPolicyId

/-- The policy the call gives to a token, if it is about that token. -/
def sets (token : Address) : BindingCall → Option Nat
  | migrateTransferPolicyIds _ => none
  | createToken sender salt _ _ _ =>
    if token = (Tip20Factory.computeTip20Address keccakId sender salt).1 then
      some allowAllPolicyId
    else none
  | createTokenReservedAddress address _ _ _ =>
    if token = address then some allowAllPolicyId else none
  | changeTransferPolicyId _ token' newPolicyId =>
    if token = token' then some newPolicyId else none

variable {keccakId : Address → B256 → BitVec 64} {env : Env} {c : BindingCall}

theorem onToken_preserves {α : Type} {m : Exec TokenCtx α} (ht : t ≠ token) :
    Preserves (fun w : TokenWorld => w.tokens t) (onToken token m) := by
  intro w a w' h
  obtain ⟨s, -, rfl⟩ := yields_onToken.mp h
  exact Function.update_of_ne ht _ _

variable {currency : String} {quoteToken : Address} {admin : Address}

/-- Creating a token writes to no other one. -/
theorem createToken_preserves {sender : Address} {salt : B256}
    (ht : t ≠ (Tip20Factory.computeTip20Address keccakId sender salt).1) :
    Preserves (fun w : TokenWorld => w.tokens t) (Tip20Factory.createToken env
      keccakId sender salt currency quoteToken admin) := (ReadOnly.reads _).preserves.bind fun _ =>
    (ReadOnly.require _ _).preserves.bind fun _ =>
    (ReadOnly.reads _).preserves.bind fun _ =>
    (ReadOnly.require _ _).preserves.bind fun _ =>
    (TokenWorld.checkQuoteCurrency_readOnly _ _).preserves.bind fun _ =>
    (ReadOnly.require _ _).preserves.bind fun _ =>
    (ReadOnly.require _ _).preserves.bind fun _ =>
    (onToken_preserves ht).bind fun _ => (ReadOnly.pure _).preserves

theorem createTokenReservedAddress_preserves (ht : t ≠ token) :
    Preserves (fun w : TokenWorld => w.tokens t)
      (Tip20Factory.createTokenReservedAddress env token currency quoteToken admin) := by
  have hlast : Preserves (fun w : TokenWorld => w.tokens t) (do
      require ((token.word.extractLsb' 0 64).toNat < reservedSize)
        (.tip20Factory .addressNotReserved)
      Tip20.fromAddress token
      onToken token (Tip20.initializeToken env currency quoteToken admin)
      pure token) :=
    (ReadOnly.require _ _).preserves.bind fun _ =>
      (ReadOnly.require _ _).preserves.bind fun _ =>
      (onToken_preserves ht).bind fun _ => (ReadOnly.pure _).preserves
  exact (ReadOnly.require _ _).preserves.bind fun _ =>
    (ReadOnly.reads _).preserves.bind fun _ =>
    (ReadOnly.require _ _).preserves.bind fun _ =>
    .ite ((ReadOnly.reads _).preserves.bind fun _ =>
      (ReadOnly.require _ _).preserves.bind fun _ =>
      (TokenWorld.checkQuoteCurrency_readOnly _ _).preserves.bind fun _ =>
      hlast) hlast

theorem transferPolicyId_congr (hbinding : w'.tokenTransferPolicies = w.tokenTransferPolicies)
    (htoken : w'.tokens.tokens t = w.tokens.tokens t) :
    w'.transferPolicyId spec t = w.transferPolicyId spec t := by
  unfold transferPolicyId registeredTokenTransferPolicyId legacyTransferPolicyId
  rw [hbinding, htoken]

/-- A binding decides for its token and no other. -/
theorem policy_set (hspec : .t9 ≤ spec) (policyId : Nat) :
    (w.setTokenTransferPolicy token policyId).transferPolicyId spec t =
      (if t = token then some policyId else none).getD (w.transferPolicyId spec t) := by
  unfold transferPolicyId
  rw [if_pos hspec, if_pos hspec, registered_set]
  by_cases ht : t = token
  · rw [if_pos ht, if_pos ht]
    rfl
  · rw [if_neg ht, if_neg ht]
    rfl

/-- The policy of a new token, and of the others. -/
theorem create_policy {m : Exec TokenWorld Address} (hspec : .t9 ≤ spec) (henv : .t9 ≤ env.spec)
    (hm : t ≠ token → Preserves (fun w : TokenWorld => w.tokens t) m)
    (h : Yields (do
      let _ ← onTokens m
      bindNew env.spec token) w () w') :
    w'.transferPolicyId spec t = (if t = token then some allowAllPolicyId else none).getD
        (w.transferPolicyId spec t) := by
  obtain ⟨a, w1, hcreate, hbind⟩ := h.bind
  obtain ⟨tokens, htokens, rfl⟩ := hcreate.focus
  rw [bindNew, if_pos henv, yields_updates] at hbind
  rw [← hbind, policy_set hspec]
  by_cases ht : t = token
  · rw [if_pos ht]
    rfl
  · rw [if_neg ht]
    exact transferPolicyId_congr rfl (hm ht htokens)

/-- One call: the policy it sets, or the one there was. -/
theorem exec_policy (hspec : .t9 ≤ spec) (henv : .t9 ≤ env.spec)
    (h : Yields (c.exec keccakId env) w () w') :
    w'.transferPolicyId spec t = (c.sets keccakId t).getD (w.transferPolicyId spec t) := by
  cases c with
  | migrateTransferPolicyIds tokens =>
    rw [← h.updates]
    exact foldl_policy hspec tokens
  | createToken sender salt currency quoteToken admin =>
    exact create_policy hspec henv createToken_preserves h
  | createTokenReservedAddress address currency quoteToken admin =>
    exact create_policy hspec henv createTokenReservedAddress_preserves h
  | changeTransferPolicyId msgSender token newPolicyId =>
    obtain ⟨⟨⟩, w1, hrole, hrest⟩ := h.bind
    have hsame : w1 = w := ((ReadOnly.onToken (Tip20.checkRole_readOnly _ _)
      ).focus fun _ => rfl) hrole
    simp only [yields_steps, if_pos henv, hsame] at hrest
    rw [← hrest.2]
    exact policy_set hspec newPolicyId

end BindingCall

/-- The calls that succeed from T9 on, in any order; calls that fail are
reverted. -/
inductive BindingRun (keccakId : Address → B256 → BitVec 64) :
    BindingWorld → List BindingCall → BindingWorld → Prop where
  | start {w : BindingWorld} : BindingRun keccakId w [] w
  | call {w w' w'' : BindingWorld} {calls : List BindingCall} {env : Env}
      {c : BindingCall} (hrun : BindingRun keccakId w calls w')
      (henv : .t9 ≤ env.spec) (h : Yields (c.exec keccakId env) w' () w'') :
      BindingRun keccakId w (calls ++ [c]) w''

theorem BindingRun.policy {keccakId : Address → B256 → BitVec 64}
    {spec : TempoHardfork} {w w' : BindingWorld} {calls : List BindingCall}
    (hspec : .t9 ≤ spec) (hrun : BindingRun keccakId w calls w') (t : Address) :
    w'.transferPolicyId spec t = (calls.reverse.findSome? (BindingCall.sets keccakId t)).getD
        (w.transferPolicyId spec t) := by
  induction hrun with
  | start => rfl
  | @call w' w'' calls env c _ henv h ih =>
    rw [BindingCall.exec_policy hspec henv h, ih, List.reverse_concat, List.findSome?_cons]
    cases BindingCall.sets keccakId t c with
    | none => rfl
    | some policyId => rfl

/-- From T9 on a migration changes the policy of no token; a second one with
the same addresses changes nothing; its result is the number of tokens it
bound; and along any run of migrations, creations and changes the policy of a
token is the one set last, by its creation or by a change. -/
theorem BindingWorld.migration_transparent {spec : TempoHardfork}
    (hspec : .t9 ≤ spec) (w : BindingWorld) (tokens : List Address) :
    (∀ t, (w.migrateTransferPolicyIds tokens).1.transferPolicyId spec t =
      w.transferPolicyId spec t) ∧
    (w.migrateTransferPolicyIds tokens).1.migrateTransferPolicyIds tokens =
      ((w.migrateTransferPolicyIds tokens).1, 0) ∧ (w.migrateTransferPolicyIds tokens).2 =
      (newlyBound w (w.migrateTransferPolicyIds tokens).1).ncard ∧
    ∀ keccakId calls w', BindingRun keccakId w calls w' → ∀ t, w'.transferPolicyId spec t =
        (calls.reverse.findSome? (BindingCall.sets keccakId t)).getD
          (w.transferPolicyId spec t) := by
  refine ⟨fun t => foldl_policy hspec tokens, ?_, ?_, ?_⟩
  · exact foldl_of_not_pending tokens fun t ht => foldl_not_pending tokens ht
  · exact (foldl_count tokens).trans (zero_add _)
  · intro keccakId calls w' hrun t
    exact hrun.policy hspec t

/-- A token whose old slot says to reject everything is listed twice, beside
an address that is no token. -/
theorem BindingWorld.migration_transparent_rejectAll :
    let token : Address := .newTip20 1
    let w : BindingWorld :=
      { tokens := TokenWorld.empty.modify token fun t =>
          { t with deployed := true }
        registry := .empty
        tokenTransferPolicies := fun _ => ⟨0, false⟩ }
    let migrated := w.migrateTransferPolicyIds [token, ⟨5⟩, token]
    migrated.1.transferPolicyId .t9 token = rejectAllPolicyId ∧
      migrated.2 = 1 ∧ (newlyBound w migrated.1).ncard = 1 := by
  intro token w migrated
  have hall := @migration_transparent .t9 (by decide) w [token, ⟨5⟩, token]
  have hcount : migrated.2 = 1 := by decide
  exact ⟨hall.1 token, hcount, hall.2.2.1.symm.trans hcount⟩

end Tempo
