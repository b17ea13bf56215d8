/-
The pool's cache of AMM liquidity.  Lookups that the cache cannot answer plan
a route on the state of their own provider and fill the cache while newer
states are being applied; a generation counter tells them to keep out.  Slots
of the fee manager are modelled by what they are the hash of, and the counter
does not overflow.
-/
import Tempo.FeeManager.Effects

namespace Tempo

open TipFeeManager Function

namespace FeeWorld

/-- What the pool caches of a state. -/
def reserve (w : FeeWorld) (key : PoolKey) : Nat :=
  (w.manager.pools key).reserveValidatorToken

def quoteToken (w : FeeWorld) (token : Address) : Address :=
  (w.tokens.tokens token).quoteToken

end FeeWorld

/-- A slot of the fee manager that a block has written, with its new value. -/
inductive FeeSlotChange where
  | pool (key : PoolKey) (value : Pool)
  | validatorToken (validator token : Address)

/-- What `on_new_state` reads of a block: the written slots of the fee manager
and the tokens whose quote token was written. -/
structure ExecutionOutcome where
  feeManager : List FeeSlotChange
  quoteTokens : Address → Bool

/-- `AmmLiquidityCacheInner`; the recent tokens and validators that only
`on_new_blocks` reads are left out. -/
structure AmmCache where
  hardfork : TempoHardfork
  poolCache : PoolKey → Option Nat
  quoteTokenCache : Address → Option Address
  slotToPool : PoolKey → Option PoolKey
  uniqueTokens : List Address
  validatorPreferences : Address → Option Address
  slotToValidator : Address → Option Address
  generation : Nat

/-- The slow path of a lookup on the state of `block`: what it has sampled,
and the validators' tokens it still has to plan for. -/
structure Lookup where
  userToken : Address
  fee : Nat
  block : Nat
  hardfork : TempoHardfork
  generation : Nat
  missing : List Address

namespace AmmCache

def new : AmmCache where
  hardfork := .genesis
  poolCache _ := none
  quoteTokenCache _ := none
  slotToPool _ := none
  uniqueTokens := []
  validatorPreferences _ := none
  slotToValidator _ := none
  generation := 0

variable (c : AmmCache)

/-- A pair on the hot path: `none` if a value is missing. -/
def checkCached (userToken : Address) (out1 : Nat) (out2 : Option Nat)
    (validatorToken : Address) : Option Bool :=
  let direct := (c.poolCache ⟨userToken, validatorToken⟩).map fun r => decide (out1 ≤ r)
  if direct = some true then direct
  else
    match out2, c.quoteTokenCache userToken with
    | none, _ => direct
    | some _, none => none
    | some out2, some hop =>
      if hop ≠ 0 ∧ hop ≠ validatorToken then
        match c.poolCache ⟨userToken, hop⟩, c.poolCache ⟨hop, validatorToken⟩ with
        | some r1, some r2 => if out1 ≤ r1 ∧ out2 ≤ r2 then some true else direct
        | _, _ => none
      else direct

/-- The hot path of `has_enough_liquidity`: an answer, or the slow path. -/
def startLookup (userToken : Address) (fee block : Nat) :
    Except TempoPrecompileError (Bool ⊕ Lookup) :=
  if userToken ∈ c.uniqueTokens then .ok (.inl true)
  else do
    let out1 ← (computeAmountOut fee).elim (.error .underOverflow) .ok
    let out2 ← (if .t5 ≤ c.hardfork then
        (computeAmountOut out1).elim (.error .underOverflow) (.ok ∘ some)
      else .ok none)
    let check := c.checkCached userToken out1 out2
    if c.uniqueTokens.any fun token => check token = some true then .ok (.inl true)
    else
      let missing := c.uniqueTokens.filter fun token => check token = none
      if missing = [] then .ok (.inl false)
      else .ok (.inr ⟨userToken, fee, block, c.hardfork, c.generation, missing⟩)

/-- A pool the planner has read; cached entries are not overwritten. -/
def cachePool (p : PoolKey × Nat) : AmmCache :=
  { c with
    poolCache := update c.poolCache p.1 (some ((c.poolCache p.1).getD p.2))
    slotToPool := update c.slotToPool p.1 (some p.1) }

def cacheQuoteToken (userToken : Address) : Option Address → AmmCache
  | some hop => { c with
      quoteTokenCache := update c.quoteTokenCache userToken
        (some ((c.quoteTokenCache userToken).getD hop)) }
  | none => c

/-- One round of the slow path on the provider's state `w`: an answer, or the
tokens that are left. -/
def visit (w : FeeWorld) (l : Lookup) :
    AmmCache × (Except TempoPrecompileError Bool ⊕ List Address) :=
  match l.missing with
  | [] => (c, .inl (.ok false))
  | validatorToken :: rest =>
    match (planFeeRoute (.permissive l.hardfork) l.userToken validatorToken l.fee).run w with
    | .error e _ => (c, .inl (.error e))
    | .ok (route, intermediate, pools) _ =>
      (if c.generation = l.generation then
          (pools.foldl cachePool c).cacheQuoteToken l.userToken intermediate
        else c,
        if route.isSome then .inl (.ok true) else .inr rest)

def clear : AmmCache :=
  { new with generation := c.generation + 1 }

def onFeeSlot : FeeSlotChange → AmmCache
  | .pool key value =>
    match c.slotToPool key with
    | some pool => { c with
        poolCache := update c.poolCache pool (some value.reserveValidatorToken) }
    | none => c
  | .validatorToken validator token =>
    match c.slotToValidator validator with
    | some v => { c with
        validatorPreferences := update c.validatorPreferences v (some token) }
    | none => c

def onNewState (outcome : ExecutionOutcome) : AmmCache :=
  let c := outcome.feeManager.foldl onFeeSlot { c with generation := c.generation + 1 }
  { c with
    quoteTokenCache := fun token =>
      if outcome.quoteTokens token then none else c.quoteTokenCache token }

end AmmCache

/-- The cache and its lookups over a chain of which the blocks up to `latest`
exist and those up to `applied` went through `on_new_state`. -/
structure CacheState where
  latest : Nat
  applied : Nat
  cache : AmmCache
  lookups : List Lookup

/-- The outcome of a block lists what the block has changed. -/
structure ExecutionOutcome.Lists (outcome : ExecutionOutcome) (w w' : FeeWorld) : Prop where
  sound : ∀ key value, .pool key value ∈ outcome.feeManager → value = w'.manager.pools key
  complete : ∀ key, w'.manager.pools key ≠ w.manager.pools key →
    .pool key (w'.manager.pools key) ∈ outcome.feeManager
  quotes : ∀ token, w'.quoteToken token ≠ w.quoteToken token → outcome.quoteTokens token

/-- What can happen next; `opened` says of which block a lookup that starts
now may have a provider.  What `on_new_blocks` records is arbitrary. -/
inductive CacheStep (chain : Nat → FeeWorld) (opened : CacheState → Nat → Prop) :
    CacheState → CacheState → Prop
  | commit (s : CacheState) : CacheStep chain opened s { s with latest := s.latest + 1 }
  | newState (s : CacheState) (outcome : ExecutionOutcome) (hlatest : s.applied < s.latest)
      (hlists : outcome.Lists (chain s.applied) (chain (s.applied + 1))) :
      CacheStep chain opened s
        { s with applied := s.applied + 1, cache := s.cache.onNewState outcome }
  | newBlocks (s : CacheState) (hardfork : TempoHardfork) (uniqueTokens : List Address)
      (validatorPreferences slotToValidator : Address → Option Address) :
      CacheStep chain opened s { s with
        cache := { s.cache with hardfork, uniqueTokens, validatorPreferences, slotToValidator } }
  | clear (s : CacheState) : CacheStep chain opened s { s with cache := s.cache.clear }
  | start (s : CacheState) (userToken : Address) (fee block : Nat) (l : Lookup)
      (hopened : opened s block) (hslow : s.cache.startLookup userToken fee block = .ok (.inr l)) :
      CacheStep chain opened s { s with lookups := l :: s.lookups }
  | visit (s : CacheState) (before after : List Lookup) (l : Lookup)
      (hlookups : s.lookups = before ++ l :: after) :
      CacheStep chain opened s { s with
        cache := (s.cache.visit (chain l.block) l).1
        lookups := before ++ (s.cache.visit (chain l.block) l).2.elim (fun _ => [])
          (fun missing => [{ l with missing }]) ++ after }

def CacheRun (chain : Nat → FeeWorld) (opened : CacheState → Nat → Prop) :
    CacheState → CacheState → Prop :=
  Relation.ReflTransGen (CacheStep chain opened)

def CacheState.new : CacheState :=
  ⟨0, 0, .new, []⟩

/-- A provider of any block that was the latest at some time. -/
def OpenedEarlier (s : CacheState) (block : Nat) : Prop :=
  block ≤ s.latest

/-- A provider of the block that was applied last. -/
def OpenedApplied (s : CacheState) (block : Nat) : Prop :=
  block = s.applied

namespace AmmCache

/-- An entry is that of `w`, or `changes` are still to bring it. -/
def PoolEntry (w : FeeWorld) (changes : List FeeSlotChange) (key : PoolKey) (o : Option Nat) :
    Prop :=
  ∀ r ∈ o, r = w.reserve key ∨ .pool key (w.manager.pools key) ∈ changes

/-- The entries are those of `w` and `quote`, up to `changes`; cached pools are
tracked under their own slots. -/
structure Fresh (generation : Nat) (w : FeeWorld) (quote : Address → Address)
    (changes : List FeeSlotChange) (c : AmmCache) : Prop where
  generation : c.generation = generation
  pools : ∀ key, PoolEntry w changes key (c.poolCache key)
  quotes : ∀ token, ∀ hop ∈ c.quoteTokenCache token, hop = quote token
  tracked : ∀ key, c.poolCache key ≠ none → c.slotToPool key ≠ none
  slots : ∀ slot, ∀ key ∈ c.slotToPool slot, key = slot

variable {c : AmmCache} {g : Nat} {w : FeeWorld} {quote : Address → Address}
  {changes : List FeeSlotChange} {userToken : Address}

/-- A missing entry is filled, another stays. -/
theorem forall_mem_getD {α : Type} {P : α → Prop} {o : Option α} {a : α} (ho : ∀ r ∈ o, P r)
    (ha : P a) : ∀ r ∈ some (o.getD a), P r := by
  rintro r ⟨⟩
  cases o with
  | none => exact ha
  | some x => exact ho x rfl

theorem Fresh.cachePool {p : PoolKey × Nat} (h : c.Fresh g w quote changes)
    (hp : p.2 = w.reserve p.1) : (c.cachePool p).Fresh g w quote changes where
  generation := h.generation
  pools := (forall_update_iff c.poolCache (PoolEntry w changes)).mpr
    ⟨forall_mem_getD (h.pools p.1) (.inl hp), fun key _ => h.pools key⟩
  quotes := h.quotes
  tracked key := by
    simp only [AmmCache.cachePool, update_apply]
    split
    · simp
    · exact h.tracked key
  slots := (forall_update_iff c.slotToPool
    (fun slot (o : Option PoolKey) => ∀ key ∈ o, key = slot)).mpr
      ⟨fun _ hkey => (Option.some.inj hkey).symm, fun slot _ => h.slots slot⟩

theorem Fresh.cachePools {pools : PoolData} (h : c.Fresh g w quote changes)
    (hpools : ∀ p ∈ pools, p.2 = w.reserve p.1) :
    (pools.foldl AmmCache.cachePool c).Fresh g w quote changes := by
  induction pools generalizing c with
  | nil => exact h
  | cons p pools ih =>
    obtain ⟨hp, hrest⟩ := List.forall_mem_cons.mp hpools
    exact ih (h.cachePool hp) hrest

theorem Fresh.cacheQuoteToken {o : Option Address}
    (h : c.Fresh g w quote changes) (ho : ∀ hop ∈ o, hop = quote userToken) :
    (c.cacheQuoteToken userToken o).Fresh g w quote changes := by
  cases o with
  | none => exact h
  | some hop =>
    exact { h with
      quotes := (forall_update_iff c.quoteTokenCache
        (fun token (o : Option Address) => ∀ hop ∈ o, hop = quote token)).mpr
          ⟨forall_mem_getD (h.quotes userToken) (ho hop rfl), fun token _ => h.quotes token⟩ }

theorem Fresh.onFeeSlot {change : FeeSlotChange} (h : c.Fresh g w quote (change :: changes))
    (hsound : ∀ key value, change = .pool key value → value = w.manager.pools key) :
    (c.onFeeSlot change).Fresh g w quote changes := by
  have hlater : ∀ key, change ≠ .pool key (w.manager.pools key) →
      PoolEntry w changes key (c.poolCache key) := by
    intro key hne r hr
    exact (h.pools key r hr).imp_right fun hmem => (List.mem_cons.mp hmem).resolve_left hne.symm
  cases change with
  | validatorToken validator token =>
    simp only [AmmCache.onFeeSlot]
    split <;> exact { h with pools := fun key => hlater key nofun }
  | pool slot value =>
    simp only [AmmCache.onFeeSlot]
    split
    · rename_i key hslot
      obtain rfl := h.slots slot key hslot
      refine { h with pools := ?_, tracked := fun key' => ?_ }
      · refine (forall_update_iff c.poolCache (PoolEntry w changes)).mpr ⟨?_, ?_⟩
        · rintro r ⟨⟩
          rw [hsound key value rfl]
          exact .inl rfl
        · exact fun key' hne => hlater key' fun heq => hne (by cases heq; rfl)
      · by_cases hsame : key' = key
        · simp [hsame, hslot]
        · simpa [hsame] using h.tracked key'
    · -- an entry of this slot would be tracked
      rename_i hslot
      refine { h with pools := fun key r hr => hlater key (fun heq => ?_) r hr }
      cases heq
      exact h.tracked _ (by rw [hr]; nofun) hslot

theorem Fresh.onFeeSlots (h : c.Fresh g w quote changes)
    (hsound : ∀ key value, .pool key value ∈ changes → value = w.manager.pools key) :
    (changes.foldl AmmCache.onFeeSlot c).Fresh g w quote [] := by
  induction changes generalizing c with
  | nil => exact h
  | cons change changes ih =>
    refine ih (h.onFeeSlot fun key value heq => ?_) fun key value hmem => ?_
    · exact hsound key value (heq ▸ List.mem_cons_self)
    · exact hsound key value (List.mem_cons_of_mem _ hmem)

theorem Fresh.onNewState {w' : FeeWorld} {outcome : ExecutionOutcome}
    (h : c.Fresh g w w.quoteToken []) (hlists : outcome.Lists w w') :
    (c.onNewState outcome).Fresh (g + 1) w' w'.quoteToken [] := by
  have hstart : Fresh (g + 1) w' w.quoteToken outcome.feeManager
      { c with generation := c.generation + 1 } := by
    refine { h with generation := congrArg _ h.generation, pools := fun key r hr => ?_ }
    rw [(h.pools key r hr).resolve_right List.not_mem_nil]
    by_cases hsame : w'.manager.pools key = w.manager.pools key
    · exact .inl (by rw [FeeWorld.reserve, FeeWorld.reserve, hsame])
    · exact .inr (hlists.complete key hsame)
  have hend := hstart.onFeeSlots hlists.sound
  refine { hend with quotes := fun token hop hhop => ?_ }
  simp only [AmmCache.onNewState] at hhop
  split at hhop
  · cases hhop
  · rename_i hkept
    rw [hend.quotes token hop hhop]
    by_contra hne
    exact hkept (hlists.quotes token (Ne.symm hne))

theorem startLookup_sampled {fee block : Nat} {l : Lookup}
    (h : c.startLookup userToken fee block = .ok (.inr l)) :
    l.generation = c.generation ∧ l.block = block := by
  unfold startLookup at h
  split at h
  · cases h
  obtain ⟨out1, -, h⟩ := except_bind_eq_ok.mp h
  obtain ⟨out2, -, h⟩ := except_bind_eq_ok.mp h
  dsimp only at h
  split_ifs at h <;> cases h
  exact ⟨rfl, rfl⟩

/-- A lookup fills the cache only if it reads the last applied block. -/
theorem Fresh.visit {l : Lookup} {w0 : FeeWorld} (h : c.Fresh g w w.quoteToken [])
    (hl : l.generation = g → w0 = w) : (c.visit w0 l).1.Fresh g w w.quoteToken [] := by
  unfold AmmCache.visit
  split
  · exact h
  split
  · exact h
  rename_i hplan
  split
  · rename_i hsame
    obtain rfl := hl (hsame.symm.trans h.generation)
    obtain ⟨-, hpools, hquote⟩ := planFeeRoute_yields hplan
    exact (h.cachePools hpools).cacheQuoteToken hquote
  · exact h

end AmmCache

namespace CacheState

/-- The cache is that of the last applied block, and a lookup that may still
fill it reads that block. -/
structure Current (chain : Nat → FeeWorld) (s : CacheState) : Prop where
  cache : s.cache.Fresh s.cache.generation (chain s.applied) (chain s.applied).quoteToken []
  lookups : ∀ l ∈ s.lookups, l.generation ≤ s.cache.generation ∧
    (l.generation = s.cache.generation → l.block = s.applied)

variable {chain : Nat → FeeWorld} {s s' : CacheState}

/-- Once the counter has moved, the lookups that run fill nothing any more. -/
theorem Current.moved (h : s.Current chain) {c : AmmCache} {latest applied : Nat}
    (hc : c.Fresh (s.cache.generation + 1) (chain applied) (chain applied).quoteToken []) :
    Current chain ⟨latest, applied, c, s.lookups⟩ := by
  refine ⟨hc.generation ▸ hc, fun l hl => ?_⟩
  have hle := (h.lookups l hl).1
  rw [hc.generation]
  exact ⟨by omega, fun heq => by omega⟩

theorem Current.step (h : s.Current chain) (hstep : CacheStep chain OpenedApplied s s') :
    s'.Current chain := by
  cases hstep with
  | commit => exact ⟨h.cache, h.lookups⟩
  | newState outcome _ hlists => exact h.moved (h.cache.onNewState hlists)
  | newBlocks => exact ⟨{ h.cache with }, h.lookups⟩
  | clear => exact h.moved ⟨rfl, nofun, nofun, fun _ hne => absurd rfl hne, nofun⟩
  | start userToken fee block l hopened hslow =>
    obtain ⟨hgeneration, hblock⟩ := AmmCache.startLookup_sampled hslow
    refine ⟨h.cache, List.forall_mem_cons.mpr ⟨?_, h.lookups⟩⟩
    exact ⟨hgeneration.le, fun _ => hblock.trans hopened⟩
  | visit before after l hlookups =>
    have hlookup : ∀ l', l' ∈ before ∨ l' = l ∨ l' ∈ after → l'.generation ≤ s.cache.generation ∧
        (l'.generation = s.cache.generation → l'.block = s.applied) := by
      intro l' hl'
      exact h.lookups l' (by simpa [hlookups] using hl')
    have hcache := h.cache.visit (l := l) fun heq =>
      congrArg chain ((hlookup l (.inr (.inl rfl))).2 heq)
    refine ⟨hcache.generation ▸ hcache, fun l' hl' => ?_⟩
    rw [hcache.generation]
    rw [List.mem_append, List.mem_append] at hl'
    rcases hl' with (hbefore | hnow) | hafter
    · exact hlookup l' (.inl hbefore)
    · cases hround : (s.cache.visit (chain l.block) l).2 with
      | inl answer => rw [hround] at hnow; cases hnow
      | inr missing =>
        rw [hround] at hnow
        obtain rfl := List.mem_singleton.mp hnow
        exact hlookup l (.inr (.inl rfl))
    · exact hlookup l' (.inr (.inr hafter))

end CacheState

/-- If every lookup reads the state that was applied last when it samples the
generation, the cache is that of the last applied block at all times. -/
theorem ammCache_fresh_of_openedApplied {chain : Nat → FeeWorld} {s : CacheState}
    (hrun : CacheRun chain OpenedApplied .new s) :
    (∀ key r, s.cache.poolCache key = some r → r = (chain s.applied).reserve key) ∧
      ∀ token hop, s.cache.quoteTokenCache token = some hop →
        hop = (chain s.applied).quoteToken token := by
  have hnew : CacheState.new.Current chain :=
    ⟨⟨rfl, nofun, nofun, fun _ hne => absurd rfl hne, nofun⟩, nofun⟩
  obtain ⟨hcache, -⟩ := run_invariant (fun _ _ h hstep => CacheState.Current.step h hstep) hrun hnew
  exact ⟨fun key r hr => (hcache.pools key r hr).resolve_right List.not_mem_nil, hcache.quotes⟩

namespace CacheState

/-- A pool with a reserve of 5000 that block 1 drains. -/
def drainedPool : PoolKey :=
  ⟨⟨1⟩, ⟨2⟩⟩

def drainedChain (block : Nat) : FeeWorld :=
  ⟨.empty, FeeManager.empty.putPool drainedPool ⟨0, if block = 0 then 5000 else 0⟩⟩

def drainedOutcome : ExecutionOutcome :=
  ⟨[.pool drainedPool ⟨0, 0⟩], fun _ => false⟩

theorem drainedOutcome_lists : drainedOutcome.Lists (drainedChain 0) (drainedChain 1) := by
  refine ⟨?_, fun key hne => ?_, fun _ hne => absurd rfl hne⟩
  · rintro key value (_ | ⟨_, ⟨⟩⟩)
    rfl
  · by_cases hkey : key = drainedPool
    · subst hkey
      exact List.mem_singleton_self _
    · simp [drainedChain, FeeManager.putPool, hkey] at hne

/-- Once the builder of token 2 is known, a lookup of token 1 has to plan. -/
def opening : CacheState :=
  ⟨0, 0, { AmmCache.new with uniqueTokens := [⟨2⟩] }, []⟩

theorem run_opening {opened : CacheState → Nat → Prop} :
    CacheRun drainedChain opened .new opening := .single (.newBlocks .new _ [⟨2⟩] _ _)

end CacheState

open CacheState

/-- A lookup caches the reserve, and block 1 brings the entry up to date. -/
theorem ammCache_follows_the_drain :
    ∃ s, CacheRun drainedChain OpenedApplied .new s ∧ s.cache.poolCache drainedPool = some 0 ∧
      0 = (drainedChain s.applied).reserve drainedPool := by
  have hrun := (((@run_opening OpenedApplied).tail
    (.start opening ⟨1⟩ 1000 0 _ rfl rfl)).tail (.visit _ [] [] _ rfl)).tail (.commit _)
  have hend := hrun.tail (.newState _ drainedOutcome (by decide) drainedOutcome_lists)
  exact ⟨_, hend, rfl, (ammCache_fresh_of_openedApplied hend).1 _ _ rfl⟩

/-- With a provider from before block 1, a lookup that starts after the block
was applied samples the new generation and caches the old reserve. -/
theorem ammCache_stale : ∃ chain s, CacheRun chain OpenedEarlier .new s ∧ s.lookups = [] ∧
      ∃ key r, s.cache.poolCache key = some r ∧ r ≠ (chain s.applied).reserve key := by
  have hrun := ((@run_opening OpenedEarlier).tail (.commit _)).tail
    (.newState _ drainedOutcome (by decide) drainedOutcome_lists)
  have hend := (hrun.tail (.start _ ⟨1⟩ 1000 0 _ (Nat.zero_le _) rfl)).tail (.visit _ [] [] _ rfl)
  exact ⟨_, _, hend, rfl, drainedPool, 5000, rfl, by decide⟩

end Tempo
