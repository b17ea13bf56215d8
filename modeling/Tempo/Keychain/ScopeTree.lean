/-
The stored call scope of a key holds a list of scopes.  A node that is not part
of the list is blank, which is what makes an empty set below a node mean that
nothing restricts it.  Every operation is run from a tree that holds a list and
shown to end in one that holds the list it should.
-/
import Tempo.Keychain.Scopes
import Tempo.Library.KeyedList
import Tempo.Storage.SetRefinement

namespace Tempo

open SetHandler KeyedList KeyScope Function SelectorRule List

variable {t t' : TargetScope} {rules : List SelectorRule} {input : List UInt8} {env : ScopeEnv}

/-! One target. -/

structure TargetRep (t : TargetScope) (rules : List SelectorRule) : Prop where
  selectors : Rep t.selectors (rules.map SelectorRule.selector)
  recipients : ∀ rule ∈ rules, Rep (t.selectorScopes rule.selector).recipients rule.recipients
  absent : ∀ selector, selector ∉ rules.map SelectorRule.selector →
    t.selectorScopes selector = .blank

namespace TargetRep

variable {rule : SelectorRule} {spec : TempoHardfork}

theorem blank : TargetRep .blank [] where
  selectors := rep_blank
  recipients := nofun
  absent _ _ := rfl

theorem yields_onSelectors {α : Type} {m : Exec (SetStorage Selector) α}
    {a : α} (h : Yields m t.selectors a t.selectors) :
    Yields (TargetScope.onSelectors m) t a t := yields_focus.mpr ⟨_, h, rfl⟩

theorem yields_onRecipients {α : Type} {selector : Selector}
    {m : Exec (SetStorage Address) α} {a : α} (h : Yields m (t.selectorScopes selector).recipients a
      (t.selectorScopes selector).recipients) :
    Yields (TargetScope.onRecipients selector m) t a t := by
  refine yields_focus.mpr ⟨_, h, ?_⟩
  have hsame : (⟨(t.selectorScopes selector).recipients⟩ : SelectorScope) =
      t.selectorScopes selector := rfl
  rw [hsame, update_eq_self]

variable (h : TargetRep t rules)
include h

theorem holds : Holds selector
    (fun rule (r : SelectorScope) => Rep r.recipients rule.recipients) .blank rules
    t.selectorScopes := ⟨h.recipients, h.absent⟩

/-- Clearing a target leaves none of its slots in use. -/
theorem yields_clearSelectors : Yields TargetScope.clearSelectors t ⟨⟩ .blank := by
  have hread := yields_onSelectors h.selectors.yields_read
  have hloop := yields_forM_blank (w := fun m => { t with selectorScopes := m })
    (f := fun selector => TargetScope.onRecipients selector SetHandler.delete)
    (P := fun r => ∃ l, Rep r.recipients l) ⟨[], rep_blank⟩
    (fun _ _ ⟨_, hl⟩ => yields_focus.mpr ⟨_, hl.yields_delete, rfl⟩)
    (h.holds.forall (P := fun r => ∃ l, Rep r.recipients l) ⟨[], rep_blank⟩ fun _ _ hr => ⟨_, hr⟩)
    h.absent
  rw [TargetScope.clearSelectors, hread.bind_iff]
  exact hloop.bind_iff.mpr (yields_focus.mpr ⟨.blank, h.selectors.yields_delete, rfl⟩)

/-- From T4 on a new rule is put behind the others. -/
theorem put (hspec : .t4 ≤ spec) (hnew : rule.selector ∉ rules.map selector)
    (hnodup : rule.recipients.Nodup) {u : Unit}
    (hrun : Yields (TargetScope.putRule spec rule) t u t') : TargetRep t' (rules ++ [rule]) := by
  obtain ⟨b, t1, hinsert, hrest⟩ := hrun.bind
  obtain ⟨selectors, hsel, rfl⟩ := hinsert.focus
  obtain ⟨-, hselectors⟩ := h.selectors.inserted hsel
  rw [if_neg hnew] at hselectors
  have hfinish (r : SelectorScope) (hr : Rep r.recipients rule.recipients) :
      TargetRep ⟨selectors, update t.selectorScopes rule.selector r⟩ (rules ++ [rule]) := by
    obtain ⟨hentry, habsent⟩ := h.holds.upsert hr
    rw [KeyedList.upsert, if_neg hnew] at hentry habsent
    exact ⟨by simpa using hselectors, hentry, habsent⟩
  split at hrest
  next hempty =>
    obtain ⟨-, rfl⟩ := hrest.pure
    have hblank := h.absent _ hnew
    have hsame := hfinish .blank (by rw [hempty]; exact rep_blank)
    rw [← hblank, update_eq_self] at hsame
    exact hsame
  next hne =>
    obtain ⟨recipients, hwrite, rfl⟩ := hrest.focus
    have hblank : Rep (t.selectorScopes rule.selector).recipients [] := by
      rw [h.absent _ hnew]
      exact rep_blank
    exact hfinish ⟨recipients⟩ (hblank.written hnodup hwrite)

theorem yields_readRules : Yields TargetScope.readRules t rules t := by
  have hread := yields_onSelectors h.selectors.yields_read
  rw [TargetScope.readRules, hread.bind_iff, mapM_map]
  have hmap := yields_mapM (s := t) (l := rules) (g := id) (f := fun rule : SelectorRule => do
      let recipients ← TargetScope.onRecipients rule.selector SetHandler.read
      pure (⟨rule.selector, recipients⟩ : SelectorRule)) (by
    intro rule hrule
    rw [(yields_onRecipients (h.recipients rule hrule).yields_read).bind_iff]
    exact yields_pure.mpr ⟨rfl, rfl⟩)
  rwa [map_id] at hmap

end TargetRep

/-! The rules of a target as a predicate on the input of a call. -/

/-- The selector a call starts with. -/
def inputSelector (input : List UInt8) : Selector :=
  BitVec.ofNat 32 (bytesToNat (input.take 4))

/-- The address in the first argument. -/
def inputRecipient (input : List UInt8) : Address :=
  ⟨BitVec.ofNat 160 (bytesToNat (((input.drop 4).take 32).drop 12))⟩

/-- The first argument is there and is a padded address. -/
def HasRecipient (input : List UInt8) : Prop :=
  36 ≤ input.length ∧ ∀ b ∈ ((input.drop 4).take 32).take 12, b = 0

def SelectorRule.Admits (rule : SelectorRule) (input : List UInt8) : Prop :=
  rule.recipients = [] ∨ (HasRecipient input ∧ inputRecipient input ∈ rule.recipients)

def RulesAdmit (rules : List SelectorRule) (input : List UInt8) : Prop :=
  rules = [] ∨ (4 ≤ input.length ∧
    ∃ rule ∈ rules, rule.selector = inputSelector input ∧ rule.Admits input)

namespace TargetRep

theorem nodup (h : TargetRep t rules) : (rules.map selector).Nodup := h.selectors.nodup

/-- The check below a target passes exactly for what the rules admit. -/
theorem validateCall_iff (h : TargetRep t rules) :
    Yields (TargetScope.validateCall input) t () t' ↔ RulesAdmit rules input ∧ t = t' := by
  have hempty := yields_onSelectors h.selectors.yields_isEmpty
  rw [TargetScope.validateCall, hempty.bind_iff]
  by_cases hnil : rules = []
  · subst hnil
    simp [RulesAdmit]
  have hmap : rules.map selector ≠ [] := by
    simpa using hnil
  rw [decide_eq_false hmap, if_neg Bool.false_ne_true, yields_require_bind]
  have hselector : BitVec.ofNat 32 (bytesToNat (input.take 4)) = inputSelector input := rfl
  have hrecipient : (⟨BitVec.ofNat 160 (bytesToNat (((input.drop 4).take 32).drop 12))⟩ : Address) =
      inputRecipient input := rfl
  simp only [hselector, hrecipient]
  have hknown := yields_onSelectors (h.selectors.yields_contains (inputSelector input))
  rw [hknown.bind_iff, yields_require_bind, decide_eq_true_eq]
  by_cases hmem : inputSelector input ∈ rules.map selector
  · obtain ⟨rule, hrule, hsel⟩ := mem_map.mp hmem
    have honly : ∀ other ∈ rules, other.selector = inputSelector input →
        other = rule := fun other hother heq =>
      inj_on_of_nodup_map h.nodup hother hrule (heq.trans hsel.symm)
    have hpass : RulesAdmit rules input ↔ 4 ≤ input.length ∧ rule.Admits input := by
      constructor
      · rintro (hnil' | ⟨hlen, other, hother, heq, hadmits⟩)
        · exact absurd hnil' hnil
        · exact ⟨hlen, honly other hother heq ▸ hadmits⟩
      · rintro ⟨hlen, hadmits⟩
        exact .inr ⟨hlen, rule, hrule, hsel, hadmits⟩
    have hrep := h.recipients rule hrule
    rw [hsel] at hrep
    have hany := yields_onRecipients hrep.yields_isEmpty
    rw [hany.bind_iff, hpass]
    by_cases hr : rule.recipients = []
    · simp [hr, hmem, SelectorRule.Admits]
    · have hallowed := yields_onRecipients (hrep.yields_contains (inputRecipient input))
      rw [decide_eq_false hr, if_neg Bool.false_ne_true, yields_require_bind,
        yields_require_bind, hallowed.bind_iff, yields_require, decide_eq_true_eq]
      simp only [hmem, SelectorRule.Admits, hr, HasRecipient, true_and, false_or, and_assoc]
  · have hnone : ¬RulesAdmit rules input := by
      rintro (hnil' | ⟨-, rule, hrule, hsel, -⟩)
      · exact hnil hnil'
      · exact hmem (hsel ▸ mem_map_of_mem hrule)
    simp [hmem, hnone]

end TargetRep

/-! The whole tree. -/

structure TreeRep (k : KeyScope) (tree : List CallScope) : Prop where
  targets : Rep k.targets (tree.map CallScope.target)
  scope : ∀ scope ∈ tree, TargetRep (k.targetScopes scope.target) scope.selectorRules
  absent : ∀ target, target ∉ tree.map CallScope.target → k.targetScopes target = .blank

/-- What validation leaves to be assumed of a scope that is stored. -/
structure CallScope.Distinct (scope : CallScope) : Prop where
  selectors : (scope.selectorRules.map SelectorRule.selector).Nodup
  recipients : ∀ rule ∈ scope.selectorRules, rule.recipients.Nodup

theorem SelectorRule.validate_nodup {target : Address} {rule : SelectorRule}
    (h : rule.validate env target = .ok ()) : rule.recipients.Nodup := by
  unfold validate at h
  split at h
  next hnil => exact hnil ▸ nodup_nil
  next =>
    simp only [except_ite_eq_ok] at h
    exact not_not.mp (not_or.mp h.2.1).2

section Validation

variable {α κ : Type} [DecidableEq κ] {key : α → κ}
  {check : α → Except TempoPrecompileError Unit} {l : List α}

theorem forM_ok (h : l.forM check = .ok ()) : ∀ x ∈ l, check x = .ok () := by
  induction l with
  | nil => nofun
  | cons x l ih =>
    obtain ⟨⟨⟩, hx, h⟩ := except_bind_eq_ok.mp h
    exact forall_mem_cons.mpr ⟨hx, ih h⟩

theorem validateInOrder_ok {seen : List κ} (h : validateInOrder key check seen l = .ok ()) :
    (∀ x ∈ l, key x ∉ seen) ∧ (l.map key).Nodup ∧ ∀ x ∈ l, check x = .ok () := by
  induction l generalizing seen with
  | nil => exact ⟨nofun, nodup_nil, nofun⟩
  | cons x l ih =>
    simp only [validateInOrder, except_ite_eq_ok, except_bind_eq_ok] at h
    obtain ⟨hnew, ⟨⟩, hx, h⟩ := h
    obtain ⟨hseen, hnodup, hchecks⟩ := ih h
    refine ⟨?_, ?_, forall_mem_cons.mpr ⟨hx, hchecks⟩⟩
    · refine forall_mem_cons.mpr ⟨hnew, fun y hy hmem => ?_⟩
      exact hseen y hy (.tail _ hmem)
    · refine nodup_cons.mpr ⟨fun hmem => ?_, hnodup⟩
      obtain ⟨y, hy, heq⟩ := mem_map.mp hmem
      exact hseen y hy (heq ▸ .head _)

/-- Both orders of validation accept distinct keys and sound entries only. -/
theorem validateDistinct_ok {spec : TempoHardfork}
    (h : validateDistinct spec key check l = .ok ()) :
    (l.map key).Nodup ∧ ∀ x ∈ l, check x = .ok () := by
  unfold validateDistinct at h
  split at h
  next =>
    split at h
    next hnodup => exact ⟨hnodup, forM_ok h⟩
    next => cases h
  next => exact (validateInOrder_ok h).2

end Validation

theorem CallScope.validate_distinct {scope : CallScope}
    (h : scope.validate env = .ok ()) : scope.Distinct := by
  rw [CallScope.validate, except_ite_eq_ok] at h
  obtain ⟨-, h⟩ := h
  split at h
  next hnil =>
    exact ⟨hnil ▸ nodup_nil, fun rule hrule => absurd hrule (by simp [hnil])⟩
  next =>
    obtain ⟨hnodup, hrules⟩ := validateDistinct_ok h
    exact ⟨hnodup, fun rule hrule => validate_nodup (hrules rule hrule)⟩

theorem validateCallScopes_distinct {scopes : List CallScope}
    (hspec : .t4 ≤ env.spec) (h : validateCallScopes env scopes = .ok ()) :
    ∀ scope ∈ scopes, scope.Distinct := by
  intro scope hscope
  have hcheck := (validateDistinct_ok h).2 scope hscope
  rw [if_pos hspec] at hcheck
  exact CallScope.validate_distinct hcheck

def TreeAdmits (tree : List CallScope) (target : Address) (input : List UInt8) : Prop :=
  ∃ scope ∈ tree, scope.target = target ∧ RulesAdmit scope.selectorRules input

namespace TreeRep

variable {k k' : KeyScope} {tree : List CallScope} {scope : CallScope} {target : Address}

theorem blank : TreeRep .blank [] where
  targets := rep_blank
  scope := nofun
  absent _ _ := rfl

theorem nodup (h : TreeRep k tree) : (tree.map CallScope.target).Nodup := h.targets.nodup

theorem holds (h : TreeRep k tree) : Holds CallScope.target
    (fun scope t => TargetRep t scope.selectorRules) .blank tree k.targetScopes :=
  ⟨h.scope, h.absent⟩

theorem rep_target (h : TreeRep k tree) :
    ∀ target, ∃ rules, TargetRep (k.targetScopes target) rules :=
  h.holds.forall (P := fun t => ∃ rules, TargetRep t rules) ⟨[], .blank⟩ fun _ _ ht => ⟨_, ht⟩

theorem yields_onTargets {α : Type} {m : Exec (SetStorage Address) α} {a : α}
    (h : Yields m k.targets a k.targets) :
    Yields (onTargets m) k a k := yields_focus.mpr ⟨_, h, rfl⟩

theorem yields_onTarget {α : Type} {m : Exec TargetScope α} {a : α}
    (h : Yields m (k.targetScopes target) a (k.targetScopes target)) :
    Yields (onTarget target m) k a k := by
  refine yields_focus.mpr ⟨_, h, ?_⟩
  rw [update_eq_self]

/-- Clearing all targets leaves only the flag. -/
theorem yields_clearAll (h : TreeRep k tree) :
    Yields KeyScope.clearAllTargetScopes k ⟨⟩ { KeyScope.blank with isScoped := k.isScoped } := by
  have hread := yields_onTargets h.targets.yields_read
  have hloop := yields_forM_blank (w := fun m => { k with targetScopes := m })
    (f := fun target => KeyScope.onTarget target TargetScope.clearSelectors)
    (P := fun t => ∃ rules, TargetRep t rules) ⟨[], .blank⟩
    (fun _ _ ⟨_, hrules⟩ => yields_focus.mpr ⟨_, hrules.yields_clearSelectors, rfl⟩)
    h.rep_target h.absent
  rw [KeyScope.clearAllTargetScopes, hread.bind_iff]
  exact hloop.bind_iff.mpr (yields_focus.mpr ⟨.blank, h.targets.yields_delete, rfl⟩)

/-- The loop over the rules of a target that was cleared. -/
theorem putRules {rules : List SelectorRule} (done : List SelectorRule)
    (hspec : .t4 ≤ env.spec) (hdone : TargetRep (k.targetScopes target) done)
    (hnodup : ((done ++ rules).map selector).Nodup)
    (hrecipients : ∀ rule ∈ rules, rule.recipients.Nodup) (hrun : Yields (rules.forM fun rule =>
      onTarget target (TargetScope.putRule env.spec rule)) k u k') :
    ∃ t, TargetRep t (done ++ rules) ∧ k' = { k with
        targetScopes := update k.targetScopes target t } := by
  induction rules generalizing k done with
  | nil =>
    obtain ⟨-, rfl⟩ := hrun.pure
    refine ⟨k.targetScopes target, ?_, ?_⟩
    · rwa [append_nil]
    · rw [update_eq_self]
  | cons rule rules ih =>
    obtain ⟨⟨⟩, k1, hput, hrest⟩ := hrun.bind
    obtain ⟨t, ht, rfl⟩ := hput.focus
    have hnew : rule.selector ∉ done.map selector := by
      rw [map_append, map_cons] at hnodup
      intro hmem
      exact (nodup_append.mp hnodup).2.2 _ hmem _ (.head _) rfl
    have hrule := hdone.put hspec hnew (hrecipients rule (.head _)) ht
    obtain ⟨t', ht', rfl⟩ := ih (done ++ [rule]) (by simpa using hrule) (by simpa using hnodup)
      (fun other hother => hrecipients other (.tail _ hother)) hrest
    refine ⟨t', by simpa using ht', ?_⟩
    rw [update_idem]

variable (h : TreeRep k tree)
include h

theorem upsert (hspec : .t4 ≤ env.spec) (hscope : scope.Distinct)
    (hrun : Yields (upsertTargetScope env scope) k u k') :
    TreeRep k' (upsert CallScope.target tree scope) ∧ k'.isScoped = k.isScoped := by
  rw [upsertTargetScope, if_pos hspec] at hrun
  obtain ⟨b, k1, hinsert, hrest⟩ := hrun.bind
  obtain ⟨targets, htargets, rfl⟩ := hinsert.focus
  obtain ⟨-, hkept⟩ := h.targets.inserted htargets
  obtain ⟨rules, hrules⟩ := h.rep_target scope.target
  have hclear : Yields (onTarget scope.target TargetScope.clearSelectors) { k with targets } ⟨⟩
      { k with
        targets
        targetScopes := update k.targetScopes scope.target .blank } :=
    yields_focus.mpr ⟨_, hrules.yields_clearSelectors, rfl⟩
  rw [hclear.bind_iff] at hrest
  obtain ⟨t, ht, rfl⟩ := putRules [] hspec (by
      dsimp only
      rw [update_self]
      exact .blank) hscope.selectors hscope.recipients hrest
  obtain ⟨hentry, habsent⟩ := h.holds.upsert (x := scope) ht
  rw [update_idem]
  exact ⟨⟨by rwa [map_key_upsert], hentry, habsent⟩, rfl⟩

theorem upserts (hspec : .t4 ≤ env.spec)
    {scopes : List CallScope} (hscopes : ∀ scope ∈ scopes, scope.Distinct)
    (hrun : Yields (scopes.forM (upsertTargetScope env)) k u k') :
    TreeRep k' (scopes.foldl (KeyedList.upsert CallScope.target) tree) ∧
      k'.isScoped = k.isScoped := by
  induction scopes generalizing k tree with
  | nil =>
    obtain ⟨-, rfl⟩ := hrun.pure
    exact ⟨h, rfl⟩
  | cons scope scopes ih =>
    obtain ⟨⟨⟩, k1, hfirst, hrest⟩ := hrun.bind
    obtain ⟨h1, hflag1⟩ := h.upsert hspec (hscopes scope (.head _)) hfirst
    obtain ⟨h2, hflag2⟩ := ih h1 (fun other hother => hscopes other (.tail _ hother)) hrest
    exact ⟨h2, hflag2.trans hflag1⟩

/-- Removal drops the target and everything stored beneath it. -/
theorem remove (hrun : Yields (removeTargetScope target) k u k') :
    ∃ tree', TreeRep k' tree' ∧ k'.isScoped = k.isScoped ∧
      ∀ scope, scope ∈ tree' ↔ scope.target ≠ target ∧ scope ∈ tree := by
  obtain ⟨b, k1, hremove, hrest⟩ := hrun.bind
  obtain ⟨targets, htargets, rfl⟩ := hremove.focus
  rcases h.targets.removed htargets with ⟨hout, rfl, rfl⟩ | ⟨i, hi, rfl, hrep⟩
  · obtain ⟨-, rfl⟩ := hrest.pure
    refine ⟨tree, ⟨h.targets, h.scope, h.absent⟩, rfl, fun scope => ?_⟩
    refine ⟨fun hscope => ⟨fun heq => ?_, hscope⟩, fun hscope => hscope.2⟩
    exact hout (heq ▸ mem_map_of_mem hscope)
  · obtain ⟨rules, hrules⟩ := h.rep_target target
    have hclear : Yields (onTarget target TargetScope.clearSelectors) { k with targets } ⟨⟩
        { k with
          targets
          targetScopes := update k.targetScopes target .blank } :=
      yields_focus.mpr ⟨_, hrules.yields_clearSelectors, rfl⟩
    obtain ⟨-, rfl⟩ := hrest.det hclear
    rw [getElem?_map, Option.map_eq_some_iff] at hi
    obtain ⟨removed, hat, htarget⟩ := hi
    have hmem : ∀ scope, scope ∈ swapRemoveAt tree i ↔ scope.target ≠ target ∧ scope ∈ tree := by
      intro scope
      rw [mem_swapRemoveAt (List.Nodup.of_map _ h.nodup) hat]
      refine and_congr_left fun hscope => not_congr ?_
      refine ⟨fun heq => heq ▸ htarget, fun heq => ?_⟩
      exact inj_on_of_nodup_map h.nodup hscope (mem_of_getElem? hat) (heq.trans htarget.symm)
    obtain ⟨hentry, habsent⟩ := h.holds.erase hmem
    exact ⟨swapRemoveAt tree i, ⟨by rwa [map_swapRemoveAt], hentry, habsent⟩, rfl, hmem⟩

/-- The check of a call on a scoped key passes for what the tree admits. -/
theorem validateCall_iff : Yields (validateCall (.call target) input) k () k' ↔
      (k.isScoped = true → TreeAdmits tree target input) ∧ k = k' := by
  rw [validateCall, yields_reads_bind]
  by_cases hflag : k.isScoped = true
  · have hknown := yields_onTargets (h.targets.yields_contains target)
    rw [if_pos hflag, hknown.bind_iff, yields_require_bind, decide_eq_true_eq]
    simp only [hflag, true_implies]
    constructor
    · rintro ⟨hmem, hrest⟩
      obtain ⟨scope, hscope, rfl⟩ := mem_map.mp hmem
      obtain ⟨t, hvalid, rfl⟩ := hrest.focus
      obtain ⟨hpass, rfl⟩ := (h.scope scope hscope).validateCall_iff.mp hvalid
      refine ⟨⟨scope, hscope, rfl, hpass⟩, ?_⟩
      rw [update_eq_self]
    · rintro ⟨⟨scope, hscope, rfl, hpass⟩, rfl⟩
      refine ⟨mem_map_of_mem hscope, yields_onTarget ?_⟩
      exact (h.scope scope hscope).validateCall_iff.mpr ⟨hpass, rfl⟩
  · simp [hflag]

theorem yields_readScopes : Yields readScopes k tree k := by
  have hread := yields_onTargets h.targets.yields_read
  rw [readScopes, hread.bind_iff, mapM_map]
  have hmap := yields_mapM (s := k) (l := tree) (g := id) (f := fun scope : CallScope => do
      let selectorRules ← onTarget scope.target TargetScope.readRules
      pure (⟨scope.target, selectorRules⟩ : CallScope)) (by
    intro scope hscope
    rw [(yields_onTarget (h.scope scope hscope).yields_readRules).bind_iff]
    exact yields_pure.mpr ⟨rfl, rfl⟩)
  rwa [map_id] at hmap

end TreeRep

end Tempo
