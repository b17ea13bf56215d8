/-
The header stream against any provider: whatever is answered, the headers it
yields extend the start block one by one, and each is an ancestor of a block
with a certificate by a trusted identity.
-/
import Mathlib.Data.List.Forall2
import Tempo.Consensus.HeaderStream
import Tempo.Library.Exec
import Tempo.Library.LinkedChain

namespace Tempo.HeaderStream

open LinkedChain Function List

variable {H A S N : Type} {crypto : Crypto H A S N}

/-- Headers with consecutive numbers from `number` on, linked to `parent`. -/
def Chained (crypto : Crypto H A S N) (number : Nat) (parent : H)
    (headers : List (Header H A)) : Prop :=
  Linked crypto.hash Header.parentHash parent headers ∧ Numbered Header.number number headers

theorem chained_append {number : Nat} {parent : H} {xs ys : List (Header H A)} :
    Chained crypto number parent (xs ++ ys) ↔ Chained crypto number parent xs ∧
        Chained crypto (number + xs.length) (tip crypto.hash parent xs) ys := by
  unfold Chained
  rw [linked_append, numbered_append]
  tauto

namespace Provider

variable [DecidableEq H] {p : Provider H A S}
  {headers : List (Header H A)} {upTo : NumHash H} {start : Nat}

theorem chained_of_validateHeaders {number : Nat} {parent : H}
    (h : validateHeaders crypto number (some parent) headers = .ok ()) :
    Chained crypto number parent headers := by
  induction headers generalizing number parent with
  | nil => exact ⟨trivial, trivial⟩
  | cons header rest ih =>
    rw [validateHeaders] at h
    split_ifs at h with hnumber hparent
    obtain ⟨hlinked, hnumbered⟩ := ih h
    exact ⟨⟨not_not.mp hparent, hlinked⟩, not_not.mp hnumber, hnumbered⟩

/-- What a validated range is: as long as asked for, linked, and with the
last hash that was known. -/
structure Range (crypto : Crypto H A S N) (start : Nat) (upTo : NumHash H)
    (headers : List (Header H A)) : Prop where
  le : start ≤ upTo.number
  length : headers.length = upTo.number + 1 - start
  chained : ∃ parent, Chained crypto start parent headers ∧
    tip crypto.hash parent headers = upTo.hash

theorem range_of_fetchAndValidateHeaders
    (h : p.fetchAndValidateHeaders crypto start upTo = .ok headers) :
    Range crypto start upTo headers := by
  unfold fetchAndValidateHeaders at h
  split_ifs at h with hle
  obtain ⟨fetched, hfetched, h⟩ := except_bind_eq_ok.mp h
  obtain ⟨⟨⟩, hvalid, h⟩ := except_bind_eq_ok.mp h
  split at h
  · cases h
  rename_i last hlast
  split_ifs at h with htip
  obtain rfl := Except.ok.inj h
  have hlength : fetched.length = upTo.number + 1 - start := by
    rw [← (forall₂_of_mapM_ok hfetched).length_eq, length_range']
  refine ⟨not_lt.mp hle, hlength, ?_⟩
  cases fetched with
  | nil => cases hlast
  | cons first rest =>
    -- the first header may have any parent
    rw [validateHeaders] at hvalid
    split_ifs at hvalid with hnumber
    obtain ⟨hlinked, hnumbered⟩ := chained_of_validateHeaders hvalid
    exact ⟨first.parentHash, ⟨⟨rfl, hlinked⟩, not_not.mp hnumber, hnumbered⟩,
      (tip_of_getLast? _ hlast).trans (not_not.mp htip)⟩

end Provider

/-- The provider has sent the certificate. -/
def Presented (providers : List (Provider H A S)) (finalization : Finalization H S) : Prop :=
  ∃ p ∈ providers, ∃ query certified, p.finalization query = some certified ∧
    certified.certificate = some finalization

/-- The identities the stream may use: the configured one, the one of the
boundary below the start block, and those of boundaries below blocks with a
certificate by such an identity. -/
inductive Trusted (crypto : Crypto H A S N) (config : Config H N)
    (providers : List (Provider H A S)) : N → Prop where
  | configured {identity : NetworkIdentity N} (h : config.networkIdentity = some identity) :
      Trusted crypto config providers identity.identity
  | start {start boundary : Header H A} {outcome : Outcome N}
      (hstart : crypto.hash start = config.startAfter)
      (hnumber : boundary.number = latestBoundaryAtOrBefore config.strategy start.number)
      (hlinked : AncestorOrSelf crypto.hash Header.parentHash boundary config.startAfter)
      (houtcome : crypto.readOutcome boundary.extraData = some outcome) :
      Trusted crypto config providers outcome.networkIdentity
  | boundary {identity : N} {finalization : Finalization H S}
      {boundary : Header H A} {outcome : Outcome N}
      (hidentity : Trusted crypto config providers identity)
      (hpresented : Presented providers finalization)
      (hverifies : crypto.verifies identity finalization = true)
      (hlinked : AncestorOrSelf crypto.hash Header.parentHash boundary finalization.payload)
      (hboundary : config.strategy.isBoundary boundary.number = true)
      (houtcome : crypto.readOutcome boundary.extraData = some outcome) :
      Trusted crypto config providers outcome.networkIdentity

/-- An ancestor of a block with a certificate by a trusted identity. -/
def Authenticated (crypto : Crypto H A S N) (config : Config H N)
    (providers : List (Provider H A S)) (header : Header H A) : Prop :=
  ∃ identity finalization, Trusted crypto config providers identity ∧
    Presented providers finalization ∧ crypto.verifies identity finalization = true ∧
    AncestorOrSelf crypto.hash Header.parentHash header finalization.payload

section Mono

variable {config : Config H N} {providers : List (Provider H A S)} {p : Provider H A S}

theorem Presented.cons {finalization : Finalization H S}
    (h : Presented providers finalization) (p : Provider H A S) :
    Presented (p :: providers) finalization := by
  obtain ⟨q, hq, hsent⟩ := h
  exact ⟨q, mem_cons_of_mem p hq, hsent⟩

theorem Trusted.cons {identity : N}
    (h : Trusted crypto config providers identity) (p : Provider H A S) :
    Trusted crypto config (p :: providers) identity := by
  induction h with
  | configured h => exact .configured h
  | start hstart hnumber hlinked houtcome =>
    exact .start hstart hnumber hlinked houtcome
  | boundary _ hpresented hverifies hlinked hboundary houtcome ih =>
    exact .boundary ih (hpresented.cons p) hverifies hlinked hboundary houtcome

theorem Authenticated.cons {header : Header H A}
    (h : Authenticated crypto config providers header) (p : Provider H A S) :
    Authenticated crypto config (p :: providers) header := by
  obtain ⟨identity, finalization, htrusted, hpresented, hrest⟩ := h
  exact ⟨identity, finalization, htrusted.cons p, hpresented.cons p, hrest⟩

end Mono

namespace Verifier

/-- Every identity of the verifier is trusted. -/
structure Holds (Trust : N → Prop) (v : Verifier N) : Prop where
  schemes : ∀ epoch identity, v.schemes.get? epoch = some identity → Trust identity
  network : Trust v.networkIdentity.identity

variable {Trust Trust' : N → Prop} {v v' : Verifier N}

theorem Holds.mono (h : v.Holds Trust) (hmono : ∀ identity, Trust identity → Trust' identity) :
    v.Holds Trust' := ⟨fun epoch identity hget => hmono identity (h.schemes epoch identity hget),
    hmono _ h.network⟩

theorem holds_new {identity : NetworkIdentity N}
    (h : Trust identity.identity) : (new identity).Holds Trust :=
  ⟨fun _ _ hget => (nomatch hget), h⟩

theorem Holds.register (h : v.Holds Trust) {identity : N}
    (hidentity : Trust identity) (epoch : Epoch) : (v.register epoch identity).Holds Trust := by
  refine ⟨?_, h.network⟩
  intro epoch' identity' hget
  rw [Verifier.register, SortedMap.get?_insert] at hget
  split_ifs at hget
  · rw [← Option.some.inj hget]
    exact hidentity
  · exact h.schemes epoch' identity' hget

variable [DecidableEq H] {strategy : FixedEpocher} {certified : CertifiedBlock H S}

/-- An accepted certificate is for the block, by a trusted identity. -/
theorem Holds.decodeAndVerify (h : v.Holds Trust)
    (hok : v.decodeAndVerify crypto strategy certified = .ok v') :
    v'.Holds Trust ∧ ∃ identity finalization, Trust identity ∧
      certified.certificate = some finalization ∧ crypto.verifies identity finalization = true ∧
      finalization.payload = certified.hash := by
  unfold Verifier.decodeAndVerify at hok
  split_ifs at hok with hbody
  split at hok
  · cases hok
  · rename_i finalization hcertificate
    split_ifs at hok with hpayload hepoch
    unfold verifyCertificate at hok
    split at hok
    · rename_i identity hscheme
      split_ifs at hok with hverifies
      cases hok
      exact ⟨h, identity, finalization, h.schemes _ _ hscheme, hcertificate,
        hverifies, not_not.mp hpayload⟩
    · split_ifs at hok with hfrom hverifies
      cases hok
      exact ⟨h.register h.network _, _, finalization, h.network,
        hcertificate, hverifies, not_not.mp hpayload⟩

variable [DecidableEq N]

omit [DecidableEq H] in
theorem Holds.registerBoundaries (h : v.Holds Trust) {headers : List (Header H A)}
    (htrust : ∀ header ∈ headers, strategy.isBoundary header.number = true →
      ∀ outcome, crypto.readOutcome header.extraData = some outcome → Trust outcome.networkIdentity)
    (hok : v.registerBoundaries crypto strategy headers = .ok v') : v'.Holds Trust := by
  induction headers generalizing v with
  | nil =>
    cases hok
    exact h
  | cons header rest ih =>
    have hrest := fun x (hx : x ∈ rest) =>
      htrust x (mem_cons_of_mem header hx)
    rw [Verifier.registerBoundaries] at hok
    split_ifs at hok with hboundary
    · obtain ⟨v1, hregister, hok⟩ := except_bind_eq_ok.mp hok
      refine ih ?_ hrest hok
      unfold registerBoundary at hregister
      split at hregister
      · cases hregister
      · rename_i outcome houtcome
        split_ifs at hregister
        cases hregister
        exact h.register (htrust header mem_cons_self hboundary outcome houtcome) outcome.epoch
    · exact ih h hrest hok

end Verifier

variable [DecidableEq H] {config : Config H N} {p : Provider H A S}
  {providers : List (Provider H A S)} {header : Header H A} {v : Verifier N}

/-- The identity of the boundary at or below the start block. -/
theorem holds_verifierFromStart (hstart : crypto.hash header = config.startAfter)
    (hok : verifierFromStart crypto p config.strategy ⟨header.number, crypto.hash header⟩ = .ok v) :
    v.Holds (Trusted crypto config providers) := by
  obtain ⟨headers, hheaders, hok⟩ := except_bind_eq_ok.mp hok
  obtain ⟨-, -, parent, ⟨hlinked, hnumbered⟩, htip⟩ :=
    Provider.range_of_fetchAndValidateHeaders hheaders
  cases headers with
  | nil => cases hok
  | cons boundary rest =>
    dsimp only at hok
    split at hok
    · cases hok
    · rename_i outcome houtcome
      cases hok
      have hancestor := hlinked.ancestorOrSelf mem_cons_self
      rw [htip, hstart] at hancestor
      exact Verifier.holds_new (.start hstart hnumbered.1 hancestor houtcome)

theorem holds_initialVerifier (hstart : crypto.hash header = config.startAfter)
    (hok : initialVerifier crypto p config ⟨header.number, crypto.hash header⟩ = .ok v) :
    v.Holds (Trusted crypto config providers) := by
  unfold initialVerifier at hok
  split at hok
  · exact holds_verifierFromStart hstart hok
  · rename_i identity hidentity
    have hnew : (Verifier.new identity).Holds (Trusted crypto config providers) :=
      Verifier.holds_new (.configured hidentity)
    split at hok
    · cases hok
      exact hnew
    split at hok
    · exact holds_verifierFromStart hstart hok
    obtain ⟨latest, -, hok⟩ := except_bind_eq_ok.mp hok
    split at hok
    · exact holds_verifierFromStart hstart hok
    split at hok
    · rename_i verifier hverified
      cases hok
      exact (hnew.decodeAndVerify hverified).1
    · split_ifs at hok
      · exact holds_verifierFromStart hstart hok
      · cases hok
        exact hnew

/-- The headers a chunk stands for. -/
structure Covers (crypto : Crypto H A S N) (chunk : Chunk H)
    (group : List (Header H A)) : Prop where
  length : group.length = chunk.upTo.number + 1 - chunk.start
  start : ∀ n, Numbered Header.number n group → n = chunk.start
  hash : ∀ parent, tip crypto.hash parent group = chunk.upTo.hash

omit [DecidableEq H] in
theorem Provider.Range.covers {start : Nat} {upTo : NumHash H} {headers : List (Header H A)}
    (h : Range crypto start upTo headers) : Covers crypto ⟨start, upTo⟩ headers := by
  obtain ⟨hle, hlength, parent, ⟨-, hnumbered⟩, htip⟩ := h
  cases headers with
  | nil =>
    rw [length_nil] at hlength
    omega
  | cons first rest =>
    exact ⟨hlength, fun n hn => hn.1.symm.trans hnumbered.1, fun _ => htip⟩

namespace State

variable {s s' : State H A N}

/-- What a plan stands for: headers that link the cursor to a block. -/
structure Plans (crypto : Crypto H A S N) (cursor : NumHash H)
    (chunks : List (Chunk H)) (target : H) (groups : List (List (Header H A))) : Prop where
  covers : List.Forall₂ (Covers crypto) chunks groups
  chained : Chained crypto (cursor.number + 1) cursor.hash groups.flatten
  target : tip crypto.hash cursor.hash groups.flatten = target

variable {headers : List (Header H A)} {chunks : List (Chunk H)} {groups : List (List (Header H A))}

omit [DecidableEq H] in
/-- One more chunk in front of a plan. -/
theorem Plans.cons {c upTo : NumHash H} {target : H} (h : Plans crypto upTo chunks target groups)
    (hrange : Provider.Range crypto (c.number + 1) upTo headers)
    (hchained : Chained crypto (c.number + 1) c.hash headers) :
    Plans crypto c (⟨c.number + 1, upTo⟩ :: chunks) target (headers :: groups) := by
  have hle := hrange.le
  have htip := hrange.covers.hash c.hash
  refine ⟨.cons hrange.covers h.covers, ?_, ?_⟩
  · rw [flatten_cons, chained_append, htip, hrange.length]
    refine ⟨hchained, ?_⟩
    rw [show c.number + 1 + (upTo.number + 1 - (c.number + 1)) = upTo.number + 1 by omega]
    exact h.chained
  · rw [flatten_cons, tip_append, htip]
    exact h.target

variable {plan : List (Chunk H)}

theorem plans_of_planLoop {fuel : Nat} {upTo : NumHash H} {target : H}
    (hfuel : upTo.number - s.cursor.number ≤ fuel) (hahead : s.cursor.number < upTo.number)
    (h : Plans crypto upTo chunks target groups)
    (hok : s.planLoop crypto p fuel upTo chunks = .ok plan) :
    ∃ groups, Plans crypto s.cursor plan target groups := by
  induction fuel generalizing upTo chunks groups with
  | zero => omega
  | succ fuel ih =>
    rw [planLoop] at hok
    simp only at hok
    rw [if_neg (by omega)] at hok
    obtain ⟨headers, hheaders, hok⟩ := except_bind_eq_ok.mp hok
    have hrange := Provider.range_of_fetchAndValidateHeaders hheaders
    obtain ⟨parent, hchained, -⟩ := hrange.chained
    cases headers with
    | nil => cases hok
    | cons head rest =>
      obtain rfl : head.parentHash = parent := hchained.1.1
      dsimp only at hok
      by_cases hfirst : max (upTo.number - (s.chunkSize - 1))
          (s.cursor.number + 1) = s.cursor.number + 1
      · split_ifs at hok with hlink
        cases hok
        rw [hfirst] at hrange hchained ⊢
        exact ⟨_, h.cons hrange (not_not.mp hlink ▸ hchained)⟩
      · rw [if_neg hfirst] at hok
        have hle := hrange.le
        obtain ⟨n, hn⟩ : ∃ n, max (upTo.number - (s.chunkSize - 1)) (s.cursor.number + 1) = n + 1 :=
          ⟨_, (Nat.succ_pred (by omega)).symm⟩
        rw [hn] at hrange hchained hok
        refine ih ?_ ?_ (h.cons (c := ⟨n, head.parentHash⟩) hrange hchained) hok
        all_goals
          dsimp only
          omega

theorem plans_of_planTo {target : NumHash H} (hahead : s.cursor.number < target.number)
    (hok : s.planTo crypto p target = .ok plan) :
    ∃ groups, Plans crypto s.cursor plan target.hash groups := by
  unfold planTo at hok
  split_ifs at hok
  have hempty : Plans crypto target [] target.hash [] := ⟨.nil, ⟨trivial, trivial⟩, rfl⟩
  exact plans_of_planLoop le_rfl hahead hempty hok

/-- What a look at a finalization may change: the identities grow by trusted
ones, and the new plan leads to a block with a presented certificate. -/
structure Follows (crypto : Crypto H A S N) (Trust : N → Prop)
    (Shown : Finalization H S → Prop) (cursor : NumHash H) (v : Verifier N)
    (plan : List (Chunk H)) : Prop where
  verifier : v.Holds Trust
  plan : plan = [] ∨ ∃ identity finalization groups, Trust identity ∧
    Shown finalization ∧ crypto.verifies identity finalization = true ∧
    Plans crypto cursor plan finalization.payload groups

variable {Trust : N → Prop}

theorem follows_of_planTo {certified : CertifiedBlock H S} {v : Verifier N}
    {query : Query} (h : s.verifier.Holds Trust) (hsent : p.finalization query = some certified)
    (hahead : s.cursor.number < certified.number)
    (hverified : s.verifier.decodeAndVerify crypto s.strategy certified =
      .ok v) (hplan : s.planTo crypto p ⟨certified.number, certified.hash⟩ = .ok plan) :
    Follows crypto Trust (Presented (p :: providers)) s.cursor v plan := by
  obtain ⟨hv, identity, finalization, htrust, hcertificate, hverifies,
    hpayload⟩ := h.decodeAndVerify hverified
  obtain ⟨groups, hgroups⟩ := plans_of_planTo hahead hplan
  refine ⟨hv, .inr ⟨identity, finalization, groups, htrust, ?_, hverifies, hpayload ▸ hgroups⟩⟩
  exact ⟨p, mem_cons_self, query, certified, hsent, hcertificate⟩

theorem follows_of_planToTransition {epoch : Epoch} {v : Verifier N} (h : s.verifier.Holds Trust)
    (hok : s.planToTransition crypto p epoch = .ok (v, plan)) :
    Follows crypto Trust (Presented (p :: providers)) s.cursor v plan := by
  induction epoch with
  | zero => cases hok
  | succ previous ih =>
    rw [planToTransition] at hok
    split_ifs at hok with hbehind
    split at hok
    · cases hok
    · rename_i certified hsent
      split_ifs at hok with hheight
      obtain hnumber := not_not.mp hheight
      split at hok
      · rename_i verifier hverified
        obtain ⟨chunks, hplan, hok⟩ := except_bind_eq_ok.mp hok
        cases hok
        rw [← hnumber] at hplan
        exact follows_of_planTo h hsent (by omega) hverified hplan
      · split_ifs at hok
        exact ih hok

theorem follows_of_followLatest (h : s.verifier.Holds Trust)
    (hidle : s.plan = []) (hok : s.followLatest crypto p = .ok s') :
    Follows crypto Trust (Presented (p :: providers)) s.cursor s'.verifier s'.plan ∧
      s' = { s with verifier := s'.verifier, plan := s'.plan } := by
  obtain ⟨certified, hsent, hok⟩ := except_bind_eq_ok.mp hok
  have hsent : p.finalization .latest = some certified := by
    unfold answer at hsent
    split at hsent
    · rename_i value hvalue
      rw [hvalue, Except.ok.inj hsent]
    · cases hsent
  split at hok
  · cases hok
    exact ⟨⟨h, .inl hidle⟩, rfl⟩
  rename_i hbehind
  split at hok
  · rename_i verifier hverified
    obtain ⟨plan, hplan, hok⟩ := except_bind_eq_ok.mp hok
    cases hok
    exact ⟨follows_of_planTo h hsent (not_le.mp hbehind) hverified hplan, rfl⟩
  · split_ifs at hok
    obtain ⟨⟨verifier, plan⟩, hplan, hok⟩ := except_bind_eq_ok.mp hok
    cases hok
    exact ⟨follows_of_planToTransition h hplan, rfl⟩

/-- What holds after every step: yielded, fetched and planned headers are one
authenticated chain on the start block. -/
structure Invariant (crypto : Crypto H A S N) (config : Config H N)
    (providers : List (Provider H A S)) (start : Header H A)
    (yielded : List (Header H A)) (s : State H A N) : Prop where
  startAfter : crypto.hash start = config.startAfter
  strategy : s.strategy = config.strategy
  verifier : s.verifier.Holds (Trusted crypto config providers)
  cursor : s.cursor = ⟨start.number + yielded.length, tip crypto.hash config.startAfter yielded⟩
  chain : ∃ groups, List.Forall₂ (Covers crypto) s.plan groups ∧
    Chained crypto (start.number + 1) config.startAfter (yielded ++ (s.pending ++ groups.flatten)) ∧
    ∀ header ∈ yielded ++ (s.pending ++ groups.flatten),
      Authenticated crypto config providers header

theorem Invariant.of_init (hok : init crypto p config = .ok s) :
    ∃ start, Invariant crypto config [p] start [] s := by
  obtain ⟨start, hfetch, hok⟩ := except_bind_eq_ok.mp hok
  obtain ⟨verifier, hverifier, hok⟩ := except_bind_eq_ok.mp hok
  cases hok
  have hstart : crypto.hash start = config.startAfter := by
    obtain ⟨reply, -, hfetch⟩ := except_bind_eq_ok.mp hfetch
    split at hfetch
    · cases hfetch
    · split_ifs at hfetch with hhash
      cases hfetch
      exact not_not.mp hhash
  refine ⟨start, hstart, rfl, holds_initialVerifier hstart hverifier, ?_, ?_⟩
  · rw [hstart]
    rfl
  · refine ⟨[], .nil, ⟨trivial, trivial⟩, ?_⟩
    intro header hmem
    cases hmem

variable [DecidableEq N] {start : Header H A} {yielded : List (Header H A)}

omit [DecidableEq H] [DecidableEq N] in
/-- Yielding moves a header from the fetched to the yielded ones. -/
theorem Invariant.yield {pending : List (Header H A)}
    (h : Invariant crypto config providers start yielded s)
    (hpending : s.pending = header :: pending) :
    Invariant crypto config providers start (yielded ++ [header])
      { s with cursor := ⟨header.number, crypto.hash header⟩, pending } := by
  obtain ⟨groups, hcovers, hchained, hauth⟩ := h.chain
  have hlist : yielded ++ (s.pending ++ groups.flatten) =
      (yielded ++ [header]) ++ (pending ++ groups.flatten) := by
    rw [hpending]
    simp
  rw [hlist] at hchained hauth
  refine ⟨h.startAfter, h.strategy, h.verifier, ?_, groups, hcovers, hchained, hauth⟩
  obtain ⟨⟨-, hnumbered⟩, -⟩ := chained_append.mp hchained
  have hnumber := (numbered_append.mp hnumbered).2.1
  rw [tip_append, tip_cons, tip_nil, length_append, hnumber]
  simp only [length_singleton]
  rw [add_right_comm, add_assoc]

/-- A loaded chunk is what was planned. -/
theorem Invariant.load (hhash : Injective crypto.hash) {chunk : Chunk H} {verifier : Verifier N}
    (h : Invariant crypto config providers start yielded s)
    (hpending : s.pending = []) (hplan : s.plan = chunk :: plan)
    (hfetched : p.fetchAndValidateHeaders crypto chunk.start chunk.upTo = .ok headers)
    (hverifier : s.verifier.registerBoundaries crypto s.strategy headers = .ok verifier) :
    Invariant crypto config providers start yielded
      { s with verifier, plan, pending := headers } := by
  obtain ⟨groups, hcovers, hchained, hauth⟩ := h.chain
  rw [hplan] at hcovers
  rw [hpending, nil_append] at hchained hauth
  cases hcovers with
  | @cons _ group _ rest hcover hrest =>
    obtain ⟨-, hgroup⟩ := chained_append.mp hchained
    obtain ⟨hgroup, -⟩ := chained_append.mp hgroup
    have hstart := hcover.start _ hgroup.2
    rw [hstart] at hgroup
    have hrange := Provider.range_of_fetchAndValidateHeaders hfetched
    obtain ⟨parent, hheaders, htip⟩ := hrange.chained
    -- a range with a known last hash is the only one
    obtain rfl : headers = group := (hheaders.1.eq_of_tip (fun _ _ _ _ heq => hhash heq) hgroup.1
      (hrange.length.trans hcover.length.symm) (htip.trans (hcover.hash _).symm)).1
    refine ⟨h.startAfter, h.strategy, ?_, h.cursor, rest, hrest, hchained, hauth⟩
    refine h.verifier.registerBoundaries ?_ hverifier
    intro header hmem hboundary outcome houtcome
    obtain ⟨identity, finalization, htrusted, hpresented, hverifies, hancestor⟩ := hauth header
        (mem_append_right _ (mem_append_left _ hmem))
    rw [h.strategy] at hboundary
    exact .boundary htrusted hpresented hverifies hancestor hboundary houtcome

omit [DecidableEq H] [DecidableEq N] in
theorem Invariant.cons (h : Invariant crypto config providers start yielded s)
    (p : Provider H A S) : Invariant crypto config (p :: providers) start yielded s := by
  obtain ⟨groups, hcovers, hchained, hauth⟩ := h.chain
  exact ⟨h.startAfter, h.strategy, h.verifier.mono fun _ hid => hid.cons p,
    h.cursor, groups, hcovers, hchained, fun header hmem => (hauth header hmem).cons p⟩

omit [DecidableEq N] in
/-- A new plan leads from the cursor to a certified block. -/
theorem Invariant.follow (h : Invariant crypto config (p :: providers) start yielded s)
    (hpending : s.pending = []) (hplan : s.plan = []) (hok : s.followLatest crypto p = .ok s') :
    Invariant crypto config (p :: providers) start yielded s' := by
  obtain ⟨⟨hverifier, hnew⟩, hsame⟩ := follows_of_followLatest h.verifier hplan hok
  obtain ⟨groups, hcovers, hchained, hauth⟩ := h.chain
  rw [hplan] at hcovers
  cases hcovers
  rw [hpending, flatten_nil, append_nil, append_nil] at hchained hauth
  rw [hsame]
  rcases hnew with hempty | ⟨identity, finalization, groups, htrusted,
    hpresented, hverifies, hplans⟩
  · refine ⟨h.startAfter, h.strategy, hverifier, h.cursor, [], ?_, ?_, ?_⟩
    · rw [hempty]
      exact .nil
    · simpa [hpending] using hchained
    · simpa [hpending] using hauth
  · have hlinked := hplans.chained
    rw [h.cursor] at hlinked
    refine ⟨h.startAfter, h.strategy, hverifier, h.cursor, groups, hplans.covers, ?_, ?_⟩
    · rw [hpending, nil_append, chained_append, add_right_comm start.number 1]
      exact ⟨hchained, hlinked⟩
    · rw [hpending, nil_append]
      intro header hmem
      rcases mem_append.mp hmem with hold | hnew
      · exact hauth header hold
      · have hancestor := hplans.chained.1.ancestorOrSelf hnew
        rw [hplans.target] at hancestor
        exact ⟨identity, finalization, htrusted, hpresented, hverifies, hancestor⟩

theorem Invariant.step (hhash : Injective crypto.hash) {out : Option (Header H A)}
    (h : Invariant crypto config providers start yielded s)
    (hok : s.step crypto p = .ok (s', out)) :
    Invariant crypto config (p :: providers) start (yielded ++ out.toList) s' := by
  unfold State.step at hok
  split at hok
  · rename_i header pending hpending
    cases hok
    exact (h.cons p).yield hpending
  · rename_i hpending
    split at hok
    · rename_i chunk plan hplan
      obtain ⟨headers, hfetched, hok⟩ := except_bind_eq_ok.mp hok
      obtain ⟨verifier, hverifier, hok⟩ := except_bind_eq_ok.mp hok
      cases hok
      rw [Option.toList_none, append_nil]
      exact (h.cons p).load hhash hpending hplan hfetched hverifier
    · rename_i hplan
      obtain ⟨next, hfollow, hok⟩ := except_bind_eq_ok.mp hok
      cases hok
      rw [Option.toList_none, append_nil]
      exact (h.cons p).follow hpending hplan hfollow

theorem Run.invariant (hhash : Injective crypto.hash) (h : Run crypto config providers yielded s) :
    ∃ start, Invariant crypto config providers start yielded s := by
  induction h with
  | start hok => exact Invariant.of_init hok
  | step _ hok ih =>
    obtain ⟨start, hinvariant⟩ := ih
    exact ⟨start, hinvariant.step hhash hok⟩

/-- Whatever the providers answer, the yielded headers have consecutive
numbers from the start block on, each names the hash of the one before it, and
each is an ancestor of a block with a certificate by a trusted identity. -/
theorem stream_sound (hhash : Injective crypto.hash) (h : Run crypto config providers yielded s) :
    ∃ start, crypto.hash start = config.startAfter ∧ (∀ i (hi : i < yielded.length),
        yielded[i].number = start.number + 1 + i) ∧
      Linked crypto.hash Header.parentHash config.startAfter yielded ∧
      ∀ header ∈ yielded, Authenticated crypto config providers header := by
  obtain ⟨start, hinvariant⟩ := h.invariant hhash
  obtain ⟨groups, -, hchained, hauth⟩ := hinvariant.chain
  obtain ⟨⟨hlinked, hnumbered⟩, -⟩ := chained_append.mp hchained
  exact ⟨start, hinvariant.startAfter, hnumbered.getElem, hlinked,
    fun header hmem => hauth header (mem_append_left _ hmem)⟩

/-- Headers hashed to all they hold. -/
def sampleCrypto : Crypto (List Nat) Unit Unit Nat where
  hash header := header.number :: header.extraData.length ::
    (header.extraData.map UInt8.toNat ++ header.parentHash)
  readOutcome _ := none
  verifies identity _ := identity = 7

theorem sampleCrypto_injective : Injective sampleCrypto.hash := by
  rintro ⟨n, p, d, ⟨⟩⟩ ⟨n', p', d', ⟨⟩⟩ h
  obtain ⟨rfl, hrest⟩ := cons.inj h
  obtain ⟨hlength, hrest⟩ := cons.inj hrest
  obtain ⟨hdata, rfl⟩ := append_inj hrest (by simpa using hlength)
  obtain rfl : d = d' := map_injective_iff.mpr (fun _ _ => UInt8.toNat.inj) hdata
  rfl

def sampleStart : Header (List Nat) Unit :=
  ⟨5, [], [], ()⟩

def sampleNext : Header (List Nat) Unit :=
  ⟨6, sampleCrypto.hash sampleStart, [1], ()⟩

def sampleTip : Header (List Nat) Unit :=
  ⟨7, sampleCrypto.hash sampleNext, [], ()⟩

def sampleConfig : Config (List Nat) Nat :=
  ⟨sampleCrypto.hash sampleStart, some ⟨0, 7⟩, ⟨(· / 100), (100 * · + 99)⟩, 1⟩

/-- A provider with two blocks after the start, and the certificate of the
second. -/
def sampleProvider : Provider (List Nat) Unit Unit where
  headerByHash _ := some (some sampleStart)
  headerByNumber number :=
    some (([sampleNext, sampleTip].find? (·.number = number)).map fun header =>
      (sampleCrypto.hash header, header))
  finalization _ := some ⟨7, sampleCrypto.hash sampleTip, true,
    some ⟨0, sampleCrypto.hash sampleTip, ()⟩⟩

theorem stream_sound_next :
    ∃ providers s, Run sampleCrypto sampleConfig providers [sampleNext, sampleTip] s ∧
      Authenticated sampleCrypto sampleConfig providers sampleNext ∧
      Linked sampleCrypto.hash Header.parentHash sampleConfig.startAfter
        [sampleNext, sampleTip] := by
  -- a look at the certificate, then twice a chunk that is loaded and its header
  have hrun : ∃ s, Run sampleCrypto sampleConfig (List.replicate 6 sampleProvider)
      ([] ++ Option.toList none ++ Option.toList none ++ Option.toList (some sampleNext) ++
        Option.toList none ++ Option.toList (some sampleTip)) s :=
    ⟨_, .step (.step (.step (.step (.step (.start rfl) rfl) rfl) rfl) rfl) rfl⟩
  obtain ⟨s, hrun⟩ := hrun
  obtain ⟨-, -, -, hlinked, hauth⟩ := stream_sound sampleCrypto_injective hrun
  exact ⟨_, s, hrun, hauth sampleNext mem_cons_self, hlinked⟩

end State

end Tempo.HeaderStream
