/-
The stream of finalized headers over RPC.  A certificate authenticates its
block and all ancestors; the stream plans back from a certified block to its
cursor, then fetches the planned headers again and yields them in order.
Boundary headers on the way give the identities of later epochs.
-/
import Mathlib.Algebra.Order.Ring.Nat
import Tempo.Library.SortedMap

namespace Tempo.HeaderStream

abbrev Epoch := Nat

/-- How heights are divided into epochs, each with a last height. -/
structure FixedEpocher where
  containing : Nat → Epoch
  last : Epoch → Nat

/-- Whether a height is the last of its epoch. -/
def FixedEpocher.isBoundary (strategy : FixedEpocher) (height : Nat) : Bool :=
  strategy.last (strategy.containing height) = height

/-- A header, with hashes `H` and fields `A` that the stream does not read. -/
structure Header (H A : Type) where
  number : Nat
  parentHash : H
  extraData : List UInt8
  rest : A

structure NumHash (H : Type) where
  number : Nat
  hash : H

/-- A decoded finalization certificate. -/
structure Finalization (H S : Type) where
  epoch : Epoch
  payload : H
  signature : S

/-- A block with its certificate, as a provider sends it. -/
structure CertifiedBlock (H S : Type) where
  number : Nat
  hash : H
  /-- Whether the body fits the header. -/
  bodyMatches : Bool
  /-- The certificate, if its bytes decode. -/
  certificate : Option (Finalization H S)

/-- The part of a DKG outcome that the stream uses. -/
structure Outcome (N : Type) where
  epoch : Epoch
  networkIdentity : N

structure NetworkIdentity (N : Type) where
  fromEpoch : Epoch
  identity : N

/-- Hashing, decoding of boundaries and verification of signatures. -/
structure Crypto (H A S N : Type) where
  hash : Header H A → H
  readOutcome : List UInt8 → Option (Outcome N)
  verifies : N → Finalization H S → Bool

inductive Query where
  | latest
  | height (height : Nat)

/-- What a provider answers while the stream makes one step; a request that
fails has no answer. -/
structure Provider (H A S : Type) where
  headerByHash : H → Option (Option (Header H A))
  /-- With the hash the provider reports. -/
  headerByNumber : Nat → Option (Option (H × Header H A))
  finalization : Query → Option (CertifiedBlock H S)

inductive VerificationError where
  | blockBodyMismatch
  | malformedCertificate
  | blockDigestMismatch
  | epochMismatch (height : Nat) (expected actual : Epoch)
  | identityUnavailable (epoch identityFromEpoch : Epoch)
  | invalid
  | fallbackVerificationFailed
  deriving DecidableEq, Repr

def VerificationError.isSignatureMismatch : VerificationError → Bool
  | .invalid | .fallbackVerificationFailed => true
  | _ => false

inductive StreamError (H : Type) where
  | rpc
  | missingHeader (number : Nat)
  | missingStartHeader (hash : H)
  | startHashMismatch (expected actual : H)
  | headerNumberMismatch (expected actual : Nat)
  | headerHashMismatch (number : Nat) (reported actual : H)
  | parentHashMismatch (number : Nat) (expected actual : H)
  | tipHashMismatch (expected actual : H)
  | malformedBoundary (height : Nat)
  | verification (error : VerificationError)
  | missingTransitionCertificate (height : Nat)
  | transitionHeightMismatch (expected actual : Nat)
  | missingPreviousEpoch (epoch : Epoch)
  | transitionNotAhead (boundary checkpoint : Nat)
  | rangeOverflow
  /-- An assertion of the source fails. -/
  | panicked
  deriving DecidableEq, Repr

structure Config (H N : Type) where
  startAfter : H
  networkIdentity : Option (NetworkIdentity N)
  strategy : FixedEpocher
  chunkSize : Nat

variable {H A S N : Type}

/-- The answer to a request, or an RPC error. -/
def answer {α : Type} (reply : Option α) : Except (StreamError H) α :=
  match reply with
  | some value => .ok value
  | none => .error .rpc

/-- The identities by which certificates are verified. -/
structure Verifier (N : Type) where
  schemes : SortedMap Epoch N
  networkIdentity : NetworkIdentity N

namespace Verifier

def new (networkIdentity : NetworkIdentity N) : Verifier N :=
  ⟨.empty, networkIdentity⟩

def register (v : Verifier N) (epoch : Epoch) (identity : N) : Verifier N :=
  { v with schemes := v.schemes.insert epoch identity }

/-- A fallback on the network identity that worked is kept for the epoch. -/
def verifyCertificate (crypto : Crypto H A S N) (v : Verifier N) (finalization : Finalization H S) :
    Except VerificationError (Verifier N) :=
  match v.schemes.get? finalization.epoch with
  | some identity =>
    if crypto.verifies identity finalization then .ok v
    else .error .invalid
  | none =>
    if v.networkIdentity.fromEpoch ≤ finalization.epoch then
      if crypto.verifies v.networkIdentity.identity finalization then
        .ok (v.register finalization.epoch v.networkIdentity.identity)
      else .error .fallbackVerificationFailed
    else
      .error (.identityUnavailable finalization.epoch v.networkIdentity.fromEpoch)

variable [DecidableEq H]

def decodeAndVerify (crypto : Crypto H A S N) (strategy : FixedEpocher)
    (v : Verifier N) (certified : CertifiedBlock H S) : Except VerificationError (Verifier N) :=
  if ¬certified.bodyMatches then .error .blockBodyMismatch
  else
    match certified.certificate with
    | none => .error .malformedCertificate
    | some finalization =>
      if finalization.payload ≠ certified.hash then
        .error .blockDigestMismatch
      else if finalization.epoch ≠ strategy.containing certified.number then
        .error (.epochMismatch certified.number
          (strategy.containing certified.number) finalization.epoch)
      else v.verifyCertificate crypto finalization

variable [DecidableEq N]

/-- Install the identity of a boundary.  A second identity for an epoch is
refused. -/
def registerBoundary (crypto : Crypto H A S N) (v : Verifier N)
    (header : Header H A) : Except (StreamError H) (Verifier N) :=
  match crypto.readOutcome header.extraData with
  | none => .error (.malformedBoundary header.number)
  | some outcome =>
    if (v.schemes.get? outcome.epoch).any (· ≠ outcome.networkIdentity) then
      .error .panicked
    else .ok (v.register outcome.epoch outcome.networkIdentity)

def registerBoundaries (crypto : Crypto H A S N) (strategy : FixedEpocher) :
    Verifier N → List (Header H A) → Except (StreamError H) (Verifier N)
  | v, [] => .ok v
  | v, header :: rest =>
    if strategy.isBoundary header.number then do
      let v ← v.registerBoundary crypto header
      registerBoundaries crypto strategy v rest
    else registerBoundaries crypto strategy v rest

end Verifier

namespace Provider

variable [DecidableEq H]

/-- A header with the hash asked for. -/
def fetchByHash (crypto : Crypto H A S N) (p : Provider H A S)
    (expected : H) : Except (StreamError H) (Header H A) := do
  match ← answer (p.headerByHash expected) with
  | none => .error (.missingStartHeader expected)
  | some header =>
    if crypto.hash header ≠ expected then
      .error (.startHashMismatch expected (crypto.hash header))
    else .ok header

def fetchByNumber (crypto : Crypto H A S N) (p : Provider H A S)
    (number : Nat) : Except (StreamError H) (Header H A) := do
  match ← answer (p.headerByNumber number) with
  | none => .error (.missingHeader number)
  | some (reported, header) =>
    if crypto.hash header ≠ reported then
      .error (.headerHashMismatch number reported (crypto.hash header))
    else .ok header

/-- Headers have consecutive numbers and are linked by their parents. -/
def validateHeaders (crypto : Crypto H A S N) (expected : Nat) (expectedParent : Option H) :
    List (Header H A) → Except (StreamError H) Unit
  | [] => .ok ()
  | header :: rest =>
    if header.number ≠ expected then
      .error (.headerNumberMismatch expected header.number)
    else
      match expectedParent with
      | some parent =>
        if header.parentHash ≠ parent then
          .error (.parentHashMismatch expected parent header.parentHash)
        else
          validateHeaders crypto (expected + 1) (some (crypto.hash header)) rest
      | none =>
        validateHeaders crypto (expected + 1) (some (crypto.hash header)) rest

/-- A non-empty linked range that ends in a known block. -/
def fetchAndValidateHeaders (crypto : Crypto H A S N) (p : Provider H A S)
    (start : Nat) (upTo : NumHash H) : Except (StreamError H) (List (Header H A)) :=
  if upTo.number < start then .error .rangeOverflow
  else do
    let headers ← (List.range' start (upTo.number + 1 - start)).mapM (p.fetchByNumber crypto)
    validateHeaders crypto start none headers
    match headers.getLast? with
    | none => .error .panicked
    | some last =>
      if crypto.hash last ≠ upTo.hash then
        .error (.tipHashMismatch upTo.hash (crypto.hash last))
      else .ok headers

end Provider

def latestBoundaryAtOrBefore (strategy : FixedEpocher) (height : Nat) : Nat :=
  if strategy.isBoundary height then height
  else
    match strategy.containing height with
    | 0 => 0
    | previous + 1 => strategy.last previous

structure Chunk (H : Type) where
  start : Nat
  upTo : NumHash H

structure State (H A N : Type) where
  verifier : Verifier N
  strategy : FixedEpocher
  cursor : NumHash H
  chunkSize : Nat
  plan : List (Chunk H)
  pending : List (Header H A)

section

variable [DecidableEq H]

/-- The identity of the latest boundary at or before the start block. -/
def verifierFromStart (crypto : Crypto H A S N) (p : Provider H A S)
    (strategy : FixedEpocher) (start : NumHash H) : Except (StreamError H) (Verifier N) := do
  let headers ← p.fetchAndValidateHeaders crypto
    (latestBoundaryAtOrBefore strategy start.number) start
  match headers with
  | [] => .error .panicked
  | boundary :: _ =>
    match crypto.readOutcome boundary.extraData with
    | none => .error (.malformedBoundary boundary.number)
    | some outcome =>
      .ok (.new ⟨outcome.epoch, outcome.networkIdentity⟩)

def initialVerifier (crypto : Crypto H A S N) (p : Provider H A S)
    (config : Config H N) (start : NumHash H) : Except (StreamError H) (Verifier N) :=
  match config.networkIdentity with
  | none => verifierFromStart crypto p config.strategy start
  | some identity =>
    if config.strategy.containing start.number < identity.fromEpoch then
      .ok (.new identity)
    else if config.strategy.isBoundary start.number then
      verifierFromStart crypto p config.strategy start
    else do
      let latest ← answer (p.finalization .latest)
      if latest.number < start.number then
        verifierFromStart crypto p config.strategy start
      else
        match (Verifier.new identity).decodeAndVerify crypto config.strategy latest with
        | .ok verifier => .ok verifier
        | .error error =>
          if error.isSignatureMismatch then
            verifierFromStart crypto p config.strategy start
          else .ok (.new identity)

namespace State

/-- The start of a stream. -/
def init (crypto : Crypto H A S N) (p : Provider H A S)
    (config : Config H N) : Except (StreamError H) (State H A N) := do
  let header ← p.fetchByHash crypto config.startAfter
  let start : NumHash H := ⟨header.number, crypto.hash header⟩
  let verifier ← initialVerifier crypto p config start
  .ok ⟨verifier, config.strategy, start, max config.chunkSize 1, [], []⟩

/-- Plan chunk by chunk from `upTo` back to the cursor. -/
def planLoop (crypto : Crypto H A S N) (p : Provider H A S) (s : State H A N) :
    Nat → NumHash H → List (Chunk H) → Except (StreamError H) (List (Chunk H))
  | 0, _, chunks => .ok chunks
  | fuel + 1, upTo, chunks =>
    let first := s.cursor.number + 1
    if upTo.number < first then .ok chunks
    else do
      let start := max (upTo.number - (s.chunkSize - 1)) first
      let headers ← p.fetchAndValidateHeaders crypto start upTo
      match headers with
      | [] => .error .panicked
      | head :: _ =>
        if start = first then
          if head.parentHash ≠ s.cursor.hash then
            .error (.parentHashMismatch start s.cursor.hash head.parentHash)
          else .ok (⟨start, upTo⟩ :: chunks)
        else
          planLoop crypto p s fuel ⟨start - 1, head.parentHash⟩ (⟨start, upTo⟩ :: chunks)

def planTo (crypto : Crypto H A S N) (p : Provider H A S) (s : State H A N)
    (target : NumHash H) : Except (StreamError H) (List (Chunk H)) :=
  if s.cursor.number + 1 < 2 ^ 64 then
    s.planLoop crypto p (target.number - s.cursor.number) target []
  else .error .rangeOverflow

/-- Go back to the first epoch transition that can be verified. -/
def planToTransition (crypto : Crypto H A S N) (p : Provider H A S) (s : State H A N) :
    Epoch → Except (StreamError H) (Verifier N × List (Chunk H))
  | 0 => .error (.missingPreviousEpoch 0)
  | previous + 1 =>
    let boundary := s.strategy.last previous
    if boundary ≤ s.cursor.number then
      .error (.transitionNotAhead boundary s.cursor.number)
    else
      match p.finalization (.height boundary) with
      | none => .error (.missingTransitionCertificate boundary)
      | some certified =>
        if certified.number ≠ boundary then
          .error (.transitionHeightMismatch boundary certified.number)
        else
          match s.verifier.decodeAndVerify crypto s.strategy certified with
          | .ok verifier => do
            let plan ← s.planTo crypto p ⟨boundary, certified.hash⟩
            .ok (verifier, plan)
          | .error error =>
            if error.isSignatureMismatch then
              planToTransition crypto p s previous
            else .error (.verification error)

/-- Follow the latest finalization. -/
def followLatest (crypto : Crypto H A S N) (p : Provider H A S)
    (s : State H A N) : Except (StreamError H) (State H A N) := do
  let certified ← answer (p.finalization .latest)
  if certified.number ≤ s.cursor.number then .ok s
  else
    match s.verifier.decodeAndVerify crypto s.strategy certified with
    | .ok verifier =>
      let plan ← s.planTo crypto p ⟨certified.number, certified.hash⟩
      .ok { s with verifier, plan }
    | .error error =>
      if error.isSignatureMismatch then
        let (verifier, plan) ← s.planToTransition crypto p (s.strategy.containing certified.number)
        .ok { s with verifier, plan }
      else .error (.verification error)

variable [DecidableEq N]

/-- One round of the loop of `next_header`: a header that is yielded, a chunk
that is loaded, or a look at the latest finalization. -/
def step (crypto : Crypto H A S N) (p : Provider H A S) (s : State H A N) :
    Except (StreamError H) (State H A N × Option (Header H A)) :=
  match s.pending with
  | header :: pending =>
    .ok ({ s with cursor := ⟨header.number, crypto.hash header⟩, pending }, some header)
  | [] =>
    match s.plan with
    | chunk :: plan => do
      let headers ← p.fetchAndValidateHeaders crypto chunk.start chunk.upTo
      let verifier ← s.verifier.registerBoundaries crypto s.strategy headers
      .ok ({ s with verifier, plan, pending := headers }, none)
    | [] => do
      let s ← s.followLatest crypto p
      .ok (s, none)

/-- The runs of a stream: the providers it met, what it has yielded, and its
state. -/
inductive Run (crypto : Crypto H A S N) (config : Config H N) :
    List (Provider H A S) → List (Header H A) → State H A N → Prop where
  | start {p : Provider H A S} {s : State H A N}
      (h : init crypto p config = .ok s) : Run crypto config [p] [] s
  | step {providers : List (Provider H A S)} {yielded : List (Header H A)}
      {s s' : State H A N} {p : Provider H A S} {out : Option (Header H A)}
      (past : Run crypto config providers yielded s) (h : s.step crypto p = .ok (s', out)) :
      Run crypto config (p :: providers) (yielded ++ out.toList) s'

end State

end

end Tempo.HeaderStream
