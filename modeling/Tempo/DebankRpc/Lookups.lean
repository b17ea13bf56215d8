/-
The blocks behind a simulation of the DeBank RPC.  `eth_multiCall` and
`pre_traceMany` look up the environment, the block and the state one after the
other, and the canonical chain may change between any two lookups.
-/
import Tempo.Library.Exec
import Tempo.Primitives.Address

namespace Tempo.DebankRpc

inductive BlockTag where
  | latest | pending | earliest | safe | finalized
  | number (n : Nat)
  deriving DecidableEq, Repr

inductive BlockId where
  | hash (hash : B256)
  | tag (tag : BlockTag)
  deriving DecidableEq, Repr

inductive EthApiError where
  | headerNotFound (id : BlockId)
  | other (msg : String)
  deriving DecidableEq, Repr

structure Header where
  number : Nat
  timestamp : Nat
  parentHash : B256
  baseFeePerGas : Option Nat

/-- What belongs to the block of a hash. -/
structure Chain (Env Db : Type) where
  header : B256 → Header
  evmEnv : B256 → Env
  state : B256 → Db
  number_parent : ∀ block, (header (header block).parentHash).number ≠ (header block).number

/-- What a node knows at one moment. -/
structure View where
  known : B256 → Bool
  denotes : BlockTag → Option B256

def View.blockOf (v : View) : BlockId → Option B256
  | .hash hash => if v.known hash then some hash else none
  | .tag tag => v.denotes tag

/-- A lookup sees the block its argument denotes at that moment. -/
def View.lookup {α : Type} (v : View) (id : BlockId) (part : B256 → α) : Except EthApiError α :=
  match v.blockOf id with
  | some hash => .ok (part hash)
  | none => .error (.headerNotFound id)

/-- The lookups of a request, each at a moment of its own. -/
inductive Lookup where
  | evmEnvAt | recoveredBlock | stateAtBlock
  deriving DecidableEq

variable {Env Db α : Type}

section Requests

variable (chain : Chain Env Db) (views : Lookup → View)

/-- When the environment and the state are looked up, the argument denotes a
block with the environment and the state of the one that is reported. -/
def Settled (target : BlockId) : Prop :=
  ((views .evmEnvAt).blockOf target).map chain.evmEnv =
      ((views .recoveredBlock).blockOf target).map chain.evmEnv ∧
    ((views .stateAtBlock).blockOf target).map chain.state =
      ((views .recoveredBlock).blockOf target).map chain.state

end Requests

variable {chain : Chain Env Db} {views : Lookup → View} {target : BlockId} {v : View}

end Tempo.DebankRpc
