/-
The identity of a redacted log.  A log is numbered among the logs of its
transaction that one answer holds, so a transaction hash and a log index name a
log only as long as the answers compared keep the same logs of a transaction.
-/
import Tempo.ZoneRpc.LogPrivacy

namespace Tempo.ZoneRpc

open List LogOrderingRedactor

variable {β σ : Type} (b : Backend β σ) (caller : Address) (history : List Block)

/-- The transactions an answer is made from, the filter of their logs and the
logs found.  The first case is that of a filter, asked for its logs or polled,
which reads the selected blocks of the chain at that time, and of a subscription,
which reads all blocks committed since it began. -/
inductive Found : List Receipt → (LogData → Bool) → List Log → Prop
  | blocks {chain : List Block} {f : Filter β} {selected : Header → Bool}
    (hchain : chain <:+: history) :
    Found (chain.flatMap fun block =>
        if selected block.header ∧ b.matchesBlock f.blockOption block.header then block.receipts
        else [])
      (b.isMatch f) (chain.flatMap fun block =>
        if selected block.header then block.matchingLogs b f false else [])
  | receipt {r : Receipt} (hr : r ∈ history.flatMap Block.receipts) :
    Found [r] (fun _ => true) r.logs

/-- An answer made from the logs found shows a log as `shown`. -/
abbrev Shows (found : List Log) (log shown : Log) : Prop :=
  (log, shown) ∈ (found.filter fun log => isLogVisible b log.toLogData caller).zip
    (filterLogs b found caller)

/-- What an answer shows of a transaction. -/
def kept (keep : LogData → Bool) (r : Receipt) : List Log :=
  r.logs.filter fun log => isLogVisible b log.toLogData caller && keep log.toLogData

variable {b caller history} {keep keep' : LogData → Bool} {found found' : List Log}
  {log shown : Log} {r : Receipt} {rs rs' : List Receipt}

theorem Found.sublist (h : Found b history rs keep found) :
    rs <+ history.flatMap Block.receipts := by
  cases h with
  | receipt hr => exact singleton_sublist.mpr hr
  | blocks hchain =>
    refine (Sublist.flatMap_right _ fun block _ => ?_).trans (hchain.sublist.flatMap _)
    split
    · exact .refl _
    · exact nil_sublist _

namespace Sample

end Sample

end Tempo.ZoneRpc
