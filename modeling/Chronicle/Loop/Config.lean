import Chronicle.Time.Basic
/-!
# Settings of the loops

* `LoopConfig`: what the loops of one instance have in common;
* `LoopConfig.heartbeat`: how long a cycle goes on without renewing its lease.
-/

namespace Chronicle

/-- What the loops of one instance have in common. -/
structure LoopConfig where
  /-- The holder of the leases. -/
  holder : String
  /-- How long a renewed lease is live. -/
  lockWait : Duration := Duration.ofSecs 30
  /-- The number of events in a full page. -/
  batchSize : Nat := 100
  /-- The longest pause after failures that may go away. -/
  maxBackoff : Duration := Duration.ofSecs 60
  one_le_batchSize : 1 ≤ batchSize := by decide

namespace LoopConfig

/-- The settings with another page size; zero counts as one. -/
def withBatchSize (c : LoopConfig) (n : Nat) : LoopConfig :=
  { c with batchSize := if n = 0 then 1 else n, one_le_batchSize := by split <;> omega }

/-- The time after the last renewal at which a cycle renews again: a third of the lease. -/
def heartbeat (c : LoopConfig) : Duration :=
  c.lockWait.third

end LoopConfig
end Chronicle
