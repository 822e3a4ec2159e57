import Mathlib

/-!
The settings the scheduler reads, with the defaults of `shared/config.py`.
-/

namespace TaskRunner

structure Settings where
  heartbeatIntervalSeconds : ℚ := 2
  heartbeatTimeoutSeconds : ℚ := 10
  leaseSeconds : ℚ := 30
  maxQueueDepth : Int := 10000

end TaskRunner
