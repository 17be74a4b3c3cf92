import Polling.Notifier
import Polling.Scheduler
import Polling.Transition

/-!
# Waiters

A waiter is a configuration: a polling strategy, an ordered list of acceptors, and optionally a
scheduler and hooks. It holds nothing that changes, so any number of waits can share it.
-/

namespace Polling

/-- The configuration of a wait. -/
structure Waiter (σ : Type) where
  strategy : Strategy σ
  acceptors : List (Acceptor σ) := []
  scheduler : Option (Scheduler σ) := none
  hooks : Option (Hooks σ) := none

namespace Waiter

/-- The hooks of a waiter with a clock for them to read. -/
def notifier (w : Waiter σ) (clock : σ → Value) : Notifier σ :=
  ⟨w.hooks.getD {}, .int w.strategy.limit, clock⟩

/-- The form of a waiter inside other text. -/
def shown (w : Waiter σ) : String :=
  "Waiter(polling_strategy=" ++ w.strategy.shown ++ s!", acceptors={w.acceptors.length}" ++
    ", scheduler=" ++ ((w.scheduler.map Scheduler.shown).getD "None") ++ ")"

end Waiter

end Polling
