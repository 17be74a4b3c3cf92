import Polling.Scheduler
import Polling.Scenario.Bench

/-!
# Schedulers for trying out waits

Stand-ins for a scheduler of the caller's. Each marks the delay that it is asked for: one ignores it
and calls back at once, one keeps the call until it is fired by hand, and one refuses.
-/

namespace Polling.Scenario

/-- Calls back at once, through the queue, unless that is cancelled first. -/
def prompt : Scheduler Bench :=
  .custom
    (fun run delay => do
      Bench.mark (.schedule delay)
      Code.ask (.soon (.fire run))
      return run)
    (fun run => Code.ask (.drop (.fire run)))

/-- Keeps each call until it is fired by hand, and counts its cancellations. -/
def byHand : Scheduler Bench :=
  .custom
    (fun run delay => do
      Bench.mark (.schedule delay)
      Code.onState fun b => (.ok b.kept.length, { b with kept := b.kept ++ [{ run, delay }] }))
    (fun id => Code.change fun b =>
      { b with kept := b.kept.modify id fun k => { k with cancels := k.cancels + 1 } })

/-- Refuses every call. -/
def refusing (e : Fault) : Scheduler Bench :=
  .custom
    (fun _ delay => do
      Bench.mark (.schedule delay)
      Bench.raise e)
    (fun _ => pure ())

end Polling.Scenario
