import Polling.Proofs.Agreement
import Polling.Proofs.SessionProtocol

/-!
# Attempts are bounded and accounted for

However the caller's code behaves, a wait calls its operation no more often than the limit allows and
spends one delay less at most. Whatever ends the wait reports the number of calls that were made, and so
does whatever a hook is told of the end; and a hook that hears of attempts has heard of as many
(`attempts_accounted`).

For blocking runs this holds of the history that a run adds, and the run comes to its end by itself: to
count the attempts down from the limit makes no difference. For executions it holds of every journal in
which the scheduler calls back no more often than it was asked to.
-/

namespace Polling

/-- The number of attempts that a fault reports. -/
def Fault.attempts? : Fault → Option Value
  | .waiting _ _ attempts _ _ => some attempts
  | _ => none

/-- The number of attempts that a hook is told of at the end. -/
def Notice.attempts? : Notice → Option Value
  | .success info => some (.number info.response.attempts)
  | .failure info => info.fault.bind Fault.attempts?
  | _ => none

/-- The entries of a wait keep to its limit, and a hook that is told of the end is told how many of them
are calls of the operation. -/
structure Waiter.Bounds (w : Waiter σ) (es : List Event) : Prop where
  polls : es.countP Event.isPolled ≤ w.strategy.limit
  delays : es.countP Event.isDelay ≤ w.strategy.limit - 1
  told : ∀ n attempts, .notice n ∈ es → n.attempts? = some attempts →
    attempts = .int (es.countP Event.isPolled)

/-- A conclusion reports how many entries are calls of the operation: at least one, at most as many as the
limit allows, and as many as a hook has heard of. -/
structure Waiter.Accounts (w : Waiter σ) (es : List Event) (c : Conclusion) : Prop where
  attempts : c.attempts = .int (es.countP Event.isPolled)
  first : 1 ≤ es.countP Event.isPolled
  last : es.countP Event.isPolled ≤ w.strategy.limit
  openings : (w.hooks.getD {}).onAttempt.isSome = true →
    es.countP Event.isOpening = es.countP Event.isPolled

namespace Protocol

variable {p : Protocol σ} {i n : Nat} {es : List Event} {called : Bool}

theorem mem_tell {n m : Notice} (h : .notice n ∈ p.tell m) : n = m := by
  unfold tell at h
  split at h
  · exact Event.notice.inj (List.mem_singleton.1 h)
  · exact absurd h List.not_mem_nil

/-- No hook is told of the end in whole rounds. -/
theorem Cycles.untold (h : p.Cycles n es) {m : Notice} (mem : .notice m ∈ es) : m.attempts? = none := by
  induction h with
  | start => exact absurd mem List.not_mem_nil
  | @round n es o d before left more ih =>
    have unspent : .notice m ≠ p.spends d := fun same => by
      have delay := p.spends_delay d
      rw [← same] at delay
      exact nomatch delay
    simp only [List.mem_append, List.mem_cons, List.not_mem_nil, or_false, reduceCtorEq, false_or,
      unspent] at mem
    rcases mem with earlier | opened | told
    · exact ih earlier
    · rw [mem_tell opened]
      rfl
    · rw [mem_tell told]
      rfl

/-- Behind the call of the operation for an attempt, the attempt is what a hook is told at the end. -/
theorem Judged.told (h : p.Judged i es) {m : Notice} (mem : .notice m ∈ es) {attempts : Value}
    (reported : m.attempts? = some attempts) : attempts = .int i := by
  have retried : ∀ {o d}, .notice m ∈ p.retry i o d → attempts = .int i := fun mem => by
    rw [mem_tell mem] at reported
    exact nomatch reported
  have spent : ∀ {d}, .notice m ≠ p.spends d := fun {d} same => by
    have delay := p.spends_delay d
    rw [← same] at delay
    exact nomatch delay
  -- a retry reports no attempts and a delay is no notice, so only the notices of the end are left
  cases h with
  | silent => exact absurd mem List.not_mem_nil
  | succeeded t left =>
    rw [mem_tell mem] at reported
    exact (Option.some.inj reported).symm
  | @failed f t same =>
    rw [mem_tell mem] at reported
    exact (Option.some.inj reported).symm.trans same
  | retried d left more => exact retried mem
  | delayed d left more => exact retried (by simpa [spent] using mem)
  | @interrupted o d es t left more cuts begun =>
    have unspent : .notice m ∉ es := by
      rcases begun with rfl | rfl <;> simp [spent]
    rcases List.mem_append.1 mem with earlier | told
    · exact retried ((List.mem_append.1 earlier).resolve_right unspent)
    · rw [mem_tell told] at reported
      exact (Option.some.inj reported).symm

/-- What a hook is told at the end of a run is the latest attempt, for which the operation has been
called. -/
theorem Follows.told (h : p.Follows i called es) {m : Notice} (mem : .notice m ∈ es) {attempts : Value}
    (reported : m.attempts? = some attempts) : called = true ∧ attempts = .int i := by
  cases h with
  | latest before closes =>
    have opening : ∀ {i}, .notice m ∈ p.opening i → False := fun mem => by
      rw [mem_tell mem] at reported
      exact nomatch reported
    rcases List.mem_append.1 mem with earlier | latest
    · rw [before.untold earlier] at reported
      exact nomatch reported
    · rcases List.mem_append.1 latest with opened | behind
      · exact (opening opened).elim
      · cases closes with
        | refused => exact absurd behind List.not_mem_nil
        | polled judged => exact ⟨rfl, judged.told (by simpa using behind) reported⟩

end Protocol

namespace Waiter

variable {w : Waiter σ} {leaves : Nat → Outcome → Prop}
  {spends : { entry : Number → Event // ∀ d, (entry d).delay? = some d }} {cuts : Number → Prop} {i : Nat}
  {called : Bool} {es : List Event}

/-- Entries that keep to the protocol keep to the limit. -/
theorem bounds_of_follows (h : (w.protocol leaves spends cuts).Follows i called (beatsOf es)) :
    w.Bounds es := by
  have counts := h.counts
  rw [countP_beatsOf_isPolled, countP_beatsOf_isDelay] at counts
  obtain ⟨-, last, polls, delays, -⟩ := counts
  have limit : i ≤ w.strategy.limit := last
  have spent : es.countP Event.isDelay + 1 ≤ w.strategy.limit := delays
  refine ⟨?_, by omega, ?_⟩
  · have once := Bool.toNat_le called
    omega
  · intro n attempts mem reported
    have beat : .notice n ∈ beatsOf es := List.mem_filter.2 ⟨mem, rfl⟩
    obtain ⟨rfl, same⟩ := h.told beat reported
    rw [Bool.toNat_true] at polls
    rw [same, Nat.add_right_cancel polls]

/-- A conclusion that reports the latest attempt is accounted for by entries that keep to the protocol. -/
theorem accounts_of_follows (h : (w.protocol leaves spends cuts).Follows i true (beatsOf es))
    {c : Conclusion} (attempts : c.attempts = .int i) : w.Accounts es c := by
  have counts := h.counts
  rw [countP_beatsOf_isPolled, countP_beatsOf_isOpening, Bool.toNat_true] at counts
  obtain ⟨first, last, polls, -, openings, -⟩ := counts
  have same : es.countP Event.isPolled = i := Nat.add_right_cancel polls
  refine ⟨by rw [same, attempts], by omega, by rw [same]; exact last, ?_⟩
  intro hears
  have listens : (w.protocol leaves spends cuts).hooks.onAttempt.isSome = true := hears
  rw [openings, listens, same, Bool.toNat_true, Nat.mul_one]

end Waiter

/-- An execution that can be reached is in pace. -/
theorem Session.Reachable.inPace {a : Asynchronous σ} {s : Session σ} (h : s.Reachable a) (run : RunId) :
    InPace a (fun _ _ => True) s run := by
  induction h with
  | init time caller => exact fun x hx => absurd hx (by simp)
  | move m h ih => exact ih.move h m fun _ _ _ => trivial

/-- Attempts are bounded and accounted for.

A blocking run keeps to the limit, and its conclusion, if it comes to one, is accounted for by the history
that it adds. With more attempts to count down it would be the same run: it is a transition that ends it.

In every session that can be reached, an execution keeps to the limit, and the conclusion of its promise is
accounted for by its journal, if the scheduler has called it back no more often than it was asked to. -/
theorem attempts_accounted :
    (∀ (b : Blocking σ) (w : World σ), ∃ es, (b.run w).2.history = w.history ++ es ∧
      b.waiter.Bounds es ∧ (∀ c, (b.run w).1 = .ok c → b.waiter.Accounts es c) ∧
      ∀ extra, b.rounds (.real (b.clock w.caller.state)) (b.waiter.strategy.limit + extra) 1 w =
        b.run w) ∧
    ∀ (a : Asynchronous σ) (s : Session σ), s.Reachable a → ∀ run, FiresOnce (s.journalOf run) →
      a.waiter.Bounds (s.journalOf run) ∧
      ∀ c, s.promise? run = some (.concluded c) → a.waiter.Accounts (s.journalOf run) c := by
  constructor
  · intro b w
    obtain ⟨es, k, called, history, follows, concludes⟩ := b.run_follows w
    refine ⟨es, history, Waiter.bounds_of_follows follows, ?_, ?_⟩
    · intro c ends
      obtain ⟨rfl, attempts⟩ := concludes c ends
      exact Waiter.accounts_of_follows follows attempts
    · exact fun extra => b.rounds_add _ (Nat.le_refl 1) rfl b.waiter.strategy.limit_pos extra w
  · intro a s reachable run once
    cases hx : s.runs[run]? with
    | none =>
      have journal := (reachable.sound.unknown run hx).1
      rw [journal]
      refine ⟨⟨Nat.zero_le _, Nat.zero_le _, fun n attempts mem => absurd mem List.not_mem_nil⟩, ?_⟩
      intro c concluded
      simp [Session.promise?, hx] at concluded
    | some x =>
      have paced := reachable.inPace run x hx once
      obtain ⟨called, follows⟩ := paced.follows
      refine ⟨Waiter.bounds_of_follows follows, ?_⟩
      intro c concluded
      have promise : x.promise = .concluded c := by simpa [Session.promise?, hx] using concluded
      obtain ⟨follows, attempts⟩ := paced.reports c promise
      exact Waiter.accounts_of_follows follows attempts

/-! ## An example -/

/-- All four hooks are there, and do nothing. -/
def Hooks.listening : Hooks Unit where
  onAttempt := some fun _ => pure ()
  onRetry := some fun _ => pure ()
  onSuccess := some fun _ => pure ()
  onFailure := some fun _ => pure ()

/-- The brisk wait and the brisk execution come to a conclusion that reports two attempts, which a hook has
heard of. -/
theorem attempts_accounted_brisk :
    (∃ c, ((Blocking.brisk .listening).run ⟨⟨(), 0, []⟩, []⟩).1 = .ok c ∧ c.attempts = .int 2 ∧
      ((Blocking.brisk .listening).run ⟨⟨(), 0, []⟩, []⟩).2.history.countP Event.isOpening = 2) ∧
    ∃ c, (Session.brisk .listening 4).promise? 0 = some (.concluded c) ∧ c.attempts = .int 2 ∧
      ((Session.brisk .listening 4).journalOf 0).countP Event.isOpening = 2 := by
  obtain ⟨blocking, asynchronous⟩ := @attempts_accounted Unit
  constructor
  · obtain ⟨es, history, -, accounts, -⟩ := blocking (.brisk .listening) ⟨⟨(), 0, []⟩, []⟩
    have ends : ((Blocking.brisk .listening).run ⟨⟨(), 0, []⟩, []⟩).1.isOk = true := by decide +kernel
    have polls : ((Blocking.brisk .listening).run ⟨⟨(), 0, []⟩, []⟩).2.history.countP Event.isPolled = 2 := by
      decide +kernel
    rcases hc : ((Blocking.brisk .listening).run ⟨⟨(), 0, []⟩, []⟩).1 with e | c
    · rw [hc] at ends
      exact nomatch ends
    · have accounted := accounts c hc
      rw [history, List.nil_append] at polls ⊢
      exact ⟨c, rfl, accounted.attempts.trans (by rw [polls]; rfl),
        (accounted.openings rfl).trans polls⟩
  · have once : FiresOnce ((Session.brisk .listening 4).journalOf 0) := by decide +kernel
    have success : (Session.brisk .listening 4).succeeds = true := by decide +kernel
    have polls : ((Session.brisk .listening 4).journalOf 0).countP Event.isPolled = 2 := by
      decide +kernel
    obtain ⟨-, accounts⟩ := asynchronous _ _ (Session.brisk_reachable .listening 4) 0 once
    obtain ⟨x, hx, concluded⟩ := (Option.any_eq_true _ _).1 success
    cases hp : x.promise with
    | concluded c =>
      have promise : (Session.brisk .listening 4).promise? 0 = some (.concluded c) := by
        rw [Session.promise?, hx, Option.map_some, hp]
      have accounted := accounts c promise
      exact ⟨c, promise, accounted.attempts.trans (by rw [polls]; rfl),
        (accounted.openings rfl).trans polls⟩
    | _ => simp [hp, Promise.isConcluded] at concluded

end Polling
