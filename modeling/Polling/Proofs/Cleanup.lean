import Polling.Proofs.Backlog
import Polling.Proofs.Cancellation
import Polling.Proofs.Errands
import Polling.Proofs.Tracking

/-!
# Cancellation leaves nothing behind

A callback that the scheduler has been left with lingers from the entry of its handle until the scheduler
calls back (`Lingers`). As long as the scheduler calls back no more often than it was asked to, an
execution knows of everything that is under way for it (`Session.Tended`): of a lingering callback by its
handle, and of a watched poll. Once its promise is cancelled and the settling has been passed on, all of
it has been cancelled too. By then the loop has run no more than what was queued at the cancellation:
`Reachable.clean_of_cancelled`.

To cancel a handle of the loop's own is to take the timer back, and none is left for the execution then
(`disarmed_of_cancelled`). To cancel one of a scheduler of the caller's is to run the code with which that
scheduler cancels (`Asynchronous.withdraw_custom`).
-/

namespace Polling

/-- A journal contains the entry of a handle, and the scheduler has not called back since. -/
structure Lingers (J : List Event) (h : Handle) (since : List Event) : Prop where
  held : ∃ before, J = before ++ .held h :: since
  unfired : Event.fired ∉ since

namespace Lingers

/-- A handle in a journal was entered in its first part or in its second. -/
theorem append {J es since : List Event} {h : Handle} (lingers : Lingers (J ++ es) h since) :
    (∃ since', since = since' ++ es ∧ Lingers J h since') ∨ Lingers es h since := by
  obtain ⟨⟨before, split⟩, unfired⟩ := lingers
  rcases List.append_eq_append_iff.1 split with ⟨mid, rfl, hes⟩ | ⟨mid, rfl, hsince⟩
  · exact .inr ⟨⟨mid, hes⟩, unfired⟩
  · cases mid with
    | nil => exact .inr ⟨⟨[], hsince.symm⟩, unfired⟩
    | cons e mid =>
      obtain ⟨rfl, rfl⟩ := List.cons.inj hsince
      exact .inl ⟨mid, rfl, ⟨before, rfl⟩, fun mem => unfired (List.mem_append_left _ mem)⟩

theorem mem {J since : List Event} {h : Handle} (lingers : Lingers J h since) : Event.held h ∈ J := by
  obtain ⟨before, rfl⟩ := lingers.held
  simp

/-- Entries without a handle leave what has lingered before. -/
theorem of_unheld {J es since : List Event} {h : Handle} (lingers : Lingers (J ++ es) h since)
    (unheld : ∀ e ∈ es, e.isHeld = false) : ∃ since', since = since' ++ es ∧ Lingers J h since' := by
  rcases lingers.append with before | here
  · exact before
  · exact absurd (unheld _ here.mem) (by simp [Event.isHeld])

/-- Where something lingers, the scheduler has not called back at the end. -/
theorem of_fires {J since : List Event} {h : Handle} {k : Nat}
    (lingers : Lingers (J ++ List.replicate k Event.fired) h since) : k = 0 ∧ Lingers J h since := by
  have unheld : ∀ e ∈ List.replicate k Event.fired, e.isHeld = false := by
    intro e he
    rw [List.eq_of_mem_replicate he]
    rfl
  obtain ⟨since', rfl, before⟩ := lingers.of_unheld unheld
  cases k with
  | zero => exact ⟨rfl, by simpa using before⟩
  | succ k => exact absurd lingers.unfired (by simp [List.replicate_succ])

end Lingers

namespace Session

variable {a : Asynchronous σ} {s s' : Session σ} {run : RunId} {x : Execution}

/-- The promise of an execution was cancelled, and its settling has been passed on. -/
def Swept (s : Session σ) (run : RunId) (x : Execution) : Prop :=
  x.promise = .cancelled ∧ s.settlings run = 0

/-- An execution knows of all that is under way for it, and has cancelled all of it after its promise was
cancelled. -/
structure Tended (a : Asynchronous σ) (s : Session σ) (run : RunId) (x : Execution) : Prop where
  alone : ∀ h since, Lingers (s.journalOf run) h since → s.due run = 0 ∧ s.inFlight run = 0
  handle : ¬ Swept s run x → ∀ h since, Lingers (s.journalOf run) h since → x.handle = some h
  poll : ¬ Swept s run x → ∀ id, (id, run) ∈ s.watched → x.poll = some id ∧ x.handle = none
  withdrawn : Swept s run x →
    ∀ h since, Lingers (s.journalOf run) h since → .withdrawn h ∈ since
  stopped : Swept s run x → ∀ id, (id, run) ∈ s.watched → .stopped id ∈ s.journalOf run
  cleared : Swept s run x → a.CancelsReturn → x.handle = none ∧ x.poll = none

/-- While an attempt is queued or a poll is in flight, nothing lingers. -/
theorem Tended.nothing_lingers (h : Tended a s run x) (busy : 0 < s.due run + s.inFlight run)
    (handle : Handle) (since : List Event) : ¬ Lingers (s.journalOf run) handle since := by
  intro late
  obtain ⟨due, inFlight⟩ := h.alone handle since late
  omega

/-- A poll that is watched is in flight. -/
theorem notMem_watched (landed : s.inFlight run = 0) (id : PollId) : (id, run) ∉ s.watched := by
  intro mem
  have none : s.watched.countP (·.2 == run) = 0 := by
    unfold inFlight at landed
    omega
  exact List.countP_eq_zero.1 none _ mem (by simp)

/-- What is not about an execution neither sweeps it nor undoes that. -/
theorem Shifts.swept {k w : Nat} (h : Shifts s s' run k w 0) (hx : s.runs[run]? = some x)
    {y : Execution} (hy : s'.runs[run]? = some y) : Swept s' run y ↔ Swept s run x := by
  obtain ⟨x', hx', hp, -⟩ := h.lookup hy
  obtain rfl := Option.some.inj (hx.symm.trans hx')
  have settles := h.settlings
  simp only [isSettled, hx, hy, Option.map_some, Option.getD_some] at settles
  constructor
  · rintro ⟨cancelled, passed⟩
    rcases hp with kept | ⟨pending, -⟩
    · rw [kept] at cancelled settles
      exact ⟨cancelled, by omega⟩
    · -- a promise that is cancelled meanwhile has a settling to be passed on
      simp [pending, cancelled, passed, Promise.isSettled] at settles
  · rintro ⟨cancelled, passed⟩
    have kept := Promise.eq_of_orCancelled hp (by rw [cancelled]; rfl)
    rw [kept] at settles
    exact ⟨kept.trans cancelled, by omega⟩

/-- What is not about an execution keeps it tended. -/
theorem Shifts.tended {k : Nat} (h : Shifts s s' run k 0 0) (hx : s.runs[run]? = some x)
    (tended : Tended a s run x) {y : Execution} (hy : s'.runs[run]? = some y) : Tended a s' run y := by
  have swept := h.swept hx hy
  obtain ⟨x', hx', -, same⟩ := h.lookup hy
  obtain rfl := Option.some.inj (hx.symm.trans hx')
  have handle : y.handle = x.handle := by rw [same]
  have poll : y.poll = x.poll := by rw [same]
  have watched : ∀ id, (id, run) ∈ s'.watched → (id, run) ∈ s.watched := fun id mem =>
    (h.watched id mem).resolve_right (Nat.lt_irrefl 0)
  have lingers : ∀ {h since}, Lingers (s'.journalOf run) h since →
      k = 0 ∧ Lingers (s.journalOf run) h since := by
    intro handle since late
    rw [h.journal] at late
    exact late.of_fires
  -- neither the handle and the poll it knows of nor what lingers has changed
  constructor
  · intro handle since late
    obtain ⟨rfl, before⟩ := lingers late
    have alone := tended.alone handle since before
    exact ⟨h.due.trans alone.1, h.inFlight.trans alone.2⟩
  · intro unswept h since late
    rw [handle]
    exact tended.handle (mt swept.2 unswept) h since (lingers late).2
  · intro unswept id mem
    rw [handle, poll]
    exact tended.poll (mt swept.2 unswept) id (watched id mem)
  · intro done h since late
    exact tended.withdrawn (swept.1 done) h since (lingers late).2
  · intro done id mem
    rw [h.journal]
    exact List.mem_append_left _ (tended.stopped (swept.1 done) id (watched id mem))
  · intro done returns
    rw [handle, poll]
    exact tended.cleared (swept.1 done) returns

/-! ## Callbacks of the execution -/

/-- A callback begins in a fresh frame. -/
theorem frame_fresh (s : Session σ) (run : RunId) (x : Execution) : (s.frame run x).Fresh :=
  ⟨by simp [frame], rfl⟩

variable {s₀ : Session σ} {f : Frame σ} {k : Nat} {es : List Event} {os : List Order} {y : Execution}

/-- A callback that begins while the promise is pending and nothing is under way leaves the execution
tended, if the execution knows of what the callback leaves. -/
theorem Ran.tended_of_pending (h : Ran s s' run x f k) (grows : Frame.Grows (s₀.frame run x) f es os)
    (tracks : f.Tracks) (pending : x.promise.isSettled = false) (due : s.due run = 0)
    (inFlight : s.inFlight run = 0) (nothing : ∀ h since, ¬ Lingers (s.journalOf run) h since)
    (hy : s'.runs[run]? = some y) : Tended a s' run y := by
  obtain ⟨p, hp, grown⟩ := h.grown grows
  obtain rfl := Option.some.inj (grown.lookup.symm.trans hy)
  have history : f.world.history = es := grows.history
  have orders : f.orders = os := grows.orders
  -- what lingers after it is a handle that the callback was left with
  have lingers : ∀ {h since}, Lingers (s'.journalOf run) h since →
      k = 0 ∧ f.execution.handle = some h ∧ os.countP Order.isWatch = 0 := by
    intro h since late
    rw [grown.journal] at late
    obtain ⟨none, late⟩ := late.of_fires
    rcases late.append with ⟨since', -, before⟩ | here
    · exact absurd before (nothing h since')
    · obtain ⟨held, unwatched⟩ := tracks.held h (by rw [history]; exact here.mem)
      rw [orders] at unwatched
      exact ⟨none, held, unwatched⟩
  -- if the promise has been cancelled by now, its settling is still to be passed on
  have unswept : ¬ Swept s' run { f.execution with promise := p } := by
    rintro ⟨cancelled, passed⟩
    obtain rfl : p = .cancelled := cancelled
    have settles : s'.settlings run + x.promise.isSettled.toNat = s.settlings run + 1 := grown.settlings
    rw [pending, passed] at settles
    exact absurd settles (by simp)
  refine ⟨?_, ?_, ?_, fun done => absurd done unswept, fun done => absurd done unswept,
    fun done => absurd done unswept⟩
  · intro h since late
    obtain ⟨rfl, -, unwatched⟩ := lingers late
    exact ⟨by rw [grown.due, due], by rw [grown.inFlight, inFlight, unwatched]⟩
  · intro _ h since late
    exact (lingers late).2.1
  · intro _ id mem
    rcases h.watched id mem with before | ordered
    · exact absurd before (notMem_watched inFlight id)
    · exact tracks.watched id ordered

/-- What lingers after a callback that only tidies up has lingered before it. -/
theorem Ran.lingers (h : Ran s s' run x f k) (tidies : Frame.Tidies (s₀.frame run x) f es os)
    {handle : Handle} {since : List Event} (late : Lingers (s'.journalOf run) handle since) :
    k = 0 ∧ ∃ since', since = since' ++ es ∧ Lingers (s.journalOf run) handle since' := by
  obtain ⟨p, -, grown⟩ := h.grown tidies.toGrows
  rw [grown.journal] at late
  obtain ⟨none, late⟩ := late.of_fires
  exact ⟨none, late.of_unheld fun e he => Event.isHeld_of_isTidying (tidies.tidying e he)⟩

/-- Nor does it begin to watch a poll. -/
theorem Ran.watched_before (h : Ran s s' run x f k) (tidies : Frame.Tidies (s₀.frame run x) f es os)
    {id : PollId} (mem : (id, run) ∈ s'.watched) : (id, run) ∈ s.watched := by
  rcases h.watched id mem with before | ordered
  · exact before
  · have orders : f.orders = os := tidies.orders
    rw [orders] at ordered
    exact absurd ordered (Order.notMem_watch tidies.unwatched id)

/-- A callback that comes too late for its promise leaves the execution tended. -/
theorem Ran.tended_of_late (h : Ran s s' run x f k) (tidies : Frame.Tidies (s₀.frame run x) f es os)
    (settled : x.promise.isSettled = true) (inFlight : s.inFlight run = 0)
    (nothing : ∀ h since, ¬ Lingers (s.journalOf run) h since)
    (cleared : Swept s run x → a.CancelsReturn → f.execution.handle = none ∧ f.execution.poll = none)
    (hy : s'.runs[run]? = some y) : Tended a s' run y := by
  have grown := h.grown_of_isSettled tidies.toGrows settled
  obtain rfl := Option.some.inj (grown.lookup.symm.trans hy)
  have same := Nat.add_right_cancel grown.settlings
  have lingers : ∀ h since, ¬ Lingers (s'.journalOf run) h since := by
    intro handle since late
    obtain ⟨-, since', -, before⟩ := h.lingers tidies late
    exact nothing handle since' before
  have watched : ∀ id, (id, run) ∉ s'.watched := fun id mem =>
    notMem_watched inFlight id (h.watched_before tidies mem)
  exact ⟨fun h since late => absurd late (lingers h since),
    fun _ h since late => absurd late (lingers h since),
    fun _ id mem => absurd mem (watched id), fun _ h since late => absurd late (lingers h since),
    fun _ id mem => absurd mem (watched id), fun done => cleared ⟨done.1, same ▸ done.2⟩⟩

/-- What follows the settling of the promise leaves the execution tended: what it knows of is cancelled
if the promise is. -/
theorem Ran.tended_of_settling (h : Ran s s' run x (a.settled (s₀.frame run x)).2 k)
    (settled : x.promise.isSettled = true) (passed : s.settlings run = 0)
    (alone : ∀ h since, Lingers (s.journalOf run) h since → s.due run = 0 ∧ s.inFlight run = 0)
    (handle : ∀ h since, Lingers (s.journalOf run) h since → x.handle = some h)
    (poll : ∀ id, (id, run) ∈ s.watched → x.poll = some id ∧ x.handle = none)
    (hy : s'.runs[run]? = some y) : Tended a s' run y := by
  obtain ⟨es, os, tidies⟩ := a.settled_tidies (s₀.frame run x)
  have grown := h.grown_of_isSettled tidies.toGrows settled
  obtain rfl := Option.some.inj (grown.lookup.symm.trans hy)
  have same := Nat.add_right_cancel grown.settlings
  have history : (a.settled (s₀.frame run x)).2.world.history = es := tidies.history
  have alone' : ∀ h since, Lingers (s'.journalOf run) h since →
      s'.due run = 0 ∧ s'.inFlight run = 0 := by
    intro handle since late
    obtain ⟨rfl, since', -, before⟩ := h.lingers tidies late
    obtain ⟨due, inFlight⟩ := alone handle since' before
    exact ⟨by rw [grown.due, due], by rw [grown.inFlight, inFlight, tidies.unwatched]⟩
  by_cases cancelled : x.promise = .cancelled
  · -- this is the callback that sweeps, and until now the execution knew of all that was under way
    have swept : Swept s' run
        { (a.settled (s₀.frame run x)).2.execution with promise := x.promise } :=
      ⟨cancelled, same.trans passed⟩
    refine ⟨alone', fun unswept => absurd swept unswept, fun unswept => absurd swept unswept, ?_, ?_,
      ?_⟩
    · intro _ handle' since late
      obtain ⟨-, since', rfl, before⟩ := h.lingers tidies late
      have withdrawn := Asynchronous.settled_withdraws (a := a) (f := s₀.frame run x) cancelled
        (handle handle' since' before)
      rw [history] at withdrawn
      exact List.mem_append_right _ withdrawn
    · -- a poll is stopped even if cancelling a handle raises: while one is watched, there is no handle
      intro _ id mem
      obtain ⟨known, unheld⟩ := poll id (h.watched_before tidies mem)
      have stopped := Asynchronous.settled_stops (a := a) (f := s₀.frame run x) cancelled unheld known
      rw [history] at stopped
      rw [grown.journal]
      simp [stopped]
    · exact fun _ returns => Asynchronous.settled_clears returns (f := s₀.frame run x) cancelled
  · -- after any other settling nothing is done, and nothing has to be
    have unswept : ¬ Swept s' run
        { (a.settled (s₀.frame run x)).2.execution with promise := x.promise } :=
      fun swept => cancelled swept.1
    rw [a.settled_of_uncancelled (f := s₀.frame run x) cancelled]
    rw [a.settled_of_uncancelled (f := s₀.frame run x) cancelled] at unswept
    refine ⟨alone', ?_, ?_, fun swept => absurd swept unswept, fun swept => absurd swept unswept,
      fun swept => absurd swept unswept⟩
    · intro _ handle' since late
      obtain ⟨-, since', -, before⟩ := h.lingers tidies late
      exact handle handle' since' before
    · exact fun _ id mem => poll id (h.watched_before tidies mem)

/-! ## Moves -/

/-- As long as the scheduler calls back no more often than it was asked to, an execution is tended. -/
def Tends (a : Asynchronous σ) (s : Session σ) (run : RunId) : Prop :=
  ∀ x, s.runs[run]? = some x → FiresOnce (s.journalOf run) → Tended a s run x

/-- A move keeps every execution tended. -/
theorem Reachable.tends_move (h : s.Reachable a) (ih : Tends a s run) (m : Move σ) :
    Tends a (s.move a m) run := by
  intro y hy once
  have earlier : FiresOnce (s.journalOf run) := by
    obtain ⟨es, journal, -⟩ := journalOf_move (a := a) h.sound m run
    exact once.of_prefix ⟨es, journal.symm⟩
  have sequence := h.inSequence run
  cases move_effect a h.sound m run with
  | other aside shifts =>
    obtain ⟨x, hx, -⟩ := shifts.lookup hy
    exact shifts.tended hx (ih x hx earlier) hy
  | @start x k new fresh ran =>
    obtain ⟨journal, due, inFlight, -⟩ := h.sound.unknown run (by simp [new])
    obtain ⟨es, os, attempts⟩ := a.attempt_attempts run s.loop.time (s.frame run x)
    have tracks := a.attempt_tracks run s.loop.time (frame_fresh s run x)
    refine ran.tended_of_pending attempts.grows tracks (by rw [fresh]; rfl) due inFlight ?_ hy
    intro handle since late
    rw [show (s.add x).journalOf run = [] from journal] at late
    exact absurd late.mem (by simp)
  | @attempt l x k taken ran =>
    -- the attempt taken was the one thing to come, so nothing lingers or is watched when it begins
    have tended := ih x ran.lookup earlier
    obtain ⟨-, due, inFlight⟩ := sequence.attempt_taken h.sound ran.lookup earlier taken
    have queued : s.settlings run = _ := h.sound.settlings_taken taken rfl
    have counted := (h.sound.attempt_taken taken).1
    have nothing := tended.nothing_lingers (by omega)
    cases settled : x.promise.isSettled with
    | false =>
      obtain ⟨es, os, attempts⟩ := a.attempt_attempts run l.time (s.frame run x)
      have tracks := a.attempt_tracks run l.time (frame_fresh s run x)
      exact ran.tended_of_pending attempts.grows tracks settled due inFlight nothing hy
    | true =>
      obtain ⟨es, os, tidies⟩ := a.attempt_tidies run l.time (f := s.frame run x) settled
      refine ran.tended_of_late tidies settled inFlight nothing ?_ hy
      rintro ⟨cancelled, passed⟩ returns
      obtain ⟨-, poll⟩ := tended.cleared ⟨cancelled, queued.trans passed⟩ returns
      rw [a.attempt_execution run l.time (f := s.frame run x) settled]
      exact ⟨rfl, poll⟩
  | @pollEnded l ending x k taken ran =>
    -- and so was the poll
    have tended := ih x ran.lookup earlier
    obtain ⟨-, due, inFlight⟩ := sequence.pollEnded_taken h.sound ran.lookup earlier taken
    have queued : s.settlings run = _ := h.sound.settlings_taken taken rfl
    have counted := (h.sound.pollEnded_taken taken).2
    have nothing : ∀ handle since,
        ¬ Lingers (({ s with loop := l }.enter run (.ended ending)).journalOf run) handle since := by
      intro handle since late
      rw [journalOf_enter] at late
      obtain ⟨since', -, before⟩ := late.of_unheld (by simp [Event.isHeld])
      exact tended.nothing_lingers (by omega) handle since' before
    cases settled : x.promise.isSettled with
    | false =>
      obtain ⟨es, os, takes⟩ := a.pollEnded_takes run l.time ending (s.frame run x)
      have tracks := a.pollEnded_tracks run l.time ending (frame_fresh s run x)
      exact ran.tended_of_pending takes.grows tracks settled due inFlight nothing hy
    | true =>
      obtain ⟨es, os, tidies⟩ := a.pollEnded_tidies run l.time ending (f := s.frame run x) settled
      refine ran.tended_of_late tidies settled inFlight nothing ?_ hy
      rintro ⟨cancelled, passed⟩ returns
      obtain ⟨handle, -⟩ := tended.cleared ⟨cancelled, queued.trans passed⟩ returns
      rw [a.pollEnded_execution run l.time ending (f := s.frame run x) settled]
      exact ⟨handle, rfl⟩
  | @settled l x k taken ran =>
    have tended := ih x ran.lookup earlier
    obtain ⟨due, inFlight⟩ := h.sound.settled_taken taken
    obtain ⟨settled, queued, passed⟩ := h.settling_taken ran.lookup taken
    -- a promise passes its settling on once, and this is it
    have unswept : ¬ Swept s run x := by
      rintro ⟨-, none⟩
      omega
    refine ran.tended_of_settling settled passed ?_ (tended.handle unswept) (tended.poll unswept) hy
    intro handle since late
    rw [← due, ← inFlight]
    exact tended.alone handle since late

/-- In every session that can be reached, every execution is tended. -/
theorem Reachable.tends (h : s.Reachable a) (run : RunId) : Tends a s run := by
  induction h with
  | init time caller => exact fun x hx => absurd hx (by simp)
  | move m h ih => exact h.tends_move ih m

/-- A cancellation leaves nothing behind. Once the loop has run as many callbacks as were ready then, every
scheduled attempt that the scheduler has not called back for has been cancelled by its handle, and every
poll that is still watched has been told to stop. If what cancels them returns, the execution keeps neither
a handle nor a poll. -/
theorem Reachable.clean_of_cancelled (h : s.Reachable a) (cancelled : s.promise? run = some .cancelled)
    (ms : List (Move σ)) (turns : s.ready.length ≤ ms.countP Move.isTurn)
    (once : FiresOnce ((s.moves a ms).journalOf run)) :
    ∃ x, (s.moves a ms).runs[run]? = some x ∧ x.promise = .cancelled ∧
      (∀ handle since, Lingers ((s.moves a ms).journalOf run) handle since → .withdrawn handle ∈ since) ∧
      (∀ id, (id, run) ∈ (s.moves a ms).watched → .stopped id ∈ (s.moves a ms).journalOf run) ∧
      (a.CancelsReturn → x.handle = none ∧ x.poll = none) := by
  obtain ⟨es, quiet⟩ := h.quiesces cancelled rfl ms
  obtain ⟨x, hx, promise⟩ := Option.map_eq_some_iff.1 quiet.promise
  -- by now the settling has been passed on, so what is under way has been swept
  have passed := h.settlings_eq_zero (a := a) cancelled rfl (s.settlesWithin_length run) ms turns
  have swept : Swept (s.moves a ms) run x := ⟨promise, passed⟩
  have tended := (h.moves ms).tends run x hx once
  exact ⟨x, hx, promise, tended.withdrawn swept, tended.stopped swept, tended.cleared swept⟩

end Session

/-! ## The timer of the loop -/

namespace Asynchronous

variable {a : Asynchronous σ} {run : RunId} {f : Frame σ}

/-- Stopping a poll leaves only orders for what the code that stops it asks for. -/
theorem stop_leaves {e : Errand} (idle : f.world.caller.requests = [])
    (brings : ∀ id, f.execution.poll = some id → (a.cancelPoll id).BringsNo e) (run : RunId) :
    ∃ os, (a.stop f).2.orders = f.orders ++ os ∧ ∀ o ∈ os, o.brings run e = false := by
  cases poll : f.execution.poll with
  | none =>
    rw [a.stop_of_none poll]
    exact ⟨[], by simp, by simp⟩
  | some id =>
    obtain ⟨os, orders, unset⟩ := Step.orders_of_perform_call (brings id poll) run (.stopped id) idle
    refine ⟨os, ?_, unset⟩
    rw [a.stop_of_some poll]
    rcases hc : Step.perform (Act.call (.stopped id) (a.cancelPoll id)) f with ⟨e | ⟨⟩, g⟩ <;>
      rw [hc] at orders <;> exact orders

/-- After a cancellation, the timer that the execution keeps is ordered to be taken back, and no order
that follows sets it again, unless the code that stops the poll asks for that. -/
theorem settled_takes_back (cancelled : f.execution.promise = .cancelled)
    (kept : f.execution.handle = some .timer)
    (brings : ∀ id, f.execution.poll = some id → (a.cancelPoll id).BringsNo (.fire run)) :
    ∃ before after, (a.settled f).2.orders = before ++ .stopTimer :: after ∧
      ∀ o ∈ after, o.brings run (.fire run) = false := by
  obtain ⟨g, same, idle, apply⟩ := a.settled_apply cancelled
  have handle : g.execution.handle = some .timer := by rw [same]; exact kept
  have poll : g.execution.poll = f.execution.poll := by rw [same]
  have withdrawn := a.withdraw_timer handle
  obtain ⟨after, orders, unset⟩ := stop_leaves (a := a) (f := (a.withdraw g).2) (e := .fire run)
    (by rw [withdrawn]; exact idle) (by rw [withdrawn]; exact poll ▸ brings) run
  refine ⟨g.orders, after, ?_, unset⟩
  rw [withdrawn] at orders
  rw [apply, withdrawn, orders]
  simp [Frame.order, Frame.enter]

end Asynchronous

namespace Session

variable {a : Asynchronous σ} {s : Session σ} {run : RunId} {x : Execution}

/-- The turn that passes on a cancellation takes back the timer that the execution keeps: no call from a
timer is under way for it any more. -/
theorem disarmed_of_cancelled {l : EventLoop Callback} (taken : s.loop.take = (some (.settled run), l))
    (hx : s.runs[run]? = some x) (cancelled : x.promise = .cancelled) (kept : x.handle = some .timer)
    (brings : ∀ id, x.poll = some id → (a.cancelPoll id).BringsNo (.fire run)) :
    (s.move a .turn).pending (.fire run) = 0 := by
  obtain ⟨before, after, orders, unset⟩ :=
    Asynchronous.settled_takes_back (f := s.frame run x) cancelled kept brings
  have disarmed := pending_foldl_obey_stopTimer before unset
    ({ s with loop := l }.record run (a.settled (s.frame run x)).2)
  have performed := step_eq (s := { s with loop := l }) hx a.settled
  have same : frame { s with loop := l } run x = s.frame run x := rfl
  rw [same, orders] at performed
  simp only [Session.move, taken, perform, performed]
  split
  · exact disarmed
  · rw [pending_report]
    exact disarmed

end Session

/-! ## An example -/

/-- Is a poll told to stop? -/
def Event.isStopped (poll : PollId) : Event → Bool
  | .stopped p => p == poll
  | _ => false

/-- Executions whose first poll ends at once, while all later ones stay under way. The scheduler does not
call back of its own accord, and code of the caller's cancels its handles. -/
def Asynchronous.idle (cancel : Code Unit Unit) : Asynchronous Unit where
  waiter := { Waiter.brisk {} with
    scheduler := some (.custom (fun _ _ => pure 0) fun _ => cancel) }
  operation _ call := do
    if call = 1 then Code.ask (.finish call (.value .null))
    return .poll call
  cancelPoll _ := pure ()
  resume _ := pure ()
  wake _ := pure ()

theorem Asynchronous.idle_cancelsReturn : (idle (pure ())).CancelsReturn where
  handle := by
    intro schedule cancel h id c e raised
    obtain ⟨-, rfl⟩ := Scheduler.custom.inj h
    exact nomatch raised
  poll := fun id c e raised => nomatch raised

/-- Cancelling a handle may raise a fault. -/
def Code.refusing : Code Unit Unit := throw (.plain .runtime [])

namespace Session

/-- Such an execution while its second attempt is with the scheduler, cancelled after the scheduler has
called back so many times. -/
def idle (cancel : Code Unit Unit) (fires : Nat) : Session Unit :=
  moves (.idle cancel) { loop := { time := .finite false 0 }, caller := { state := () } } <|
    [.start, .turn] ++ (List.replicate fires [.outside 0 (Code.ask (.fire 0)), .turn]).flatten ++
      [.outside 0 (Code.ask (.cancel 0))]

theorem idle_reachable (cancel : Code Unit Unit) (fires : Nat) :
    (idle cancel fires).Reachable (.idle cancel) :=
  (Reachable.init _ _).moves _

/-- The cancelled execution has kept a handle, and the turn that follows withdraws it. -/
theorem clean_of_cancelled_idle :
    (∀ x ∈ (idle (pure ()) 0).runs[0]?, x.handle = some (.custom 0)) ∧
    ∃ x, ((idle (pure ()) 0).moves (.idle (pure ())) [.turn]).runs[0]? = some x ∧
      x.promise = .cancelled ∧ x.handle = none ∧ x.poll = none := by
  have cancelled : (idle (pure ()) 0).promise? 0 = some .cancelled := by decide +kernel
  have turns : (idle (pure ()) 0).ready.length ≤ ([.turn] : List (Move Unit)).countP Move.isTurn := by
    decide +kernel
  have once : FiresOnce (((idle (pure ()) 0).moves (.idle (pure ())) [.turn]).journalOf 0) := by
    decide +kernel
  obtain ⟨x, hx, promise, -, -, cleared⟩ :=
    (idle_reachable (pure ()) 0).clean_of_cancelled cancelled [.turn] turns once
  exact ⟨by decide +kernel, x, hx, promise, cleared Asynchronous.idle_cancelsReturn⟩

/-- The scheduler has to keep to calling back once: called back twice, the execution has begun two polls,
and only one of them is told to stop. And a handle whose cancelling raises a fault is kept. -/
theorem cancelled_not_clean :
    (¬ ∀ (s : Session Unit) (ms : List (Move Unit)), s.Reachable (.idle (pure ())) →
      s.promise? 0 = some .cancelled → s.ready.length ≤ ms.countP Move.isTurn →
      ∀ id, (id, 0) ∈ (s.moves (.idle (pure ())) ms).watched →
        .stopped id ∈ (s.moves (.idle (pure ())) ms).journalOf 0) ∧
    ¬ ∀ (s : Session Unit) (ms : List (Move Unit)), s.Reachable (.idle .refusing) →
      s.promise? 0 = some .cancelled → s.ready.length ≤ ms.countP Move.isTurn →
      FiresOnce ((s.moves (.idle .refusing) ms).journalOf 0) →
      ∀ x, (s.moves (.idle .refusing) ms).runs[0]? = some x → x.handle = none ∧ x.poll = none := by
  constructor
  · intro stops
    have stopped := stops (idle (pure ()) 2) [.turn] (idle_reachable _ _) (by decide +kernel)
      (by decide +kernel) 2 (by decide +kernel)
    have unstopped : (((idle (pure ()) 2).moves (.idle (pure ())) [.turn]).journalOf 0).countP
        (Event.isStopped 2) = 0 := by decide +kernel
    exact absurd (List.countP_eq_zero.1 unstopped _ stopped) (by simp [Event.isStopped])
  · intro clears
    have started : (((idle .refusing 0).moves (.idle .refusing) [.turn]).runs[0]?).isSome = true := by
      decide +kernel
    obtain ⟨x, hx⟩ := Option.isSome_iff_exists.1 started
    have held : ∀ x ∈ ((idle .refusing 0).moves (.idle .refusing) [.turn]).runs[0]?,
        x.handle = some (.custom 0) := by decide +kernel
    have none := (clears (idle .refusing 0) [.turn] (idle_reachable _ _) (by decide +kernel)
      (by decide +kernel) (by decide +kernel) x hx).1
    exact nomatch none.symm.trans (held x hx)

end Session

end Polling
