import Polling.Proofs.Callbacks

/-!
# What an execution knows of

An execution keeps the handle of the attempt that it has scheduled and the poll that it watches, so that
it can take both back when it is cancelled. `Frame.Tracks` says that it knows of all that a callback has
left: a handle that the callback was given is the one kept, and a poll that is to be watched is the one
known of. `attempt_tracks` and `pollEnded_tracks` are the two callbacks that leave something.

`settled_withdraws`, `settled_stops` and `settled_clears` are what the callback behind a cancellation
does about it.
-/

namespace Polling

namespace Event

/-- Is an entry about a handle that the scheduler has left? -/
def isHeld : Event → Bool
  | .held _ => true
  | _ => false

theorem isHeld_of_isTidying {e : Event} (h : e.isTidying = true) : e.isHeld = false := by
  cases e <;> first | rfl | exact nomatch h

end Event

namespace Frame

/-- In a callback, nothing has been left yet. -/
structure Fresh (f : Frame σ) : Prop where
  unheld : ∀ e ∈ f.world.history, e.isHeld = false
  unwatched : f.orders.countP Order.isWatch = 0

/-- The execution knows of what a callback has left: of a handle, or of a poll to watch. -/
structure Tracks (f : Frame σ) : Prop where
  held : ∀ h, Event.held h ∈ f.world.history →
    f.execution.handle = some h ∧ f.orders.countP Order.isWatch = 0
  watched : ∀ id, Order.watch id ∈ f.orders →
    f.execution.poll = some id ∧ f.execution.handle = none

theorem Fresh.tracks {f : Frame σ} (h : f.Fresh) : f.Tracks where
  held := fun handle mem => absurd (h.unheld _ mem) (by simp [Event.isHeld])
  watched := fun id mem => absurd mem (Order.notMem_watch h.unwatched id)

/-- A frame that evolves without a handle stays fresh. -/
theorem Fresh.evolves {f f' : Frame σ} {es : List Event} {os : List Order} (h : f.Fresh)
    (evolves : Evolves f f' es os) (unheld : ∀ e ∈ es, e.isHeld = false) : f'.Fresh where
  unheld := by
    intro e he
    rw [evolves.history] at he
    exact List.forall_mem_append.2 ⟨h.unheld, unheld⟩ e he
  unwatched := by rw [evolves.orders, List.countP_append, h.unwatched, evolves.unwatched]

/-- Neither entries nor orders matter to a change of the execution. -/
theorem Fresh.change {f : Frame σ} (h : f.Fresh) (x : Execution) : ({ f with execution := x }).Fresh :=
  ⟨h.unheld, h.unwatched⟩

/-- A handle that is kept in a fresh frame is the one it knows of. -/
theorem Fresh.hold {f : Frame σ} (h : f.Fresh) (handle : Handle) {os : List Order}
    (unwatched : os.countP Order.isWatch = 0) : (f.hold handle os).Tracks := by
  have none : (f.hold handle os).orders.countP Order.isWatch = 0 := by
    rw [hold_orders, List.countP_append, h.unwatched, unwatched]
  constructor
  · intro handle' mem
    rcases List.mem_append.1 mem with before | here
    · exact absurd (h.unheld _ before) (by simp [Event.isHeld])
    · obtain rfl : handle' = handle := by simpa using here
      exact ⟨rfl, none⟩
  · exact fun id mem => absurd mem (Order.notMem_watch none id)

/-- A poll that is watched from a fresh frame is the one it knows of. -/
theorem Fresh.watch {f : Frame σ} (h : f.Fresh) (handle : f.execution.handle = none) (id : PollId) :
    ({ f with execution := { f.execution with poll := some id } }.order (.watch id)).Tracks := by
  constructor
  · intro handle mem
    exact absurd (h.unheld _ mem) (by simp [Event.isHeld])
  · intro id' mem
    rcases List.mem_append.1 mem with before | here
    · exact absurd before (Order.notMem_watch h.unwatched id')
    · obtain rfl : id' = id := by simpa using here
      exact ⟨rfl, handle⟩

end Frame

namespace Step

/-- A part of a callback that leaves nothing. -/
def Fresh (s : Step σ α) : Prop := ∀ f : Frame σ, f.Fresh → (s f).2.Fresh

theorem fresh_pure (x : α) : Fresh (pure x : Step σ α) := fun _ h => h

theorem fresh_bind {s : Step σ α} {t : α → Step σ β} (hs : Fresh s) (ht : ∀ x, Fresh (t x)) :
    Fresh (s >>= t) := by
  intro f h
  have first := hs f h
  rw [bind_apply]
  rcases hf : s f with ⟨e | x, f'⟩
  · rw [hf] at first
    exact first
  · rw [hf] at first
    exact ht x f' first

theorem fresh_perform {a : Act σ α} (h : a.Enters (·.isHeld = false)) : Fresh (perform a) := by
  intro f fresh
  obtain ⟨es, hes, unheld⟩ := h f.world
  have serves : Frame.Serves f (perform a f).2 es := Frame.absorb_serves hes
  obtain ⟨os, evolves⟩ := serves.evolves
  exact fresh.evolves evolves unheld

theorem fresh_refuse (e : Fault) : Fresh (refuse e : Step σ Unit) := by
  intro f fresh
  obtain ⟨os, evolves⟩ := refuse_evolves e f
  exact fresh.evolves evolves (by simp)

theorem fresh_settle {p : Promise} (h : p.isSettled = true) : Fresh (settle p : Step σ Unit) := by
  intro f fresh
  obtain ⟨os, evolves⟩ := Frame.settle_evolves f h
  exact fresh.evolves evolves (by simp)

end Step

namespace Asynchronous

variable (a : Asynchronous σ) (run : RunId) (now : Binary64)

/-! ## What a callback leaves -/

theorem judge_fresh (o : Outcome) (n : Nat) (started : Value) : (a.judge now o n started).Fresh := by
  apply Step.fresh_bind (Step.fresh_perform (evaluate_enters (fun _ _ => rfl) (fun _ _ => rfl)
    (fun _ => rfl) _ _ _ _ rfl))
  intro t
  apply Step.fresh_bind (Step.fresh_perform (Notifier.tell_enters (fun _ _ => rfl) (fun _ => rfl) _ _ _ _ _))
  intro _
  exact Step.fresh_pure _

theorem handOver_fresh (delay : Number) : (Step.perform (a.handOver run delay)).Fresh := by
  apply Step.fresh_perform
  apply Act.enters_bind (Act.enters_record (by rfl))
  intro _
  exact a.request_enters run (fun _ _ => rfl) delay

/-- Scheduling leaves a handle that the execution keeps. -/
theorem schedule_tracks (delay : Number) {f : Frame σ} (fresh : f.Fresh) :
    (a.schedule run delay f).2.Tracks := by
  cases settled : f.execution.promise.isSettled with
  | true =>
    rw [a.schedule_of_isSettled run delay settled]
    have noted : (Act.note .notScheduling : Act σ Unit).Enters (·.isHeld = false) :=
      Act.enters_record rfl
    exact (Step.fresh_perform noted f fresh).tracks
  | false =>
    have handed := a.handOver_fresh run delay f fresh
    rw [a.schedule_apply run delay settled]
    rcases hh : Step.perform (a.handOver run delay) f with ⟨e | ⟨handle, os⟩, f'⟩
    · rw [hh] at handed
      exact (Step.fresh_refuse e f' handed).tracks
    · rw [hh] at handed
      have unwatched := (a.request_orders run (w := (f.enter (.scheduled delay)).world)
        (Prod.mk.inj hh).1).1
      exact handed.hold handle unwatched

theorem follow_tracks (next : Conclusion ⊕ Number) {f : Frame σ} (fresh : f.Fresh) :
    (a.follow run next f).2.Tracks := by
  cases next with
  | inl c => exact (Step.fresh_settle rfl f fresh).tracks
  | inr delay => exact a.schedule_tracks run delay fresh

theorem conclude_tracks (o : Outcome) {f : Frame σ} (fresh : f.Fresh) :
    (a.conclude run now o f).2.Tracks := by
  have judged := a.judge_fresh now o f.execution.attempt f.execution.started f fresh
  rw [conclude_apply]
  rcases hj : a.judge now o f.execution.attempt f.execution.started f with ⟨e | next, f'⟩
  · rw [hj] at judged
    exact (Step.fresh_refuse e f' judged).tracks
  · rw [hj] at judged
    exact a.follow_tracks run next judged

/-- Calling the operation leaves a poll that the execution knows of. -/
theorem launch_tracks (n : Nat) {f : Frame σ} (fresh : f.Fresh) (unheld : f.execution.handle = none) :
    (a.launch run now n f).2.Tracks := by
  have calls : (Step.perform (Act.call (.polled n) (a.operation run (f.execution.calls + 1)))).Fresh :=
    Step.fresh_perform (Act.enters_call (by rfl) _)
  have called := calls { f with execution := countCall f.execution } (fresh.change _)
  rw [launch_apply]
  rcases hcall : Step.perform (Act.call (.polled n) (a.operation run (f.execution.calls + 1)))
    { f with execution := countCall f.execution } with ⟨result, g⟩
  rw [hcall] at called
  -- the handle was cleared when the attempt began, and code of the caller's does not change that
  have same := congrArg Execution.handle (Step.execution_of_perform hcall)
  have still : g.execution.handle = none := same.trans unheld
  rcases result with e | ⟨id⟩ | _
  · cases ordinary : e.isOrdinary with
    | true => simpa [ordinary] using a.conclude_tracks run now (.raised e) called
    | false => simpa [ordinary] using called.tracks
  · exact called.watch still id
  · exact a.conclude_tracks run now _ called

/-- Of what an attempt leaves, the execution knows. -/
theorem attempt_tracks {f : Frame σ} (fresh : f.Fresh) : (a.attempt run now f).2.Tracks := by
  cases settled : f.execution.promise.isSettled with
  | true =>
    rw [a.attempt_of_isSettled run now settled]
    have noted : (Act.note .skipping : Act σ Unit).Enters (·.isHeld = false) := Act.enters_record rfl
    exact (Step.fresh_perform noted _ (fresh.change _)).tracks
  | false =>
    have opens : (Step.perform ((a.notifier now).opening (f.execution.attempt + 1)
        a.waiter.strategy.limit)).Fresh :=
      Step.fresh_perform (Notifier.opening_enters (fun _ _ => rfl) (fun _ => rfl) _ _ _)
    have opened := opens { f with execution := begin f.execution } (fresh.change _)
    rw [a.attempt_apply run now settled]
    rcases ho : Step.perform ((a.notifier now).opening (f.execution.attempt + 1)
      a.waiter.strategy.limit) { f with execution := begin f.execution } with ⟨e | ⟨⟩, g⟩
    · rw [ho] at opened
      exact (Step.fresh_refuse e g opened).tracks
    · rw [ho] at opened
      have same := congrArg Execution.handle (Step.execution_of_perform ho)
      exact a.launch_tracks run now _ opened same

/-- Of what is left when the result of a poll is taken, the execution knows. -/
theorem pollEnded_tracks (ending : Ending) {f : Frame σ} (fresh : f.Fresh) :
    (a.pollEnded run now ending f).2.Tracks := by
  cases settled : f.execution.promise.isSettled with
  | true =>
    rw [a.pollEnded_of_isSettled run now ending settled]
    have noted : (Act.note (.ignoring f.execution.attempt) : Act σ Unit).Enters (·.isHeld = false) :=
      Act.enters_record rfl
    exact (Step.fresh_perform noted _ (fresh.change _)).tracks
  | false =>
    cases ho : ending.outcome? with
    | some o =>
      rw [a.pollEnded_of_outcome run now ho settled]
      exact a.conclude_tracks run now o (fresh.change _)
    | none =>
      obtain ⟨q, g, serves, tidying, hp, heq, -⟩ := a.pollEnded_of_none run now ho settled
      obtain ⟨os, evolves⟩ := serves.evolves
      have noted := (fresh.change (forget f.execution)).evolves evolves fun e he =>
        Event.isHeld_of_isTidying (tidying e he)
      rw [heq]
      exact (Step.fresh_settle hp g noted).tracks

/-! ## Taking back what is left -/

/-- An attempt that comes too late for its promise clears the handle. -/
theorem attempt_execution {f : Frame σ} (h : f.execution.promise.isSettled = true) :
    (a.attempt run now f).2.execution = { f.execution with
      handle := none, promise := (a.attempt run now f).2.execution.promise } := by
  rw [a.attempt_of_isSettled run now h]
  exact Step.execution_of_perform rfl

/-- A result that comes too late for its promise clears the poll. -/
theorem pollEnded_execution (ending : Ending) {f : Frame σ} (h : f.execution.promise.isSettled = true) :
    (a.pollEnded run now ending f).2.execution = { f.execution with
      poll := none, promise := (a.pollEnded run now ending f).2.execution.promise } := by
  rw [a.pollEnded_of_isSettled run now ending h]
  exact Step.execution_of_perform rfl

/-- Neither a handle of the scheduler nor a poll raises a fault when it is cancelled. -/
structure CancelsReturn : Prop where
  handle : ∀ schedule cancel, a.scheduler = .custom schedule cancel → ∀ id, (cancel id).Returns
  poll : ∀ id, (a.cancelPoll id).Returns

/-- After a cancellation and a line of the log about it, the scheduled attempt is cancelled and then the
poll. -/
theorem settled_apply {f : Frame σ} (h : f.execution.promise = .cancelled) :
    ∃ g, g.execution = { f.execution with promise := g.execution.promise } ∧
      g.world.caller.requests = [] ∧
      a.settled f = match a.withdraw g with
        | (.ok _, g') => a.stop g'
        | (.error e, g') => (.error e, g') := by
  simp only [settled, Step.bind_apply, Step.read_apply, h, Step.act_eq_perform]
  rcases hn : Step.perform (Act.note (.cancelled f.execution.attempt)) f with ⟨e | ⟨⟩, g⟩
  · have returned : (Except.ok () : Except Fault Unit) = .error e := (Prod.mk.inj hn).1
    cases returned
  · refine ⟨g, Step.execution_of_perform hn, Step.requests_of_perform hn, ?_⟩
    simp only
    rcases a.withdraw g with ⟨e | ⟨⟩, g'⟩ <;> rfl

theorem withdraw_of_none {f : Frame σ} (h : f.execution.handle = none) :
    a.withdraw f = (.ok (), f) := by
  simp only [withdraw, Step.bind_apply, Step.read_apply, h]
  rfl

theorem withdraw_of_some {f : Frame σ} {handle : Handle} (h : f.execution.handle = some handle) :
    a.withdraw f = match a.cancelHandle handle f with
      | (.ok _, g) => (.ok (), { g with execution := { g.execution with handle := none } })
      | (.error e, g) => (.error e, g) := by
  simp only [withdraw, Step.bind_apply, Step.read_apply, h]
  rcases a.cancelHandle handle f with ⟨e | ⟨⟩, g⟩ <;> rfl

/-- A timer of the loop is withdrawn by the order to take it back. -/
theorem withdraw_timer {f : Frame σ} (h : f.execution.handle = some .timer) :
    a.withdraw f = (.ok (), { (f.enter (.withdrawn .timer)).order .stopTimer with
      execution := { f.execution with handle := none } }) := by
  rw [a.withdraw_of_some h]
  rfl

/-- A handle of a scheduler of the caller's is withdrawn by the code with which this scheduler cancels. -/
theorem withdraw_custom {f : Frame σ} {id : HandleId} (h : f.execution.handle = some (.custom id))
    {schedule : RunId → Number → Code σ HandleId} {cancel : HandleId → Code σ Unit}
    (hs : a.scheduler = .custom schedule cancel) :
    a.withdraw f = match Step.perform (Act.call (.withdrawn (.custom id)) (cancel id)) f with
      | (.ok _, g) => (.ok (), { g with execution := { g.execution with handle := none } })
      | (.error e, g) => (.error e, g) := by
  rw [a.withdraw_of_some h, cancelHandle, hs, Step.act_eq_perform]
  rfl

theorem stop_of_none {f : Frame σ} (h : f.execution.poll = none) : a.stop f = (.ok (), f) := by
  simp only [stop, Step.bind_apply, Step.read_apply, h]
  rfl

theorem stop_of_some {f : Frame σ} {id : PollId} (h : f.execution.poll = some id) :
    a.stop f = match Step.perform (Act.call (.stopped id) (a.cancelPoll id)) f with
      | (.ok _, g) => (.ok (), { g with execution := { g.execution with poll := none } })
      | (.error e, g) => (.error e, g) := by
  simp only [stop, Step.bind_apply, Step.read_apply, h, Step.act_eq_perform]
  rcases Step.perform (Act.call (.stopped id) (a.cancelPoll id)) f with ⟨e | ⟨⟩, g⟩ <;> rfl

variable {a} {f : Frame σ}

/-- A call of the caller's code is entered, whatever comes of it. -/
theorem perform_call_enters (e : Event) (c : Code σ α) (f : Frame σ) :
    e ∈ (Step.perform (Act.call e c) f).2.world.history := by
  have calls : Frame.Serves f (Step.perform (Act.call e c) f).2 [e] := Frame.absorb_serves rfl
  obtain ⟨os, evolves⟩ := calls.evolves
  rw [evolves.history]
  simp

/-- Cancelling a handle enters it. -/
theorem cancelHandle_enters (handle : Handle) (f : Frame σ) :
    .withdrawn handle ∈ (a.cancelHandle handle f).2.world.history := by
  cases handle with
  | timer => simp [cancelHandle, Frame.enter, Frame.order]
  | custom id =>
    simp only [cancelHandle, Step.act_eq_perform]
    exact perform_call_enters _ _ f

/-- Withdrawing enters the handle that the execution keeps. -/
theorem withdraw_enters {handle : Handle} (h : f.execution.handle = some handle) :
    .withdrawn handle ∈ (a.withdraw f).2.world.history := by
  have mem := a.cancelHandle_enters handle f
  rw [a.withdraw_of_some h]
  rcases hc : a.cancelHandle handle f with ⟨e | ⟨⟩, g⟩ <;> rw [hc] at mem <;> exact mem

/-- Stopping enters the poll that the execution knows of. -/
theorem stop_enters {id : PollId} (h : f.execution.poll = some id) :
    .stopped id ∈ (a.stop f).2.world.history := by
  have mem := perform_call_enters (.stopped id) (a.cancelPoll id) f
  rw [a.stop_of_some h]
  rcases hc : Step.perform (Act.call (.stopped id) (a.cancelPoll id)) f with ⟨e | ⟨⟩, g⟩ <;>
    rw [hc] at mem <;> exact mem

/-- Cancelling a handle returns if the scheduler's code does. -/
theorem cancelHandle_returns (returns : a.CancelsReturn) (handle : Handle) (f : Frame σ) :
    ∃ g, a.cancelHandle handle f = (.ok (), g) := by
  cases handle with
  | timer => exact ⟨_, rfl⟩
  | custom id =>
    have cancels : (a.scheduler.cancel id).Returns :=
      Scheduler.cancel_cases (fun _ _ raised => nomatch raised) fun _ _ hs => returns.handle _ _ hs id
    obtain ⟨x, hx⟩ := cancels.ok f.world.caller
    simp only [cancelHandle, Step.act_eq_perform]
    exact ⟨_, Prod.ext hx rfl⟩

/-- Then the handle is forgotten. -/
theorem withdraw_clears (returns : a.CancelsReturn) (f : Frame σ) :
    ∃ g, a.withdraw f = (.ok (), g) ∧ g.execution.handle = none := by
  cases h : f.execution.handle with
  | none => exact ⟨f, a.withdraw_of_none h, h⟩
  | some handle =>
    obtain ⟨g, hg⟩ := cancelHandle_returns returns handle f
    refine ⟨{ g with execution := { g.execution with handle := none } }, ?_, rfl⟩
    rw [a.withdraw_of_some h, hg]

/-- If cancelling a poll returns, the poll is forgotten. -/
theorem stop_clears (returns : a.CancelsReturn) (f : Frame σ) :
    (a.stop f).2.execution.poll = none ∧ (a.stop f).2.execution.handle = f.execution.handle := by
  cases h : f.execution.poll with
  | none =>
    rw [a.stop_of_none h]
    exact ⟨h, rfl⟩
  | some id =>
    obtain ⟨x, hx⟩ := (returns.poll id).ok f.world.caller
    rw [a.stop_of_some h]
    rcases hc : Step.perform (Act.call (.stopped id) (a.cancelPoll id)) f with ⟨e | ⟨⟩, g⟩
    · exact nomatch (Prod.mk.inj hc).1.symm.trans hx
    · have same := congrArg Execution.handle (Step.execution_of_perform hc)
      exact ⟨rfl, same⟩

/-- After a cancellation, the scheduled attempt that the execution keeps a handle for is cancelled. -/
theorem settled_withdraws (cancelled : f.execution.promise = .cancelled) {handle : Handle}
    (h : f.execution.handle = some handle) :
    .withdrawn handle ∈ (a.settled f).2.world.history := by
  obtain ⟨g, same, -, apply⟩ := a.settled_apply cancelled
  have kept : g.execution.handle = some handle := by rw [same]; exact h
  have mem := withdraw_enters (a := a) kept
  rw [apply]
  rcases hw : a.withdraw g with ⟨e | ⟨⟩, g'⟩
  · rw [hw] at mem
    exact mem
  · -- stopping the poll comes after that and takes no entry back
    rw [hw] at mem
    obtain ⟨es, os, stops⟩ := a.stop_tidies g'
    simp only [stops.history]
    exact List.mem_append_left _ mem

/-- If no attempt is scheduled, the poll that the execution knows of is told to stop. -/
theorem settled_stops (cancelled : f.execution.promise = .cancelled)
    (unheld : f.execution.handle = none) {id : PollId} (h : f.execution.poll = some id) :
    .stopped id ∈ (a.settled f).2.world.history := by
  obtain ⟨g, same, -, apply⟩ := a.settled_apply cancelled
  have handle : g.execution.handle = none := by rw [same]; exact unheld
  have poll : g.execution.poll = some id := by rw [same]; exact h
  rw [apply, a.withdraw_of_none handle]
  exact stop_enters poll

/-- If what cancels them returns, neither a handle nor a poll is kept. -/
theorem settled_clears (returns : a.CancelsReturn) (cancelled : f.execution.promise = .cancelled) :
    (a.settled f).2.execution.handle = none ∧ (a.settled f).2.execution.poll = none := by
  obtain ⟨g, -, -, apply⟩ := a.settled_apply cancelled
  obtain ⟨g', withdrawn, unheld⟩ := withdraw_clears returns g
  obtain ⟨poll, handle⟩ := stop_clears returns g'
  rw [apply, withdrawn]
  exact ⟨handle.trans unheld, poll⟩

end Asynchronous

end Polling
