import Polling.Proofs.Calls

/-!
# What is written in a journal

`Step.Writes` says of a part of a callback that it only adds entries of some sort, and that it leaves alone
the time at which the execution began. It is shown part by part, so what holds of all entries that a wait
may make holds of every journal (`Reachable.written`): whenever it is noted that the attempts are exhausted,
the limit is named. And what an execution keeps as its beginning is always a time
(`Reachable.started_real`).
-/

namespace Polling

namespace Step

variable {P : Event → Prop}

/-- A part of a callback only adds entries, all of some sort, and does not change the time at which the
execution began. -/
def Writes (P : Event → Prop) (s : Step σ α) : Prop :=
  ∀ f, (s f).2.execution.started = f.execution.started ∧
    ∃ es, (s f).2.world.history = f.world.history ++ es ∧ ∀ e ∈ es, P e

theorem writes_of_silent {s : Step σ α} (h : ∀ f, (s f).2.execution.started = f.execution.started ∧
    (s f).2.world.history = f.world.history) : Writes P s := by
  intro f
  obtain ⟨started, history⟩ := h f
  exact ⟨started, [], history.trans (List.append_nil _).symm, by simp⟩

theorem writes_pure (x : α) : Writes P (pure x : Step σ α) := writes_of_silent fun _ => ⟨rfl, rfl⟩

theorem writes_throw (e : Fault) : Writes P (throw e : Step σ α) := writes_of_silent fun _ => ⟨rfl, rfl⟩

theorem writes_read (g : Execution → α) : Writes P (read g : Step σ α) := writes_of_silent fun _ => ⟨rfl, rfl⟩

theorem writes_change {g : Execution → Execution} (h : ∀ x, (g x).started = x.started) :
    Writes P (change g : Step σ Unit) := writes_of_silent fun f => ⟨h f.execution, rfl⟩

theorem writes_order (o : Order) : Writes P (order o : Step σ Unit) := writes_of_silent fun _ => ⟨rfl, rfl⟩

theorem writes_enter {e : Event} (h : P e) : Writes P (enter e : Step σ Unit) :=
  fun _ => ⟨rfl, [e], rfl, by simpa using h⟩

theorem writes_settle (p : Promise) : Writes P (settle p : Step σ Unit) := by
  refine writes_of_silent fun f => ?_
  rw [settle_apply, Frame.settle]
  split <;> exact ⟨rfl, rfl⟩

theorem writes_reject (e : Fault) : Writes P (reject e : Step σ Unit) := by
  refine writes_of_silent fun f => ?_
  obtain ⟨os, evolves⟩ := reject_evolves e f
  exact ⟨by rw [evolves.rest], evolves.history.trans (List.append_nil _)⟩

theorem writes_bind {s : Step σ α} {t : α → Step σ β} (hs : Writes P s) (ht : ∀ x, Writes P (t x)) :
    Writes P (s >>= t) := by
  intro f
  obtain ⟨started, es, history, sort⟩ := hs f
  rw [bind_apply]
  rcases hf : s f with ⟨e | x, g⟩ <;> rw [hf] at started history
  · exact ⟨started, es, history, sort⟩
  · obtain ⟨started', es', history', sort'⟩ := ht x g
    refine ⟨started'.trans started, es ++ es', ?_, List.forall_mem_append.2 ⟨sort, sort'⟩⟩
    rw [history', history, List.append_assoc]

/-- Whatever code of the caller's asks for, it does not change the time. -/
theorem writes_trying {a : Act σ α} (h : a.Enters P) : Writes P (trying a) := by
  intro f
  obtain ⟨es, history, sort⟩ := h f.world
  have execution := Frame.absorb_execution { f with world := (a f.world).2 }
  exact ⟨(congrArg Execution.started execution :), es, by rw [trying_apply, Frame.absorb_history, history], sort⟩

theorem writes_act {a : Act σ Unit} (h : a.Enters P) : Writes P (act a) := by
  refine writes_bind (writes_trying h) fun r => ?_
  cases r with
  | ok x => exact writes_pure _
  | error e => exact writes_throw e

theorem writes_guarding {a : Act σ α} (h : a.Enters P) {next : α → Step σ Unit}
    (hn : ∀ x, Writes P (next x)) : Writes P (guarding a next) := by
  refine writes_bind (writes_trying h) fun r => ?_
  cases r with
  | ok x => exact hn x
  | error e =>
    dsimp only
    split
    · exact writes_reject e
    · exact writes_throw e

end Step

namespace Asynchronous

variable {P : Event → Prop} (a : Asynchronous σ) (run : RunId) (now : Binary64)

variable (all : ∀ e, e.isExhausted = false → P e)
include all

theorem cancelHandle_writes (h : Handle) : (a.cancelHandle h).Writes P := by
  cases h with
  | timer => exact Step.writes_bind (Step.writes_enter (all _ rfl)) fun _ => Step.writes_order _
  | custom id => exact Step.writes_act (Act.enters_call (all _ rfl) _)

theorem schedule_writes (d : Number) : (a.schedule run d).Writes P := by
  have held : ∀ handle, (Step.hold handle : Step σ Unit).Writes P := fun handle =>
    Step.writes_bind (Step.writes_change fun _ => rfl) fun _ => Step.writes_enter (all _ rfl)
  refine Step.writes_bind (Step.writes_read _) fun p => ?_
  split
  · exact Step.writes_act (Act.enters_record (all _ rfl))
  · split
    · refine Step.writes_guarding (Act.enters_bind (Act.enters_record (all _ rfl)) fun _ =>
        span_enters (fun n => all (.note n)) _ _) fun d => ?_
      exact Step.writes_bind (Step.writes_order _) fun _ => held _
    · exact Step.writes_guarding (Act.enters_call (all _ rfl) _) fun id => held _

theorem settled_writes : a.settled.Writes P := by
  refine Step.writes_bind (Step.writes_read _) fun p => ?_
  cases p with
  | cancelled =>
    refine Step.writes_bind (Step.writes_read _) fun n => ?_
    refine Step.writes_bind (Step.writes_act (Act.enters_record (all _ rfl))) fun _ => ?_
    refine Step.writes_bind (Step.writes_bind (Step.writes_read _) fun handle => ?_) fun _ =>
      Step.writes_bind (Step.writes_read _) fun poll => ?_
    · cases handle with
      | none => exact Step.writes_pure _
      | some handle =>
        exact Step.writes_bind (a.cancelHandle_writes all handle) fun _ => Step.writes_change fun _ => rfl
    · cases poll with
      | none => exact Step.writes_pure _
      | some id =>
        exact Step.writes_bind (Step.writes_act (Act.enters_call (all _ rfl) _)) fun _ =>
          Step.writes_change fun _ => rfl
  | _ => exact Step.writes_pure _

variable (exhausted : P (.note (.exhausted a.waiter.strategy.limit)))
include exhausted

theorem conclude_writes (o : Outcome) : (a.conclude run now o).Writes P := by
  refine Step.writes_bind (Step.writes_read _) fun n => Step.writes_bind (Step.writes_read _) fun started => ?_
  refine Step.writes_guarding (evaluate_enters (fun n => all (.note n)) (fun _ _ => all _ rfl)
    (fun _ => all _ rfl) _ _ _ _ exhausted) fun t => ?_
  cases t with
  | succeed r =>
    exact Step.writes_guarding (Notifier.success_enters (fun _ => all _ rfl) _ _ _ _) fun _ =>
      Step.writes_settle _
  | fail f =>
    refine Step.writes_bind (Step.writes_act (Act.enters_record (all _ rfl))) fun _ => ?_
    exact Step.writes_guarding (Notifier.failure_enters (fun _ => all _ rfl) _ _ _ _) fun _ =>
      Step.writes_settle _
  | retry d =>
    exact Step.writes_guarding (Notifier.retry_enters (fun _ => all _ rfl) _ _ _ _ _) fun _ =>
      a.schedule_writes run all d

theorem attempt_writes : (a.attempt run now).Writes P := by
  refine Step.writes_bind (Step.writes_change fun _ => rfl) fun _ =>
    Step.writes_bind (Step.writes_read _) fun p => ?_
  split
  · exact Step.writes_act (Act.enters_record (all _ rfl))
  · refine Step.writes_bind (Step.writes_change fun _ => rfl) fun _ =>
      Step.writes_bind (Step.writes_read _) fun n => ?_
    refine Step.writes_guarding (Notifier.attempt_enters (fun _ => all _ rfl) _ _) fun _ => ?_
    refine Step.writes_bind (Step.writes_act (Act.enters_record (all _ rfl))) fun _ => ?_
    refine Step.writes_bind (Step.writes_change fun _ => rfl) fun _ =>
      Step.writes_bind (Step.writes_read _) fun call => ?_
    refine Step.writes_bind (Step.writes_trying (Act.enters_call (all _ rfl) _)) fun r => ?_
    rcases r with e | ⟨id⟩ | _
    · dsimp only
      split
      · exact a.conclude_writes run now all exhausted _
      · exact Step.writes_throw e
    · exact Step.writes_bind (Step.writes_change fun _ => rfl) fun _ => Step.writes_order _
    · exact a.conclude_writes run now all exhausted _

theorem pollEnded_writes (ending : Ending) : (a.pollEnded run now ending).Writes P := by
  refine Step.writes_bind (Step.writes_change fun _ => rfl) fun _ =>
    Step.writes_bind (Step.writes_read _) fun n => Step.writes_bind (Step.writes_read _) fun p => ?_
  split
  · exact Step.writes_act (Act.enters_record (all _ rfl))
  · cases ending with
    | value v => exact a.conclude_writes run now all exhausted _
    | fault e =>
      dsimp only
      split
      · exact a.conclude_writes run now all exhausted _
      · exact Step.writes_reject e
    | cancelled =>
      exact Step.writes_bind (Step.writes_act (Act.enters_record (all _ rfl))) fun _ => Step.writes_settle _

end Asynchronous

namespace Session

variable {a : Asynchronous σ} {s s' : Session σ} {run : RunId} {P : Event → Prop}

/-- What a callback does that writes entries of some sort: the journal goes on with such entries, and the
execution began when it did before. -/
theorem Ran.written {x : Execution} {body : Step σ Unit} {k : Nat} {s₀ : Session σ}
    (h : Ran s s' run x (body (s₀.frame run x)).2 k) (writes : body.Writes P) (fired : P .fired)
    (before : ∀ e ∈ s.journalOf run, P e) :
    (∀ e ∈ s'.journalOf run, P e) ∧ ∀ y, s'.runs[run]? = some y → y.started = x.started := by
  obtain ⟨started, es, entered, sort⟩ := writes (s₀.frame run x)
  have history : (body (s₀.frame run x)).2.world.history = es := entered
  constructor
  · have journal : (s.record run (body (s₀.frame run x)).2).journalOf run = s.journalOf run ++ es := by
      simp [journalOf, record, history, List.filter_map, Function.comp_def]
    rw [h.shifts.journal, journal]
    refine List.forall_mem_append.2 ⟨List.forall_mem_append.2 ⟨before, sort⟩, fun e he => ?_⟩
    exact List.eq_of_mem_replicate he ▸ fired
  · intro y hy
    have inside := (List.getElem?_eq_some_iff.1 h.lookup).1
    obtain ⟨x', recorded, -, same⟩ := h.shifts.lookup hy
    obtain rfl : (body (s₀.frame run x)).2.execution = x' := by simpa [record, inside] using recorded
    exact (congrArg Execution.started same).trans started

/-- The entries of a journal are such as a wait may make, and the execution began at a time that the loop has
shown. -/
theorem Reachable.written (h : s.Reachable a) (all : ∀ e, e.isExhausted = false → P e)
    (exhausted : P (.note (.exhausted a.waiter.strategy.limit))) (run : RunId) :
    (∀ e ∈ s.journalOf run, P e) ∧ ∀ x, s.runs[run]? = some x → ∃ t, x.started = .real t := by
  have fired : P .fired := all _ rfl
  induction h with
  | init time caller => exact ⟨by simp [journalOf], nofun⟩
  | @move s m h ih =>
    obtain ⟨entries, began⟩ := ih
    -- the time at which it began is written once, when the execution is started
    cases move_effect a h.sound m run with
    | other aside shifts =>
      refine ⟨?_, fun x hx => ?_⟩
      · rw [shifts.journal]
        exact List.forall_mem_append.2 ⟨entries, fun e he => List.eq_of_mem_replicate he ▸ fired⟩
      · obtain ⟨y, hy, -, same⟩ := shifts.lookup hx
        have started : x.started = y.started := (congrArg Execution.started same :)
        rw [started]
        exact began y hy
    | start new fresh ran =>
      obtain ⟨entries', started⟩ := ran.written (a.attempt_writes run _ all exhausted) fired entries
      exact ⟨entries', fun y hy => ⟨_, by rw [started y hy, fresh]⟩⟩
    | attempt taken ran =>
      obtain ⟨entries', started⟩ := ran.written (a.attempt_writes run _ all exhausted) fired entries
      exact ⟨entries', fun y hy => started y hy ▸ began _ ran.lookup⟩
    | @pollEnded l ending x k taken ran =>
      have ended : ∀ e ∈ ({ s with loop := l }.enter run (.ended ending)).journalOf run, P e := by
        rw [journalOf_enter]
        exact List.forall_mem_append.2 ⟨entries, by simpa using all (.ended ending) rfl⟩
      obtain ⟨entries', started⟩ := ran.written (a.pollEnded_writes run _ all exhausted ending) fired ended
      exact ⟨entries', fun y hy => started y hy ▸ began _ ran.lookup⟩
    | settled taken ran =>
      obtain ⟨entries', started⟩ := ran.written (a.settled_writes all) fired entries
      exact ⟨entries', fun y hy => started y hy ▸ began _ ran.lookup⟩

/-- Every execution began at a time that the loop has shown. -/
theorem Reachable.started_real (h : s.Reachable a) {x : Execution} (hx : s.runs[run]? = some x) :
    ∃ t, x.started = .real t :=
  (h.written (P := fun _ => True) (fun _ _ => trivial) trivial run).2 x hx

/-- So did the execution of a callback that a move begins. -/
theorem Reachable.begins_real (h : s.Reachable a) {m : Move σ} {k : Callback} {now : Binary64}
    {x : Execution} (begins : s.Begins run m k now x) : ∃ t, x.started = .real t := by
  cases begins with
  | start new => exact ⟨_, rfl⟩
  | turn taken own lookup => exact h.started_real lookup

/-- A note that the attempts are exhausted names the limit. -/
theorem Reachable.exhausted_limit (h : s.Reachable a) {limit : Nat}
    (noted : .note (.exhausted limit) ∈ s.journalOf run) : limit = a.waiter.strategy.limit :=
  (h.written (P := fun e => ∀ n, e = .note (.exhausted n) → n = a.waiter.strategy.limit)
    (by rintro _ plain n rfl; exact nomatch plain) (by rintro n ⟨⟩; rfl) run).1 _ noted limit rfl

end Session

/-- A note that the attempts are exhausted names the limit. -/
theorem Blocking.run_exhausted_limit (b : Blocking σ) {w : World σ} (empty : w.history = []) {limit : Nat}
    (noted : .note (.exhausted limit) ∈ (b.run w).2.history) : limit = b.waiter.strategy.limit := by
  obtain ⟨es, history, names⟩ := b.rounds_enters
    (P := fun e => ∀ n, e = .note (.exhausted n) → n = b.waiter.strategy.limit)
    (by rintro _ plain n rfl; exact nomatch plain) (by rintro n ⟨⟩; rfl) (.real (b.clock w.caller.state))
    b.waiter.strategy.limit 1 w
  have entries : (b.run w).2.history = es := by rw [← List.nil_append es, ← empty]; exact history
  exact names _ (entries ▸ noted) limit rfl

end Polling
