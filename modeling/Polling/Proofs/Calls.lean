import Polling.Proofs.Escape
import Polling.Proofs.Replay

/-!
# The calls that an execution makes

`Asynchronous.Calls` says at which point of a callback, and on which caller, an execution calls code of
the caller's. Most calls belong to the visit of a place, where a replay of the entries since the visit
began gives the caller; the call of the scheduler comes last. No call is left out: whatever call a move
adds to a journal is one of these (`Reachable.calls_of_journal`).

If the code that is called raises a fault that a promise can carry, nothing follows in the callback but
the rejection of the promise (`Calls.body_eq`), and nothing follows after it (`Reachable.rejects`). With
the same for blocking runs this is `ends_at_fault`.
-/

namespace Polling

namespace Place

/-- Is the operation called at a place? -/
def isCalling : Place → Bool
  | calling _ => true
  | _ => false

end Place

/-- Settling the promise enters nothing. -/
@[simp] theorem Frame.settle_world (f : Frame σ) (p : Promise) : (f.settle p).world = f.world := by
  unfold settle
  split <;> rfl

namespace Asynchronous

variable (a : Asynchronous σ) (run : RunId) (now : Binary64)

/-- The code of an execution behind an entry, but for its operation: a fault of the operation is an
outcome. -/
def answer : Event → Code σ Unit :=
  a.waiter.answer fun
    | .scheduled d =>
      match a.scheduler with
      | .custom schedule _ => (schedule run d).void
      | .timers _ => pure ()
    | _ => pure ()

/-- A callback, begun in a frame, calls the code behind an entry, after some other entries and on some
caller. -/
inductive Calls (k : Callback) (f : Frame σ) : List Event → Event → Caller σ → Prop where
  /-- At a place, the entries since the visit began have changed the caller. -/
  | visited {p g before e after} (reaches : a.Reaches run now k f p g)
      (split : (a.visit run now p g).2.world.history =
        g.world.history ++ (before ++ e :: after)) :
      Calls k f (g.world.history ++ before) e (replay (a.answer run) g.world.caller before)
  /-- When a hook has been told of a delay, the promise is looked at and the scheduler called. -/
  | scheduled {n o d g g'} (reaches : a.Reaches run now k f (.telling n o (.retry d)) g)
      (told : a.visit run now (.telling n o (.retry d)) g = (.ok (), g'))
      (pending : g'.execution.promise.isSettled = false) :
      Calls k f g'.world.history (.scheduled d) g'.world.caller

/-- What code raises is raised if its result is dropped. -/
theorem ignoring_stops {answer : Event → Code σ Unit} {c : Caller σ} {es : List Event} {s : Step σ α}
    {g : Frame σ} (h : Stops answer c es (s g).1) : Stops answer c es (s.ignoring g).1 := by
  intro before e after f split raised
  obtain ⟨last, result⟩ := h before e after f split raised
  exact ⟨last, by simp [Step.ignoring, result, Except.map]⟩

/-- Where the code behind an entry raises a fault, the visit of a place ends with it. -/
theorem visit_stops (p : Place) (g : Frame σ) : ∃ es,
    (a.visit run now p g).2.world.history = g.world.history ++ es ∧
      Stops (a.answer run) g.world.caller es (a.visit run now p g).1 := by
  have performed : ∀ {β : Type} {act : Act σ β}, act.Replays (a.answer run) → ∃ es,
      (Step.perform act g).2.world.history = g.world.history ++ es ∧
        Stops (a.answer run) g.world.caller es (Step.perform act g).1 := by
    intro β act replays
    obtain ⟨es, left, stops⟩ := replays g.world
    exact ⟨es, by simp [left], stops⟩
  cases p with
  | opening n => exact performed (Notifier.opening_replays a.waiter _ _ _ _)
  | calling n =>
    refine ⟨[.polled n], by simp [visit, Step.ignoring, Act.call_apply], stops_singleton ?_⟩
    intro f raised
    cases raised
  | judging n o =>
    obtain ⟨es, history, stops⟩ := performed (evaluate_replays a.waiter _ o _)
    exact ⟨es, history, ignoring_stops stops⟩
  | telling n o t => exact performed (Notifier.tell_replays a.waiter _ _ o n _ t)

/-- Refusing a fault makes no entry. -/
theorem refuse_history (e : Fault) (g : Frame σ) :
    (Step.refuse e g).2.world.history = g.world.history := by
  obtain ⟨os, evolves⟩ := Step.refuse_evolves e g
  exact evolves.history.trans (List.append_nil _)

/-- While the promise is pending, scheduling enters the delay first. -/
theorem schedule_enters {P : Event → Prop} (note : ∀ n, n.isExhausted = false → P (.note n))
    (held : ∀ h, P (.held h)) (d : Number) {f : Frame σ}
    (pending : f.execution.promise.isSettled = false) : ∃ q,
    (a.schedule run d f).2.world.history = f.world.history ++ Event.scheduled d :: q ∧ ∀ e ∈ q, P e := by
  obtain ⟨q, hq, quiet⟩ := a.request_enters run note d (f.enter (.scheduled d)).world
  have handed : (Step.perform (a.handOver run d) f).2.world.history =
      f.world.history ++ Event.scheduled d :: q := by
    rw [Step.perform_apply, Frame.absorb_history]
    exact hq.trans (List.append_assoc _ _ _)
  rw [a.schedule_apply run d pending]
  rcases hp : Step.perform (a.handOver run d) f with ⟨e | ⟨handle, os⟩, g⟩ <;> rw [hp] at handed
  · exact ⟨q, by rw [refuse_history, handed], quiet⟩
  · refine ⟨q ++ [Event.held handle], by rw [Frame.hold_history, handed]; simp, ?_⟩
    exact List.forall_mem_append.2 ⟨quiet, by simpa using held handle⟩

variable {a run now} {k : Callback} {f g : Frame σ} {p : Place}

/-- A fault is refused wherever it is raised, unless it is an outcome. -/
theorem remainder_of_fault {e : Fault} (raised : (a.visit run now p g).1 = .error e)
    (uncalling : p.isCalling = false) (attempt : g.execution.attempt = p.attempt) :
    a.remainder run now p g = Step.refuse e (a.visit run now p g).2 := by
  cases p with
  | opening n =>
    have opened : Step.perform ((a.notifier now).opening n a.waiter.strategy.limit) g =
        (.error e, (a.visit run now (.opening n) g).2) := Prod.ext raised rfl
    simp only [remainder, opened]
  | calling n => cases uncalling
  | judging n o =>
    have judged := Step.error_of_ignoring raised
    rw [← show g.execution.attempt = n from attempt] at judged ⊢
    simp only [remainder, conclude_apply, judge, Step.bind_apply, judged]
    rfl
  | telling n o t =>
    have told : Step.perform ((a.notifier now).tell o n g.execution.started t) g =
        (.error e, (a.visit run now (.telling n o t) g).2) := Prod.ext raised rfl
    simp only [remainder, told]

/-- A fault that the scheduler raises is raised behind the entry of the delay. -/
theorem handOver_raises {d : Number} {fault : Fault}
    (raised : (a.answer run (.scheduled d) g.world.caller).1 = .error fault) :
    Frame.Serves g (Step.perform (a.handOver run d) g).2 [.scheduled d] ∧
      (Step.perform (a.handOver run d) g).1 = .error fault := by
  simp only [answer, Waiter.answer] at raised
  cases hs : a.scheduler with
  | timers given =>
    rw [hs] at raised
    cases raised
  | custom schedule cancel =>
    rw [hs] at raised
    have fails : (schedule run d g.world.caller).1 = .error fault := by
      rcases hc : (schedule run d g.world.caller).1 with x | x
      · simpa [Code.void, hc, Except.map] using raised
      · simp [Code.void, hc, Except.map] at raised
    have handed : a.handOver run d g.world = (.error fault,
        ⟨(schedule run d g.world.caller).2, g.world.history ++ [Event.scheduled d]⟩) := by
      simp only [handOver, request, hs, Act.bind_apply, Act.record_apply, Act.code_apply, fails]
    exact ⟨Frame.absorb_serves (congrArg (·.2.history) handed), congrArg Prod.fst handed⟩

/-- A call that raises a fault is the last entry, and the fault is refused. -/
theorem Calls.body_eq {before : List Event} {e : Event} {c : Caller σ} {fault : Fault}
    (h : a.Calls run now k f before e c) (raised : (a.answer run e c).1 = .error fault) :
    ∃ g es os, a.body run now k f = Step.refuse fault g ∧ g.world.history = before ++ [e] ∧
      Frame.Grows f g es os ∧ (g.execution.promise = .pending ∨ g.execution.promise = .cancelled) := by
  cases h with
  | @visited p g before e after reaches split =>
    obtain ⟨es, history, stops⟩ := a.visit_stops run now p g
    obtain rfl := List.append_cancel_left (history.symm.trans split)
    obtain ⟨rfl, result⟩ := stops before e after fault rfl raised
    have uncalling : p.isCalling = false := by
      cases p with
      | calling n =>
        -- there is only one entry, and what is behind it are outcomes
        have single : [] ++ [Event.polled n] = before ++ [e] := by
          simpa [visit, Step.ignoring, Act.call_apply] using split
        have same : [.polled n] = [e] := List.append_inj_right' single rfl
        obtain rfl := List.singleton_inj.1 same
        cases raised
      | _ => rfl
    obtain ⟨es₁, os₁, arrives⟩ := reaches.approaches
    obtain ⟨es₂, os₂, visits⟩ := a.visit_approaches run now p g
    have left := (arrives.trans visits).promise.of_pending (Promise.eq_pending reaches.pending)
    refine ⟨_, _, _, ?_, ?_, (arrives.trans visits).toGrows, left⟩
    · rw [reaches.body_eq, remainder_of_fault result uncalling reaches.attempt]
    · rw [split, List.append_assoc]
  | @scheduled n o d g g' reaches told pending =>
    obtain ⟨es₁, os₁, arrives⟩ := reaches.approaches
    obtain ⟨es₂, os₂, visits⟩ := a.visit_approaches run now (.telling n o (.retry d)) g
    rw [told] at visits
    have left := (arrives.trans visits).promise.of_pending (Promise.eq_pending reaches.pending)
    -- the delay is entered before the scheduler is called
    obtain ⟨serves, fails⟩ := handOver_raises raised
    obtain ⟨os, evolves⟩ := serves.evolves
    refine ⟨_, _, _, ?_, evolves.history, (arrives.trans visits).toGrows.trans evolves.toGrows, ?_⟩
    · have asks : Step.perform (a.handOver run d) g' =
          (.error fault, (Step.perform (a.handOver run d) g').2) := Prod.ext fails rfl
      have hook : Step.perform ((a.notifier now).tell o n g.execution.started (.retry d)) g =
          (.ok (), g') := told
      rw [reaches.body_eq]
      simp only [remainder, hook, Transition.next, follow, a.schedule_apply run d pending]
      rw [asks]
    · exact serves.promise.of_pending (Promise.eq_pending pending)

/-! ## No call is left out -/

/-- Every call among the entries of a callback is one of its calls. -/
def Listed (a : Asynchronous σ) (run : RunId) (now : Binary64) (k : Callback) (f : Frame σ)
    (es : List Event) : Prop :=
  ∀ before e after, es = before ++ e :: after → e.isCall = true → ∃ c, a.Calls run now k f before e c

theorem listed_of_uncalled {es : List Event} (h : ∀ e ∈ es, e.isCall = false) :
    Listed a run now k f es := by
  rintro before e after rfl called
  have uncalled := h e (by simp)
  rw [called] at uncalled
  exact nomatch uncalled

/-- Entries may be added that are calls of the callback. -/
theorem Listed.append {es es' : List Event} (h : Listed a run now k f es)
    (h' : ∀ before e after, es' = before ++ e :: after → e.isCall = true →
      ∃ c, a.Calls run now k f (es ++ before) e c) : Listed a run now k f (es ++ es') := by
  intro before e after split called
  rcases List.append_eq_append_iff.1 split with ⟨mid, rfl, later⟩ | ⟨mid, rfl, later⟩
  · exact h' mid e after later called
  · cases mid with
    | nil =>
      have calls := h' [] e after later.symm called
      simpa using calls
    | cons e' mid =>
      obtain ⟨rfl, rfl⟩ := List.cons.inj later
      exact h before e mid rfl called

theorem Listed.append_uncalled {es es' : List Event} (h : Listed a run now k f es)
    (uncalled : ∀ e ∈ es', e.isCall = false) : Listed a run now k f (es ++ es') := by
  refine h.append ?_
  rintro before e after rfl called
  have silent := uncalled e (by simp)
  rw [called] at silent
  exact nomatch silent

/-- What a visit enters are calls. -/
theorem Reaches.listed_visit (h : a.Reaches run now k f p g)
    (listed : Listed a run now k f g.world.history) :
    Listed a run now k f (a.visit run now p g).2.world.history := by
  obtain ⟨es, history, -⟩ := a.visit_stops run now p g
  rw [history]
  refine listed.append ?_
  rintro before e after rfl -
  exact ⟨_, .visited h history⟩

/-- On the way to a place, no call is left out. -/
theorem Reaches.listed (h : a.Reaches run now k f p g) (empty : f.world.history = []) :
    Listed a run now k f g.world.history := by
  have nothing : Listed a run now k f f.world.history := by
    rw [empty]
    exact listed_of_uncalled (by simp)
  induction h with
  | opening pending => exact nothing
  | @calling k f n g g' reaches opened ih =>
    have visited := reaches.listed_visit (ih empty nothing)
    rwa [show (a.visit run now (.opening n) g).2 = g' from congrArg Prod.snd opened] at visited
  | @failing k f n g g' result o reaches called failed ordinary ih =>
    have visited := reaches.listed_visit (ih empty nothing)
    rwa [show (a.visit run now (.calling n) g).2 = g' from congrArg Prod.snd called] at visited
  | ended pending outcome => exact nothing
  | @telling k f n o g t g' reaches evaluated ih =>
    have visited := reaches.listed_visit (ih empty nothing)
    rwa [show (a.visit run now (.judging n o) g).2 = g' from congrArg Prod.snd evaluated] at visited

variable (empty : f.world.history = [])
include empty

/-- Behind the hooks that are told of a transition, only the scheduler is called. -/
theorem Reaches.listed_telling {n : Nat} {o : Outcome} {t : Transition}
    (h : a.Reaches run now k f (.telling n o t) g) :
    Listed a run now k f (a.remainder run now (.telling n o t) g).2.world.history := by
  have visited := h.listed_visit (h.listed empty)
  rcases ht : Step.perform ((a.notifier now).tell o n g.execution.started t) g with ⟨e | ⟨⟩, g'⟩
  all_goals
    rw [show (a.visit run now (.telling n o t) g).2 = g' from congrArg Prod.snd ht] at visited
    simp only [remainder, ht]
  · rwa [refuse_history]
  · cases t with
    | succeed r => simpa [Transition.next, follow] using visited
    | fail r => simpa [Transition.next, follow] using visited
    | retry d =>
      simp only [Transition.next, follow]
      cases settled : g'.execution.promise.isSettled with
      | true =>
        rw [a.schedule_of_isSettled run d settled]
        simpa [Act.note] using
          visited.append_uncalled (show ∀ e ∈ [Event.note .notScheduling], e.isCall = false by
            simp [Event.isCall])
      | false =>
        have called := Calls.scheduled h ht settled
        obtain ⟨q, history, uncalled⟩ := a.schedule_enters run (P := (·.isCall = false)) (fun _ _ => rfl)
          (fun _ => rfl) d settled
        rw [history]
        refine visited.append ?_
        intro before e after split isCall
        cases before with
        | nil =>
          obtain ⟨rfl, rfl⟩ := List.cons.inj split
          exact ⟨_, by simpa using called⟩
        | cons e' before =>
          -- nothing is called behind the scheduler
          obtain ⟨-, rfl⟩ := List.cons.inj split
          have silent := uncalled e (by simp)
          rw [isCall] at silent
          cases silent

theorem Reaches.listed_judging {n : Nat} {o : Outcome} (h : a.Reaches run now k f (.judging n o) g) :
    Listed a run now k f (a.remainder run now (.judging n o) g).2.world.history := by
  have visited := h.listed_visit (h.listed empty)
  rcases he : Step.perform (evaluate a.waiter.acceptors a.waiter.strategy o (.int n)) g
    with ⟨e | t, g'⟩
  · rw [remainder_of_fault (congrArg Prod.fst (a.visit_judging_error run now he)) rfl h.attempt,
      refuse_history]
    exact visited
  · rw [← h.body_eq, (Reaches.telling h he).body_eq]
    exact (Reaches.telling h he).listed_telling empty

theorem Reaches.listed_calling {n : Nat} (h : a.Reaches run now k f (.calling n) g) :
    Listed a run now k f (a.remainder run now (.calling n) g).2.world.history := by
  have visited := h.listed_visit (h.listed empty)
  rcases hc : Step.perform (Act.call (.polled n) (a.operation run g.execution.calls)) g
    with ⟨result, g'⟩
  rw [show (a.visit run now (.calling n) g).2 = g' from congrArg Prod.snd hc] at visited
  -- an outcome that the call has left is judged
  have judged : ∀ o, Launch.failure? result = some o →
      (∀ e, result = .error e → e.isOrdinary = true) →
      Listed a run now k f (a.remainder run now (.calling n) g).2.world.history := by
    intro o failed ordinary
    have reaches := Reaches.failing h hc failed ordinary
    rw [← h.body_eq, reaches.body_eq]
    exact reaches.listed_judging empty
  rcases result with e | ⟨id⟩ | _
  · cases ordinary : e.isOrdinary with
    | true =>
      refine judged (.raised e) rfl ?_
      intro e' same
      obtain rfl := Except.error.inj same
      exact ordinary
    | false =>
      simp only [remainder, hc, ordinary, Bool.false_eq_true, if_false]
      exact visited
  · simp only [remainder, hc]
    exact visited
  · refine judged _ rfl ?_
    rintro _ ⟨⟩

theorem Reaches.listed_opening {n : Nat} (h : a.Reaches run now k f (.opening n) g) :
    Listed a run now k f (a.remainder run now (.opening n) g).2.world.history := by
  have visited := h.listed_visit (h.listed empty)
  rcases ho : Step.perform ((a.notifier now).opening n a.waiter.strategy.limit) g with ⟨e | ⟨⟩, g'⟩
  · have raised : (a.visit run now (.opening n) g).1 = .error e := congrArg Prod.fst ho
    rw [remainder_of_fault raised rfl h.attempt, refuse_history]
    exact visited
  · rw [← h.body_eq, (Reaches.calling h ho).body_eq]
    exact (Reaches.calling h ho).listed_calling empty

/-- A callback that runs an attempt makes no other calls. -/
theorem listed_attempt : Listed a run now (.attempt run) f (a.attempt run now f).2.world.history := by
  cases settled : f.execution.promise.isSettled with
  | true =>
    rw [attempt_of_isSettled a run now settled]
    simp only [Step.perform_apply, Frame.absorb_history, Act.note, Act.record_apply, empty]
    exact listed_of_uncalled (by simp [Event.isCall])
  | false =>
    have reaches : a.Reaches run now (.attempt run) f _ _ := .opening settled
    have listed := reaches.listed_opening empty
    rwa [← reaches.body_eq] at listed

/-- Neither does a callback that takes the result of a poll. -/
theorem listed_pollEnded (ending : Ending) : Listed a run now (.pollEnded run ending) f
    (a.pollEnded run now ending f).2.world.history := by
  cases settled : f.execution.promise.isSettled with
  | true =>
    rw [pollEnded_of_isSettled a run now ending settled]
    simp only [Step.perform_apply, Frame.absorb_history, Act.note, Act.record_apply, empty]
    exact listed_of_uncalled (by simp [Event.isCall])
  | false =>
    cases ho : ending.outcome? with
    | some o =>
      have reaches : a.Reaches run now (.pollEnded run ending) f _ _ := .ended settled ho
      have listed := reaches.listed_judging empty
      rwa [← reaches.body_eq] at listed
    | none =>
      obtain ⟨q, g, serves, tidying, hp, ends, -⟩ := a.pollEnded_of_none run now ho settled
      obtain ⟨os, evolves⟩ := serves.evolves
      have history : (g.settle ending.promise).world.history = q := by
        rw [Frame.settle_world, evolves.history]
        simp [empty]
      rw [ends, history]
      exact listed_of_uncalled fun e he => Event.isCall_of_isTidying (tidying e he)

end Asynchronous

/-! ## Calls in a session -/

namespace Session

variable {a : Asynchronous σ} {s : Session σ} {run : RunId} {m : Move σ} {k : Callback}
  {now : Binary64} {x : Execution}

/-- A move runs a callback that may call code of the caller's: at a time, for an execution as it is
then. -/
inductive Begins (s : Session σ) (run : RunId) : Move σ → Callback → Binary64 → Execution → Prop where
  /-- The execution is started, which runs its first attempt. -/
  | start (new : run = s.runs.length) :
      Begins s run .start (.attempt run) s.loop.time { started := .real s.loop.time }
  /-- The loop runs an attempt or takes the result of a poll. -/
  | turn {k l x} (taken : s.loop.take = (some k, l))
      (own : k = .attempt run ∨ ∃ ending, k = .pollEnded run ending)
      (lookup : s.runs[run]? = some x) : Begins s run .turn k l.time x

/-- What begins is a callback of the execution. -/
theorem Begins.own (h : s.Begins run m k now x) :
    k = .attempt run ∨ ∃ ending, k = .pollEnded run ending := by
  cases h with
  | start new => exact .inl rfl
  | turn taken own lookup => exact own

/-- The session in which the callback of an execution runs that a move begins. -/
def onset (s : Session σ) (run : RunId) : Move σ → Session σ
  | .start => s.add { started := .real s.loop.time }
  | .turn =>
    match s.loop.take with
    | (some k, l) => s.begun l run k
    | (none, _) => s
  | _ => s

/-- What is entered beforehand, and the frame in which the callback begins. -/
theorem Begins.onset (h : s.Begins run m k now x) :
    (s.onset run m).journalOf run = s.journalOf run ++ k.entries ∧
      (s.onset run m).frame run x = s.frame run x := by
  cases h with
  | start new => exact ⟨(List.append_nil _).symm, rfl⟩
  | @turn k l x taken own lookup =>
    simp only [Session.onset, taken]
    exact ⟨journalOf_begun s l run k, frame_begun own⟩

/-- What has become of the frame in which the callback begins has become of it in the session. -/
theorem Begins.starts (h : s.Begins run m k now x) {f : Frame σ} {es : List Event} {os : List Order}
    (grows : Frame.Grows (s.frame run x) f es os) :
    Frame.Grows ((s.onset run m).frame run x) f es os := by
  rw [h.onset.2]
  exact grows

/-- The callback goes on from what it finds. -/
theorem Begins.grows (h : s.Begins run m k now x) (a : Asynchronous σ) : ∃ es os,
    Frame.Grows (s.frame run x) (a.body run now k (s.frame run x)).2 es os := by
  rcases h.own with rfl | ⟨ending, rfl⟩
  · obtain ⟨es, os, attempts⟩ := a.attempt_attempts run now (s.frame run x)
    exact ⟨es, os, attempts.grows⟩
  · obtain ⟨es, os, takes⟩ := a.pollEnded_takes run now ending (s.frame run x)
    exact ⟨es, os, takes.grows⟩

/-- The callback that a move begins runs to its end. -/
theorem Begins.ran (h : s.Begins run m k now x) : ∃ n,
    Ran (s.onset run m) (s.move a m) run x (a.body run now k (s.frame run x)).2 n := by
  cases h with
  | start new =>
    subst new
    exact step_ran (s := s.add { started := .real s.loop.time })
      (List.getElem?_concat_length ..) (a.attempt s.runs.length s.loop.time)
  | @turn k l x taken own lookup =>
    have found : (s.begun l run k).runs[run]? = some x := by
      rcases own with rfl | ⟨ending, rfl⟩ <;> exact lookup
    obtain ⟨n, ran⟩ := step_ran found (a.body run l.time k)
    rw [frame_begun own] at ran
    rw [move_turn_own taken own]
    simp only [Session.onset, taken]
    exact ⟨n, ran.report _⟩

/-- What a move is to an execution: it is not about it, it runs a callback that may call code of the
caller's, or it runs the one that follows the settling of the promise. -/
theorem Sound.move_cases (h : s.Sound) (a : Asynchronous σ) (m : Move σ) (run : RunId) :
    s.Aside run m ∨ (∃ k now x, s.Begins run m k now x) ∨
      ∃ l x n, s.loop.take = (some (.settled run), l) ∧
        Ran { s with loop := l } (s.move a m) run x (a.settled (s.frame run x)).2 n := by
  by_cases aside : s.Aside run m
  · exact .inl aside
  · refine .inr ?_
    cases m with
    | clock time => exact absurd trivial aside
    | outside serving code => exact absurd trivial aside
    | start => exact .inl ⟨_, _, _, .start (Decidable.not_not.1 aside).symm⟩
    | turn =>
      simp only [Aside, Classical.not_forall, Bool.not_eq_false] at aside
      obtain ⟨c, l, taken, p, hp, hc⟩ := aside
      obtain ⟨x, hx⟩ := h.lookup taken hp hc
      rcases own_of_sort hp hc with rfl | ⟨ending, rfl⟩ | rfl
      · exact .inl ⟨_, _, _, .turn taken (.inl rfl) hx⟩
      · exact .inl ⟨_, _, _, .turn taken (.inr ⟨ending, rfl⟩) hx⟩
      · obtain ⟨n, ran⟩ := step_ran (s := { s with loop := l }) hx a.settled
        refine .inr ⟨l, x, n, taken, ?_⟩
        simp only [Session.move, taken]
        exact ran.report _

/-- A call among the entries of the move is a call of the callback, which has listed its calls: what is entered
when a callback is taken is no call, and only calls of the scheduler are behind it. -/
theorem Begins.calls_of_listed (h : s.Begins run m k now x) {entered after : List Event} {e : Event}
    (split : (s.move a m).journalOf run = s.journalOf run ++ (entered ++ e :: after))
    (called : e.isCall = true)
    (listed : a.Listed run now k (s.frame run x) (a.body run now k (s.frame run x)).2.world.history) :
    ∃ before c, entered = k.entries ++ before ∧ a.Calls run now k (s.frame run x) before e c := by
  obtain ⟨n, ran⟩ := h.ran (a := a)
  obtain ⟨es, os, grows⟩ := h.grows a
  obtain ⟨q, -, grown⟩ := ran.grown (h.starts grows)
  have history : (a.body run now k (s.frame run x)).2.world.history = es := grows.history
  rw [history] at listed
  have adds := grown.journal
  rw [h.onset.1, split] at adds
  have behind : entered ++ e :: after = k.entries ++ (es ++ List.replicate n Event.fired) :=
    List.append_cancel_left (adds.trans (by simp))
  have calls := listed.append_uncalled (isCall_fires n)
  rcases List.append_eq_append_iff.1 behind with ⟨mid, hmid, later⟩ | ⟨mid, rfl, later⟩
  · cases mid with
    | nil =>
      obtain ⟨c, call⟩ := calls [] e after later.symm called
      exact ⟨[], c, by simpa using hmid.symm, call⟩
    | cons e' mid =>
      obtain ⟨rfl, rfl⟩ := List.cons.inj later
      have among : e ∈ k.entries := by simp [hmid]
      rcases h.own with rfl | ⟨ending, rfl⟩
      · simp [Callback.entries] at among
      · obtain rfl := List.mem_singleton.1 among
        cases called
  · obtain ⟨c, call⟩ := calls mid e after later called
    exact ⟨mid, c, rfl, call⟩

/-- Whatever call a move adds to a journal is a call of the callback that it begins. -/
theorem Sound.calls_of_journal (h : s.Sound) {entered after : List Event} {e : Event}
    (split : (s.move a m).journalOf run = s.journalOf run ++ (entered ++ e :: after))
    (called : e.isCall = true) : ∃ k now x before c, s.Begins run m k now x ∧
      entered = k.entries ++ before ∧ a.Calls run now k (s.frame run x) before e c := by
  have absent : ∀ {es : List Event}, es = entered ++ e :: after → (∀ e ∈ es, e.isCall = false) →
      False := by
    rintro es rfl uncalled
    have silent := uncalled e (by simp)
    rw [called] at silent
    cases silent
  rcases h.move_cases a m run with aside | ⟨k, now, x, began⟩ | ⟨l, x, n, taken, ran⟩
  · obtain ⟨n, shifts⟩ := aside.shifts (a := a) h
    exact (absent (List.append_cancel_left (shifts.journal.symm.trans split)) (isCall_fires n)).elim
  · have listed : a.Listed run now k (s.frame run x) (a.body run now k (s.frame run x)).2.world.history := by
      rcases began.own with rfl | ⟨ending, rfl⟩
      · exact Asynchronous.listed_attempt rfl
      · exact Asynchronous.listed_pollEnded rfl ending
    obtain ⟨before, c, front, call⟩ := began.calls_of_listed split called listed
    exact ⟨k, now, x, before, c, began, front, call⟩
  · -- what follows the settling of the promise only cleans up
    obtain ⟨es, os, tidies⟩ := a.settled_tidies (s.frame run x)
    have grows : Frame.Grows (s.frame run x) _ es os := tidies.toGrows
    obtain ⟨q, -, grown⟩ := ran.grown grows
    have entries : es ++ List.replicate n Event.fired = entered ++ e :: after :=
      List.append_cancel_left ((List.append_assoc _ _ _).symm.trans (grown.journal.symm.trans split))
    exact (absent entries (List.forall_mem_append.2
      ⟨fun e he => Event.isCall_of_isTidying (tidies.tidying e he), isCall_fires n⟩)).elim

/-- A refused fault rejects the promise, if it can be carried and the promise is pending. -/
theorem promise_refuse {e : Fault} (h : e.IsCarriable) {g : Frame σ}
    (pending : g.execution.promise = .pending) :
    (Step.refuse e g).2.execution.promise = .rejected e := by
  have unsettled : g.execution.promise.isSettled = false := by
    rw [pending]
    rfl
  simp [Step.refuse, h.1, Step.reject, unsettled, Promise.ofFault, h.2, Frame.settle_of_pending]

/-- A fault that a call raises in a callback rejects the promise, unless somebody has cancelled it, and
nothing else is ever called. -/
theorem Reachable.rejects (h : s.Reachable a) (begins : s.Begins run m k now x) {before : List Event}
    {e : Event} {c : Caller σ} {fault : Fault}
    (calls : a.Calls run now k (s.frame run x) before e c)
    (raised : (a.answer run e c).1 = .error fault) (carriable : fault.IsCarriable)
    (uncancelled : (s.move a m).promise? run ≠ some .cancelled) (ms : List (Move σ)) :
    ∃ es, ((s.move a m).moves a ms).journalOf run =
        s.journalOf run ++ (k.entries ++ before ++ e :: es) ∧
      (∀ e ∈ es, e.isCall = false) ∧
      ((s.move a m).moves a ms).promise? run = some (.rejected fault) := by
  obtain ⟨g, es, os, ends, history, grows, left⟩ := calls.body_eq raised
  obtain ⟨os', refused⟩ := Step.refuse_evolves fault g
  obtain ⟨n, ran⟩ := begins.ran (a := a)
  rw [ends] at ran
  obtain ⟨q, hq, grown⟩ := ran.grown (begins.starts (grows.trans refused.toGrows))
  have entries : es = before ++ [e] := grows.history.symm.trans history
  -- after the callback, the promise is rejected or has been cancelled in it
  have promise : (s.move a m).promise? run = some (.rejected fault) := by
    rw [promise?, grown.lookup, Option.map_some] at uncancelled ⊢
    rcases left with pending | cancelled
    · rw [promise_refuse carriable pending] at hq
      rw [Promise.eq_of_orCancelled hq rfl]
    · rw [refused.toGrows.cancelled cancelled] at hq
      exact absurd (congrArg some (Promise.eq_of_orCancelled hq rfl)) uncancelled
  obtain ⟨later, quiet⟩ := (h.move m).quiesces promise rfl ms
  refine ⟨List.replicate n Event.fired ++ later, ?_, ?_, quiet.promise⟩
  · rw [quiet.journal, grown.journal, begins.onset.1, entries]
    simp
  · exact List.forall_mem_append.2 ⟨isCall_fires n, quiet.uncalled⟩

end Session

/-! ## Faults of the caller's code -/

/-- A fault of the caller's code ends a wait at once, wherever it is raised and whichever attempt it is.

In the history of a blocking run, an entry whose code raises a fault that is no outcome, or gives a delay
that is refused, is the last one, and the run raises this fault.

In a session, every call that a move adds to the journal of an execution is a call of the callback that
the move begins. If the code behind it raises a fault that a promise can carry, or gives a delay that is
refused, and nobody cancels the promise, then the promise is rejected with this fault; and whatever happens
from then on, the execution calls neither hook, matcher, operation nor backoff, and no scheduler. -/
theorem ends_at_fault :
    (∀ (b : Blocking σ) (w : World σ) (before after : List Event) (e : Event) (fault : Fault),
      (b.run w).2.history = w.history ++ (before ++ e :: after) →
      (b.answer e (replay b.answer w.caller before)).1 = .error fault →
      after = [] ∧ (b.run w).1 = .error fault) ∧
    ∀ (a : Asynchronous σ) (s : Session σ), s.Reachable a → ∀ (m : Move σ) (run : RunId),
      (∀ (entered after : List Event) (e : Event),
        (s.move a m).journalOf run = s.journalOf run ++ (entered ++ e :: after) → e.isCall = true →
        ∃ k now x before c, s.Begins run m k now x ∧ entered = k.entries ++ before ∧
          a.Calls run now k (s.frame run x) before e c) ∧
      ∀ (k : Callback) (now : Binary64) (x : Execution) (before : List Event) (e : Event) (c : Caller σ)
        (fault : Fault), s.Begins run m k now x → a.Calls run now k (s.frame run x) before e c →
        (a.answer run e c).1 = .error fault → fault.IsCarriable →
        (s.move a m).promise? run ≠ some .cancelled → ∀ ms : List (Move σ),
        ∃ es, ((s.move a m).moves a ms).journalOf run =
            s.journalOf run ++ (k.entries ++ before ++ e :: es) ∧
          (∀ e ∈ es, e.isCall = false) ∧
          ((s.move a m).moves a ms).promise? run = some (.rejected fault) := by
  refine ⟨?_, ?_⟩
  · intro b w before after e fault split raised
    obtain ⟨es, left, stops⟩ := b.run_replays w
    rw [left] at split
    obtain rfl := List.append_cancel_left split
    exact stops before e after fault rfl raised
  · intro a s reachable m run
    refine ⟨fun entered after e split called => reachable.sound.calls_of_journal split called, ?_⟩
    intro k now x before e c fault begins calls raised carriable uncancelled ms
    exact reachable.rejects begins calls raised carriable uncancelled ms

/-! ## An example -/

/-- A hook that does not let any attempt be opened. -/
def Hooks.refusing : Hooks Unit := { onAttempt := some fun _ => throw (.plain .value []) }

/-- The first attempt is refused. The blocking wait raises the fault of the hook, and the promise of the
execution is rejected with it, without a call after that of the hook. -/
theorem ends_at_fault_refusing :
    ((Blocking.brisk .refusing).run ⟨⟨(), 0, []⟩, []⟩).1 = .error (.plain .value []) ∧
    ∃ es, (((Session.brisk .refusing 0).move (.brisk .refusing) .turn).moves (.brisk .refusing)
        [.turn]).journalOf 0 = .notice (.attempt ⟨.int 1, .int 3⟩) :: es ∧
      (∀ e ∈ es, e.isCall = false) ∧
      (((Session.brisk .refusing 0).move (.brisk .refusing) .turn).moves (.brisk .refusing)
        [.turn]).promise? 0 = some (.rejected (.plain .value [])) := by
  obtain ⟨blocking, asynchronous⟩ := @ends_at_fault Unit
  have first := (blocking (.brisk .refusing) ⟨⟨(), 0, []⟩, []⟩ [] [] (.notice (.attempt ⟨.int 1, .int 3⟩))
    (.plain .value []) rfl rfl).2
  have begins : ({ loop := { time := .finite false 0 }, caller := { state := () } } : Session Unit).Begins
      0 .start _ _ _ := .start rfl
  have reaches : (Asynchronous.brisk .refusing).Reaches 0 (.finite false 0) (.attempt 0)
      (Session.frame { loop := { time := .finite false 0 }, caller := { state := () } } 0
        { started := .real (.finite false 0) }) _ _ := .opening rfl
  have calls := Asynchronous.Calls.visited reaches
    (show _ = _ ++ ([] ++ Event.notice (.attempt ⟨.int 1, .int 3⟩) :: []) from rfl)
  have uncancelled : (Session.brisk .refusing 0).promise? 0 ≠ some .cancelled := by decide +kernel
  obtain ⟨-, rejects⟩ := asynchronous (.brisk .refusing) _ (.init (.finite false 0) { state := () }) .start 0
  have ended := rejects _ _ _ _ _ _ (.plain .value []) begins calls rfl ⟨rfl, rfl⟩ uncancelled
    [.turn, .turn]
  exact ⟨first, ended⟩

end Polling
