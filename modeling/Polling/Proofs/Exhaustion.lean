import Polling.Proofs.Limits
import Polling.Proofs.Lockstep

/-!
# Raising the limit only extends a wait

A wait looks at its limit only when its attempts are spent. So a higher limit makes no difference to a wait
that does not come to this point, and one that does is continued from there: `higher_limit_extends`. For
blocking runs this is `Blocking.run_raised`. Here sessions are compared, move by move. A move is made in
both of them unless it begins a callback in which an execution comes to judge an outcome at which its
attempts are spent (`Session.Coincide.move_raised`). Where that happens (`Session.Parts`), the journals of
the execution part (`Session.Parts.part`), and with the lower limit it ends (`Session.Parts.exhausts`).

`exhausted_run_ends_otherwise` has the reasons why nothing simpler would do. An exhausted run need not end
with the failure that says so, since the hook for failures may raise a fault of its own. And a scheduler
that calls back more often than it was asked to may take the counter beyond the attempts that have left an
outcome.
-/

namespace Polling

variable {V : Type} {view : σ → V}

/-! ## Callbacks -/

namespace Asynchronous

variable {a : Asynchronous σ} {run : RunId} {now : Binary64} {k : Callback} {f g : Frame σ} {n : Nat}
  {o : Outcome}

/-- Around an evaluation, a higher limit makes no difference. -/
theorem raised_around {limit : Nat} (more : a.waiter.strategy.limit < limit) (h : a.InSight (.unlimited view))
    (hooks : (a.waiter.hooks.getD {}).DisregardLimit (.unlimited view)) :
    a.Around (.unlimited view) (fun _ => True) (a.raised limit more) where
  notifier now started _ := Hooks.DisregardLimit.notifier (n := a.notifier now) hooks
    (fun _ _ _ => rfl) (.int limit) |>.coincide started fun _ => rfl
  operation := h.operation
  scheduler := h.scheduler
  cancelPoll := h.cancelPoll
  resume := h.resume
  wake := h.wake

/-- Where a callback comes to judge an outcome, it has opened the attempt and called the operation, unless
this was done in an earlier one. -/
theorem Reaches.beats_judging (h : a.Reaches run now k f (.judging n o) g) (empty : f.world.history = []) :
    (k = .attempt run ∧ n = f.execution.attempt + 1 ∧
        beatsOf g.world.history = (a.protocol fun _ _ => True).opening n ++ [Event.polled n]) ∨
      (∃ ending, k = .pollEnded run ending) ∧ n = f.execution.attempt ∧ g.world.history = [] := by
  cases h with
  | ended pending outcome => exact .inr ⟨⟨_, rfl⟩, rfl, empty⟩
  | @failing _ _ _ g₁ _ result _ reaches called failed ordinary =>
    -- a call that has failed comes right behind the opening of its attempt
    cases reaches with
    | @calling _ _ _ g₀ g₀' reaches opened =>
      cases reaches with
      | opening pending =>
        refine .inl ⟨rfl, rfl, ?_⟩
        obtain ⟨es, history, beats⟩ : ∃ es, ((a.notifier now).opening (f.execution.attempt + 1)
            a.waiter.strategy.limit f.world).2.history = f.world.history ++ es ∧
              beatsOf es = (a.protocol fun _ _ => True).opening (f.execution.attempt + 1) :=
          Notifier.opening_beats a.waiter _ _ _ _ _ f.world
        rw [empty, List.nil_append] at history
        have front : g₀'.world.history = es := (Step.history_of_perform opened).trans history
        have polled : g.world.history = es ++ [Event.polled (f.execution.attempt + 1)] :=
          (Step.history_of_perform called).trans (congrArg (· ++ [Event.polled _]) front)
        rw [polled, beatsOf_append, beats]
        rfl

/-- From where an outcome has been told of, a callback leaves its entries where they are. -/
theorem Reaches.history_telling {t : Transition} (h : a.Reaches run now k f (.telling n o t) g) :
    ∃ later, (a.body run now k f).2.world.history =
      (a.visit run now (.telling n o t) g).2.world.history ++ later := by
  rw [h.body_eq]
  rcases ht : a.visit run now (.telling n o t) g with ⟨e | ⟨⟩, g'⟩
  · have raised : (a.visit run now (.telling n o t) g).1 = .error e := congrArg Prod.fst ht
    rw [remainder_of_fault raised rfl h.attempt, ht, refuse_history]
    exact ⟨[], (List.append_nil _).symm⟩
  · have told : Step.perform ((a.notifier now).tell o n g.execution.started t) g = (.ok (), g') := ht
    simp only [remainder, told]
    cases t.next with
    | inl c => exact ⟨[], by simp [follow]⟩
    | inr d =>
      obtain ⟨-, later, history, -⟩ := a.schedule_writes run (P := fun _ => True) (fun _ _ => trivial) d g'
      exact ⟨later, history⟩

/-- From where an outcome has been evaluated, a callback leaves its entries where they are. -/
theorem Reaches.history_judging (h : a.Reaches run now k f (.judging n o) g) :
    ∃ later, (a.body run now k f).2.world.history =
      (evaluate a.waiter.acceptors a.waiter.strategy o (.int n) g.world).2.history ++ later := by
  rcases he : Step.perform (evaluate a.waiter.acceptors a.waiter.strategy o (.int n)) g with ⟨e | t, g'⟩
  all_goals rw [← Step.history_of_perform he]
  · have raised := a.visit_judging_error run now he
    rw [h.body_eq, remainder_of_fault (congrArg Prod.fst raised) rfl h.attempt, raised, refuse_history]
    exact ⟨[], (List.append_nil _).symm⟩
  · have next := Reaches.telling h he
    obtain ⟨later, history⟩ := next.history_telling
    obtain ⟨es, os, tells⟩ := a.visit_approaches run now (.telling n o t) g'
    exact ⟨es ++ later, by rw [history, tells.history, List.append_assoc]⟩

end Asynchronous

/-! ## Sessions -/

/-- In whole rounds of an execution, every delay is handed to the scheduler. -/
theorem Protocol.Cycles.scheduled {a : Asynchronous σ} {leaves : Nat → Outcome → Prop} {n : Nat}
    {es : List Event} (h : (a.protocol leaves).Cycles n es) : es.countP Event.isScheduled = n := by
  induction h with
  | start => rfl
  | round before left more ih =>
    simp only [List.countP_append, List.countP_cons, Protocol.opening, Protocol.retry,
      Protocol.tell_isScheduled, ih]
    rfl

theorem countP_beatsOf_isScheduled (es : List Event) :
    (beatsOf es).countP Event.isScheduled = es.countP Event.isScheduled :=
  countP_beatsOf (by intro e; cases e <;> simp [Event.isScheduled, Event.isBeat]) es

namespace Asynchronous

variable (a : Asynchronous σ) (time : Binary64) (caller : Caller σ)

/-- The session that comes about by some moves. -/
abbrev played (ms : List (Move σ)) : Session σ := Session.moves a { loop := { time }, caller } ms

theorem played_concat (ms : List (Move σ)) (m : Move σ) :
    a.played time caller (ms ++ [m]) = (a.played time caller ms).move a m :=
  Session.moves_append a _ ms [m]

theorem played_append (before : List (Move σ)) (m : Move σ) (after : List (Move σ)) :
    a.played time caller (before ++ m :: after) = ((a.played time caller before).move a m).moves a after :=
  Session.moves_append a _ before (m :: after)

theorem played_reachable (ms : List (Move σ)) : (a.played time caller ms).Reachable a :=
  (Session.Reachable.init time caller).moves ms

/-- It is in a move after some others that an execution is exhausted, before any other one is. -/
def FirstExhausted (before : List (Move σ)) (m : Move σ) (run : RunId) : Prop :=
  (∀ other, ¬ a.waiter.Exhausted ((a.played time caller before).journalOf other)) ∧
    a.waiter.Exhausted ((a.played time caller (before ++ [m])).journalOf run)

end Asynchronous

namespace Session

variable {a : Asynchronous σ} {s s' : Session σ} {run : RunId} {m : Move σ} {k : Callback} {now : Binary64}
  {x : Execution}

/-- Journals look the same. -/
theorem Coincide.journalOf {seen : Sight σ V} (h : Coincide seen s s') (run : RunId) :
    (s.journalOf run).filterMap seen.entry = (s'.journalOf run).filterMap seen.entry := by
  have entries : ∀ j : List (RunId × Event), ((j.filter (·.1 == run)).map (·.2)).filterMap seen.entry =
      ((j.filterMap seen.entered).filter (·.1 == run)).map (·.2) := by
    intro j
    induction j with
    | nil => rfl
    | cons p rest ih =>
      obtain ⟨own, e⟩ := p
      rw [List.filterMap_cons, Sight.entered]
      cases hs : seen.entry e <;> cases ho : own == run <;> simp_all
  rw [Session.journalOf, Session.journalOf, entries, entries, h.journal]

/-- A move begins a callback of one execution at most. -/
theorem Begins.aside (h : s.Begins run m k now x) {other : RunId} (ne : other ≠ run) : s.Aside other m := by
  cases h with
  | start new => exact fun same => ne (same.symm.trans new.symm)
  | turn taken own lookup =>
    intro c l taken' p hp
    obtain ⟨same, -⟩ := Prod.mk.inj (taken.symm.trans taken')
    obtain rfl := Option.some.inj same
    simp only [Callback.sorts, List.mem_cons, List.not_mem_nil, or_false] at hp
    rcases own with rfl | ⟨ending, rfl⟩ <;> rcases hp with rfl | rfl | rfl <;>
      simp [Callback.isAttempt, Callback.isPollEnded, Callback.isSettled, ne.symm]

/-- The journal after a callback that a move begins. -/
theorem Begins.entered (h : s.Begins run m k now x) (a : Asynchronous σ) : ∃ n,
    (s.move a m).journalOf run = s.journalOf run ++ k.entries ++
      (a.body run now k (s.frame run x)).2.world.history ++ List.replicate n Event.fired := by
  obtain ⟨n, ran⟩ := h.ran (a := a)
  obtain ⟨es, os, grows⟩ := h.grows a
  obtain ⟨p, -, grown⟩ := ran.grown (h.starts grows)
  have history : (a.body run now k (s.frame run x)).2.world.history = es := grows.history
  exact ⟨n, by rw [h.journal grown, history]; simp⟩

/-- What a callback has entered when it has judged an outcome is in the journal. -/
theorem Begins.entered_judging (begins : s.Begins run m k now x) {n : Nat} {o : Outcome} {g : Frame σ}
    (reaches : a.Reaches run now k (s.frame run x) (.judging n o) g) :
    (evaluate a.waiter.acceptors a.waiter.strategy o (.int n) g.world).2.history ⊆
      (s.move a m).journalOf run := by
  obtain ⟨fired, journal⟩ := begins.entered a
  obtain ⟨later, history⟩ := reaches.history_judging
  rw [journal, history]
  intro e mem
  simp [mem]

/-- When an execution comes to judge an outcome, whole rounds and the call of the operation for one more
attempt are behind it, and the backoff has been asked in each of the rounds. -/
theorem Begins.judging (begins : s.Begins run m k now x) (h : s.Reachable a)
    (once : FiresOnce (s.journalOf run)) {n : Nat} {o : Outcome} {g : Frame σ}
    (reaches : a.Reaches run now k (s.frame run x) (.judging n o) g) :
    ∃ i rounds, n = i + 1 ∧ (a.protocol fun _ _ => True).Cycles i rounds ∧
      beatsOf (s.journalOf run ++ k.entries ++ g.world.history) =
        rounds ++ ((a.protocol fun _ _ => True).opening (i + 1) ++ [Event.polled (i + 1)]) ∧
      (s.journalOf run ++ k.entries ++ g.world.history).countP Event.isAsked = i := by
  -- nothing is asked on the way to the judgement, and before it was asked once for each delay
  have asked : (s.journalOf run ++ k.entries ++ g.world.history).countP Event.isAsked =
      (s.journalOf run).countP Event.isScheduled := by
    rw [List.countP_append, List.countP_append, begins.balanced h (h.balanced run) once, reaches.asks rfl]
    cases k <;> rfl
  rw [asked, beatsOf_append, beatsOf_append, beatsOf_entries, List.append_nil, ← countP_beatsOf_isScheduled]
  rcases reaches.beats_judging rfl with ⟨attempt, number, beats⟩ | ⟨⟨ending, ended⟩, number, none⟩
  · have cycles := begins.cycles h (h.inPace run) once attempt
    obtain rfl : n = x.attempt + 1 := number
    exact ⟨x.attempt, _, rfl, cycles, by rw [beats], cycles.scheduled⟩
  · obtain ⟨i, rounds, attempt, cycles, split⟩ := begins.polled h (h.inPace run) once ended
    have number' : n = x.attempt := number
    refine ⟨i, rounds, number'.trans attempt, cycles, by rw [split, none]; simp, ?_⟩
    rw [split, List.countP_append, List.countP_append, cycles.scheduled, Protocol.opening,
      Protocol.tell_isScheduled]
    rfl

/-! ### Where two sessions part -/

/-- In a move that is made in two sessions, an execution comes to judge an outcome at which its attempts are
spent, as far as the limit goes that one of them has. -/
def Parts (view : σ → V) (a a' : Asynchronous σ) (s s' : Session σ) (m : Move σ) (run : RunId) : Prop :=
  ∃ k now x n o g g', s.Begins run m k now x ∧ s'.Begins run m k now x ∧
    a.Reaches run now k (s.frame run x) (.judging n o) g ∧
    a'.Reaches run now k (s'.frame run x) (.judging n o) g' ∧
    a.waiter.Spends (.unlimited view) o n g.world g'.world

/-- An execution has failed since its attempts are exhausted, unless it has been cancelled or the hook for
failures has overruled this. -/
def Exhausts (a : Asynchronous σ) (run : RunId) (s : Session σ) : Prop :=
  (∃ f, s.promise? run = some (.concluded (.failure f)) ∧ f.reason = .exhausted a.waiter.strategy.limit) ∨
    s.promise? run = some .cancelled ∨ ∃ e, a.waiter.Overrules (s.journalOf run) e

/-- An execution for which an evaluation comes to a failure fails with it, unless it is cancelled or the hook
for failures raises a fault. -/
theorem Begins.exhausts (begins : s.Begins run m k now x) (h : s.Reachable a) {n : Nat} {o : Outcome}
    {g : Frame σ} {f : Failure} (reaches : a.Reaches run now k (s.frame run x) (.judging n o) g)
    (fails : (evaluate a.waiter.acceptors a.waiter.strategy o (.int n) g.world).1 = .ok (.fail f))
    (reason : f.reason = .exhausted a.waiter.strategy.limit) : (s.move a m).Exhausts a run := by
  obtain ⟨g', evaluated⟩ : ∃ g', Step.perform
      (evaluate a.waiter.acceptors a.waiter.strategy o (.int n)) g = (.ok (.fail f), g') :=
    ⟨_, Prod.ext fails rfl⟩
  have telling := Asynchronous.Reaches.telling reaches evaluated
  rcases visited : a.visit run now (.telling n o (.fail f)) g' with ⟨e | ⟨⟩, g''⟩
  · -- what is raised there is from the hook, since telling the time does not fail
    obtain ⟨t, began⟩ := h.begins_real begins
    have started : g'.execution.started = .real t := telling.started.trans began
    have told : Step.perform ((a.notifier now).tell o n g'.execution.started (.fail f)) g' =
        (.error e, g'') := visited
    rw [started, Step.perform_apply] at told
    obtain ⟨result, rfl⟩ := Prod.mk.inj told
    have clock : (a.notifier now).clock = fun _ => .real now := rfl
    obtain ⟨info, c, fault, mem, raised⟩ := Notifier.tell_fail_error clock (Prod.ext result rfl)
    obtain ⟨later, history⟩ := telling.history_telling
    obtain ⟨fired, journal⟩ := begins.entered a
    refine .inr (.inr ⟨e, f, info, c, reason, fault, ?_, raised⟩)
    rw [journal, history, visited, Frame.absorb_history]
    simp [mem]
  · have ends : a.Ends run now k (s.frame run x) n (.failure f) :=
      ⟨o, .fail f, g', telling, rfl, congrArg Prod.fst visited⟩
    exact (begins.promise_of_ends ends).imp (fun concluded => ⟨f, concluded, reason⟩) .inl

/-- Where sessions part, it is logged that the attempts are exhausted. -/
theorem Parts.exhausted {a' : Asynchronous σ} (parts : Parts view a a' s s' m run) :
    a.waiter.Exhausted ((s.move a m).journalOf run) := by
  obtain ⟨k, now, x, n, o, g, g', begins, -, reaches, -, spends⟩ := parts
  exact begins.entered_judging reaches (Waiter.runsOut_of_evaluate (Prod.ext spends.fails rfl) rfl).noted

section Raised

variable {limit : Nat} (more : a.waiter.strategy.limit < limit)

/-- A move is made in both sessions, unless an execution comes to where they part. -/
theorem Coincide.move_raised (h : Coincide (.unlimited view) s s') (insight : a.InSight (.unlimited view))
    (hooks : (a.waiter.hooks.getD {}).DisregardLimit (.unlimited view)) (sees : m.Sees (.unlimited view)) :
    (Coincide (.unlimited view) (s.move a m) (s'.move (a.raised limit more) m) ∧
        (m = .start → (s.start a).1 = (s'.start (a.raised limit more)).1)) ∨
      ∃ run, Parts view a (a.raised limit more) s s' m run := by
  by_cases parts : ∃ run, Parts view a (a.raised limit more) s s' m run
  · exact .inr parts
  · left
    have around := Asynchronous.raised_around more insight hooks
    refine h.move around sees (fun _ => trivial) ?_
    intro run k now x n o g g' begins reaches reaches' frames
    refine Asynchronous.conclude_inStep around run now frames trivial ?_
    rcases evaluate_raised insight.toJudgesInSight more (o := o) (n := g.execution.attempt) frames.world
      with inStep | spends
    · exact inStep
    · obtain rfl : g.execution.attempt = n := reaches.attempt
      exact absurd ⟨run, k, now, x, _, o, g, g', begins, h.begins begins, reaches, reaches', spends⟩ parts

/-- Where sessions part, the execution has failed. -/
theorem Parts.exhausts {a' : Asynchronous σ} (parts : Parts view a a' s s' m run) (h : s.Reachable a) :
    (s.move a m).Exhausts a run := by
  obtain ⟨k, now, x, n, o, g, g', begins, -, reaches, -, spends⟩ := parts
  exact begins.exhausts h reaches spends.fails rfl

/-- Where sessions part, the journals of the execution do. -/
theorem Parts.part (parts : Parts view a (a.raised limit more) s s' m run) (h : s.Reachable a)
    (same : Coincide (.unlimited view) s s') (once : FiresOnce (s.journalOf run)) :
    (a.protocol fun _ _ => True).Part ((s.move a m).journalOf run)
      ((s'.move (a.raised limit more) m).journalOf run) := by
  obtain ⟨k, now, x, n, o, g, g', begins, begins', reaches, reaches', spends⟩ := parts
  obtain ⟨i, rounds, rfl, cycles, beats, asked⟩ := begins.judging h once reaches
  have past : (s.journalOf run ++ k.entries).map Event.unlimited =
      (s'.journalOf run ++ k.entries).map Event.unlimited := by
    have looks := same.journalOf run
    rw [List.map_append, List.map_append]
    congr 1
    simpa only [Sight.unlimited, ← List.filterMap_eq_map] using looks
  have part := spends.part more (p := a.protocol fun _ _ => True) rfl past cycles beats asked
  obtain ⟨fired, journal⟩ := begins.entered a
  obtain ⟨fired', journal'⟩ := begins'.entered (a.raised limit more)
  obtain ⟨later, history⟩ := reaches.history_judging
  obtain ⟨later', history'⟩ := reaches'.history_judging
  rw [journal, journal', history, history']
  have grown := part.append (later ++ List.replicate fired Event.fired) (later' ++ List.replicate fired' .fired)
  simp only [List.append_assoc] at grown ⊢
  exact grown

end Raised

/-- What the log of an execution says, it goes on saying. -/
theorem exhausted_moves (h : s.Sound) (ms : List (Move σ)) (noted : a.waiter.Exhausted (s.journalOf run)) :
    a.waiter.Exhausted ((s.moves a ms).journalOf run) :=
  (h.journalOf_moves_prefix ms run).subset noted

/-- An execution has failed for want of attempts only if the limit was reached. -/
theorem Reachable.runsOut_of_concluded (h : s.Reachable a) {f : Failure} {i : Nat}
    (concluded : s.promise? run = some (.concluded (.failure f))) (reason : f.reason = .exhausted i) :
    a.waiter.RunsOut f (s.journalOf run) := by
  induction h with
  | init time caller => exact absurd concluded (by simp [promise?])
  | @move s m h ih =>
    rcases h.ends concluded with earlier | ⟨k, now, x, n, begins, o, t, g, reaches, next, -⟩
    · exact (ih earlier).mono (h.sound.journalOf_moves_prefix [m] run).subset
    · obtain rfl := Transition.eq_fail_of_next next
      cases reaches with
      | @telling _ _ _ _ g _ _ reaches evaluated =>
        have result : (evaluate a.waiter.acceptors a.waiter.strategy o (.int n) g.world).1 = .ok (.fail f) :=
          congrArg Prod.fst evaluated
        exact (Waiter.runsOut_of_evaluate (Prod.ext result rfl) reason).mono (begins.entered_judging reaches)

section Raised

variable {limit : Nat} (more : a.waiter.strategy.limit < limit) (insight : a.InSight (.unlimited view))
  (hooks : (a.waiter.hooks.getD {}).DisregardLimit (.unlimited view)) (time : Binary64) (caller : Caller σ)
  {ms before after : List (Move σ)}
include insight hooks

/-- As long as no execution is exhausted, the limit makes no difference. By induction on the moves. -/
theorem moves_raised (sees : ∀ m ∈ ms, m.Sees (.unlimited view))
    (fresh : ∀ run, ¬ a.waiter.Exhausted ((a.played time caller ms).journalOf run)) :
    Coincide (.unlimited view) (a.played time caller ms) ((a.raised limit more).played time caller ms) := by
  induction ms using List.reverseRecOn with
  | nil =>
    simp only [Asynchronous.played, moves, List.foldl_nil]
    exact coincides_refl _
  | append_singleton ms m ih =>
    have reachable := a.played_reachable time caller ms
    rw [a.played_concat] at fresh
    rw [a.played_concat, Asynchronous.played_concat]
    have same := ih (fun m' mem => sees m' (List.mem_append_left _ mem)) fun run noted =>
      fresh run (exhausted_moves reachable.sound [m] noted)
    rcases same.move_raised more insight hooks (sees m (by simp)) with ⟨together, -⟩ | ⟨run, parts⟩
    · exact together
    · exact absurd parts.exhausted (fresh run)

/-- If a fault leaves the first attempt of an execution that is not exhausted by it, it is the same one. -/
theorem start_raised (sees : ∀ m ∈ ms, m.Sees (.unlimited view))
    (fresh : ∀ run, ¬ a.waiter.Exhausted ((a.played time caller (ms ++ [.start])).journalOf run)) :
    ((a.played time caller ms).start a).1 =
      (((a.raised limit more).played time caller ms).start (a.raised limit more)).1 := by
  rw [a.played_concat] at fresh
  have reachable := a.played_reachable time caller ms
  have same := moves_raised more insight hooks time caller sees fun run noted =>
    fresh run (exhausted_moves reachable.sound [.start] noted)
  rcases same.move_raised more insight hooks (m := .start) trivial with ⟨-, result⟩ | ⟨run, parts⟩
  · exact result rfl
  · exact absurd parts.exhausted (fresh run)

/-- Where the first execution is exhausted, it is this one by which the sessions part. -/
theorem parts_of_exhausted (sees : ∀ m' ∈ before, m'.Sees (.unlimited view)) (sees' : m.Sees (.unlimited view))
    (first : a.FirstExhausted time caller before m run) :
    Parts view a (a.raised limit more) (a.played time caller before)
      ((a.raised limit more).played time caller before) m run := by
  obtain ⟨fresh, noted⟩ := first
  have reachable := a.played_reachable time caller before
  have reachable' := (a.raised limit more).played_reachable time caller before
  rw [a.played_concat] at noted
  have same := moves_raised more insight hooks time caller sees fresh
  rcases same.move_raised more insight hooks sees' with ⟨together, -⟩ | ⟨other, parts⟩
  · -- with the higher limit, the lower one would have been noted
    have named := (reachable'.move m).exhausted_limit
      (mem_exhausted_of_unlimited (together.journalOf run) noted)
    have equal : a.waiter.strategy.limit = limit := named
    omega
  · by_cases own : run = other
    · exact own ▸ parts
    · -- a move that is about another execution notes nothing
      obtain ⟨k, now, x, n, o, g, g', begins, -⟩ := parts
      obtain ⟨fires, shifts⟩ := (begins.aside own).shifts (a := a) reachable.sound
      rw [Waiter.Exhausted, shifts.journal] at noted
      rcases List.mem_append.1 noted with earlier | fired
      · exact absurd earlier (fresh run)
      · exact nomatch List.eq_of_mem_replicate fired

/-- Where the first execution is exhausted, its journals part, and whatever comes later, they have parted. -/
theorem part_of_exhausted (sees : ∀ m' ∈ before, m'.Sees (.unlimited view)) (sees' : m.Sees (.unlimited view))
    (first : a.FirstExhausted time caller before m run)
    (once : FiresOnce ((a.played time caller before).journalOf run)) :
    (a.protocol fun _ _ => True).Part ((a.played time caller (before ++ m :: after)).journalOf run)
      (((a.raised limit more).played time caller (before ++ m :: after)).journalOf run) := by
  have parts := parts_of_exhausted more insight hooks time caller sees sees' first
  have same := moves_raised more insight hooks time caller sees first.1
  have reachable := a.played_reachable time caller before
  have reachable' := (a.raised limit more).played_reachable time caller before
  obtain ⟨later, journal⟩ := (reachable.move m).sound.journalOf_moves_prefix (a := a) after run
  obtain ⟨later', journal'⟩ :=
    (reachable'.move m).sound.journalOf_moves_prefix (a := a.raised limit more) after run
  rw [a.played_append, Asynchronous.played_append, ← journal, ← journal']
  exact (parts.part more reachable same once).append later later'

end Raised

end Session

/-! ## What a higher limit does -/

/-- A blocking run with a higher limit extends the run of another. -/
structure Blocking.Extends (view : σ → V) (b b' : Blocking σ) (caller : Caller σ) : Prop where
  /-- Unless the attempts are exhausted, both have the same result and have done the same. -/
  same : ¬ b.waiter.Exhausted (b.run ⟨caller, []⟩).2.history →
    (b.run ⟨caller, []⟩).1 = (b'.run ⟨caller, []⟩).1 ∧
      World.Coincide (.unlimited view) (b.run ⟨caller, []⟩).2 (b'.run ⟨caller, []⟩).2
  /-- If they are, the histories part there. -/
  parts : b.waiter.Exhausted (b.run ⟨caller, []⟩).2.history →
    (b.protocol (fun _ _ => True) fun _ => False).Part (b.run ⟨caller, []⟩).2.history
      (b'.run ⟨caller, []⟩).2.history
  /-- A run whose attempts are exhausted ends with this, or with what the hook for failures raises. -/
  exhausts : b.waiter.Exhausted (b.run ⟨caller, []⟩).2.history → b.Exhausts (b.run ⟨caller, []⟩)
  /-- And no other run ends with this. -/
  only : ∀ f i, (b.run ⟨caller, []⟩).1 = .ok (.failure f) → f.reason = .exhausted i →
    b.waiter.Exhausted (b.run ⟨caller, []⟩).2.history

/-- A session with a higher limit extends another. -/
structure Asynchronous.Extends (view : σ → V) (a a' : Asynchronous σ) (time : Binary64) (caller : Caller σ)
    (ms : List (Move σ)) : Prop where
  /-- Until an execution is exhausted, both are in the same state and have done the same. -/
  same : (∀ run, ¬ a.waiter.Exhausted ((a.played time caller ms).journalOf run)) →
    Session.Coincide (.unlimited view) (a.played time caller ms) (a'.played time caller ms)
  /-- If a fault leaves the first attempt of an execution, it is the same one. -/
  started : (∀ run, ¬ a.waiter.Exhausted ((a.played time caller (ms ++ [.start])).journalOf run)) →
    ((a.played time caller ms).start a).1 = ((a'.played time caller ms).start a').1
  /-- Where the first execution is exhausted, its journals part, if its scheduler has called it back no more
  often than it was asked to. -/
  parts : ∀ before m after run, ms = before ++ m :: after → a.FirstExhausted time caller before m run →
    FiresOnce ((a.played time caller before).journalOf run) →
    (a.protocol fun _ _ => True).Part ((a.played time caller ms).journalOf run)
      ((a'.played time caller ms).journalOf run)
  /-- It ends with this, or with what the hook for failures raises, unless it is cancelled. -/
  exhausts : ∀ before m after run, ms = before ++ m :: after → a.FirstExhausted time caller before m run →
    (a.played time caller (before ++ [m])).Exhausts a run
  /-- And no other execution ends with this. -/
  only : ∀ run f i, (a.played time caller ms).promise? run = some (.concluded (.failure f)) →
    f.reason = .exhausted i → a.waiter.Exhausted ((a.played time caller ms).journalOf run)

/-- A higher limit only extends a wait. Let the hooks do the same whichever limit they are told, and let
nothing that a wait calls depend on what is out of sight. Then a wait does the same with a higher limit, in
the same way and with the same end, unless its attempts are exhausted. If they are, it has gone through all
its rounds but the last and has called the operation once more; so has the one with the higher limit, in the
same way, and where the first notes that its attempts are exhausted, the second asks its backoff for the
next delay. -/
theorem higher_limit_extends (view : σ → V) :
    (∀ (b : Blocking σ) (limit : Nat) (more : b.waiter.strategy.limit < limit),
      b.InSight (.unlimited view) → (b.waiter.hooks.getD {}).DisregardLimit (.unlimited view) →
      (∀ s s', view s = view s' → b.clock s = b.clock s') →
      ∀ caller, b.Extends view (b.raised limit more) caller) ∧
    ∀ (a : Asynchronous σ) (limit : Nat) (more : a.waiter.strategy.limit < limit),
      a.InSight (.unlimited view) → (a.waiter.hooks.getD {}).DisregardLimit (.unlimited view) →
      ∀ time caller ms, (∀ m ∈ ms, m.Sees (.unlimited view)) →
      a.Extends view (a.raised limit more) time caller ms := by
  constructor
  · intro b limit more insight hooks clock caller
    obtain ⟨same, parts⟩ := Blocking.run_raised more insight hooks clock caller
    exact {
      same := same
      parts := fun exhausted => (parts exhausted).1
      exhausts := fun exhausted => (parts exhausted).2
      only := fun f i failed reason => (Blocking.runsOut_of_run (Prod.ext failed rfl) reason).noted }
  · intro a limit more insight hooks time caller ms sees
    refine {
      same := Session.moves_raised more insight hooks time caller sees
      started := Session.start_raised more insight hooks time caller sees
      parts := ?_
      exhausts := ?_
      only := fun run f i concluded reason =>
        ((a.played_reachable time caller ms).runsOut_of_concluded concluded reason).noted }
    · rintro before m after run rfl first once
      exact Session.part_of_exhausted more insight hooks time caller
        (fun m' mem => sees m' (List.mem_append_left _ mem)) (sees m (by simp)) first once
    · rintro before m after run rfl first
      have parts := Session.parts_of_exhausted more insight hooks time caller
        (fun m' mem => sees m' (List.mem_append_left _ mem)) (sees m (by simp)) first
      rw [a.played_concat]
      exact parts.exhausts (a.played_reachable time caller before)

/-! ## Examples -/

/-- Hooks that do not look at the limit do not depend on it. -/
theorem Hooks.disregardLimit_of_same (clear : Function.Injective view) {h : Hooks σ}
    (same : ∀ (n : Notice) (limit limit' : Value), h.hear (n.withLimit limit) = h.hear (n.withLimit limit')) :
    h.DisregardLimit (.unlimited view) := by
  intro n limit limit'
  rw [same n limit limit']
  exact Code.coincides_self clear _

theorem Hooks.listening_disregardLimit : Hooks.listening.DisregardLimit (.unlimited id) :=
  disregardLimit_of_same Function.injective_id fun n _ _ => by cases n <;> rfl

/-- No execution is exhausted if none of those that have been started is. -/
theorem Session.Reachable.unexhausted {a : Asynchronous σ} {s : Session σ} (h : s.Reachable a)
    (started : ∀ run < s.runs.length, ¬ a.waiter.Exhausted (s.journalOf run)) (run : RunId) :
    ¬ a.waiter.Exhausted (s.journalOf run) := by
  rcases Nat.lt_or_ge run s.runs.length with inside | outside
  · exact started run inside
  · rw [Waiter.Exhausted, (h.sound.unknown run (List.getElem?_eq_none_iff.2 outside)).1]
    exact List.not_mem_nil

/-- An execution whose only attempt is in vain. -/
def Asynchronous.hopeless (hooks : Hooks Unit) : Asynchronous Unit :=
  { Asynchronous.brisk hooks with
    waiter := { (Blocking.hopeless hooks).waiter with scheduler := (Waiter.brisk hooks).scheduler } }

/-- With more attempts, the brisk wait has the same result, and the brisk execution comes to the same state.
Where the hopeless ones are exhausted, those with a second attempt ask their backoff. -/
theorem higher_limit_extends_brisk :
    ((Blocking.brisk .listening).run ⟨⟨(), 0, []⟩, []⟩).1 =
      (((Blocking.brisk .listening).raised 5 (by decide)).run ⟨⟨(), 0, []⟩, []⟩).1 ∧
    (Session.moves (.brisk .listening) .blank Session.briskMoves).runs =
      (Session.moves ((Asynchronous.brisk .listening).raised 5 (by decide)) .blank Session.briskMoves).runs ∧
    ((Blocking.hopeless .listening).protocol (fun _ _ => True) fun _ => False).Part
      ((Blocking.hopeless .listening).run ⟨⟨(), 0, []⟩, []⟩).2.history
      (((Blocking.hopeless .listening).raised 2 (by decide)).run ⟨⟨(), 0, []⟩, []⟩).2.history ∧
    ((Asynchronous.hopeless .listening).protocol fun _ _ => True).Part
      ((Session.moves (.hopeless .listening) .blank Session.briskMoves).journalOf 0)
      ((Session.moves ((Asynchronous.hopeless .listening).raised 2 (by decide)) .blank
        Session.briskMoves).journalOf 0) := by
  obtain ⟨blocking, asynchronous⟩ := @higher_limit_extends Unit Unit id
  have clear : Function.Injective (Sight.unlimited (id : Unit → Unit)).view := Function.injective_id
  have disregards := Hooks.listening_disregardLimit
  refine ⟨?_, ?_, ?_, ?_⟩
  · exact ((blocking (.brisk .listening) 5 (by decide) (Blocking.inSight clear _) disregards
      (fun _ _ _ => rfl) ⟨(), 0, []⟩).same (by decide +kernel)).1
  · exact ((asynchronous (.brisk .listening) 5 (by decide) (Asynchronous.inSight clear _) disregards
      (.finite false 0) ⟨(), 0, []⟩ Session.briskMoves fun m _ => m.sees clear).same
        (((Session.Reachable.init _ _).moves Session.briskMoves).unexhausted (by decide +kernel))).runs
  · exact (blocking (.hopeless .listening) 2 (by decide) (Blocking.inSight clear _) disregards
      (fun _ _ _ => rfl) ⟨(), 0, []⟩).parts (by decide +kernel)
  · exact ((asynchronous (.hopeless .listening) 2 (by decide) (Asynchronous.inSight clear _) disregards
      (.finite false 0) ⟨(), 0, []⟩ Session.briskMoves fun m _ => m.sees clear).parts [.start] .turn
        [.turn, .turn, .turn] 0 rfl
        ⟨((Session.Reachable.init _ _).moves [.start]).unexhausted (by decide +kernel), by decide +kernel⟩
        (by decide +kernel))

/-- A hook for failures that raises a fault of its own. -/
def Hooks.overruling : Hooks Unit :=
  { Hooks.listening with onFailure := some fun _ => throw (.plain .value []) }

theorem Hooks.overruling_disregardLimit : Hooks.overruling.DisregardLimit (.unlimited id) :=
  disregardLimit_of_same Function.injective_id fun n _ _ => by cases n <;> rfl

/-- The brisk wait with one attempt only. -/
def Blocking.rash (hooks : Hooks Unit) : Blocking Unit :=
  { Blocking.brisk hooks with
    waiter := { Waiter.brisk hooks with strategy := (Blocking.hopeless hooks).waiter.strategy } }

/-- Attentive executions with two attempts. -/
def Asynchronous.wary : Asynchronous Unit :=
  { Asynchronous.attentive with
    waiter := { Asynchronous.attentive.waiter with
      strategy := (Blocking.hopeless .listening).waiter.strategy.raised 2 (by decide) } }

/-- The scheduler calls the execution back twice, and then its second poll ends. -/
def Session.staleMoves : List (Move Unit) :=
  Session.twiceMoves ++ [.outside 0 (Code.ask (.finish 2 (.value .null))), .turn]

/-- It is not enough to ask that a run does not end with exhausted attempts: the hook for failures may have
raised a fault of its own when it was told of them, and then the run goes on with a higher limit. Nor does an
execution whose attempts are exhausted go on with a higher limit if its scheduler has called it back twice. -/
theorem exhausted_run_ends_otherwise :
    (¬ ∀ (b : Blocking Unit) (limit : Nat) (more : b.waiter.strategy.limit < limit),
      (b.waiter.hooks.getD {}).DisregardLimit (.unlimited id) → ∀ caller,
      (∀ e, (b.run ⟨caller, []⟩).1.bind Conclusion.result = .error e → e.kind ≠ .retriesExhausted) →
        (b.run ⟨caller, []⟩).1 = ((b.raised limit more).run ⟨caller, []⟩).1) ∧
    ¬ ∀ (a : Asynchronous Unit) (limit : Nat) (more : a.waiter.strategy.limit < limit),
      (a.waiter.hooks.getD {}).DisregardLimit (.unlimited id) → ∀ ms run,
      a.waiter.Exhausted ((Session.moves a .blank ms).journalOf run) →
        a.waiter.strategy.limit ≤
          ((Session.moves (a.raised limit more) .blank ms).journalOf run).countP Event.isAsked := by
  constructor
  · intro same
    have kind : (((Blocking.rash .overruling).run ⟨⟨(), 0, []⟩, []⟩).1.bind Conclusion.result |>.map
        fun _ => ()).mapError Fault.kind = .error .value := by decide +kernel
    have results := same (.rash .overruling) 2 (by decide) Hooks.overruling_disregardLimit ⟨(), 0, []⟩
      fun e ends exhausted => by
        rw [ends] at kind
        exact nomatch exhausted.symm.trans (Except.error.inj kind)
    have failed : ((Blocking.rash .overruling).run ⟨⟨(), 0, []⟩, []⟩).1.isOk = false := by decide +kernel
    have succeeded : (((Blocking.rash .overruling).raised 2 (by decide)).run ⟨⟨(), 0, []⟩, []⟩).1.isOk =
        true := by decide +kernel
    rw [results, succeeded] at failed
    exact nomatch failed
  · intro asks
    have asked := asks .wary 3 (by decide) Hooks.listening_disregardLimit Session.staleMoves 0
      (by decide +kernel)
    have few : ((Session.moves (Asynchronous.wary.raised 3 (by decide)) .blank
        Session.staleMoves).journalOf 0).countP Event.isAsked = 1 := by decide +kernel
    rw [few] at asked
    exact absurd asked (by decide)

end Polling
