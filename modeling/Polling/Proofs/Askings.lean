import Polling.Proofs.Halting
import Polling.Proofs.Transitions

/-!
# Asking the backoff

The backoff is asked for a delay by the evaluation of an attempt that another one follows, once, and by
nothing else. So a blocking round after which the run goes on has asked it once (`Blocking.round_asks`), and
an execution that has not ended has asked it once for each delay that it has handed to its scheduler, if the
scheduler calls it back no more often than it is asked to (`Session.Reachable.balanced`).
-/

namespace Polling

/-! ## Asking the backoff -/

/-- Is the backoff asked? -/
def Event.isAsked : Event → Bool
  | .asked _ => true
  | _ => false

theorem countP_isAsked_eq_zero {es : List Event} (h : ∀ e ∈ es, e.isAsked = false) :
    es.countP Event.isAsked = 0 :=
  List.countP_eq_zero.2 fun e he => by simp [h e he]

/-- How often the backoff has been asked when a wait has come to a transition. -/
def Transition.asked : Transition → Nat
  | .retry _ => 1
  | _ => 0

/-- A transition comes of asking the backoff once if it is a retry, and of not asking it otherwise. -/
theorem transitionOn_asks {strategy : Strategy σ} {o : Outcome} {n : Nat} {s : Option Verdict}
    {w w' : World σ} {t : Transition} (h : transitionOn strategy o (.int n) s w = (.ok t, w')) :
    ∃ es, w'.history = w.history ++ es ∧ es.countP Event.isAsked = t.asked := by
  cases ends : endsWait s o with
  | false =>
    rw [transitionOn_of_not_endsWait ends] at h
    rcases Nat.lt_or_ge n strategy.limit with left | spent
    · -- behind the question to the backoff there are only notes
      obtain ⟨r, q, asked, quiet, -⟩ := retryOrExhaust_granted o left w
      obtain ⟨rfl, rfl⟩ := Prod.mk.inj (asked.symm.trans h)
      have none : q.countP Event.isAsked = 0 := countP_isAsked_eq_zero fun e he => by
        have unstepped := List.filter_eq_nil_iff.1 quiet e he
        cases e <;> first | rfl | exact absurd rfl unstepped
      obtain ⟨d, rfl⟩ := exists_retry_of_lt left (congrArg Prod.fst asked)
      exact ⟨.asked (.int n) :: q, by simp, by rw [List.countP_cons, none]; rfl⟩
    · rw [retryOrExhaust_exhausts o spent] at h
      obtain ⟨same, rfl⟩ := Prod.mk.inj h
      obtain rfl := Except.ok.inj same
      exact ⟨_, rfl, rfl⟩
  | true =>
    have unasked : w' = w ∧ t.asked = 0 := by
      rcases s with _ | (_ | _ | _)
      · cases o with
        | raised e =>
          obtain ⟨rfl, rfl⟩ := Act.pure_eq_ok.1 h
          exact ⟨rfl, rfl⟩
        | returned x => exact nomatch ends
      · obtain ⟨r, w₁, made, rest⟩ := Act.bind_eq_ok.1 h
        obtain ⟨rfl, rfl⟩ := Act.pure_eq_ok.1 rest
        exact ⟨(congrArg Prod.snd made).symm, rfl⟩
      · exact nomatch ends
      · obtain ⟨rfl, rfl⟩ := Act.pure_eq_ok.1 h
        exact ⟨rfl, rfl⟩
    exact ⟨[], by rw [unasked.1, List.append_nil], unasked.2.symm⟩

/-- So does an evaluation. -/
theorem evaluate_asks {acceptors : List (Acceptor σ)} {strategy : Strategy σ} {o : Outcome} {n : Nat}
    {w w' : World σ} {t : Transition} (h : evaluate acceptors strategy o (.int n) w = (.ok t, w')) :
    ∃ es, w'.history = w.history ++ es ∧ es.countP Event.isAsked = t.asked := by
  rw [evaluate_eq] at h
  obtain ⟨s, w₁, decided, rest⟩ := Act.bind_eq_ok.1 h
  obtain ⟨es, history, unasked⟩ := decideFrom_enters (P := (·.isAsked = false)) (fun _ _ => rfl)
    (fun _ _ => rfl) 0 acceptors o w
  rw [show decideFrom 0 acceptors o w = (.ok s, w₁) from decided] at history
  obtain ⟨es', history', asked⟩ := transitionOn_asks rest
  refine ⟨es ++ es', by rw [history', history, List.append_assoc], ?_⟩
  rw [List.countP_append, countP_isAsked_eq_zero unasked, asked, Nat.zero_add]

/-- A blocking round after which the run goes on has asked the backoff once. -/
theorem Blocking.round_asks {b : Blocking σ} {started : Value} {n : Nat} {w w' : World σ}
    (h : b.round started n w = (.ok none, w')) :
    ∃ es, w'.history = w.history ++ es ∧ es.countP Event.isAsked = 1 := by
  rw [round_eq] at h
  obtain ⟨⟨⟩, w₁, opened, h⟩ := Act.bind_eq_ok.1 h
  obtain ⟨o, w₂, polled, h⟩ := Act.bind_eq_ok.1 h
  obtain ⟨next, w₅, judged, closed⟩ := Act.bind_eq_ok.1 h
  obtain ⟨t, w₃, evaluated, judged⟩ := Act.bind_eq_ok.1 judged
  obtain ⟨⟨⟩, w₄, told, returned⟩ := Act.bind_eq_ok.1 judged
  obtain ⟨rfl, rfl⟩ := Act.pure_eq_ok.1 returned
  -- only a retry is followed by another round
  obtain ⟨d, rfl⟩ : ∃ d, t = .retry d := by
    cases next : t.next with
    | inl c =>
      rw [next] at closed
      exact nomatch (Act.pure_eq_ok.1 closed).1
    | inr d => exact ⟨d, Transition.next_eq_inr next⟩
  have unasked : ∀ {α} {act : Act σ α} {u u' : World σ} {r : Except Fault α},
      act.Enters (·.isAsked = false) → act u = (r, u') →
        ∃ es, u'.history = u.history ++ es ∧ es.countP Event.isAsked = 0 := by
    intro α act u u' r enters result
    obtain ⟨es, history, none⟩ := enters u
    rw [result] at history
    exact ⟨es, history, countP_isAsked_eq_zero none⟩
  obtain ⟨es₁, history₁, none₁⟩ := unasked
    (Notifier.opening_enters (fun _ _ => rfl) (fun _ => rfl) _ _ _) opened
  obtain ⟨es₂, history₂, none₂⟩ := unasked (b.poll_enters n rfl) polled
  obtain ⟨es₃, history₃, asked⟩ := evaluate_asks evaluated
  obtain ⟨es₄, history₄, none₄⟩ := unasked
    (Notifier.tell_enters (fun _ _ => rfl) (fun _ => rfl) _ _ _ _ _) told
  obtain ⟨es₅, history₅, none₅⟩ := unasked (b.close_enters (fun _ _ => rfl) (fun _ => rfl) started n _
    (fun _ _ => rfl) fun _ _ => rfl) closed
  refine ⟨es₁ ++ es₂ ++ es₃ ++ es₄ ++ es₅, ?_, ?_⟩
  · simp [history₅, history₄, history₃, history₂, history₁]
  · simp [none₁, none₂, asked, none₄, none₅, Transition.asked]

/-- How often the backoff has been asked on the way to a place. -/
def Place.asked : Place → Nat
  | telling _ _ t => t.asked
  | _ => 0

namespace Asynchronous

variable {a : Asynchronous σ} {run : RunId} {now : Binary64} {k : Callback} {f g : Frame σ} {p : Place}

/-- Hooks and the operation are called without asking the backoff. -/
theorem perform_unasked {act : Act σ α} (h : act.Enters (·.isAsked = false)) (g : Frame σ) :
    (Step.perform act g).2.world.history.countP Event.isAsked = g.world.history.countP Event.isAsked := by
  obtain ⟨es, history, unasked⟩ := h g.world
  rw [Step.perform_apply, Frame.absorb_history]
  rw [history, List.countP_append, countP_isAsked_eq_zero unasked, Nat.add_zero]

/-- On the way to a place, the backoff is asked if an evaluation comes to a retry, and then once. -/
theorem Reaches.asks (h : a.Reaches run now k f p g) (empty : f.world.history = []) :
    g.world.history.countP Event.isAsked = p.asked := by
  induction h with
  | opening pending => exact congrArg _ empty
  | @calling k f n g g' reaches opened ih =>
    have unasked := perform_unasked (Notifier.opening_enters (P := (·.isAsked = false)) (fun _ _ => rfl)
      (fun _ => rfl) (a.notifier now) n a.waiter.strategy.limit) g
    rw [opened] at unasked
    exact unasked.trans (ih empty)
  | @failing k f n g g' result o reaches called failed ordinary ih =>
    have unasked := perform_unasked (Act.enters_call (P := (·.isAsked = false)) (e := .polled n) rfl
      (a.operation run g.execution.calls)) g
    rw [called] at unasked
    exact unasked.trans (ih empty)
  | ended pending outcome => exact congrArg _ empty
  | @telling k f n o g t g' reaches evaluated ih =>
    have result : (evaluate a.waiter.acceptors a.waiter.strategy o (.int n) g.world).1 = .ok t :=
      congrArg Prod.fst evaluated
    obtain ⟨es, history, asked⟩ := evaluate_asks (Prod.ext result rfl)
    rw [Step.history_of_perform evaluated, history, List.countP_append, ih empty, asked]
    exact Nat.zero_add _

/-- A callback in which a delay is handed to the scheduler, or a poll comes to be watched, has asked the
backoff for the delays that it hands over. -/
theorem Halts.balanced {r : Except Fault Unit × Frame σ} (h : a.Halts run now k f r)
    (empty : f.world.history = []) (fresh : f.orders = [])
    (some : 0 < r.2.world.history.countP Event.isScheduled + r.2.orders.countP Order.isWatch) :
    r.2.world.history.countP Event.isAsked = r.2.world.history.countP Event.isScheduled := by
  -- up to a place and in the visit of it, nothing is scheduled or watched
  have nothing : ∀ {p g}, a.Reaches run now k f p g →
      (a.visit run now p g).2.world.history.countP Event.isScheduled = 0 ∧
        (a.visit run now p g).2.orders.countP Order.isWatch = 0 := by
    intro p g reaches
    obtain ⟨es, os, arrives⟩ := reaches.approaches
    obtain ⟨es', os', visits⟩ := a.visit_approaches run now p g
    have way := arrives.trans visits
    rw [way.history, way.orders, empty, fresh]
    exact ⟨way.unscheduled, way.unwatched⟩
  cases h with
  | aside grows tidying unwatched =>
    rw [grows.history, grows.orders, empty, fresh, List.nil_append, List.nil_append, unwatched,
      countP_isScheduled_quiet (quiet_of_isTidying tidying)] at some
    exact absurd some (Nat.lt_irrefl 0)
  | raises reaches raised =>
    obtain ⟨unscheduled, unwatched⟩ := nothing reaches
    obtain ⟨os, evolves⟩ := Step.refuse_evolves _ (a.visit run now _ _).2
    rw [refuse_history, countP_isWatch_of_evolves evolves, unscheduled, unwatched] at some
    exact absurd some (Nat.lt_irrefl 0)
  | @polls n g id g' reaches called =>
    obtain ⟨unscheduled, -⟩ := nothing reaches
    have unasked := perform_unasked (Act.enters_call (P := (·.isAsked = false)) (e := .polled n) rfl
      (a.operation run g.execution.calls)) g
    rw [show (a.visit run now (.calling n) g).2 = g' from congrArg Prod.snd called] at unscheduled
    rw [called, reaches.asks empty] at unasked
    exact unasked.trans unscheduled.symm
  | @concludes n o t c g g' reaches next told =>
    obtain ⟨unscheduled, unwatched⟩ := nothing reaches
    obtain ⟨os, settles⟩ := Frame.settle_evolves g' (p := .concluded c) rfl
    rw [told] at unscheduled unwatched
    rw [Frame.settle_world, unscheduled, countP_isWatch_of_evolves settles, unwatched] at some
    exact absurd some (Nat.lt_irrefl 0)
  | @schedules n o d g g' reaches told =>
    obtain ⟨unscheduled, unwatched⟩ := nothing reaches
    have unasked := perform_unasked (Notifier.tell_enters (P := (·.isAsked = false)) (fun _ _ => rfl)
      (fun _ => rfl) (a.notifier now) o n g.execution.started (.retry d)) g
    rw [show Step.perform ((a.notifier now).tell o n g.execution.started (.retry d)) g = (.ok (), g')
      from told, reaches.asks empty] at unasked
    rw [told] at unscheduled unwatched
    cases settled : g'.execution.promise.isSettled with
    | true =>
      -- it is noted that nothing is scheduled
      have noted : Frame.Serves g' (Step.perform (Act.note .notScheduling) g').2 [.note .notScheduling] :=
        Frame.absorb_serves rfl
      obtain ⟨os, evolves⟩ := noted.evolves
      rw [a.schedule_of_isSettled run d settled, evolves.history, List.countP_append, unscheduled,
        countP_isWatch_of_evolves evolves, unwatched] at some
      exact absurd some (Nat.lt_irrefl 0)
    | false =>
      obtain ⟨q, history, quiet⟩ := a.schedule_enters run
        (P := fun e => e.isAsked = false ∧ e.isScheduled = false) (fun _ _ => ⟨rfl, rfl⟩)
        (fun _ => ⟨rfl, rfl⟩) d settled
      have unscheduled' : q.countP Event.isScheduled = 0 :=
        List.countP_eq_zero.2 fun e he => by simp [(quiet e he).2]
      rw [history, List.countP_append, List.countP_append, List.countP_cons, List.countP_cons,
        unasked, unscheduled, unscheduled', countP_isAsked_eq_zero fun e he => (quiet e he).1]
      rfl

end Asynchronous

namespace Session

variable {a : Asynchronous σ} {s : Session σ} {run : RunId} {m : Move σ} {k : Callback} {now : Binary64}
  {x : Execution}

/-- As long as something is to come for an execution, its backoff has been asked once for each delay that has
been handed to the scheduler. -/
def Balanced (s : Session σ) (run : RunId) : Prop :=
  FiresOnce (s.journalOf run) → 0 < s.due run + s.unfired run + s.inFlight run →
    (s.journalOf run).countP Event.isAsked = (s.journalOf run).countP Event.isScheduled

theorem countP_isAsked_fires (n : Nat) : (List.replicate n Event.fired).countP Event.isAsked = 0 := by
  simp [List.countP_replicate, Event.isAsked]

/-- When a callback begins, the backoff has been asked once for each delay. -/
theorem Begins.balanced (begins : s.Begins run m k now x) (h : s.Reachable a) (ih : s.Balanced run)
    (once : FiresOnce (s.journalOf run)) :
    (s.journalOf run).countP Event.isAsked = (s.journalOf run).countP Event.isScheduled := by
  cases begins with
  | start new =>
    rw [(h.sound.unknown run (by simp [new])).1]
    rfl
  | turn taken own lookup =>
    refine ih once ?_
    rcases own with rfl | ⟨ending, rfl⟩
    · have due := (h.sound.attempt_taken taken).1
      omega
    · have inFlight := (h.sound.pollEnded_taken taken).2
      omega

theorem Balanced.move (h : s.Reachable a) (ih : s.Balanced run) (m : Move σ) : (s.move a m).Balanced run := by
  intro after some
  obtain ⟨added, adds, -⟩ := journalOf_move (a := a) h.sound m run
  have once : FiresOnce (s.journalOf run) := after.of_prefix ⟨added, adds.symm⟩
  rcases h.sound.move_cases a m run with aside | ⟨k, now, x, begins⟩ | ⟨l, x, n, taken, ran⟩
  · obtain ⟨n, shifts⟩ := aside.shifts (a := a) h.sound
    have bound := unfired_add_le (q := []) after (by simpa using shifts.journal)
    have due := shifts.due
    have inFlight := shifts.inFlight
    rw [shifts.journal, List.countP_append, List.countP_append, countP_isAsked_fires,
      countP_isScheduled_fires]
    refine ih once ?_
    simp only [List.countP_nil] at bound
    omega
  · -- the callback is the one thing that was to come, so what is to come now comes of it
    obtain ⟨due, inFlight, unfired⟩ := begins.alone h once
    obtain ⟨n, ran⟩ := begins.ran (a := a)
    obtain ⟨es, os, grows⟩ := begins.grows a
    obtain ⟨q, -, grown⟩ := ran.grown (begins.starts grows)
    have journal := begins.journal grown
    have bound := unfired_add_le after journal
    have due' := grown.due
    have inFlight' := grown.inFlight
    have history : (a.body run now k (s.frame run x)).2.world.history = es := grows.history
    have orders : (a.body run now k (s.frame run x)).2.orders = os := grows.orders
    have entries : k.entries.countP Event.isAsked = 0 ∧ k.entries.countP Event.isScheduled = 0 := by
      cases k <;> exact ⟨rfl, rfl⟩
    have balanced : 0 < es.countP Event.isScheduled + os.countP Order.isWatch →
        es.countP Event.isAsked = es.countP Event.isScheduled := by
      have halts : a.Halts run now k (s.frame run x) (a.body run now k (s.frame run x)) :=
        a.body_halts begins.own _
      rw [← history, ← orders]
      exact halts.balanced rfl rfl
    rw [List.countP_append, entries.2] at bound
    rw [journal]
    simp only [List.countP_append, countP_isAsked_fires, countP_isScheduled_fires, entries.1, entries.2]
    rw [begins.balanced h ih once, balanced (by omega)]
  · -- cleaning up leaves nothing to come
    obtain ⟨due, inFlight⟩ := h.sound.settled_taken taken
    obtain ⟨es, os, tidies⟩ := a.settled_tidies (s.frame run x)
    have grows : Frame.Grows (s.frame run x) _ es os := tidies.toGrows
    obtain ⟨q, -, grown⟩ := ran.grown grows
    have journal : (s.move a m).journalOf run = s.journalOf run ++ es ++ List.replicate n Event.fired :=
      grown.journal
    have unscheduled := countP_isScheduled_quiet (quiet_of_isTidying tidies.tidying)
    have unasked : es.countP Event.isAsked = 0 := countP_isAsked_eq_zero fun e he => by
      have tidying := tidies.tidying e he
      cases e <;> first | rfl | exact nomatch tidying
    have bound := unfired_add_le after journal
    have due' := grown.due
    have inFlight' := grown.inFlight
    rw [tidies.unwatched] at inFlight'
    rw [unscheduled] at bound
    rw [journal]
    simp only [List.countP_append, countP_isAsked_fires, countP_isScheduled_fires, unasked, unscheduled]
    rw [ih once (by omega)]

/-- In every session that can be reached, executions are balanced. -/
theorem Reachable.balanced (h : s.Reachable a) (run : RunId) : s.Balanced run := by
  induction h with
  | init time caller => exact fun _ _ => rfl
  | move m h ih => exact Balanced.move h ih m

end Session

end Polling
