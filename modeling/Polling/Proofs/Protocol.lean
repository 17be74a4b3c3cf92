import Polling.Proofs.Evaluation
import Polling.Proofs.Course

/-!
# The protocol of a wait

The beats of a wait are the calls of its hooks and its operation and the delays that it spends. They
follow a protocol, whichever hooks are installed and wherever the caller's code raises a fault. A whole
round opens an attempt, calls the operation, tells of the retry and spends the delay
(`Protocol.Cycles`). The latest attempt may stop anywhere on that way, or after one hook that is told
of the end (`Protocol.Closes`). A run is a number of whole rounds with a latest attempt behind them
(`Protocol.Follows`), and how often something is called can be read off that
(`Follows.counts`).

The second half of the module says which beats the parts of a wait make that blocking and asynchronous
waits have in common.
-/

namespace Polling

namespace Event

/-- Is a hook or the operation called, or a delay spent? -/
def isBeat : Event → Bool
  | .notice _ => true
  | .polled _ => true
  | .slept _ => true
  | .watched _ => true
  | .scheduled _ => true
  | _ => false

/-- Is a delay spent? -/
def isDelay (e : Event) : Bool := e.delay?.isSome

/-- Is a hook told of an attempt? -/
def isOpening : Event → Bool
  | .notice (.attempt _) => true
  | _ => false

/-- Is a hook told of the end of the wait? -/
def isClosing : Event → Bool
  | .notice (.success _) => true
  | .notice (.failure _) => true
  | _ => false

@[simp] theorem polled_isPolled (n : Nat) : (Event.polled n).isPolled = true := rfl

@[simp] theorem polled_isDelay (n : Nat) : (Event.polled n).isDelay = false := rfl

@[simp] theorem polled_isOpening (n : Nat) : (Event.polled n).isOpening = false := rfl

@[simp] theorem polled_isClosing (n : Nat) : (Event.polled n).isClosing = false := rfl

/-- A delay is nothing else. -/
theorem isPolled_of_isDelay {e : Event} (h : e.isDelay = true) :
    e.isPolled = false ∧ e.isOpening = false ∧ e.isClosing = false := by
  cases e <;> simp_all [isDelay, delay?, isPolled, isOpening, isClosing]

end Event

/-- The beats of a history. -/
def beatsOf (es : List Event) : List Event := es.filter Event.isBeat

@[simp] theorem beatsOf_nil : beatsOf [] = [] := rfl

@[simp] theorem beatsOf_append (es es' : List Event) : beatsOf (es ++ es') = beatsOf es ++ beatsOf es' :=
  List.filter_append ..

/-- What a history has no beats of, it enters beside them. -/
theorem beatsOf_eq_nil {es : List Event} (h : ∀ e ∈ es, e.isBeat = false) : beatsOf es = [] :=
  List.filter_eq_nil_iff.2 fun e he => by simp [h e he]

/-- A sort of beats can be counted among the beats. -/
theorem countP_beatsOf {p : Event → Bool} (h : ∀ e, p e = true → e.isBeat = true) (es : List Event) :
    (beatsOf es).countP p = es.countP p := by
  rw [beatsOf, List.countP_filter]
  refine List.countP_congr fun e _ => ?_
  simp only [Bool.and_eq_true, and_iff_left_iff_imp]
  exact h e

theorem countP_beatsOf_isPolled (es : List Event) :
    (beatsOf es).countP Event.isPolled = es.countP Event.isPolled :=
  countP_beatsOf (by intro e; cases e <;> simp [Event.isPolled, Event.isBeat]) es

theorem countP_beatsOf_isDelay (es : List Event) :
    (beatsOf es).countP Event.isDelay = es.countP Event.isDelay :=
  countP_beatsOf (by intro e; cases e <;> simp [Event.isDelay, Event.delay?, Event.isBeat]) es

theorem countP_beatsOf_isOpening (es : List Event) :
    (beatsOf es).countP Event.isOpening = es.countP Event.isOpening :=
  countP_beatsOf (by intro e; cases e <;> simp [Event.isOpening, Event.isBeat]) es

theorem countP_beatsOf_isClosing (es : List Event) :
    (beatsOf es).countP Event.isClosing = es.countP Event.isClosing :=
  countP_beatsOf (by intro e; cases e <;> simp [Event.isClosing, Event.isBeat]) es

/-- Is there a hook that hears a notice? -/
def Hooks.hears (h : Hooks σ) : Notice → Bool
  | .attempt _ => h.onAttempt.isSome
  | .retry _ => h.onRetry.isSome
  | .success _ => h.onSuccess.isSome
  | .failure _ => h.onFailure.isSome

/-- What the protocol of a wait depends on. -/
structure Protocol (σ : Type) where
  hooks : Hooks σ
  limit : Nat
  limit_pos : 1 ≤ limit
  /-- The poll of an attempt has left an outcome. -/
  leaves : Nat → Outcome → Prop
  /-- The entry of a delay that is spent. -/
  spends : Number → Event
  spends_delay : ∀ d, (spends d).delay? = some d
  /-- A delay has been cut short. -/
  cuts : Number → Prop

namespace Protocol

variable (p : Protocol σ)

/-- A notice, if there is a hook that hears it. -/
def tell (n : Notice) : List Event := if p.hooks.hears n then [.notice n] else []

/-- An attempt is opened. -/
def opening (i : Nat) : List Event := p.tell (.attempt ⟨.int i, .int p.limit⟩)

/-- A hook is told of the retry after an attempt. -/
def retry (i : Nat) (o : Outcome) (d : Number) : List Event :=
  p.tell (.retry ⟨.int i, .int p.limit, .number d, o.value, o.fault?⟩)

/-- A hook is told that an attempt has succeeded. -/
def success (i : Nat) (o : Outcome) (elapsed : Value) : List Event :=
  p.tell (.success ⟨.int i, .int p.limit, ⟨o, .int i⟩, elapsed⟩)

/-- A hook is told that the wait has failed at an attempt. -/
def failure (i : Nat) (f : Failure) (elapsed : Value) : List Event :=
  p.tell (.failure ⟨.int i, .int p.limit, some f.fault, elapsed⟩)

/-- The beats of so many whole rounds. -/
inductive Cycles : Nat → List Event → Prop where
  | start : Cycles 0 []
  | round {n es o d} (before : Cycles n es) (left : p.leaves (n + 1) o) (more : n + 1 < p.limit) :
      Cycles (n + 1)
        (es ++ (p.opening (n + 1) ++ .polled (n + 1) :: (p.retry (n + 1) o d ++ [p.spends d])))

/-- The beats behind the operation's call for an attempt, up to the end of the attempt or to where it
stops. -/
inductive Judged (i : Nat) : List Event → Prop where
  /-- No hook is told of anything. -/
  | silent : Judged i []
  | succeeded {o} (t : Value) (left : p.leaves i o) : Judged i (p.success i o t)
  | failed {f : Failure} (t : Value) (attempts : f.attempts = .int i) : Judged i (p.failure i f t)
  | retried {o} (d : Number) (left : p.leaves i o) (more : i < p.limit) : Judged i (p.retry i o d)
  | delayed {o} (d : Number) (left : p.leaves i o) (more : i < p.limit) :
      Judged i (p.retry i o d ++ [p.spends d])
  /-- The delay has been cut short, or not even begun. -/
  | interrupted {o d} (spent : List Event) (t : Value) (left : p.leaves i o) (more : i < p.limit)
      (cuts : p.cuts d) (begun : spent = [] ∨ spent = [p.spends d]) :
      Judged i (p.retry i o d ++ spent ++ p.failure i ⟨.interrupted i, .int i, none⟩ t)

/-- The beats behind the opening of the latest attempt, and whether the operation is called for it. -/
inductive Closes (i : Nat) : Bool → List Event → Prop where
  | refused : Closes i false []
  | polled {es} (judged : p.Judged i es) : Closes i true (.polled i :: es)

/-- The beats of a run up to a latest attempt, and whether the operation has been called for it. -/
inductive Follows : Nat → Bool → List Event → Prop where
  | latest {n called es es'} (before : p.Cycles n es) (closes : p.Closes (n + 1) called es') :
      Follows (n + 1) called (es ++ (p.opening (n + 1) ++ es'))

/-! ## Changing what is known of the outcomes -/

/-- The protocol with something else known of the outcomes and the delays. -/
def knowing (leaves : Nat → Outcome → Prop) (cuts : Number → Prop) : Protocol σ := { p with leaves, cuts }

variable {p} {i n : Nat} {es : List Event} {called : Bool} {leaves : Nat → Outcome → Prop}
  {cuts : Number → Prop}

theorem Cycles.mono (h : p.Cycles n es) (more : ∀ i o, p.leaves i o → leaves i o) :
    (p.knowing leaves cuts).Cycles n es := by
  induction h with
  | start => exact .start
  | round before left limit ih => exact .round ih (more _ _ left) limit

theorem Judged.mono (h : p.Judged i es) (more : ∀ i o, p.leaves i o → leaves i o)
    (still : ∀ d, p.cuts d → cuts d) : (p.knowing leaves cuts).Judged i es := by
  cases h with
  | silent => exact .silent
  | succeeded t left => exact .succeeded t (more _ _ left)
  | failed t attempts => exact .failed t attempts
  | retried d left limit => exact .retried d (more _ _ left) limit
  | delayed d left limit => exact .delayed d (more _ _ left) limit
  | interrupted spent t left limit cut begun =>
    exact .interrupted spent t (more _ _ left) limit (still _ cut) begun

theorem Closes.mono (h : p.Closes i called es) (more : ∀ i o, p.leaves i o → leaves i o)
    (still : ∀ d, p.cuts d → cuts d) : (p.knowing leaves cuts).Closes i called es := by
  cases h with
  | refused => exact .refused
  | polled judged => exact .polled (judged.mono more still)

theorem Follows.mono (h : p.Follows n called es) (more : ∀ i o, p.leaves i o → leaves i o)
    (still : ∀ d, p.cuts d → cuts d) : (p.knowing leaves cuts).Follows n called es := by
  cases h with
  | latest before closes => exact .latest (before.mono more) (closes.mono more still)

/-! ## Counting -/

/-- There is an attempt left behind whole rounds. -/
theorem Cycles.lt_limit (h : p.Cycles n es) : n < p.limit := by
  cases h with
  | start => exact p.limit_pos
  | round before left more => exact more

variable (p)

@[simp] theorem spends_isDelay (d : Number) : (p.spends d).isDelay = true := by
  simp [Event.isDelay, p.spends_delay]

@[simp] theorem spends_isPolled (d : Number) : (p.spends d).isPolled = false :=
  (Event.isPolled_of_isDelay (p.spends_isDelay d)).1

@[simp] theorem spends_isOpening (d : Number) : (p.spends d).isOpening = false :=
  (Event.isPolled_of_isDelay (p.spends_isDelay d)).2.1

@[simp] theorem spends_isClosing (d : Number) : (p.spends d).isClosing = false :=
  (Event.isPolled_of_isDelay (p.spends_isDelay d)).2.2

@[simp] theorem tell_isPolled (n : Notice) : (p.tell n).countP Event.isPolled = 0 := by
  unfold tell
  split <;> simp [Event.isPolled]

@[simp] theorem tell_isDelay (n : Notice) : (p.tell n).countP Event.isDelay = 0 := by
  unfold tell
  split <;> simp [Event.isDelay, Event.delay?]

@[simp] theorem tell_isScheduled (n : Notice) : (p.tell n).countP Event.isScheduled = 0 := by
  unfold tell
  split <;> rfl

@[simp] theorem opening_isClosing : (p.opening i).countP Event.isClosing = 0 := by
  unfold opening tell
  split <;> simp [Event.isClosing]

@[simp] theorem retry_isOpening (o : Outcome) (d : Number) :
    (p.retry i o d).countP Event.isOpening = 0 := by
  unfold retry tell
  split <;> simp [Event.isOpening]

@[simp] theorem retry_isClosing (o : Outcome) (d : Number) :
    (p.retry i o d).countP Event.isClosing = 0 := by
  unfold retry tell
  split <;> simp [Event.isClosing]

@[simp] theorem success_isOpening (o : Outcome) (t : Value) :
    (p.success i o t).countP Event.isOpening = 0 := by
  unfold success tell
  split <;> simp [Event.isOpening]

@[simp] theorem failure_isOpening (f : Failure) (t : Value) :
    (p.failure i f t).countP Event.isOpening = 0 := by
  unfold failure tell
  split <;> simp [Event.isOpening]

theorem tell_length_le (n : Notice) : (p.tell n).length ≤ 1 := by
  unfold tell
  split <;> simp

theorem tell_countP_le (q : Event → Bool) (n : Notice) : (p.tell n).countP q ≤ 1 :=
  Nat.le_trans List.countP_le_length (p.tell_length_le n)

/-- Every attempt that is opened is told of, if a hook listens. -/
theorem opening_isOpening : (p.opening i).countP Event.isOpening = p.hooks.onAttempt.isSome.toNat := by
  unfold opening tell
  cases h : p.hooks.onAttempt.isSome <;> simp [Hooks.hears, h, Event.isOpening]

variable {p}

/-- Every whole round calls the operation once and spends one delay. -/
theorem Cycles.counts (h : p.Cycles n es) : es.countP Event.isPolled = n ∧ es.countP Event.isDelay = n ∧
    es.countP Event.isOpening = n * p.hooks.onAttempt.isSome.toNat ∧ es.countP Event.isClosing = 0 := by
  induction h with
  | start => simp
  | round before left more ih =>
    obtain ⟨polled, delays, openings, closings⟩ := ih
    refine ⟨?_, ?_, ?_, ?_⟩
    · simp [polled, opening, retry, List.countP_cons]
    · simp [delays, opening, retry]
    · simp [openings, opening_isOpening, Nat.add_mul]
    · simp [closings]

/-- Behind the operation's call, no attempt is opened, at most one delay is spent and at most one hook is
told of the end. -/
theorem Judged.counts (h : p.Judged i es) : es.countP Event.isPolled = 0 ∧
    es.countP Event.isOpening = 0 ∧ es.countP Event.isClosing ≤ 1 ∧ es.countP Event.isDelay ≤ 1 ∧
    (0 < es.countP Event.isDelay → i < p.limit) := by
  cases h with
  | silent => simp
  | succeeded t left =>
    refine ⟨by simp [success], by simp, p.tell_countP_le _ _, by simp [success], ?_⟩
    simp [success]
  | failed t attempts =>
    refine ⟨by simp [failure], by simp, p.tell_countP_le _ _, by simp [failure], ?_⟩
    simp [failure]
  | retried d left more => exact ⟨by simp [retry], by simp, by simp, by simp [retry], fun _ => more⟩
  | delayed d left more => exact ⟨by simp [retry], by simp, by simp, by simp [retry], fun _ => more⟩
  | interrupted spent t left more cuts begun =>
    have closings : (p.failure i ⟨.interrupted i, .int i, none⟩ t).countP Event.isClosing ≤ 1 :=
      p.tell_countP_le _ _
    rcases begun with rfl | rfl
    · exact ⟨by simp [retry, failure], by simp, by simpa using closings, by simp [retry, failure],
        fun _ => more⟩
    · exact ⟨by simp [retry, failure], by simp, by simpa using closings, by simp [retry, failure],
        fun _ => more⟩

/-- How often a run calls its operation and its hooks and spends a delay. -/
theorem Follows.counts (h : p.Follows i called es) : 1 ≤ i ∧ i ≤ p.limit ∧
    es.countP Event.isPolled + 1 = i + called.toNat ∧ es.countP Event.isDelay + 1 ≤ p.limit ∧
    es.countP Event.isOpening = i * p.hooks.onAttempt.isSome.toNat ∧ es.countP Event.isClosing ≤ 1 := by
  cases h with
  | @latest n called es es' before closes =>
    have left := before.lt_limit
    obtain ⟨polled, delays, openings, closings⟩ := before.counts
    -- the whole rounds are counted, and the latest attempt adds to them
    cases closes with
    | refused =>
      refine ⟨by omega, left, ?_, ?_, ?_, ?_⟩
      · simp [polled, opening]
      · simp only [List.countP_append, delays, opening, tell_isDelay, List.countP_nil]
        omega
      · simp [openings, opening_isOpening, Nat.add_mul]
      · simp [closings]
    | @polled es' judged =>
      obtain ⟨unpolled, unopened, ends, spends, more⟩ := judged.counts
      refine ⟨by omega, left, ?_, ?_, ?_, ?_⟩
      · simp [polled, opening, unpolled, List.countP_cons]
      · simp only [List.countP_append, delays, opening, tell_isDelay, List.countP_cons,
          Event.polled_isDelay, Bool.false_eq_true, if_false]
        omega
      · simp [openings, opening_isOpening, unopened, Nat.add_mul]
      · simpa [closings, List.countP_cons] using ends

end Protocol

/-! ## The parts of a wait -/

/-- The protocol of waits with a waiter. -/
def Waiter.protocol (w : Waiter σ) (leaves : Nat → Outcome → Prop)
    (spends : { entry : Number → Event // ∀ d, (entry d).delay? = some d }) (cuts : Number → Prop) :
    Protocol σ where
  hooks := w.hooks.getD {}
  limit := w.strategy.limit
  limit_pos := w.strategy.limit_pos
  leaves := leaves
  spends := spends.1
  spends_delay := spends.2
  cuts := cuts

/-- A transition that an evaluation can give after an attempt that has left an outcome. -/
def Transition.Suits (limit i : Nat) (o : Outcome) : Transition → Prop
  | .succeed r => r = ⟨o, .int i⟩
  | .fail f => f.attempts = .int i
  | .retry _ => i < limit

theorem retryOrExhaust_suits {strategy : Strategy σ} {o : Outcome} {n : Nat} {w : World σ}
    {t : Transition} (h : (retryOrExhaust strategy o (.int n) w).1 = .ok t) :
    t.Suits strategy.limit n o := by
  rcases Nat.lt_or_ge n strategy.limit with left | spent
  · obtain ⟨d, rfl⟩ := exists_retry_of_lt left h
    exact left
  · rw [retryOrExhaust_exhausts o spent] at h
    obtain rfl := Except.ok.inj h
    rfl

/-- What an evaluation gives suits the attempt and its outcome. -/
theorem evaluate_suits {acceptors : List (Acceptor σ)} {strategy : Strategy σ} {o : Outcome} {n : Nat}
    (first : 1 ≤ n) {w : World σ} {t : Transition}
    (h : (evaluate acceptors strategy o (.int n) w).1 = .ok t) : t.Suits strategy.limit n o := by
  simp only [evaluate, Act.bind_apply] at h
  rcases hv : decide acceptors o w with ⟨e | v, w'⟩
  · rw [hv] at h
    cases h
  · rw [hv] at h
    rcases v with _ | (_ | _ | _)
    · cases o with
      | raised e =>
        obtain rfl := Except.ok.inj h
        rfl
      | returned x => exact retryOrExhaust_suits h
    · have accepted := Response.ofOutcome_int o (show (1 : Int) ≤ n by omega)
      simp only [Act.bind_apply, accepted, Act.lift_ok_apply] at h
      obtain rfl := Except.ok.inj h
      rfl
    · exact retryOrExhaust_suits h
    · obtain rfl := Except.ok.inj h
      rfl

/-- Evaluating has no beats. -/
theorem evaluate_beats (acceptors : List (Acceptor σ)) (strategy : Strategy σ) (o : Outcome)
    (attempt : Value) (w : World σ) : ∃ es,
      (evaluate acceptors strategy o attempt w).2.history = w.history ++ es ∧ beatsOf es = [] := by
  obtain ⟨es, hes, none⟩ := evaluate_enters (P := (·.isBeat = false)) (fun _ _ => rfl) (fun _ _ => rfl)
    (fun _ => rfl) acceptors strategy o attempt rfl w
  exact ⟨es, hes, beatsOf_eq_nil none⟩

namespace Notifier

section Hooks

variable (w : Waiter σ) (clock : σ → Value) (leaves : Nat → Outcome → Prop)
  (spends : { entry : Number → Event // ∀ d, (entry d).delay? = some d }) (cuts : Number → Prop)

/-- Opening an attempt tells of it, if a hook listens. -/
theorem opening_beats (i : Nat) (W : World σ) : ∃ es,
    ((w.notifier clock).opening i w.strategy.limit W).2.history = W.history ++ es ∧
      beatsOf es = (w.protocol leaves spends cuts).opening i := by
  cases h : (w.hooks.getD {}).onAttempt with
  | none =>
    refine ⟨[.note (.executing i w.strategy.limit)], ?_, ?_⟩
    · simp [opening, attempt, Waiter.notifier, h, Act.note]
    · simp [beatsOf, Event.isBeat, Protocol.opening, Protocol.tell, Waiter.protocol, Hooks.hears, h]
  | some hook =>
    have beats : (w.protocol leaves spends cuts).opening i =
        [.notice (.attempt ⟨.int i, .int w.strategy.limit⟩)] := by
      simp [Protocol.opening, Protocol.tell, Waiter.protocol, Hooks.hears, h]
    simp only [opening, attempt, Waiter.notifier, h, Act.bind_apply, Act.call_apply]
    rcases hook ⟨.int i, .int w.strategy.limit⟩ W.caller with ⟨e | ⟨⟩, c⟩
    · exact ⟨_, rfl, beats.symm⟩
    · refine ⟨[.notice (.attempt ⟨.int i, .int w.strategy.limit⟩),
        .note (.executing i w.strategy.limit)], by simp [Act.note], beats.symm⟩

/-- Telling of a success comes to a notice, unless there is no telling how long it took. -/
theorem success_beats (i : Nat) (o : Outcome) (started : Value) (W : World σ) : ∃ es,
    ((w.notifier clock).success (.int i) ⟨o, .int i⟩ started W).2.history = W.history ++ es ∧
      (beatsOf es = [] ∨ ∃ t, beatsOf es = (w.protocol leaves spends cuts).success i o t) := by
  cases h : (w.hooks.getD {}).onSuccess with
  | none => exact ⟨[], by simp [success, Waiter.notifier, h], .inl rfl⟩
  | some hook =>
    simp only [success, Waiter.notifier, h, elapsed, Act.bind_apply, Act.read_apply]
    cases (clock W.caller.state).sub started with
    | error m => exact ⟨[], by simp, .inl rfl⟩
    | ok t =>
      refine ⟨[.notice (.success ⟨.int i, .int w.strategy.limit, ⟨o, .int i⟩, t⟩)], ?_, .inr ⟨t, ?_⟩⟩
      · simp [Act.call_apply]
      · simp [beatsOf, Event.isBeat, Protocol.success, Protocol.tell, Waiter.protocol, Hooks.hears, h]

/-- So does telling of a failure. -/
theorem failure_beats (i : Nat) (f : Failure) (started : Value) (W : World σ) : ∃ es,
    ((w.notifier clock).failure (.int i) (some f.fault) started W).2.history = W.history ++ es ∧
      (beatsOf es = [] ∨ ∃ t, beatsOf es = (w.protocol leaves spends cuts).failure i f t) := by
  cases h : (w.hooks.getD {}).onFailure with
  | none => exact ⟨[], by simp [failure, Waiter.notifier, h], .inl rfl⟩
  | some hook =>
    simp only [failure, Waiter.notifier, h, elapsed, Act.bind_apply, Act.read_apply]
    cases (clock W.caller.state).sub started with
    | error m => exact ⟨[], by simp, .inl rfl⟩
    | ok t =>
      refine ⟨[.notice (.failure ⟨.int i, .int w.strategy.limit, some f.fault, t⟩)], ?_, .inr ⟨t, ?_⟩⟩
      · simp [Act.call_apply]
      · simp [beatsOf, Event.isBeat, Protocol.failure, Protocol.tell, Waiter.protocol, Hooks.hears, h]

/-- Telling of a retry comes to a notice. -/
theorem retry_beats (i : Nat) (o : Outcome) (d : Number) (W : World σ) : ∃ es,
    ((w.notifier clock).retry (.int i) (.number d) o.value o.fault? W).2.history = W.history ++ es ∧
      beatsOf es = (w.protocol leaves spends cuts).retry i o d := by
  cases h : (w.hooks.getD {}).onRetry with
  | none =>
    refine ⟨[], by simp [retry, Waiter.notifier, h], ?_⟩
    simp [Protocol.retry, Protocol.tell, Waiter.protocol, Hooks.hears, h]
  | some hook =>
    refine ⟨[.notice (.retry ⟨.int i, .int w.strategy.limit, .number d, o.value, o.fault?⟩)],
      by simp only [retry, Waiter.notifier, h, Act.call_apply], ?_⟩
    simp [beatsOf, Event.isBeat, Protocol.retry, Protocol.tell, Waiter.protocol, Hooks.hears, h]

end Hooks

variable (w : Waiter σ) (clock : σ → Value) {leaves : Nat → Outcome → Prop}
  {spends : { entry : Number → Event // ∀ d, (entry d).delay? = some d }} {cuts : Number → Prop}

/-- Telling of a transition keeps to the protocol. -/
theorem tell_beats {o : Outcome} {i : Nat} {t : Transition} (left : leaves i o)
    (suits : t.Suits w.strategy.limit i o) (started : Value) (W : World σ) : ∃ es,
    ((w.notifier clock).tell o i started t W).2.history = W.history ++ es ∧
      (w.protocol leaves spends cuts).Judged i (beatsOf es) ∧
      ∀ d, t = .retry d → beatsOf es = (w.protocol leaves spends cuts).retry i o d := by
  cases t with
  | succeed r =>
    obtain rfl : r = ⟨o, .int i⟩ := suits
    obtain ⟨es, hes, silent | ⟨t, told⟩⟩ :=
      success_beats w clock leaves spends cuts i o started W
    · exact ⟨es, hes, silent ▸ .silent, nofun⟩
    · exact ⟨es, hes, told ▸ .succeeded t left, nofun⟩
  | fail f =>
    obtain ⟨es, hes, told⟩ := failure_beats w clock leaves spends cuts i f started
      { W with history := W.history ++ [Event.note (.failed i f.reason)] }
    -- the note of a failure is no beat
    have beats : beatsOf (.note (.failed i f.reason) :: es) = beatsOf es := rfl
    refine ⟨.note (.failed i f.reason) :: es, ?_, ?_, nofun⟩
    · simpa [tell, Act.note, Act.bind_apply] using hes
    · rw [beats]
      rcases told with silent | ⟨t, told⟩
      · exact silent ▸ .silent
      · exact told ▸ .failed t suits
  | retry d =>
    obtain ⟨es, hes, told⟩ :=
      retry_beats w clock leaves spends cuts i o d W
    refine ⟨es, hes, told ▸ .retried d left suits, ?_⟩
    intro d' same
    obtain rfl := Transition.retry.inj same
    exact told

end Notifier

end Polling
