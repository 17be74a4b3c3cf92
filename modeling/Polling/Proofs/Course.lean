import Polling.Proofs.Frames

/-!
# The course of an execution

What an execution enters into its journal follows a grammar. `Course a run p es` says that the journal
`es` of the execution `run` keeps to it and that the execution stands at the phase `p` at its end. The
phases go round: an attempt is due, its poll is under way, its outcome is judged, and the next attempt
waits with the scheduler. A course can stop in every phase but the last one, which nothing but a call
of the scheduler ends.

`Course.round` is what the grammar is for: between two calls of the operation lies a whole round. The
poll before has ended, its outcome has been evaluated to a delay, and a callback has been scheduled
with this very delay and has fired.
-/

namespace Polling

namespace Event

/-- Is the next attempt handed to a scheduler? -/
def isScheduled : Event → Bool
  | .scheduled _ => true
  | _ => false

/-- Does the scheduler call back? -/
def isFired : Event → Bool
  | .fired => true
  | _ => false

/-- Is the operation called? -/
def isPolled : Event → Bool
  | .polled _ => true
  | _ => false

end Event

/-- The scheduler never calls back more often than it was asked to. -/
def FiresOnce (es : List Event) : Prop :=
  ∀ es', es' <+: es → es'.countP Event.isFired ≤ es'.countP Event.isScheduled

instance (es : List Event) : Decidable (FiresOnce es) :=
  decidable_of_iff (∀ n < es.length + 1,
      (es.take n).countP Event.isFired ≤ (es.take n).countP Event.isScheduled) <| by
    constructor
    · intro h es' hp
      rw [List.prefix_iff_eq_take.1 hp]
      exact h es'.length (Nat.lt_succ_of_le hp.length_le)
    · exact fun h n _ => h _ (List.take_prefix n es)

theorem FiresOnce.of_prefix {es es' : List Event} (h : FiresOnce es) (hp : es' <+: es) :
    FiresOnce es' :=
  fun es'' hp' => h es'' (hp'.trans hp)

theorem countP_quiet {p : Event → Bool} (hp : ∀ e, p e = true → e.isMilestone = true)
    {es : List Event} (h : Quiet es) : es.countP p = 0 := by
  rw [List.countP_eq_zero]
  intro e he hpe
  have quiet := h e he
  rw [hp e hpe] at quiet
  exact nomatch quiet

@[simp] theorem countP_isFired_quiet {es : List Event} (h : Quiet es) :
    es.countP Event.isFired = 0 :=
  countP_quiet (by intro e; cases e <;> simp [Event.isFired, Event.isMilestone]) h

@[simp] theorem countP_isScheduled_quiet {es : List Event} (h : Quiet es) :
    es.countP Event.isScheduled = 0 :=
  countP_quiet (by intro e; cases e <;> simp [Event.isScheduled, Event.isMilestone]) h

theorem countP_isPolled_quiet {es : List Event} (h : Quiet es) : es.countP Event.isPolled = 0 :=
  countP_quiet (by intro e; cases e <;> simp [Event.isPolled, Event.isMilestone]) h

namespace Ending

/-- The outcome that an ending is, if acceptors get to see it. -/
def outcome? : Ending → Option Outcome
  | .value v => some (.returned v)
  | .fault e => if e.isOrdinary then some (.raised e) else none
  | .cancelled => none

/-- The promise that an ending leaves which is no outcome. -/
def promise : Ending → Promise
  | .value _ => .pending
  | .fault e => .rejected e
  | .cancelled => .cancelled

theorem promise_unconcluded (e : Ending) (c : Conclusion) : e.promise ≠ .concluded c := by
  cases e <;> exact nofun

end Ending

/-- The outcome that a call of the operation is, if no poll runs after it. -/
def Launch.failure? : Except Fault Launch → Option Outcome
  | .ok (.poll _) => none
  | .ok .unfit => some (.raised Misuse.notAwaitable.fault)
  | .error e => some (.raised e)

/-! ## Phases -/

/-- Where an execution stands. -/
inductive Phase where
  /-- So many attempts have been begun, and the next one is queued. -/
  | due (begun : Nat)
  /-- The poll of an attempt is under way. -/
  | polling (attempt : Nat)
  /-- An attempt has left an outcome. -/
  | judging (attempt : Nat) (o : Outcome)
  /-- The attempt after so many others is with the scheduler. -/
  | waiting (begun : Nat)
  /-- Nothing is to come. -/
  | closed

namespace Phase

/-- How many calls of the scheduler are still to come. -/
def unfired : Phase → Nat
  | waiting _ => 1
  | _ => 0

/-- How often the operation has been called, unless nothing is to come. -/
def calls? : Phase → Option Nat
  | due n => some n
  | polling n => some n
  | judging n _ => some n
  | waiting n => some n
  | closed => none

theorem unfired_eq_zero {p : Phase} (h : ∀ n, p ≠ .waiting n) : p.unfired = 0 := by
  cases p with
  | waiting n => exact absurd rfl (h n)
  | _ => rfl

end Phase

namespace Asynchronous

/-- In some world, evaluating the outcome of an attempt gives a delay and makes these entries. -/
def Evaluates (a : Asynchronous σ) (o : Outcome) (attempt : Nat) (d : Number)
    (es : List Event) : Prop :=
  ∃ w w', evaluate a.waiter.acceptors a.waiter.strategy o (.int attempt) w =
      (.ok (.retry d), w') ∧ w'.history = w.history ++ es

/-- A call of the operation fails, which is an outcome. -/
def CallFails (a : Asynchronous σ) (run : RunId) (o : Outcome) : Prop :=
  ∃ call c, Launch.failure? (a.operation run call c).1 = some o

end Asynchronous

/-- The journal of an execution up to a phase. -/
inductive Course (a : Asynchronous σ) (run : RunId) : Phase → List Event → Prop where
  | start : Course a run (.due 0) []
  | note {p es q} (h : Course a run p es) (quiet : Quiet q) : Course a run p (es ++ q)
  | call {n es} (h : Course a run (.due n) es) :
      Course a run (.polling (n + 1)) (es ++ [.polled (n + 1)])
  | fail {n es o} (h : Course a run (.polling n) es) (fails : a.CallFails run o) :
      Course a run (.judging n o) es
  | answer {n es e o} (h : Course a run (.polling n) es) (ho : e.outcome? = some o) :
      Course a run (.judging n o) (es ++ [.ended e])
  | delay {n o es d E q} (h : Course a run (.judging n o) es) (evaluates : a.Evaluates o n d E)
      (quiet : Quiet q) : Course a run (.waiting n) (es ++ (E ++ q ++ [.scheduled d]))
  | fire {n es} (h : Course a run (.waiting n) es) : Course a run (.due n) (es ++ [.fired])
  | late {n es e} (h : Course a run (.polling n) es) : Course a run .closed (es ++ [.ended e])
  | stop {p es} (h : Course a run p es) (hp : ∀ n, p ≠ .waiting n) : Course a run .closed es

/-- Evaluating makes no milestones. -/
theorem Asynchronous.Evaluates.quiet {a : Asynchronous σ} {o : Outcome} {n : Nat} {d : Number}
    {es : List Event} (h : a.Evaluates o n d es) : Quiet es := by
  obtain ⟨w, w', hw, hes⟩ := h
  obtain ⟨es', hes', quiet⟩ := evaluate_enters (P := fun e => e.isMilestone = false)
    (fun _ _ => rfl) (fun _ _ => rfl) (fun _ => rfl) a.waiter.acceptors a.waiter.strategy o (.int n) rfl w
  rw [hw] at hes'
  obtain rfl := List.append_cancel_left (hes.symm.trans hes')
  exact quiet

/-! ## Counting along a course -/

/-- Outside the phase of waiting, the scheduler has called back as often as it was asked to. -/
theorem Course.countP_isScheduled {a : Asynchronous σ} {run : RunId} {p : Phase} {es : List Event}
    (h : Course a run p es) :
    es.countP Event.isScheduled = es.countP Event.isFired + p.unfired := by
  induction h with
  | start => rfl
  | note _ quiet ih => simp [quiet, ih]
  | call _ ih => simpa [Event.isScheduled, Event.isFired, Phase.unfired] using ih
  | fail _ _ ih => exact ih
  | answer _ _ ih => simpa [Event.isScheduled, Event.isFired, Phase.unfired] using ih
  | delay _ evaluates quiet ih =>
    simp [Event.isScheduled, Event.isFired, Phase.unfired, evaluates.quiet, quiet] at ih ⊢
    omega
  | fire _ ih => simpa [Event.isScheduled, Event.isFired, Phase.unfired] using ih
  | late _ ih => simpa [Event.isScheduled, Event.isFired, Phase.unfired] using ih
  | stop _ hp ih => rw [ih, Phase.unfired_eq_zero hp]; rfl

/-- The number of the latest attempt counts the calls of the operation. -/
theorem Course.countP_isPolled {a : Asynchronous σ} {run : RunId} {p : Phase} {es : List Event}
    (h : Course a run p es) {n : Nat} (hn : p.calls? = some n) : es.countP Event.isPolled = n := by
  induction h generalizing n with
  | start => exact Option.some.inj hn
  | note _ quiet ih => simpa [countP_isPolled_quiet quiet] using ih hn
  | call _ ih =>
    obtain rfl := Option.some.inj hn
    simpa [Event.isPolled] using ih rfl
  | fail _ _ ih => exact ih hn
  | answer _ _ ih => simpa [Event.isPolled] using ih hn
  | delay _ evaluates quiet ih =>
    simpa [Event.isPolled, countP_isPolled_quiet, evaluates.quiet, quiet] using ih hn
  | fire _ ih => simpa [Event.isPolled] using ih hn
  | late => exact nomatch hn
  | stop => exact nomatch hn

/-- A scheduler that calls back only when asked does so only while the execution waits. -/
theorem Course.unfired_of_fired {a : Asynchronous σ} {run : RunId} {p : Phase} {es rest : List Event}
    (h : Course a run p es) (once : FiresOnce (es ++ Event.fired :: rest)) : ∃ n, p = .waiting n := by
  have bound := once (es ++ [Event.fired]) ⟨rest, by simp⟩
  have balance := h.countP_isScheduled
  simp only [List.countP_append, List.countP_singleton, Event.isFired, Event.isScheduled] at bound
  cases p with
  | waiting n => exact ⟨n, rfl⟩
  | _ => simp [Phase.unfired] at balance bound; omega

/-! ## Rounds -/

namespace Asynchronous

variable (a : Asynchronous σ) (run : RunId)

/-- The entries behind a call of the operation that has left an outcome. -/
def Answered (o : Outcome) (es : List Event) : Prop :=
  ∃ q answer q', es = q ++ answer ++ q' ∧ Quiet q ∧ Quiet q' ∧
    ((answer = [] ∧ a.CallFails run o) ∨ ∃ e : Ending, e.outcome? = some o ∧ answer = [.ended e])

/-- The entries behind a call of the operation whose outcome was evaluated to a delay, with which
the scheduler was then called. -/
def Delayed (attempt : Nat) (es : List Event) : Prop :=
  ∃ o d answered E q q', es = answered ++ (E ++ q ++ [.scheduled d]) ++ q' ∧
    a.Answered run o answered ∧ a.Evaluates o attempt d E ∧ Quiet q ∧ Quiet q'

/-- The entries between the call of the operation for an attempt and the next call. -/
def Round (attempt : Nat) (es : List Event) : Prop :=
  ∃ delayed q, es = delayed ++ [.fired] ++ q ∧ a.Delayed run attempt delayed ∧ Quiet q

/-- What the entries behind the latest call of the operation, for an attempt, are at a phase. -/
def Tail (attempt : Nat) (es : List Event) : Phase → Prop
  | .due n => n = attempt ∧ a.Round run attempt es
  | .polling n => n = attempt ∧ Quiet es
  | .judging n o => n = attempt ∧ a.Answered run o es
  | .waiting n => n = attempt ∧ a.Delayed run attempt es
  | .closed => True

variable {a run}

/-- Details may follow at any phase. -/
theorem Tail.note {attempt : Nat} {es q : List Event} {p : Phase} (h : a.Tail run attempt es p)
    (quiet : Quiet q) : a.Tail run attempt (es ++ q) p := by
  cases p with
  | due n =>
    obtain ⟨rfl, delayed, q', rfl, hd, hq'⟩ := h
    exact ⟨rfl, delayed, q' ++ q, by simp, hd, quiet_append hq' quiet⟩
  | polling n => exact ⟨h.1, quiet_append h.2 quiet⟩
  | judging n o =>
    obtain ⟨rfl, q', answer, q'', rfl, hq', hq'', ha⟩ := h
    exact ⟨rfl, q', answer, q'' ++ q, by simp, hq', quiet_append hq'' quiet, ha⟩
  | waiting n =>
    obtain ⟨rfl, o, d, answered, E, q', q'', rfl, ha, hE, hq', hq''⟩ := h
    exact ⟨rfl, o, d, answered, E, q', q'' ++ q, by simp, ha, hE, hq', quiet_append hq'' quiet⟩
  | closed => trivial

end Asynchronous

/-- A call of the operation in a journal comes before later entries without one. -/
theorem split_before {es late before tail : List Event} {n : Nat}
    (h : es ++ late = before ++ Event.polled n :: tail) (none : ∀ k, Event.polled k ∉ late) :
    ∃ tail', es = before ++ Event.polled n :: tail' ∧ tail = tail' ++ late := by
  rcases List.append_eq_append_iff.1 h with ⟨mid, rfl, hlate⟩ | ⟨mid, rfl, htail⟩
  · exact absurd (by rw [hlate]; simp) (none n)
  · cases mid with
    | nil =>
      rw [List.nil_append] at htail
      exact absurd (by rw [← htail]; simp) (none n)
    | cons e mid =>
      obtain ⟨rfl, rfl⟩ := List.cons.inj htail
      exact ⟨mid, by simp, rfl⟩

/-- The latest entry of a journal is the one meant, or it comes later. -/
theorem split_last {es before after : List Event} {e e' : Event}
    (h : es ++ [e] = before ++ e' :: after) :
    (es = before ∧ e = e' ∧ after = []) ∨
      ∃ after', after = after' ++ [e] ∧ es = before ++ e' :: after' := by
  rcases List.append_eq_append_iff.1 h with ⟨mid, rfl, hlast⟩ | ⟨mid, rfl, hafter⟩
  · cases mid with
    | nil =>
      obtain ⟨rfl, rfl⟩ := List.cons.inj hlast
      exact .inl ⟨by simp, rfl, rfl⟩
    | cons x mid => exact absurd (congrArg List.length hlast) (by simp)
  · cases mid with
    | nil =>
      obtain ⟨rfl, rfl⟩ := List.cons.inj hafter
      exact .inl ⟨by simp, rfl, rfl⟩
    | cons x mid =>
      obtain ⟨rfl, rfl⟩ := List.cons.inj hafter
      exact .inr ⟨mid, rfl, by simp⟩

theorem Quiet.polled_notMem {es : List Event} (h : Quiet es) (k : Nat) : Event.polled k ∉ es := by
  intro hk
  exact nomatch h _ hk

/-- No call of the operation lies between an outcome and the call of the scheduler. -/
theorem Asynchronous.Evaluates.unpolled {a : Asynchronous σ} {o : Outcome} {n : Nat} {d d' : Number}
    {es q : List Event} (h : a.Evaluates o n d es) (quiet : Quiet q) (k : Nat) :
    Event.polled k ∉ es ++ q ++ [Event.scheduled d'] := by
  intro hk
  rcases List.mem_append.1 hk with hk | hk
  · exact (quiet_append h.quiet quiet).polled_notMem k hk
  · simp at hk

namespace Course

variable {a : Asynchronous σ} {run : RunId}

/-- Behind the latest call of the operation lies what belongs to the phase. -/
theorem tail {p : Phase} {es before tail : List Event} {n : Nat} (h : Course a run p es)
    (split : es = before ++ Event.polled n :: tail) (none : ∀ k, Event.polled k ∉ tail) :
    a.Tail run n tail p := by
  induction h generalizing tail with
  | start => simp at split
  | note _ quiet ih =>
    obtain ⟨tail, hes, rfl⟩ := split_before split quiet.polled_notMem
    exact (ih hes (fun k hk => none k (List.mem_append_left _ hk))).note quiet
  | call _ ih =>
    -- the call itself is the latest one
    rcases split_last split with ⟨_, hn, rfl⟩ | ⟨front, rfl, _⟩
    · obtain rfl := Event.polled.inj hn
      exact ⟨rfl, quiet_nil⟩
    · exact absurd (List.mem_append_right front (List.mem_singleton_self _)) (none _)
  | fail _ fails ih =>
    obtain ⟨rfl, quiet⟩ := ih split none
    exact ⟨rfl, _, [], [], by simp, quiet, quiet_nil, .inl ⟨rfl, fails⟩⟩
  | answer _ ho ih =>
    obtain ⟨tail, hes, rfl⟩ := split_before split (by simp)
    obtain ⟨rfl, quiet⟩ := ih hes (fun k hk => none k (List.mem_append_left _ hk))
    exact ⟨rfl, _, _, [], by simp, quiet, quiet_nil, .inr ⟨_, ho, rfl⟩⟩
  | delay _ evaluates quiet ih =>
    obtain ⟨tail, hes, rfl⟩ := split_before split (evaluates.unpolled quiet)
    obtain ⟨rfl, answered⟩ := ih hes (fun k hk => none k (List.mem_append_left _ hk))
    exact ⟨rfl, _, _, _, _, _, [], by simp, answered, evaluates, quiet, quiet_nil⟩
  | fire _ ih =>
    obtain ⟨tail, hes, rfl⟩ := split_before split (by simp)
    obtain ⟨rfl, delayed⟩ := ih hes (fun k hk => none k (List.mem_append_left _ hk))
    exact ⟨rfl, _, [], by simp, delayed, quiet_nil⟩
  | late => trivial
  | stop => trivial

/-- Between two calls of the operation lies a whole round, and the second call belongs to the
attempt after that of the first. -/
theorem round {p : Phase} {es before mid after : List Event} {m n : Nat} (h : Course a run p es)
    (split : es = before ++ Event.polled m :: (mid ++ Event.polled n :: after))
    (none : ∀ k, Event.polled k ∉ mid) : n = m + 1 ∧ a.Round run m mid := by
  induction h generalizing after with
  | start => simp at split
  | note _ quiet ih =>
    obtain ⟨tail, hes, htail⟩ := split_before split quiet.polled_notMem
    obtain ⟨after, rfl, rfl⟩ := split_before htail.symm quiet.polled_notMem
    exact ih hes
  | call h ih =>
    rcases split_last (split.trans (by simp : _ = (before ++ Event.polled m :: mid) ++ Event.polled n :: after))
      with ⟨rfl, hn, _⟩ | ⟨after, rfl, rfl⟩
    · -- the second call is the latest one, so the entries before it end a round
      obtain ⟨rfl, round⟩ := h.tail rfl none
      exact ⟨(Event.polled.inj hn).symm, round⟩
    · exact ih (List.append_assoc _ _ _)
  | fail _ _ ih => exact ih split
  | answer _ _ ih =>
    obtain ⟨tail, hes, htail⟩ := split_before split (by simp)
    obtain ⟨after, rfl, rfl⟩ := split_before htail.symm (by simp)
    exact ih hes
  | delay _ evaluates quiet ih =>
    obtain ⟨tail, hes, htail⟩ := split_before split (evaluates.unpolled quiet)
    obtain ⟨after, rfl, rfl⟩ := split_before htail.symm (evaluates.unpolled quiet)
    exact ih hes
  | fire _ ih =>
    obtain ⟨tail, hes, htail⟩ := split_before split (by simp)
    obtain ⟨after, rfl, rfl⟩ := split_before htail.symm (by simp)
    exact ih hes
  | late _ ih =>
    obtain ⟨tail, hes, htail⟩ := split_before split (by simp)
    obtain ⟨after, rfl, rfl⟩ := split_before htail.symm (by simp)
    exact ih hes
  | stop _ _ ih => exact ih split

end Course

end Polling
