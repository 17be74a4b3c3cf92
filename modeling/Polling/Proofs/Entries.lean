import Polling.Waiter

/-!
# What acts enter into the history

An act never takes an entry of the history back. `Act.Enters P a` says a little more: `a` only adds
entries, and all of them satisfy `P`. The property is closed under sequencing, so each function of a
wait gets one lemma, which names the sorts of entries that the function makes.

Milestones are the entries that tell how far a wait on an event loop has come: the calls of the
operation, their ends, and what is handed to the scheduler and comes back from it. Everything else is
`Quiet`: notes, hooks, matchers and backoff. Entries that are `isTidying` are about the log and about
cleaning up, and those that are `isCall` are what a wait does to go on.
-/

namespace Polling

namespace Event

/-- Does an entry tell how far a wait on an event loop has come? -/
def isMilestone : Event → Bool
  | .polled _ => true
  | .scheduled _ => true
  | .fired => true
  | .ended _ => true
  | _ => false

end Event

/-- Does a line say that the attempts are exhausted? -/
def Note.isExhausted : Note → Bool
  | .exhausted _ => true
  | _ => false

namespace Event

/-- Is it noted that the attempts are exhausted? -/
def isExhausted : Event → Bool
  | .note n => n.isExhausted
  | _ => false

/-- Is an entry about the log or about cleaning up only? -/
def isTidying : Event → Bool
  | .note _ => true
  | .withdrawn _ => true
  | .stopped _ => true
  | _ => false

/-- Does a wait go on with an entry: is a hook, the operation, a matcher, the backoff or the scheduler
called, or does it sleep? -/
def isCall : Event → Bool
  | .notice _ => true
  | .polled _ => true
  | .examined _ _ => true
  | .asked _ => true
  | .slept _ => true
  | .watched _ => true
  | .scheduled _ => true
  | _ => false

theorem isMilestone_of_isTidying {e : Event} (h : e.isTidying = true) : e.isMilestone = false := by
  cases e <;> first | rfl | exact nomatch h

theorem isCall_of_isTidying {e : Event} (h : e.isTidying = true) : e.isCall = false := by
  cases e <;> first | rfl | exact nomatch h

end Event

/-- No entry is a milestone. -/
def Quiet (es : List Event) : Prop := ∀ e ∈ es, e.isMilestone = false

theorem quiet_nil : Quiet [] := by simp [Quiet]

theorem quiet_append {es es' : List Event} (h : Quiet es) (h' : Quiet es') : Quiet (es ++ es') := by
  intro e he
  rcases List.mem_append.1 he with he | he
  · exact h e he
  · exact h' e he

theorem quiet_of_isTidying {es : List Event} (h : ∀ e ∈ es, e.isTidying = true) : Quiet es :=
  fun e he => Event.isMilestone_of_isTidying (h e he)

theorem quiet_singleton {e : Event} (h : e.isMilestone = false) : Quiet [e] := by
  simpa [Quiet] using h

namespace Act

/-- An act only adds entries to the history, and together they have a property. -/
def Adds (Q : List Event → Prop) (a : Act σ α) : Prop :=
  ∀ w, ∃ es, (a w).2.history = w.history ++ es ∧ Q es

/-- An act only adds entries to the history, all of some sort. -/
def Enters (P : Event → Prop) (a : Act σ α) : Prop :=
  ∀ w, ∃ es, (a w).2.history = w.history ++ es ∧ ∀ e ∈ es, P e

variable {P : Event → Prop}

/-! ## Building blocks -/

/-- What follows an act leaves its entries where they are. -/
theorem history_bind {a : Act σ α} {f : α → Act σ β} (hf : ∀ x, Enters (fun _ => True) (f x)) (w : World σ) :
    ∃ es, ((a >>= f) w).2.history = (a w).2.history ++ es := by
  rw [bind_apply]
  rcases a w with ⟨e | x, w'⟩
  · exact ⟨[], (List.append_nil _).symm⟩
  · obtain ⟨es, history, -⟩ := hf x w'
    exact ⟨es, history⟩

/-- A property that two parts of a history hand on to the whole may be shown act by act. -/
theorem adds_bind {Q : List Event → Prop} (append : ∀ {es es'}, Q es → Q es' → Q (es ++ es'))
    {a : Act σ α} {f : α → Act σ β} (ha : Adds Q a) (hf : ∀ x, Adds Q (f x)) : Adds Q (a >>= f) := by
  intro w
  obtain ⟨es, hes, hQ⟩ := ha w
  rw [bind_apply]
  rcases hw : a w with ⟨x | x, w'⟩ <;> rw [hw] at hes
  · exact ⟨es, hes, hQ⟩
  · obtain ⟨es', hes', hQ'⟩ := hf x w'
    exact ⟨es ++ es', by rw [hes', hes, List.append_assoc], append hQ hQ'⟩

theorem enters_pure (x : α) : Enters P (pure x : Act σ α) :=
  fun _ => ⟨[], by simp, by simp⟩

theorem enters_bind {a : Act σ α} {f : α → Act σ β} (ha : Enters P a)
    (hf : ∀ x, Enters P (f x)) : Enters P (a >>= f) :=
  adds_bind (Q := fun es => ∀ e ∈ es, P e) (fun h h' => List.forall_mem_append.2 ⟨h, h'⟩) ha hf

theorem enters_record {e : Event} (h : P e) : Enters P (record e : Act σ Unit) :=
  fun _ => ⟨[e], rfl, by simpa using h⟩

theorem enters_code (c : Code σ α) : Enters P (code c) :=
  fun _ => ⟨[], by simp, by simp⟩

theorem enters_call {e : Event} (h : P e) (c : Code σ α) : Enters P (call e c) :=
  enters_bind (enters_record h) fun _ => enters_code c

theorem enters_read (f : σ → α) : Enters P (read f : Act σ α) :=
  fun _ => ⟨[], by simp, by simp⟩

theorem enters_lift (x : Except Misuse α) : Enters P (lift x : Act σ α) :=
  fun _ => ⟨[], (List.append_nil _).symm, by simp⟩

theorem enters_fail (e : Fault) : Enters P (fail e : Act σ α) :=
  fun _ => ⟨[], by simp, by simp⟩

theorem enters_outcomeOf {a : Act σ α} (h : Enters P a) : Enters P (outcomeOf a) := by
  intro w
  obtain ⟨es, hes, hP⟩ := h w
  exact ⟨es, hes, hP⟩

end Act

/-! ## Judging an outcome -/

section Judging

variable {P : Event → Prop}

/-- Deciding calls matchers and writes to the log. -/
theorem decideFrom_enters (note : ∀ n, n.isExhausted = false → P (.note n))
    (examined : ∀ i p, P (.examined i p)) (position : Nat) (acceptors : List (Acceptor σ)) (o : Outcome) :
    (decideFrom position acceptors o).Enters P := by
  induction acceptors generalizing position with
  | nil => exact Act.enters_bind (Act.enters_record (note _ rfl)) fun _ => Act.enters_pure _
  | cons a rest ih =>
    refine Act.enters_bind ?_ ?_
    · unfold Acceptor.accepts
      split
      · exact Act.enters_bind (Act.enters_call (examined _ _) _) fun _ => Act.enters_pure _
      · exact Act.enters_pure _
    · intro accepted
      cases accepted with
      | true => exact Act.enters_bind (Act.enters_record (note _ rfl)) fun _ => Act.enters_pure _
      | false => exact ih (position + 1)

/-- Asking for a delay calls the backoff. -/
theorem nextDelay_enters (asked : ∀ v, P (.asked v)) (b : Backoff σ) (attempt : Value) :
    (b.nextDelay attempt).Enters P :=
  Act.enters_bind (Act.enters_call (asked _) _) fun _ => Act.enters_lift _

theorem retryOrExhaust_enters (note : ∀ n, n.isExhausted = false → P (.note n))
    (asked : ∀ v, P (.asked v)) (strategy : Strategy σ) (o : Outcome) (attempt : Value)
    (exhausted : P (.note (.exhausted strategy.limit))) :
    (retryOrExhaust strategy o attempt).Enters P := by
  refine Act.enters_bind (Act.enters_lift _) ?_
  intro spent
  cases spent with
  | true => exact Act.enters_bind (Act.enters_record exhausted) fun _ => Act.enters_pure _
  | false =>
    refine Act.enters_bind (nextDelay_enters asked _ _) ?_
    intro delay
    split
    · exact Act.enters_fail _
    · exact Act.enters_bind (Act.enters_record (note _ rfl)) fun _ => Act.enters_pure _

/-- Evaluating an outcome calls matchers and at most the backoff. If it notes that the attempts are
exhausted, it names the limit. -/
theorem evaluate_enters (note : ∀ n, n.isExhausted = false → P (.note n))
    (examined : ∀ i p, P (.examined i p)) (asked : ∀ v, P (.asked v)) (acceptors : List (Acceptor σ))
    (strategy : Strategy σ) (o : Outcome) (attempt : Value)
    (exhausted : P (.note (.exhausted strategy.limit))) :
    (evaluate acceptors strategy o attempt).Enters P := by
  refine Act.enters_bind (decideFrom_enters note examined 0 acceptors o) ?_
  intro verdict
  split
  · exact Act.enters_bind (Act.enters_lift _) fun _ => Act.enters_pure _
  · exact Act.enters_pure _
  · exact retryOrExhaust_enters note asked strategy _ attempt exhausted
  · exact Act.enters_pure _
  · exact retryOrExhaust_enters note asked strategy _ attempt exhausted

end Judging

/-! ## Hooks -/

namespace Notifier

variable {P : Event → Prop} (told : ∀ n, P (.notice n)) (n : Notifier σ)

theorem elapsed_enters (started : Value) : (n.elapsed started).Enters P :=
  Act.enters_bind (Act.enters_read _) fun _ => Act.enters_lift _

include told

theorem attempt_enters (k : Value) : (n.attempt k).Enters P := by
  unfold attempt
  split
  · exact Act.enters_pure _
  · exact Act.enters_call (told _) _

theorem retry_enters (k delay value : Value) (fault : Option Fault) :
    (n.retry k delay value fault).Enters P := by
  unfold retry
  split
  · exact Act.enters_pure _
  · exact Act.enters_call (told _) _

theorem success_enters (k : Value) (r : Response) (started : Value) :
    (n.success k r started).Enters P := by
  unfold success
  split
  · exact Act.enters_pure _
  · exact Act.enters_bind (elapsed_enters n started) fun _ => Act.enters_call (told _) _

theorem failure_enters (k : Value) (e : Option Fault) (started : Value) :
    (n.failure k e started).Enters P := by
  unfold failure
  split
  · exact Act.enters_pure _
  · exact Act.enters_bind (elapsed_enters n started) fun _ => Act.enters_call (told _) _

end Notifier

end Polling
