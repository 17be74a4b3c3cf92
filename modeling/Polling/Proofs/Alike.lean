import Polling.Proofs.Callbacks

/-!
# Acts that look alike

A blocking and an asynchronous wait with the same waiter run the same code of the caller's, but on
worlds that differ: the operations and the clocks are others, and so is what lies behind the delays.
What they have in common is a `view` of the caller's state, the part of it that matchers, backoff and
hooks depend on, and the plain form of their histories, `plainOf`.

`World.Mirrors` relates two such worlds, and `Act.Alike` two acts that lead from related worlds to
related worlds with the same result. The relation is closed under sequencing, so each part of judging
an outcome gets one lemma: `evaluate_alike` and `Notifier.tell_alike`. `Step.Alike` does the same for the
parts of a callback.
-/

namespace Polling

/-! ## Plain histories -/

namespace Event

/-- The form of an entry that does not depend on the kind of the wait: a delay is a delay by whatever
means it is spent, times are left out, and so is what only the log or the loop gets to see. -/
def plain? : Event → Option Event
  | .notice (.success info) => some (.notice (.success { info with elapsed := .null }))
  | .notice (.failure info) => some (.notice (.failure { info with elapsed := .null }))
  | .slept d => some (.scheduled d)
  | .watched d => some (.scheduled d)
  | .note _ => none
  | .held _ => none
  | .fired => none
  | .ended _ => none
  | .withdrawn _ => none
  | .stopped _ => none
  | e => some e

end Event

/-- The calls of hooks, operation, matchers and backoff in a history, and the delays. -/
def plainOf (es : List Event) : List Event := es.filterMap Event.plain?

@[simp] theorem plainOf_nil : plainOf [] = [] := rfl

@[simp] theorem plainOf_append (es es' : List Event) :
    plainOf (es ++ es') = plainOf es ++ plainOf es' := List.filterMap_append

/-- A handle that is kept is left out. -/
@[simp] theorem plainOf_held (h : Handle) : plainOf [.held h] = [] := rfl

/-- What the scheduler calls back for is left out. -/
@[simp] theorem plainOf_fires (k : Nat) : plainOf (List.replicate k Event.fired) = [] := by
  simp [plainOf, List.filterMap_replicate, Event.plain?]

/-! ## Code and acts -/

variable {V : Type} {view : σ → V}

/-- Two pieces of code give the same result on states that look the same, and leave states that look
the same. -/
def Code.Alike (view : σ → V) (c c' : Code σ α) : Prop :=
  ∀ k k', view k.state = view k'.state →
    (c k).1 = (c' k').1 ∧ view (c k).2.state = view (c' k').2.state

/-- What code does depends on a view of the caller's state only. -/
abbrev Code.Sees (view : σ → V) (c : Code σ α) : Prop := c.Alike view c

/-- Code leaves everything in sight as it is. -/
def Code.Unseen (view : σ → V) (c : Code σ α) : Prop := ∀ k, view (c k).2.state = view k.state

/-- Two worlds look the same, and the second has the same history as the first behind a given one. -/
structure World.Mirrors (view : σ → V) (H : List Event) (w w' : World σ) : Prop where
  view : view w.caller.state = view w'.caller.state
  history : plainOf w'.history = H ++ plainOf w.history

namespace Act

/-- Two acts give the same result in worlds that look the same, and leave such worlds. -/
def Alike (view : σ → V) (a a' : Act σ α) : Prop :=
  ∀ H w w', World.Mirrors view H w w' →
    (a w).1 = (a' w').1 ∧ World.Mirrors view H (a w).2 (a' w').2

theorem alike_pure (x : α) : Alike view (pure x : Act σ α) (pure x) :=
  fun _ _ _ mirrors => ⟨rfl, mirrors⟩

theorem alike_bind {a a' : Act σ α} {f f' : α → Act σ β} (ha : Alike view a a')
    (hf : ∀ x, Alike view (f x) (f' x)) : Alike view (a >>= f) (a' >>= f') := by
  intro H w w' mirrors
  obtain ⟨result, mirrors'⟩ := ha H w w' mirrors
  rw [bind_apply, bind_apply]
  rcases hw : a w with ⟨e | x, w₁⟩ <;> rcases hw' : a' w' with ⟨e' | x', w₁'⟩ <;>
    rw [hw, hw'] at result mirrors'
  · exact ⟨congrArg Except.error (Except.error.inj result), mirrors'⟩
  · exact nomatch result
  · exact nomatch result
  · obtain rfl := Except.ok.inj result
    exact hf x H w₁ w₁' mirrors'

theorem alike_record {e e' : Event} (h : e.plain? = e'.plain?) :
    Alike view (record e : Act σ Unit) (record e') := by
  intro H w w' mirrors
  refine ⟨rfl, mirrors.view, ?_⟩
  have entry : plainOf [e'] = plainOf [e] := by simp [plainOf, List.filterMap_cons, h]
  rw [record_apply, record_apply, plainOf_append, plainOf_append, mirrors.history, entry,
    List.append_assoc]

theorem alike_code {c c' : Code σ α} (h : c.Alike view c') : Alike view (code c) (code c') :=
  fun _ w w' mirrors =>
    ⟨(h w.caller w'.caller mirrors.view).1, (h w.caller w'.caller mirrors.view).2, mirrors.history⟩

theorem alike_call {e e' : Event} (he : e.plain? = e'.plain?) {c c' : Code σ α}
    (h : c.Alike view c') : Alike view (call e c) (call e' c') :=
  alike_bind (alike_record he) fun _ => alike_code h

theorem alike_lift (x : Except Misuse α) : Alike view (lift x : Act σ α) (lift x) :=
  fun _ _ _ mirrors => ⟨rfl, mirrors⟩

theorem alike_fail (e : Fault) : Alike view (fail e : Act σ α) (fail e) :=
  fun _ _ _ mirrors => ⟨rfl, mirrors⟩

end Act

namespace Step

/-- A part of a callback gives the same result as an act in worlds that look the same, and leaves such
worlds. -/
def Alike (view : σ → V) (s : Step σ α) (a : Act σ α) : Prop :=
  ∀ H f w, World.Mirrors view H f.world w →
    (s f).1 = (a w).1 ∧ World.Mirrors view H (s f).2.world (a w).2

theorem alike_pure (x : α) : Alike view (pure x : Step σ α) (pure x) :=
  fun _ _ _ mirrors => ⟨rfl, mirrors⟩

theorem alike_bind {s : Step σ α} {a : Act σ α} {t : α → Step σ β} {f : α → Act σ β}
    (hs : Alike view s a) (ht : ∀ x, Alike view (t x) (f x)) : Alike view (s >>= t) (a >>= f) := by
  intro H g w mirrors
  obtain ⟨result, mirrors'⟩ := hs H g w mirrors
  rw [bind_apply, Act.bind_apply]
  rcases hg : s g with ⟨e | x, g'⟩ <;> rcases hw : a w with ⟨e' | x', w'⟩ <;>
    rw [hg, hw] at result mirrors'
  · exact ⟨congrArg Except.error (Except.error.inj result), mirrors'⟩
  · exact nomatch result
  · exact nomatch result
  · obtain rfl := Except.ok.inj result
    exact ht x H g' w' mirrors'

/-- A look at the requests of the caller's code makes no difference. -/
theorem alike_perform {a a' : Act σ α} (h : a.Alike view a') : Alike view (perform a) a' := by
  intro H f w mirrors
  obtain ⟨result, sight, history⟩ := h H f.world w mirrors
  refine ⟨result, ?_, ?_⟩
  · simpa using sight
  · simpa using history

end Step

/-! ## Judging -/

/-- What the code in a configuration does depends on a view of the caller's state only. The hooks that
are told a time do not look at it. -/
structure Waiter.Sees (view : σ → V) (w : Waiter σ) : Prop where
  matcher : ∀ a ∈ w.acceptors, ∀ payload, (a.matcher payload).Sees view
  backoff : ∀ attempt, (w.strategy.backoff.calculate attempt).Sees view
  onAttempt : ∀ hook, (w.hooks.getD {}).onAttempt = some hook → ∀ info, (hook info).Sees view
  onRetry : ∀ hook, (w.hooks.getD {}).onRetry = some hook → ∀ info, (hook info).Sees view
  onSuccess : ∀ hook, (w.hooks.getD {}).onSuccess = some hook → ∀ info t,
    (hook info).Alike view (hook { info with elapsed := t })
  onFailure : ∀ hook, (w.hooks.getD {}).onFailure = some hook → ∀ info t,
    (hook info).Alike view (hook { info with elapsed := t })

section Judging

theorem decideFrom_alike (position : Nat) {acceptors : List (Acceptor σ)}
    (matcher : ∀ a ∈ acceptors, ∀ payload, (a.matcher payload).Sees view) (o : Outcome) :
    (decideFrom position acceptors o).Alike view (decideFrom position acceptors o) := by
  induction acceptors generalizing position with
  | nil => exact Act.alike_bind (Act.alike_record rfl) fun _ => Act.alike_pure _
  | cons a rest ih =>
    refine Act.alike_bind ?_ ?_
    · unfold Acceptor.accepts
      split
      · exact Act.alike_bind (Act.alike_call rfl (matcher a List.mem_cons_self o.payload)) fun _ =>
          Act.alike_pure _
      · exact Act.alike_pure _
    · intro accepted
      cases accepted with
      | true => exact Act.alike_bind (Act.alike_record rfl) fun _ => Act.alike_pure _
      | false => exact ih (position + 1) fun b hb => matcher b (List.mem_cons_of_mem a hb)

theorem retryOrExhaust_alike {strategy : Strategy σ}
    (backoff : ∀ attempt, (strategy.backoff.calculate attempt).Sees view) (o : Outcome)
    (attempt : Value) :
    (retryOrExhaust strategy o attempt).Alike view (retryOrExhaust strategy o attempt) := by
  refine Act.alike_bind (Act.alike_lift _) ?_
  intro exhausted
  cases exhausted with
  | true => exact Act.alike_bind (Act.alike_record rfl) fun _ => Act.alike_pure _
  | false =>
    refine Act.alike_bind ?_ ?_
    · exact Act.alike_bind (Act.alike_call rfl (backoff attempt)) fun _ => Act.alike_lift _
    · intro delay
      split
      · exact Act.alike_fail _
      · exact Act.alike_bind (Act.alike_record rfl) fun _ => Act.alike_pure _

theorem evaluate_alike {w : Waiter σ} (h : w.Sees view) (o : Outcome) (attempt : Value) :
    (evaluate w.acceptors w.strategy o attempt).Alike view
      (evaluate w.acceptors w.strategy o attempt) := by
  refine Act.alike_bind (decideFrom_alike 0 h.matcher o) ?_
  intro verdict
  split
  · exact Act.alike_bind (Act.alike_lift _) fun _ => Act.alike_pure _
  · exact Act.alike_pure _
  · exact retryOrExhaust_alike h.backoff _ attempt
  · exact Act.alike_pure _
  · exact retryOrExhaust_alike h.backoff _ attempt

end Judging

namespace Notifier

/-- On clocks that show times, there is always a time since the beginning. Acts that look alike whatever
it is still do so behind reading it. -/
theorem alike_elapsed {n n' : Notifier σ} {time time' : σ → Binary64}
    (clock : n.clock = fun s => .real (time s)) (clock' : n'.clock = fun s => .real (time' s))
    {f f' : Value → Act σ α} (hf : ∀ v v', (f v).Alike view (f' v')) (t t' : Binary64) :
    (n.elapsed (.real t) >>= f).Alike view (n'.elapsed (.real t') >>= f') := by
  intro H w w' mirrors
  simp only [elapsed, Act.bind_apply, Act.read_apply, clock, clock']
  exact hf _ _ H w w' mirrors

variable {w : Waiter σ} (h : w.Sees view) {time time' : σ → Binary64}
include h

theorem opening_alike (clock clock' : σ → Value) (attempt limit : Nat) :
    ((w.notifier clock).opening attempt limit).Alike view
      ((w.notifier clock').opening attempt limit) := by
  refine Act.alike_bind ?_ fun _ => Act.alike_record rfl
  simp only [Notifier.attempt, Waiter.notifier]
  split
  · exact Act.alike_pure _
  · next hook hhook => exact Act.alike_call rfl (h.onAttempt hook hhook _)

theorem success_alike (k : Value) (r : Response) (t t' : Binary64) :
    ((w.notifier fun s => .real (time s)).success k r (.real t)).Alike view
      ((w.notifier fun s => .real (time' s)).success k r (.real t')) := by
  simp only [success, Waiter.notifier]
  split
  · exact Act.alike_pure _
  · next hook hhook =>
    refine alike_elapsed rfl rfl (fun v v' => ?_) t t'
    refine Act.alike_call ?_ (h.onSuccess hook hhook ⟨k, _, r, v⟩ v')
    rfl

theorem failure_alike (k : Value) (e : Option Fault) (t t' : Binary64) :
    ((w.notifier fun s => .real (time s)).failure k e (.real t)).Alike view
      ((w.notifier fun s => .real (time' s)).failure k e (.real t')) := by
  simp only [failure, Waiter.notifier]
  split
  · exact Act.alike_pure _
  · next hook hhook =>
    refine alike_elapsed rfl rfl (fun v v' => ?_) t t'
    refine Act.alike_call ?_ (h.onFailure hook hhook ⟨k, _, e, v⟩ v')
    rfl

theorem tell_alike (o : Outcome) (attempt : Nat) (started started' : Binary64) (t : Transition) :
    ((w.notifier fun s => .real (time s)).tell o attempt (.real started) t).Alike view
      ((w.notifier fun s => .real (time' s)).tell o attempt (.real started') t) := by
  cases t with
  | succeed r => exact success_alike h _ _ _ _
  | fail f =>
    exact Act.alike_bind (Act.alike_record rfl) fun _ => failure_alike h _ _ _ _
  | retry delay =>
    simp only [tell, retry, Waiter.notifier]
    split
    · exact Act.alike_pure _
    · next hook hhook => exact Act.alike_call rfl (h.onRetry hook hhook _)

end Notifier

end Polling
