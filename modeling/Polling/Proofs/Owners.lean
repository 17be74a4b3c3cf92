import Polling.Proofs.Alone

/-!
# Whose polls and handles they are

When executions share nothing, every poll and every handle of a scheduler belongs to one of them, and code
that runs on behalf of an execution asks the loop only for what concerns it: `Asynchronous.IsApart`.

It follows that an execution never gets hold of what belongs to another. `Step.Owns` goes through the parts
of a callback: an execution whose poll and handle are its own keeps only such, and all its orders
concern itself (`attempt_owns`, `pollEnded_owns`, `settled_owns`). `Session.Owned` says it of a session,
and `Owned.move` that it stays so.
-/

namespace Polling

/-- The execution that a poll belongs to, and the one that a handle belongs to. -/
structure Owners where
  poll : PollId → RunId
  handle : HandleId → RunId

variable {o : Owners} {run : RunId}

/-- The execution that an errand is about. -/
def Errand.owner (o : Owners) : Errand → RunId
  | .fire run => run
  | .resume poll => o.poll poll
  | .wake poll => o.poll poll

/-- The execution that a request is about. -/
def Request.owner (o : Owners) : Request → RunId
  | .cancel run => run
  | .fire run => run
  | .finish poll _ => o.poll poll
  | .soon e => e.owner o
  | .later _ e => e.owner o
  | .drop e => e.owner o

/-- The execution that a callback is about. -/
def Callback.owner (o : Owners) : Callback → RunId
  | .errand e => e.owner o
  | .attempt run => run
  | .pollEnded run _ => run
  | .settled run => run

/-- An order is about an execution, given that the execution has left it. -/
def Order.IsOwned (o : Owners) (run : RunId) : Order → Prop
  | .watch poll => o.poll poll = run
  | .request r => r.owner o = run
  | _ => True

/-- A handle belongs to an execution. -/
def Handle.IsOwned (o : Owners) (run : RunId) : Handle → Prop
  | .timer => True
  | .custom id => o.handle id = run

/-- An execution has hold of nothing but its own. -/
structure Execution.IsOwned (o : Owners) (run : RunId) (x : Execution) : Prop where
  poll : ∀ id, x.poll = some id → o.poll id = run
  handle : ∀ h, x.handle = some h → h.IsOwned o run

/-- Code asks for nothing but what concerns an execution. -/
def Code.AsksFor (o : Owners) (run : RunId) (c : Code σ α) : Prop :=
  ∀ k, ∀ r ∈ (c k).2.requests, r ∈ k.requests ∨ r.owner o = run

/-- Executions share nothing: each asks for what concerns itself, starts polls of its own, and is given
handles of its own. -/
structure Asynchronous.IsApart (a : Asynchronous σ) (o : Owners) : Prop where
  waiter : a.waiter.IsFunctional
  operation : ∀ run call, (a.operation run call).AsksFor o run
  launches : ∀ run call k id, (a.operation run call k).1 = .ok (.poll id) → o.poll id = run
  schedule : ∀ schedule cancel, a.scheduler = .custom schedule cancel →
    ∀ run delay, (schedule run delay).AsksFor o run
  hands : ∀ schedule cancel, a.scheduler = .custom schedule cancel →
    ∀ run delay k id, (schedule run delay k).1 = .ok id → o.handle id = run
  cancel : ∀ schedule cancel, a.scheduler = .custom schedule cancel →
    ∀ id, (cancel id).AsksFor o (o.handle id)
  cancelPoll : ∀ poll, (a.cancelPoll poll).AsksFor o (o.poll poll)
  resume : ∀ poll, (a.resume poll).AsksFor o (o.poll poll)
  wake : ∀ poll, (a.wake poll).AsksFor o (o.poll poll)

/-! ## Acts -/

/-- An act asks for nothing but what concerns an execution, and what it gives is of a sort. -/
def Act.Owns (o : Owners) (run : RunId) (Q : α → Prop) (a : Act σ α) : Prop :=
  ∀ w, (∀ r ∈ w.caller.requests, r.owner o = run) →
    (∀ r ∈ (a w).2.caller.requests, r.owner o = run) ∧ ∀ x, (a w).1 = .ok x → Q x

/-- An act that can be frozen asks for nothing. -/
theorem Act.owns_of_freezes {a : Act σ α} {a' : Caller σ → Act Unit α} (h : ∀ k, a.FreezesTo (a' k)) :
    a.Owns o run fun _ => True := by
  intro w owned
  obtain ⟨-, -, -, -, requests, -⟩ := h w.caller w { caller := { state := () } }
  exact ⟨by rw [requests]; exact owned, fun _ _ => trivial⟩

theorem Act.owns_code {Q : α → Prop} {c : Code σ α} (asks : c.AsksFor o run)
    (gives : ∀ k x, (c k).1 = .ok x → Q x) : (Act.code c).Owns o run Q := by
  intro w owned
  refine ⟨fun r mem => ?_, fun x hx => gives w.caller x hx⟩
  rcases asks w.caller r mem with before | owner
  · exact owned r before
  · exact owner

theorem Act.owns_call {Q : α → Prop} {c : Code σ α} (asks : c.AsksFor o run)
    (gives : ∀ k x, (c k).1 = .ok x → Q x) (e : Event) : (Act.call e c).Owns o run Q :=
  fun w owned => Act.owns_code asks gives { w with history := w.history ++ [e] } owned

/-! ## Parts of callbacks -/

/-- In a callback, an execution has hold of nothing but its own, and has left no order about another. -/
structure Frame.IsOwned (o : Owners) (run : RunId) (f : Frame σ) : Prop where
  orders : ∀ order ∈ f.orders, order.IsOwned o run
  execution : f.execution.IsOwned o run
  requests : f.world.caller.requests = []

/-- A part of a callback keeps it so, and what it gives is of a sort. -/
def Step.Owns (o : Owners) (run : RunId) (Q : α → Prop) (s : Step σ α) : Prop :=
  ∀ f, f.IsOwned o run → (s f).2.IsOwned o run ∧ ∀ x, (s f).1 = .ok x → Q x

namespace Frame.IsOwned

variable {f : Frame σ}

theorem order (h : f.IsOwned o run) {order : Order} (owned : order.IsOwned o run) :
    (f.order order).IsOwned o run := by
  refine ⟨?_, h.execution, h.requests⟩
  intro order' mem
  rcases List.mem_append.1 mem with mem | new
  · exact h.orders order' mem
  · rw [List.mem_singleton.1 new]
    exact owned

theorem settle (h : f.IsOwned o run) (p : Promise) : (f.settle p).IsOwned o run := by
  unfold Frame.settle
  split
  · exact h
  · have settled : Frame.IsOwned o run { f with execution := { f.execution with promise := p } } :=
      ⟨h.orders, ⟨h.execution.poll, h.execution.handle⟩, h.requests⟩
    exact settled.order (show Order.settled.IsOwned o run from trivial)

theorem absorbOne (h : f.IsOwned o run) {r : Request} (owner : r.owner o = run) :
    (f.absorbOne r).IsOwned o run := by
  have ordered : (f.order (.request r)).IsOwned o run := h.order (show (Order.request r).IsOwned o run from owner)
  cases r with
  | cancel run' =>
    simp only [Frame.absorbOne]
    split
    · exact h.settle _
    · exact ordered
  | _ => exact ordered

theorem foldl_absorbOne (h : f.IsOwned o run) {rs : List Request} (owned : ∀ r ∈ rs, r.owner o = run) :
    (rs.foldl Frame.absorbOne f).IsOwned o run := by
  induction rs generalizing f with
  | nil => exact h
  | cons r rest ih =>
    exact ih (h.absorbOne (owned r List.mem_cons_self)) fun r' mem =>
      owned r' (List.mem_cons_of_mem r mem)

end Frame.IsOwned

namespace Step

variable {Q : α → Prop} {R : β → Prop}

theorem owns_pure {x : α} (h : Q x) : (pure x : Step σ α).Owns o run Q := by
  intro f owned
  refine ⟨owned, fun y hy => ?_⟩
  rw [← Except.ok.inj hy]
  exact h

theorem owns_throw (e : Fault) : (throw e : Step σ α).Owns o run Q :=
  fun _ owned => ⟨owned, fun _ hx => nomatch hx⟩

theorem owns_bind {s : Step σ α} {t : α → Step σ β} (hs : s.Owns o run Q)
    (ht : ∀ x, Q x → (t x).Owns o run R) : (s >>= t).Owns o run R := by
  intro f owned
  obtain ⟨owned', gives⟩ := hs f owned
  rw [bind_apply]
  rcases hf : s f with ⟨e | x, g⟩ <;> rw [hf] at owned' gives
  · exact ⟨owned', fun _ hx => nomatch hx⟩
  · exact ht x (gives x rfl) g owned'

theorem owns_perform {a : Act σ α} (h : a.Owns o run Q) : (perform a).Owns o run Q := by
  intro f owned
  obtain ⟨requests, gives⟩ := h f.world (by simp [owned.requests])
  refine ⟨Frame.IsOwned.foldl_absorbOne ?_ requests, gives⟩
  exact ⟨owned.orders, owned.execution, rfl⟩

theorem owns_trying {a : Act σ α} (h : a.Owns o run Q) :
    (trying a).Owns o run fun r => ∀ x, r = .ok x → Q x := by
  intro f owned
  obtain ⟨owned', gives⟩ := owns_perform h f owned
  refine ⟨owned', fun r hr => ?_⟩
  rw [← Except.ok.inj hr]
  exact gives

theorem owns_note (n : Note) : (act (Act.note n) : Step σ Unit).Owns o run fun _ => True := by
  rw [act_eq_perform]
  exact owns_perform fun w owned => ⟨owned, fun _ _ => trivial⟩

theorem owns_read {g : Execution → α} (h : ∀ x : Execution, x.IsOwned o run → Q (g x)) :
    (read g : Step σ α).Owns o run Q := by
  intro f owned
  refine ⟨owned, fun x hx => ?_⟩
  rw [← Except.ok.inj hx]
  exact h f.execution owned.execution

theorem owns_look (g : Execution → α) : (read g : Step σ α).Owns o run fun _ => True :=
  owns_read fun _ _ => trivial

theorem owns_change {g : Execution → Execution}
    (h : ∀ x : Execution, x.IsOwned o run → (g x).IsOwned o run) :
    (change g : Step σ Unit).Owns o run fun _ => True :=
  fun f owned => ⟨⟨owned.orders, h f.execution owned.execution, owned.requests⟩, fun _ _ => trivial⟩

theorem owns_enter (e : Event) : (enter e : Step σ Unit).Owns o run fun _ => True :=
  fun _ owned => ⟨⟨owned.orders, owned.execution, owned.requests⟩, fun _ _ => trivial⟩

theorem owns_order {order : Order} (h : order.IsOwned o run) :
    (Step.order order : Step σ Unit).Owns o run fun _ => True :=
  fun _ owned => ⟨owned.order h, fun _ _ => trivial⟩

theorem owns_settle (p : Promise) : (settle p : Step σ Unit).Owns o run fun _ => True :=
  fun _ owned => ⟨owned.settle p, fun _ _ => trivial⟩

theorem owns_reject (e : Fault) : (reject e : Step σ Unit).Owns o run fun _ => True := by
  intro f owned
  unfold reject
  split
  · exact ⟨owned, fun _ _ => trivial⟩
  · split
    · exact ⟨owned.settle _, fun _ _ => trivial⟩
    · exact ⟨owned, fun _ _ => trivial⟩

theorem owns_guarding {a : Act σ α} {next : α → Step σ Unit} (h : a.Owns o run Q)
    (hnext : ∀ x, Q x → (next x).Owns o run fun _ => True) :
    (guarding a next).Owns o run fun _ => True := by
  refine owns_bind (owns_trying h) fun r hr => ?_
  rcases r with e | x
  · dsimp only
    split
    · exact owns_reject e
    · exact owns_throw e
  · exact hnext x (hr x rfl)

/-- Keeping a handle of its own. -/
theorem owns_hold {h : Handle} (owned : h.IsOwned o run) :
    (hold h : Step σ Unit).Owns o run fun _ => True := by
  refine owns_bind (owns_change fun x kept => ⟨kept.poll, fun h' hh' => ?_⟩) fun _ _ => owns_enter _
  rw [← Option.some.inj hh']
  exact owned

end Step

/-! ## Callbacks -/

namespace Asynchronous

variable {a : Asynchronous σ} (apart : a.IsApart o) (run : RunId) (now : Binary64)
include apart

theorem schedule_owns (delay : Number) : (a.schedule run delay).Owns o run fun _ => True := by
  refine Step.owns_bind (Step.owns_look _) fun p _ => ?_
  split
  · exact Step.owns_note _
  · cases hs : a.scheduler with
    | timers given =>
      refine Step.owns_guarding (Q := fun _ => True) (Act.owns_of_freezes fun _ => Act.freezes_bind
        (Act.freezes_record _) fun _ => Scheduler.span_freezes _ _) fun d _ => ?_
      exact Step.owns_bind (Step.owns_order (show (Order.timer d).IsOwned o run from trivial)) fun _ _ =>
        Step.owns_hold (h := .timer) trivial
    | custom schedule cancel =>
      refine Step.owns_guarding (Act.owns_call (apart.schedule _ _ hs run delay)
        (apart.hands _ _ hs run delay) _) fun id owner => ?_
      exact Step.owns_hold (h := .custom id) owner

theorem conclude_owns (outcome : Outcome) : (a.conclude run now outcome).Owns o run fun _ => True := by
  refine Step.owns_bind (Step.owns_look _) fun n _ => ?_
  refine Step.owns_bind (Step.owns_look _) fun started _ => ?_
  refine Step.owns_guarding (Q := fun _ => True) (Act.owns_of_freezes fun k =>
    evaluate_freezes (k := k) (s := none) apart.waiter outcome _) fun t _ => ?_
  cases t with
  | succeed r =>
    exact Step.owns_guarding (Q := fun _ => True) (Act.owns_of_freezes fun k =>
      Notifier.success_freezes (k := k) (s := none) apart.waiter _ _ r started) fun _ _ =>
        Step.owns_settle _
  | fail f =>
    refine Step.owns_bind (Step.owns_note _) fun _ _ => ?_
    exact Step.owns_guarding (Q := fun _ => True) (Act.owns_of_freezes fun k =>
      Notifier.failure_freezes (k := k) (s := none) apart.waiter _ _ (some f.fault) started)
      fun _ _ => Step.owns_settle _
  | retry delay =>
    exact Step.owns_guarding (Q := fun _ => True) (Act.owns_of_freezes fun k =>
      Notifier.retry_freezes (k := k) (s := none) apart.waiter _ _ _ _ _) fun _ _ =>
        schedule_owns apart run delay

theorem launch_owns (n : Nat) : (a.launch run now n).Owns o run fun _ => True := by
  refine Step.owns_bind (Step.owns_change fun _ owned => ⟨owned.poll, owned.handle⟩) fun _ _ => ?_
  refine Step.owns_bind (Step.owns_look _) fun call _ => ?_
  -- a poll that the operation gives is its own
  refine Step.owns_bind (Step.owns_trying (Q := fun l => ∀ id, l = .poll id → o.poll id = run)
    (Act.owns_call (apart.operation run call) ?_ _)) fun r hr => ?_
  · rintro k _ hx id rfl
    exact apart.launches run call k id hx
  · rcases r with e | ⟨id⟩ | _
    · dsimp only
      split
      · exact conclude_owns apart run now _
      · exact Step.owns_throw e
    · have owner : o.poll id = run := hr _ rfl id rfl
      refine Step.owns_bind (Step.owns_change fun _ owned => ⟨fun id' hid' => ?_, owned.handle⟩)
        fun _ _ => Step.owns_order (show (Order.watch id).IsOwned o run from owner)
      rw [← Option.some.inj hid']
      exact owner
    · exact conclude_owns apart run now _

/-- The callback that runs an attempt. -/
theorem attempt_owns : (a.attempt run now).Owns o run fun _ => True := by
  refine Step.owns_bind (Step.owns_change fun _ owned => ⟨owned.poll, nofun⟩) fun _ _ => ?_
  refine Step.owns_bind (Step.owns_look _) fun p _ => ?_
  split
  · exact Step.owns_note _
  · refine Step.owns_bind (Step.owns_change fun _ owned => ⟨owned.poll, owned.handle⟩) fun _ _ => ?_
    refine Step.owns_bind (Step.owns_look _) fun n _ => ?_
    refine Step.owns_guarding (Q := fun _ => True) (Act.owns_of_freezes fun k =>
      Notifier.attempt_freezes (k := k) (s := none) apart.waiter _ _) fun _ _ => ?_
    exact Step.owns_bind (Step.owns_note _) fun _ _ => launch_owns apart run now n

/-- The callback that takes the result of a poll. -/
theorem pollEnded_owns (ending : Ending) : (a.pollEnded run now ending).Owns o run fun _ => True := by
  refine Step.owns_bind (Step.owns_change fun _ owned => ⟨nofun, owned.handle⟩) fun _ _ => ?_
  refine Step.owns_bind (Step.owns_look _) fun n _ => ?_
  refine Step.owns_bind (Step.owns_look _) fun p _ => ?_
  split
  · exact Step.owns_note _
  · cases ending with
    | cancelled => exact Step.owns_bind (Step.owns_note _) fun _ _ => Step.owns_settle _
    | value v => exact conclude_owns apart run now _
    | fault e =>
      dsimp only
      split
      · exact conclude_owns apart run now _
      · exact Step.owns_reject e

/-- Only a handle of its own is withdrawn. -/
theorem withdraw_owns : a.withdraw.Owns o run fun _ => True := by
  refine Step.owns_bind (Step.owns_read (Q := fun h? => ∀ h, h? = some h → h.IsOwned o run)
    fun _ owned => owned.handle) fun h? owned => ?_
  cases h? with
  | none => exact Step.owns_pure trivial
  | some h =>
    refine Step.owns_bind (Q := fun _ => True) ?_ fun _ _ =>
      Step.owns_change fun _ owned => ⟨owned.poll, nofun⟩
    cases h with
    | timer =>
      exact Step.owns_bind (Step.owns_enter _) fun _ _ =>
        Step.owns_order (show Order.stopTimer.IsOwned o run from trivial)
    | custom id =>
      have owner : o.handle id = run := owned _ rfl
      have cancels : (a.scheduler.cancel id).AsksFor o (o.handle id) :=
        Scheduler.cancel_cases (fun _ _ => .inl) fun _ _ hs => apart.cancel _ _ hs id
      simp only [cancelHandle, Step.act_eq_perform]
      exact Step.owns_perform (Act.owns_call (owner ▸ cancels) (fun _ _ _ => trivial) _)

/-- Only a poll of its own is told to stop. -/
theorem stop_owns : a.stop.Owns o run fun _ => True := by
  refine Step.owns_bind (Step.owns_read (Q := fun p? => ∀ id, p? = some id → o.poll id = run)
    fun _ owned => owned.poll) fun p? owned => ?_
  cases p? with
  | none => exact Step.owns_pure trivial
  | some id =>
    have owner : o.poll id = run := owned _ rfl
    dsimp only
    rw [Step.act_eq_perform]
    exact Step.owns_bind (Step.owns_perform (Act.owns_call (owner ▸ apart.cancelPoll id)
      (Q := fun _ => True) (fun _ _ _ => trivial) _)) fun _ _ =>
        Step.owns_change fun _ owned => ⟨nofun, owned.handle⟩

/-- The callback that follows the settling of the promise. -/
theorem settled_owns : a.settled.Owns o run fun _ => True := by
  refine Step.owns_bind (Step.owns_look _) fun p _ => ?_
  cases p with
  | cancelled =>
    refine Step.owns_bind (Step.owns_look _) fun n _ => ?_
    exact Step.owns_bind (Step.owns_note _) fun _ _ =>
      Step.owns_bind (withdraw_owns apart run) fun _ _ => stop_owns apart run
  | _ => exact Step.owns_pure trivial

end Asynchronous

/-! ## Sessions -/

namespace Session

/-- No execution has hold of what belongs to another. -/
structure Owned (o : Owners) (s : Session σ) : Prop where
  watched : ∀ w ∈ s.watched, o.poll w.1 = w.2
  runs : ∀ (run : RunId) (x : Execution), s.runs[run]? = some x → x.IsOwned o run
  requests : s.caller.requests = []

variable {s : Session σ}

/-- Executions of which one is replaced. -/
theorem owned_set {xs : List Execution}
    (h : ∀ (run : RunId) (x : Execution), xs[run]? = some x → x.IsOwned o run)
    {x : Execution} (owned : x.IsOwned o run) :
    ∀ (run' : RunId) (y : Execution), (xs.set run x)[run']? = some y → y.IsOwned o run' := by
  intro run' y hy
  by_cases same : run = run'
  · subst same
    obtain ⟨-, rfl⟩ := by simpa [List.getElem?_set] using hy
    exact owned
  · exact h run' y (by simpa [same] using hy)

theorem Owned.answer (h : s.Owned o) (r : Request) : (s.answer r).Owned o := by
  -- no request brings in a poll or a handle
  cases r with
  | cancel run =>
    simp only [Session.answer, cancel]
    split
    · next x hx =>
      have own := h.runs run x hx
      split
      · exact h
      · exact ⟨h.watched, owned_set h.runs ⟨own.poll, own.handle⟩, h.requests⟩
    · exact h
  | fire run =>
    simp only [Session.answer, fire]
    split
    · exact ⟨h.watched, h.runs, h.requests⟩
    · exact h
  | finish poll ending =>
    simp only [Session.answer, finish]
    split
    · exact h
    · rw [foldl_soon_pollEnded]
      exact ⟨fun w mem => h.watched w (List.mem_filter.1 mem).1, h.runs, h.requests⟩
  | soon e => exact ⟨h.watched, h.runs, h.requests⟩
  | later delay e => exact ⟨h.watched, h.runs, h.requests⟩
  | drop e => exact ⟨h.watched, h.runs, h.requests⟩

theorem Owned.foldl_answer (h : s.Owned o) (rs : List Request) : (rs.foldl Session.answer s).Owned o := by
  induction rs generalizing s with
  | nil => exact h
  | cons r rest ih => exact ih (h.answer r)

theorem Owned.foldl_obey {os : List Order} (h : s.Owned o) (owned : ∀ order ∈ os, order.IsOwned o run) :
    (os.foldl (obey · run) s).Owned o := by
  induction os generalizing s with
  | nil => exact h
  | cons order rest ih =>
    refine ih ?_ fun order' mem => owned order' (List.mem_cons_of_mem order mem)
    have own := owned order List.mem_cons_self
    cases order with
    | settled => exact ⟨h.watched, h.runs, h.requests⟩
    | watch poll =>
      simp only [obey, watch]
      split
      · exact ⟨h.watched, h.runs, h.requests⟩
      · refine ⟨fun w mem => ?_, h.runs, h.requests⟩
        rcases List.mem_append.1 mem with mem | new
        · exact h.watched w mem
        · rw [List.mem_singleton.1 new]
          exact own
    | timer delay => exact ⟨h.watched, h.runs, h.requests⟩
    | stopTimer => exact ⟨h.watched, h.runs, h.requests⟩
    | request r => exact h.answer r

/-- The frame in which a callback begins has hold of nothing but its own. -/
theorem Owned.frame (h : s.Owned o) {x : Execution} (hx : s.runs[run]? = some x) :
    (s.frame run x).IsOwned o run :=
  ⟨by simp [Session.frame], h.runs run x hx, h.requests⟩

theorem Owned.step (h : s.Owned o) {body : Step σ Unit} (owns : body.Owns o run fun _ => True) :
    (s.step run body).2.Owned o := by
  cases hx : s.runs[run]? with
  | none => simpa [Session.step, hx] using h
  | some x =>
    have after := (owns _ (h.frame hx)).1
    rw [step_eq hx]
    exact Owned.foldl_obey ⟨h.watched, owned_set h.runs after.execution, after.requests⟩ after.orders

theorem Owned.report (h : s.Owned o) (result : Except Fault Unit) :
    (match result with | .ok () => s | .error e => s.report e).Owned o := by
  rcases result with e | ⟨⟩
  · dsimp only
    unfold Session.report
    split
    · exact ⟨h.watched, h.runs, h.requests⟩
    · exact ⟨h.watched, h.runs, h.requests⟩
  · exact h

theorem Owned.serve (h : s.Owned o) (run : RunId) (c : Code σ α) : (s.serve run c).2.Owned o := by
  have served : Owned o { s with
      caller := { (c { s.caller with serving := run }).2 with requests := [] } } :=
    ⟨h.watched, h.runs, rfl⟩
  exact served.foldl_answer _

theorem Owned.add (h : s.Owned o) (started : Value) : (s.add { started }).Owned o := by
  refine ⟨h.watched, ?_, h.requests⟩
  intro run y hy
  rw [Session.add, List.getElem?_append] at hy
  split at hy
  · exact h.runs run y hy
  · -- a fresh execution has hold of nothing
    obtain rfl : y = { started } := by simpa using List.mem_of_getElem? hy
    constructor <;> rintro _ ⟨⟩

variable {a : Asynchronous σ} (apart : a.IsApart o)
include apart

theorem Owned.perform (h : s.Owned o) (c : Callback) : (Session.perform a c s).Owned o := by
  cases c with
  | errand e =>
    cases e with
    | fire run => exact h.answer (.fire run)
    | resume poll => exact (h.serve 0 (a.resume poll)).report _
    | wake poll => exact (h.serve 0 (a.wake poll)).report _
  | attempt run => exact (h.step (Asynchronous.attempt_owns apart run s.loop.time)).report _
  | pollEnded run ending =>
    have entered : (s.enter run (.ended ending)).Owned o := ⟨h.watched, h.runs, h.requests⟩
    have stepped := entered.step (Asynchronous.pollEnded_owns apart run s.loop.time ending)
    exact stepped.report _
  | settled run => exact (h.step (Asynchronous.settled_owns apart run)).report _

/-- Whatever happens, no execution gets hold of what belongs to another. -/
theorem Owned.move (h : s.Owned o) (m : Move σ) : (s.move a m).Owned o := by
  cases m with
  | clock time => exact ⟨h.watched, h.runs, h.requests⟩
  | outside serving code => exact h.serve serving code
  | start => exact (h.add _).step (Asynchronous.attempt_owns apart s.runs.length s.loop.time)
  | turn =>
    simp only [Session.move]
    split
    · exact ⟨h.watched, h.runs, h.requests⟩
    · next c l _ =>
      have taken : Owned o { s with loop := l } := ⟨h.watched, h.runs, h.requests⟩
      exact taken.perform apart c

theorem Owned.moves (h : s.Owned o) (ms : List (Move σ)) : (s.moves a ms).Owned o := by
  induction ms generalizing s with
  | nil => exact h
  | cons m rest ih => exact ih (h.move apart m)

end Session

end Polling
