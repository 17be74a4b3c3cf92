import Polling.Execution
import Polling.Proofs.Entries

/-!
# What a callback does to its frame

A callback works on a frame: the world of the caller, the state of the execution, and the orders left
for the loop so far. `Frame.Grows` holds between any two frames of one callback. It says that entries
and orders are only added, and that a promise is settled at most once: settling it leaves exactly one
order, and a settled promise stays as it is. `Frame.Evolves` is the case without a new poll, and
`Frame.Serves` the one in which only code of the caller's has run, which can do no more to the promise
than cancel it.

`Step.perform` runs an act and looks at what the caller has asked for; every callback is put together
from it, from `Step.refuse`, and from changes of the execution.
-/

namespace Polling

namespace Promise

/-- A promise as it was, unless it has been cancelled while it was pending. -/
def OrCancelled (p q : Promise) : Prop := q = p ∨ (p = .pending ∧ q = .cancelled)

theorem orCancelled_refl (p : Promise) : OrCancelled p p := .inl rfl

theorem orCancelled_trans {p q r : Promise} (h : OrCancelled p q) (h' : OrCancelled q r) :
    OrCancelled p r := by
  rcases h with rfl | ⟨rfl, rfl⟩
  · exact h'
  · rcases h' with rfl | ⟨h', _⟩
    · exact .inr ⟨rfl, rfl⟩
    · exact nomatch h'

theorem eq_of_orCancelled {p q : Promise} (h : OrCancelled p q) (hp : p.isSettled = true) :
    q = p := by
  rcases h with h | ⟨rfl, _⟩
  · exact h
  · exact nomatch hp

/-- A promise that is pending was so before. -/
theorem pending_of_orCancelled {p q : Promise} (h : OrCancelled p q) (hq : q.isSettled = false) :
    p.isSettled = false := by
  cases hp : p.isSettled with
  | false => rfl
  | true =>
    rw [eq_of_orCancelled h hp, hp] at hq
    exact nomatch hq

/-- A promise that was pending is pending still, or cancelled. -/
theorem OrCancelled.of_pending {p q : Promise} (h : OrCancelled p q) (pending : p = .pending) :
    q = .pending ∨ q = .cancelled := by
  rcases h with rfl | ⟨-, rfl⟩
  · exact .inl pending
  · exact .inr rfl

/-- A promise that is not settled is pending. -/
theorem eq_pending {p : Promise} (h : p.isSettled = false) : p = .pending := by
  cases p <;> first | rfl | exact nomatch h

/-- The promise that carries a fault is settled. -/
theorem isSettled_ofFault {e : Fault} {p : Promise} (h : ofFault e = .ok p) :
    p.isSettled = true := by
  unfold ofFault at h
  split at h
  · exact nomatch h
  · obtain rfl := Except.ok.inj h
    rfl

end Promise

namespace Order

/-- Is a promise reported as settled? -/
def isSettling : Order → Bool
  | .settled => true
  | _ => false

/-- Is a poll to be watched? -/
def isWatch : Order → Bool
  | .watch _ => true
  | _ => false

/-- Where no order to watch is counted, no poll is to be watched. -/
theorem notMem_watch {os : List Order} (h : os.countP isWatch = 0) (poll : PollId) : .watch poll ∉ os :=
  fun mem => List.countP_eq_zero.1 h _ mem rfl

end Order

namespace Frame

/-- What happens to a frame within a callback: entries and orders are added, and the promise is
settled at most once. -/
structure Grows (f f' : Frame σ) (es : List Event) (os : List Order) : Prop where
  history : f'.world.history = f.world.history ++ es
  orders : f'.orders = f.orders ++ os
  /-- Settling the promise leaves one order. -/
  settlings : os.countP Order.isSettling + f.execution.promise.isSettled.toNat =
    f'.execution.promise.isSettled.toNat
  kept : f.execution.promise.isSettled = true → f'.execution.promise = f.execution.promise

theorem grows_refl (f : Frame σ) : Grows f f [] [] where
  history := by simp
  orders := by simp
  settlings := by simp
  kept := fun _ => rfl

theorem Grows.trans {f f' f'' : Frame σ} {es es' : List Event} {os os' : List Order}
    (h : Grows f f' es os) (h' : Grows f' f'' es' os') :
    Grows f f'' (es ++ es') (os ++ os') where
  history := by rw [h'.history, h.history, List.append_assoc]
  orders := by rw [h'.orders, h.orders, List.append_assoc]
  settlings := by
    -- the orders of both parts add up, and the promise in between cancels out
    have first := h.settlings
    have second := h'.settlings
    rw [List.countP_append]
    omega
  kept := by
    intro settled
    have same := h.kept settled
    rw [h'.kept (by rw [same]; exact settled), same]

/-- A promise that is pending was so before. -/
theorem Grows.pending {f f' : Frame σ} {es : List Event} {os : List Order} (h : Grows f f' es os)
    (pending : f'.execution.promise.isSettled = false) : f.execution.promise.isSettled = false := by
  cases settled : f.execution.promise.isSettled with
  | false => rfl
  | true =>
    rw [h.kept settled, settled] at pending
    exact nomatch pending

/-- A cancelled promise stays cancelled. -/
theorem Grows.cancelled {f f' : Frame σ} {es : List Event} {os : List Order}
    (h : Grows f f' es os) (cancelled : f.execution.promise = .cancelled) :
    f'.execution.promise = .cancelled := by
  rw [h.kept (by rw [cancelled]; rfl), cancelled]

/-- A change of the execution that is not about the promise. -/
theorem grows_change {f : Frame σ} {x : Execution} (h : x.promise = f.execution.promise) :
    Grows f { f with execution := x } [] [] where
  history := by simp
  orders := by simp
  settlings := by simp [h]
  kept := fun _ => h

/-- A frame that grows without a change of the execution, apart from the promise and the handle, and
without a poll to watch. -/
structure Evolves (f f' : Frame σ) (es : List Event) (os : List Order) : Prop
    extends Grows f f' es os where
  unwatched : os.countP Order.isWatch = 0
  rest : f'.execution = { f.execution with
    promise := f'.execution.promise, handle := f'.execution.handle }

theorem evolves_refl (f : Frame σ) : Evolves f f [] [] :=
  ⟨grows_refl f, rfl, rfl⟩

theorem Evolves.trans {f f' f'' : Frame σ} {es es' : List Event} {os os' : List Order}
    (h : Evolves f f' es os) (h' : Evolves f' f'' es' os') :
    Evolves f f'' (es ++ es') (os ++ os') where
  toGrows := h.toGrows.trans h'.toGrows
  unwatched := by rw [List.countP_append, h.unwatched, h'.unwatched]
  rest := by
    have first := h.rest
    have second := h'.rest
    rw [first] at second
    exact second

/-- The frame that keeps a handle, after orders for the loop. -/
def hold (f : Frame σ) (handle : Handle) (os : List Order) : Frame σ :=
  ({ f with
    execution := { f.execution with handle := some handle }
    orders := f.orders ++ os } : Frame σ).enter (.held handle)

@[simp] theorem hold_caller (f : Frame σ) (handle : Handle) (os : List Order) :
    (f.hold handle os).world.caller = f.world.caller := rfl

@[simp] theorem hold_history (f : Frame σ) (handle : Handle) (os : List Order) :
    (f.hold handle os).world.history = f.world.history ++ [Event.held handle] := rfl

@[simp] theorem hold_orders (f : Frame σ) (handle : Handle) (os : List Order) :
    (f.hold handle os).orders = f.orders ++ os := rfl

@[simp] theorem hold_execution (f : Frame σ) (handle : Handle) (os : List Order) :
    (f.hold handle os).execution = { f.execution with handle := some handle } := rfl

/-- A handle is kept, with orders that are about neither polls nor the promise. -/
theorem hold_evolves (f : Frame σ) (handle : Handle) {os : List Order}
    (unwatched : os.countP Order.isWatch = 0) (unsettling : os.countP Order.isSettling = 0) :
    Evolves f (f.hold handle os) [.held handle] os :=
  ⟨⟨rfl, rfl, by simp [hold, enter, unsettling], fun _ => rfl⟩, unwatched, rfl⟩

/-- Only code of the caller's has run, and what it asked for has been looked at. -/
structure Serves (f f' : Frame σ) (es : List Event) : Prop where
  evolves : ∃ os, Evolves f f' es os
  promise : f.execution.promise.OrCancelled f'.execution.promise
  handle : f'.execution.handle = f.execution.handle

theorem serves_refl (f : Frame σ) : Serves f f [] :=
  ⟨⟨[], evolves_refl f⟩, Promise.orCancelled_refl _, rfl⟩

theorem Serves.trans {f f' f'' : Frame σ} {es es' : List Event} (h : Serves f f' es)
    (h' : Serves f' f'' es') : Serves f f'' (es ++ es') := by
  obtain ⟨os, first⟩ := h.evolves
  obtain ⟨os', second⟩ := h'.evolves
  exact ⟨⟨os ++ os', first.trans second⟩, Promise.orCancelled_trans h.promise h'.promise,
    h'.handle.trans h.handle⟩

/-- After code of the caller's has run, the execution differs in its promise only. -/
theorem Serves.execution {f f' : Frame σ} {es : List Event} (h : Serves f f' es) :
    f'.execution = { f.execution with promise := f'.execution.promise } := by
  obtain ⟨os, evolves⟩ := h.evolves
  have rest := evolves.rest
  rw [h.handle] at rest
  exact rest

/-! ## Settling -/

theorem settle_of_isSettled {f : Frame σ} (h : f.execution.promise.isSettled = true)
    (p : Promise) : f.settle p = f := by
  simp [settle, h]

theorem settle_of_pending {f : Frame σ} (h : f.execution.promise.isSettled = false)
    (p : Promise) :
    f.settle p = { f with
      execution := { f.execution with promise := p }, orders := f.orders ++ [.settled] } := by
  simp [settle, h, order]

theorem settle_evolves (f : Frame σ) {p : Promise} (hp : p.isSettled = true) :
    ∃ os, Evolves f (f.settle p) [] os := by
  cases h : f.execution.promise.isSettled with
  | true =>
    rw [settle_of_isSettled h]
    exact ⟨[], evolves_refl f⟩
  | false =>
    rw [settle_of_pending h]
    refine ⟨[.settled], ⟨?_, rfl, ?_, ?_⟩, rfl, rfl⟩
    · simp
    · simp [h, hp, Order.isSettling]
    · simp [h]

/-- After settling, the promise is settled. -/
theorem isSettled_settle (f : Frame σ) {p : Promise} (hp : p.isSettled = true) :
    (f.settle p).execution.promise.isSettled = true := by
  cases h : f.execution.promise.isSettled with
  | true => rw [settle_of_isSettled h, h]
  | false => rw [settle_of_pending h]; exact hp

/-! ## Requests of the caller's code -/

theorem order_request_serves (f : Frame σ) (r : Request) : Serves f (f.order (.request r)) [] :=
  ⟨⟨[.request r], ⟨by simp [order], rfl, by simp [order, Order.isSettling], fun _ => rfl⟩, rfl, rfl⟩,
    Promise.orCancelled_refl _, rfl⟩

theorem settle_cancelled_serves (f : Frame σ) : Serves f (f.settle .cancelled) [] := by
  refine ⟨settle_evolves f rfl, ?_, ?_⟩
  · cases h : f.execution.promise.isSettled with
    | true => rw [settle_of_isSettled h]; exact .inl rfl
    | false => rw [settle_of_pending h]; exact .inr ⟨Promise.eq_pending h, rfl⟩
  · cases h : f.execution.promise.isSettled with
    | true => rw [settle_of_isSettled h]
    | false => rw [settle_of_pending h]

theorem absorbOne_serves (f : Frame σ) (r : Request) : Serves f (f.absorbOne r) [] := by
  unfold absorbOne
  split
  · split
    · exact settle_cancelled_serves f
    · exact order_request_serves f _
  · exact order_request_serves f _

theorem foldl_absorbOne_serves (requests : List Request) (f : Frame σ) :
    Serves f (requests.foldl absorbOne f) [] := by
  induction requests generalizing f with
  | nil => exact serves_refl f
  | cons r rest ih => exact (absorbOne_serves f r).trans (ih (f.absorbOne r))

/-- Looking at requests adds no entry and can only cancel the promise. -/
theorem absorb_serves {f : Frame σ} {w : World σ} {es : List Event}
    (h : w.history = f.world.history ++ es) : Serves f ({ f with world := w }.absorb) es := by
  have run : Serves f { f with
      world := { w with caller := { w.caller with requests := [] } } } es :=
    ⟨⟨[], ⟨h, by simp, by simp, fun _ => rfl⟩, rfl, rfl⟩, Promise.orCancelled_refl _, rfl⟩
  have absorbed := run.trans (foldl_absorbOne_serves w.caller.requests _)
  rw [List.append_nil] at absorbed
  exact absorbed

/-- Requests change nothing of the caller's own state. -/
theorem foldl_absorbOne_world (requests : List Request) (f : Frame σ) :
    (requests.foldl absorbOne f).world = f.world := by
  induction requests generalizing f with
  | nil => rfl
  | cons r rest ih =>
    rw [List.foldl_cons, ih]
    unfold absorbOne settle
    split <;> (repeat' split) <;> rfl

/-- A request is left as an order, unless it settles the promise. -/
theorem absorbOne_orders (f : Frame σ) (r : Request) :
    ∃ os, (f.absorbOne r).orders = f.orders ++ os ∧ ∀ o ∈ os, o = .settled ∨ o = .request r := by
  have passed : ∃ os, (f.order (.request r)).orders = f.orders ++ os ∧
      ∀ o ∈ os, o = .settled ∨ o = .request r := ⟨[.request r], rfl, by simp⟩
  unfold absorbOne
  split
  · split
    · unfold settle
      split
      · exact ⟨[], by simp, by simp⟩
      · exact ⟨[.settled], rfl, by simp⟩
    · exact passed
  · exact passed

theorem foldl_absorbOne_orders (requests : List Request) (f : Frame σ) :
    ∃ os, (requests.foldl absorbOne f).orders = f.orders ++ os ∧
      ∀ o ∈ os, o = .settled ∨ ∃ r ∈ requests, o = .request r := by
  induction requests generalizing f with
  | nil => exact ⟨[], by simp, by simp⟩
  | cons r rest ih =>
    obtain ⟨os, first, left⟩ := f.absorbOne_orders r
    obtain ⟨os', later, left'⟩ := ih (f.absorbOne r)
    refine ⟨os ++ os', by rw [List.foldl_cons, later, first, List.append_assoc], fun o mem => ?_⟩
    rcases List.mem_append.1 mem with mem | mem
    · exact (left o mem).imp id fun same => ⟨r, List.mem_cons_self, same⟩
    · exact (left' o mem).imp id fun ⟨r', asked, same⟩ => ⟨r', List.mem_cons_of_mem r asked, same⟩

@[simp] theorem absorb_state (f : Frame σ) :
    f.absorb.world.caller.state = f.world.caller.state := by
  unfold absorb
  simp only [foldl_absorbOne_world]

@[simp] theorem absorb_history (f : Frame σ) : f.absorb.world.history = f.world.history := by
  unfold absorb
  simp only [foldl_absorbOne_world]

@[simp] theorem absorb_requests (f : Frame σ) : f.absorb.world.caller.requests = [] := by
  unfold absorb
  simp only [foldl_absorbOne_world]

/-- A look at requests changes nothing of the execution but its promise. -/
theorem absorb_execution (f : Frame σ) :
    f.absorb.execution = { f.execution with promise := f.absorb.execution.promise } :=
  (foldl_absorbOne_serves f.world.caller.requests
    { f with world := { f.world with caller := { f.world.caller with requests := [] } } }).execution

/-- Where nothing was asked for, there is nothing to look at. -/
theorem absorb_of_requests {f : Frame σ} (h : f.world.caller.requests = []) : f.absorb = f := by
  rcases f with ⟨⟨⟨state, serving, requests⟩, history⟩, execution, orders⟩
  obtain rfl : requests = [] := h
  rfl

theorem settle_enter (f : Frame σ) (e : Event) (p : Promise) :
    (f.enter e).settle p = (f.settle p).enter e := by
  unfold settle
  cases h : f.execution.promise.isSettled <;> simp [enter, order, h]

theorem absorbOne_enter (f : Frame σ) (e : Event) (r : Request) :
    (f.enter e).absorbOne r = (f.absorbOne r).enter e := by
  cases r with
  | cancel run =>
    simp only [absorbOne, settle_enter, apply_ite (enter · e)]
    rfl
  | _ => rfl

theorem foldl_absorbOne_enter (requests : List Request) (f : Frame σ) (e : Event) :
    requests.foldl absorbOne (f.enter e) = (requests.foldl absorbOne f).enter e := by
  induction requests generalizing f with
  | nil => rfl
  | cons r rest ih => rw [List.foldl_cons, List.foldl_cons, absorbOne_enter, ih]

/-- An entry can be made before or after a look at the requests. -/
theorem absorb_enter (f : Frame σ) (e : Event) : (f.enter e).absorb = f.absorb.enter e :=
  foldl_absorbOne_enter f.world.caller.requests
    { f with world := { f.world with caller := { f.world.caller with requests := [] } } } e

end Frame

/-! ## Running acts within a callback -/

namespace Step

/-- Run an act, look at what the caller's code asked for meanwhile, and go on if it did not fail. -/
def perform (a : Act σ α) : Step σ α :=
  fun f => ((a f.world).1, { f with world := (a f.world).2 }.absorb)

/-- What becomes of a fault of the caller's code: an ordinary one rejects the promise, any other
leaves the callback. -/
def refuse (e : Fault) : Step σ Unit := if e.isOrdinary then reject e else throw e

@[simp] theorem perform_apply (a : Act σ α) (f : Frame σ) :
    perform a f = ((a f.world).1, { f with world := (a f.world).2 }.absorb) := rfl

/-- What the caller's code has asked for is never left over. -/
theorem requests_of_perform {a : Act σ α} {f f' : Frame σ} {r : Except Fault α}
    (h : perform a f = (r, f')) : f'.world.caller.requests = [] := by
  have absorbed := congrArg (·.2.world.caller.requests) h
  simpa using absorbed.symm

/-- What an act enters is entered in the frame. -/
theorem history_of_perform {a : Act σ α} {f f' : Frame σ} {r : Except Fault α}
    (h : perform a f = (r, f')) : f'.world.history = (a f.world).2.history := by
  have absorbed := congrArg (·.2.world.history) h
  simpa using absorbed.symm

/-- Acts change nothing of the execution but its promise. -/
theorem execution_of_perform {a : Act σ α} {f f' : Frame σ} {r : Except Fault α}
    (h : perform a f = (r, f')) :
    f'.execution = { f.execution with promise := f'.execution.promise } := by
  obtain rfl := (Prod.mk.inj h).2
  exact Frame.absorb_execution { f with world := (a f.world).2 }

theorem act_eq_perform (a : Act σ Unit) : act a = perform a := by
  funext f
  rw [act, bind_apply, trying_apply, perform_apply]
  rcases (a f.world).1 with _ | _ <;> rfl

/-- A guarded act is performed; what follows depends on how it went. -/
theorem guarding_apply (a : Act σ α) (next : α → Step σ Unit) (f : Frame σ) :
    guarding a next f = match perform a f with
      | (.ok x, f') => next x f'
      | (.error e, f') => refuse e f' := by
  rw [guarding, bind_apply, trying_apply, perform_apply]
  rcases (a f.world).1 with e | x <;> rfl

/-- After a look at the requests, writing to the log does no more than that. -/
theorem perform_note (n : Note) {f : Frame σ} (h : f.world.caller.requests = []) :
    perform (Act.note n) f = (.ok (), f.enter (.note n)) :=
  congrArg (Except.ok (), ·) (Frame.absorb_of_requests (f := f.enter (.note n)) h)

/-- A note at the end of an act can be written after it. -/
theorem perform_bind_note (a : Act σ Unit) (n : Note) (f : Frame σ) :
    perform (a >>= fun _ => Act.note n) f = match perform a f with
      | (.ok _, f') => (.ok (), f'.enter (.note n))
      | (.error e, f') => (.error e, f') := by
  simp only [perform_apply, Act.bind_apply]
  rcases a f.world with ⟨e | x, w⟩
  · rfl
  · exact congrArg (Except.ok (), ·) (Frame.absorb_enter { f with world := w } (.note n))

theorem perform_note_bind (n : Note) (a : Act σ α) (f : Frame σ) :
    perform (Act.note n >>= fun _ => a) f = perform a (f.enter (.note n)) := rfl

/-- An act that makes no milestones serves. -/
theorem perform_serves {a : Act σ α} (h : a.Enters (·.isMilestone = false)) (f : Frame σ) :
    ∃ q, Frame.Serves f (perform a f).2 q ∧ Quiet q := by
  obtain ⟨q, hq, quiet⟩ := h f.world
  exact ⟨q, Frame.absorb_serves hq, quiet⟩

/-- Rejecting the promise makes no entry. -/
theorem reject_evolves (e : Fault) (f : Frame σ) :
    ∃ os, Frame.Evolves f (reject e f).2 [] os := by
  unfold reject
  split
  · exact ⟨[], Frame.evolves_refl f⟩
  · split
    · next p hp => exact Frame.settle_evolves f (Promise.isSettled_ofFault hp)
    · exact ⟨[], Frame.evolves_refl f⟩

/-- Refusing a fault makes no entry. -/
theorem refuse_evolves (e : Fault) (f : Frame σ) :
    ∃ os, Frame.Evolves f (refuse e f).2 [] os := by
  unfold refuse
  split
  · exact reject_evolves e f
  · exact ⟨[], Frame.evolves_refl f⟩

end Step

end Polling
