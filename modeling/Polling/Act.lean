import Polling.History

/-!
# Code of the caller's, and acts of this library

Matchers, hooks, operations, backoffs and schedulers belong to the caller. Such code acts on a state
`σ` of the caller's choosing, returns or raises, and may ask the event loop it runs on for something.
`Code σ` is its type. What this library does is an `Act σ`: it runs the caller's code and keeps a
history of doing so.

A fault leaves the state as it was when the fault was raised; nothing is rolled back.
-/

namespace Polling

/-- An asynchronous execution, by its place in the order of starting. -/
abbrev RunId := Nat

/-- A callback that the caller may put on the event loop. -/
inductive Errand where
  /-- Tell an execution that its delay is over. -/
  | fire (run : RunId)
  /-- Let a poll go on. -/
  | resume (poll : PollId)
  /-- A poll's own delay is over. -/
  | wake (poll : PollId)
deriving DecidableEq, Repr

/-- What the caller's code may ask of the event loop. -/
inductive Request where
  /-- Cancel the promise of an execution. -/
  | cancel (run : RunId)
  /-- Tell an execution that its delay is over, at once. -/
  | fire (run : RunId)
  /-- A poll has ended. -/
  | finish (poll : PollId) (ending : Ending)
  /-- Put an errand at the end of the queue. -/
  | soon (errand : Errand)
  /-- Run an errand after a delay. -/
  | later (delay : Binary64) (errand : Errand)
  /-- Take an errand back. -/
  | drop (errand : Errand)
deriving Repr

/-- The caller's side of the world: its state, the execution on whose behalf its code is running,
and what that code has asked for so far. -/
structure Caller (σ : Type) where
  state : σ
  serving : RunId := 0
  requests : List Request := []

/-- Code supplied by the caller. -/
abbrev Code (σ : Type) := ExceptT Fault (StateM (Caller σ))

namespace Code

/-- Code that acts on the caller's state alone. -/
def onState (f : σ → Except Fault α × σ) : Code σ α :=
  fun c => let (result, state) := f c.state; (result, { c with state })

/-- Read the caller's state. -/
def read (f : σ → α) : Code σ α := onState fun s => (.ok (f s), s)

/-- Change the caller's state. -/
def change (f : σ → σ) : Code σ Unit := onState fun s => (.ok (), f s)

/-- Ask the event loop for something. -/
def ask (r : Request) : Code σ Unit :=
  fun c => (.ok (), { c with requests := c.requests ++ [r] })

/-- A result that may be a misuse, as code. -/
def lift (x : Except Misuse α) : Code σ α :=
  fun c => (x.mapError Misuse.fault, c)

/-! ## What code does to the caller's side -/

@[simp] theorem pure_apply (x : α) (c : Caller σ) : (pure x : Code σ α) c = (.ok x, c) := rfl

theorem bind_apply (a : Code σ α) (f : α → Code σ β) (c : Caller σ) :
    (a >>= f) c = match a c with
      | (.ok x, c) => f x c
      | (.error e, c) => (.error e, c) := by
  show (ExceptT.bindCont f (a c).1) (a c).2 = _
  rcases a c with ⟨_ | _, _⟩ <;> rfl

end Code

/-- The caller's side and what has happened so far. -/
structure World (σ : Type) where
  caller : Caller σ
  history : List Event := []

/-- What this library does. -/
abbrev Act (σ : Type) := ExceptT Fault (StateM (World σ))

namespace Act

/-- Enter an event into the history. -/
def record (e : Event) : Act σ Unit :=
  fun w => (.ok (), { w with history := w.history ++ [e] })

/-- Write a line to the log. -/
def note (n : Note) : Act σ Unit := record (.note n)

/-- Run code of the caller's. -/
def code (c : Code σ α) : Act σ α :=
  fun w => let (result, caller) := c w.caller; (result, { w with caller })

/-- Enter an event into the history and run the code that it announces. -/
def call (e : Event) (c : Code σ α) : Act σ α := do
  record e
  code c

/-- Read the caller's state. -/
def read (f : σ → α) : Act σ α :=
  fun w => (.ok (f w.caller.state), w)

/-- Do something and report how it went instead of raising. -/
def outcomeOf (a : Act σ α) : Act σ (Except Fault α) :=
  fun w => let (result, w) := a w; (.ok result, w)

/-- A result that may be a misuse, as an act. -/
def lift (x : Except Misuse α) : Act σ α :=
  fun w => (x.mapError Misuse.fault, w)

/-- Raise a fault. -/
def fail (e : Fault) : Act σ α := fun w => (.error e, w)

/-- Go on with something that was made beforehand, or raise the fault of making it. -/
def given (x : Except Fault α) (next : α → Act σ β) : Act σ β :=
  match x with
  | .ok x => next x
  | .error e => fail e

/-! ## What acts do to the world -/

@[simp] theorem pure_apply (x : α) (w : World σ) : (pure x : Act σ α) w = (.ok x, w) := rfl

theorem bind_apply (a : Act σ α) (f : α → Act σ β) (w : World σ) :
    (a >>= f) w = match a w with
      | (.ok x, w) => f x w
      | (.error e, w) => (.error e, w) := by
  show (ExceptT.bindCont f (a w).1) (a w).2 = _
  rcases a w with ⟨_ | _, _⟩ <;> rfl

/-- Acts one after the other return what the second one makes of the result of the first one. -/
theorem bind_eq_ok {a : Act σ α} {f : α → Act σ β} {w w' : World σ} {y : β} :
    (a >>= f) w = (.ok y, w') ↔ ∃ x w₁, a w = (.ok x, w₁) ∧ f x w₁ = (.ok y, w') := by
  rw [bind_apply]
  rcases a w with ⟨e | x, w₁⟩
  · constructor
    · exact fun h => nomatch congrArg Prod.fst h
    · rintro ⟨x, w₁, h, -⟩
      exact nomatch congrArg Prod.fst h
  · constructor
    · exact fun h => ⟨x, w₁, rfl, h⟩
    · rintro ⟨x', w₁', h, next⟩
      obtain ⟨same, rfl⟩ := Prod.mk.inj h
      obtain rfl := Except.ok.inj same
      exact next

theorem pure_eq_ok {x y : α} {w w' : World σ} :
    (pure x : Act σ α) w = (.ok y, w') ↔ x = y ∧ w = w' := by
  rw [pure_apply]
  constructor
  · exact fun h => ⟨Except.ok.inj (Prod.mk.inj h).1, (Prod.mk.inj h).2⟩
  · rintro ⟨rfl, rfl⟩
    rfl

@[simp] theorem record_apply (e : Event) (w : World σ) :
    record e w = (.ok (), { w with history := w.history ++ [e] }) := rfl

@[simp] theorem code_apply (c : Code σ α) (w : World σ) :
    code c w = ((c w.caller).1, { w with caller := (c w.caller).2 }) := rfl

theorem call_apply (e : Event) (c : Code σ α) (w : World σ) :
    call e c w = ((c w.caller).1,
      { caller := (c w.caller).2, history := w.history ++ [e] }) := rfl

@[simp] theorem read_apply (f : σ → α) (w : World σ) :
    read f w = (.ok (f w.caller.state), w) := rfl

@[simp] theorem outcomeOf_apply (a : Act σ α) (w : World σ) :
    outcomeOf a w = (.ok (a w).1, (a w).2) := rfl

@[simp] theorem lift_ok_apply (x : α) (w : World σ) : lift (.ok x) w = (.ok x, w) := rfl

@[simp] theorem lift_error_apply (m : Misuse) (w : World σ) :
    (lift (.error m) : Act σ α) w = (.error m.fault, w) := rfl

@[simp] theorem fail_apply (e : Fault) (w : World σ) :
    (fail e : Act σ α) w = (.error e, w) := rfl

end Act

end Polling
