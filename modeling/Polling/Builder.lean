import Polling.Waiter

/-!
# Building waiters

A builder gathers a configuration call by call. It changes as it does so, and so may the lists of
acceptors that its user hands it. Lists are therefore kept on a `Shelf` and told apart by their places:
whoever holds a place sees what has become of the list there.

* `Builder`: its acceptors are a list of its own, which grows in place;
* `Product`: a waiter that was made, with a list of its own that nobody changes;
* `Workshop`: a builder, the waiters made so far and the lists of the user's, all on one shelf;
* `Workshop.step`: one call. A call that is refused leaves the workshop as it was.
-/

namespace Polling

/-! ## Lists and their places -/

/-- Lists of acceptors by their places. -/
structure Shelf (σ : Type) where
  lists : List (List (Acceptor σ)) := []

namespace Shelf

/-- How many lists there are; the places are the numbers below. -/
def size (s : Shelf σ) : Nat := s.lists.length

/-- The acceptors in the list at a place. -/
def contents (s : Shelf σ) (place : Nat) : List (Acceptor σ) := s.lists[place]?.getD []

/-- A new list with some acceptors, at a place of its own. -/
def put (s : Shelf σ) (items : List (Acceptor σ)) : Nat × Shelf σ :=
  (s.size, ⟨s.lists ++ [items]⟩)

/-- Change the list at a place. -/
def change (s : Shelf σ) (place : Nat) (f : List (Acceptor σ) → List (Acceptor σ)) : Shelf σ :=
  ⟨s.lists.modify place f⟩

@[simp] theorem size_put (s : Shelf σ) (items : List (Acceptor σ)) :
    (s.put items).2.size = s.size + 1 := by
  simp [put, size]

@[simp] theorem size_change (s : Shelf σ) (place : Nat)
    (f : List (Acceptor σ) → List (Acceptor σ)) : (s.change place f).size = s.size := by
  simp [change, size]

/-- A new list holds what was put in it. -/
@[simp] theorem contents_put (s : Shelf σ) (items : List (Acceptor σ)) :
    (s.put items).2.contents s.size = items := by
  simp [put, contents, size]

/-- A new list leaves the others alone. -/
theorem contents_put_of_lt {s : Shelf σ} {place : Nat} (h : place < s.size)
    (items : List (Acceptor σ)) : (s.put items).2.contents place = s.contents place := by
  simp only [put, contents]
  rw [List.getElem?_append_left h]

/-- A change is seen at its place. -/
theorem contents_change {s : Shelf σ} {place : Nat} (h : place < s.size)
    (f : List (Acceptor σ) → List (Acceptor σ)) :
    (s.change place f).contents place = f (s.contents place) := by
  have inside : place < s.lists.length := h
  simp [change, contents, inside]

/-- A change is seen nowhere else. -/
theorem contents_change_of_ne {s : Shelf σ} {place other : Nat} (h : other ≠ place)
    (f : List (Acceptor σ) → List (Acceptor σ)) :
    (s.change place f).contents other = s.contents other := by
  simp [change, contents, h.symm]

end Shelf

/-! ## Waiters as they are handed out -/

/-- A waiter that was made. Its acceptors are in a list of its own. -/
structure Product (σ : Type) where
  strategy : Strategy σ
  acceptors : Nat
  scheduler : Option (Scheduler σ) := none
  hooks : Option (Hooks σ) := none

namespace Product

/-- The waiter that a product is. -/
def waiter (p : Product σ) (s : Shelf σ) : Waiter σ :=
  ⟨p.strategy, s.contents p.acceptors, p.scheduler, p.hooks⟩

/-- Make a waiter from its parts. The strategy is required; the acceptors are copied. -/
def make (strategy : Option (Strategy σ)) (acceptors : Except Fault (List (Acceptor σ)))
    (scheduler : Option (Scheduler σ)) (hooks : Option (Hooks σ)) (s : Shelf σ) :
    Except Fault (Product σ × Shelf σ) :=
  match strategy, acceptors with
  | none, _ => .error Misuse.strategyMissing.fault
  | some _, .error e => .error e
  | some strategy, .ok items =>
    let own := s.put items
    .ok (⟨strategy, own.1, scheduler, hooks⟩, own.2)

end Product

/-! ## Builders -/

/-- A configuration in the making. Its acceptors are in a list of its own. -/
structure Builder (σ : Type) where
  acceptors : Nat
  strategy : Option (Strategy σ) := none
  scheduler : Option (Scheduler σ) := none
  hooks : Option (Hooks σ) := none

namespace Builder

/-- Replace all acceptors by copies of some others. -/
def withAcceptors (b : Builder σ) (items : List (Acceptor σ)) (s : Shelf σ) :
    Builder σ × Shelf σ :=
  let own := s.put items
  ({ b with acceptors := own.1 }, own.2)

/-- Add an acceptor behind the others. -/
def addAcceptor (b : Builder σ) (a : Acceptor σ) (s : Shelf σ) : Shelf σ :=
  s.change b.acceptors (· ++ [a])

/-- Set the strategy, given either whole or by its parts. -/
def withStrategy (b : Builder σ) (whole : Option (Strategy σ)) (limit : Value)
    (backoff : Option (Backoff σ)) : Except Misuse (Builder σ) :=
  match whole, limit, backoff with
  | some s, .null, none => .ok { b with strategy := some s }
  | some _, _, _ => .error .strategyGivenTwice
  | none, limit, backoff => do
    let s ← Strategy.make limit backoff
    return { b with strategy := some s }

/-- Set the scheduler. -/
def withScheduler (b : Builder σ) (s : Option (Scheduler σ)) : Builder σ :=
  { b with scheduler := s }

/-- Set the hooks. -/
def withHooks (b : Builder σ) (h : Option (Hooks σ)) : Builder σ := { b with hooks := h }

/-- Make a waiter with the configuration gathered so far. -/
def build (b : Builder σ) (s : Shelf σ) : Except Fault (Product σ × Shelf σ) :=
  match b.strategy with
  | none => .error Misuse.strategyNotSet.fault
  | some _ => Product.make b.strategy (.ok (s.contents b.acceptors)) b.scheduler b.hooks s

end Builder

/-- What a builder has gathered, with the acceptors themselves in the place of their list. -/
structure Configuration (σ : Type) where
  acceptors : List (Acceptor σ) := []
  strategy : Option (Strategy σ) := none
  scheduler : Option (Scheduler σ) := none
  hooks : Option (Hooks σ) := none

/-! ## A builder and what is around it -/

/-- A builder, the waiters made so far, and the places of the user's own lists. -/
structure Workshop (σ : Type) where
  shelf : Shelf σ
  builder : Builder σ
  products : List (Product σ) := []
  lists : List Nat := []

namespace Workshop

/-- A new builder has an empty list. -/
def fresh : Workshop σ where
  shelf := ⟨[[]]⟩
  builder := { acceptors := 0 }

/-- What the builder has gathered. -/
def gathered (w : Workshop σ) : Configuration σ :=
  ⟨w.shelf.contents w.builder.acceptors, w.builder.strategy, w.builder.scheduler, w.builder.hooks⟩

/-- The waiters made so far. -/
def waiters (w : Workshop σ) : List (Waiter σ) := w.products.map (·.waiter w.shelf)

/-- Where acceptors are taken from. -/
inductive Supply (σ : Type) where
  /-- A list of the user's, by its number. -/
  | list (number : Nat)
  /-- The acceptors of a waiter, by its number. -/
  | waiter (number : Nat)
  /-- Something else that is gone through once: the acceptors that come, and the fault that ends
  them early if one does. -/
  | source (items : List (Acceptor σ)) (ending : Option Fault)
  /-- Something that cannot be gone through, by the name of its type. -/
  | barren (typeName : String)

/-- What a user does. -/
inductive Call (σ : Type) where
  /-- Make a list. -/
  | list (items : List (Acceptor σ))
  /-- Change one of the own lists, so that it holds these acceptors from now on. -/
  | change (number : Nat) (items : List (Acceptor σ))
  | acceptors (given : Supply σ)
  | add (a : Acceptor σ)
  | strategy (whole : Option (Strategy σ)) (limit : Value) (backoff : Option (Backoff σ))
  | scheduler (s : Option (Scheduler σ))
  | hooks (h : Option (Hooks σ))
  | build
  /-- Make a waiter without the builder. -/
  | direct (strategy : Option (Strategy σ)) (given : Supply σ)

/-- What a call answers. -/
inductive Reply where
  | done
  /-- A list or a waiter was made, with its number. -/
  | made (number : Nat)
  | refused (e : Fault)

/-- The fault of asking for something by a number that nothing has. -/
def noSuch : Fault := .withText .index "list index out of range"

/-- Go through a supply. -/
def gather (w : Workshop σ) : Supply σ → Except Fault (List (Acceptor σ))
  | .list number =>
    match w.lists[number]? with
    | none => .error noSuch
    | some place => .ok (w.shelf.contents place)
  | .waiter number =>
    match w.products[number]? with
    | none => .error noSuch
    | some p => .ok (w.shelf.contents p.acceptors)
  | .source items none => .ok items
  | .source _ (some e) => .error e
  | .barren typeName => .error (Misuse.notIterable typeName).fault

/-- Keep a waiter, unless it was refused. -/
def keep (w : Workshop σ) : Except Fault (Product σ × Shelf σ) → Reply × Workshop σ
  | .ok (p, shelf) => (.made w.products.length, { w with shelf, products := w.products ++ [p] })
  | .error e => (.refused e, w)

/-- Do a call. -/
def step (w : Workshop σ) : Call σ → Reply × Workshop σ
  | .list items =>
    let own := w.shelf.put items
    (.made w.lists.length, { w with shelf := own.2, lists := w.lists ++ [own.1] })
  | .change number items =>
    match w.lists[number]? with
    | none => (.refused noSuch, w)
    | some place => (.done, { w with shelf := w.shelf.change place fun _ => items })
  | .acceptors given =>
    match w.gather given with
    | .error e => (.refused e, w)
    | .ok items =>
      let (builder, shelf) := w.builder.withAcceptors items w.shelf
      (.done, { w with builder, shelf })
  | .add a => (.done, { w with shelf := w.builder.addAcceptor a w.shelf })
  | .strategy whole limit backoff =>
    match w.builder.withStrategy whole limit backoff with
    | .error m => (.refused m.fault, w)
    | .ok builder => (.done, { w with builder })
  | .scheduler s => (.done, { w with builder := w.builder.withScheduler s })
  | .hooks h => (.done, { w with builder := w.builder.withHooks h })
  | .build => w.keep (w.builder.build w.shelf)
  | .direct strategy given => w.keep (Product.make strategy (w.gather given) none none w.shelf)

end Workshop

end Polling
