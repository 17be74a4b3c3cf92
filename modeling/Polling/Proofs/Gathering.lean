import Mathlib.Data.List.DropRight
import Polling.Builder

/-!
# What a builder gathers

A workshop is used by calls in any order, some of which are refused. `Workshop.asked` reads the
configuration that is due off the calls that have succeeded: the settings are those of the last calls
that made them, and the acceptors are those of the last supply followed by what has been added since.

The builder has gathered that configuration (`gathered_after`), and the waiters that have been made stay
what they are (`waiters_stay`), because no list that is changed is shared: `Workshop.Separate`. From
both it follows what building answers, after any calls: `Workshop.remembers`.

What is supplied is read when it is handed over. A list of the user's gives what the user has put there last,
whatever other calls there have been (`gather_list_after`), and a waiter gives the acceptors that it was made
with (`gather_waiter`). What cannot be gone through is a fault of its type (`acceptors_barren`).
-/

namespace Polling

/-- A strategy is made of a limit that is a whole number above zero and of a backoff. -/
theorem Strategy.make_eq_ok {limit : Value} {backoff : Option (Backoff σ)} {s : Strategy σ} :
    Strategy.make limit backoff = .ok s ↔ limit = .int s.limit ∧ backoff = some s.backoff := by
  constructor
  · intro made
    unfold make at made
    split at made
    · cases made
    · cases made
    · next n b =>
      split at made
      · next positive =>
        obtain rfl := Except.ok.inj made
        have whole : ((n.toNat : Nat) : Int) = n := Int.toNat_of_nonneg (by omega)
        exact ⟨congrArg Value.int whole.symm, rfl⟩
      · cases made
    · cases made
  · rintro ⟨rfl, rfl⟩
    simp [make, s.limit_pos]

/-- A strategy is not given twice. -/
theorem Builder.withStrategy_twice (b : Builder σ) (s : Strategy σ) {limit : Value}
    {backoff : Option (Backoff σ)} (twice : ¬ (limit = .null ∧ backoff = none)) :
    b.withStrategy (some s) limit backoff = .error .strategyGivenTwice := by
  cases limit with
  | null =>
    cases backoff with
    | none => exact absurd ⟨rfl, rfl⟩ twice
    | some _ => rfl
  | _ => rfl

theorem Builder.withStrategy_parts (b : Builder σ) (limit : Value) (backoff : Option (Backoff σ)) :
    b.withStrategy none limit backoff =
      (Strategy.make limit backoff).map fun s => { b with strategy := some s } := by
  cases made : Strategy.make limit backoff <;> simp [withStrategy, made] <;> rfl

/-- A strategy is set if it is given in one of two forms: whole, or by both of its parts. -/
theorem Builder.withStrategy_eq_ok {b b' : Builder σ} {whole : Option (Strategy σ)} {limit : Value}
    {backoff : Option (Backoff σ)} : b.withStrategy whole limit backoff = .ok b' ↔
      ∃ s, b' = { b with strategy := some s } ∧
        (whole = some s ∧ limit = .null ∧ backoff = none ∨
          whole = none ∧ limit = .int s.limit ∧ backoff = some s.backoff) := by
  cases whole with
  | some s =>
    by_cases once : limit = .null ∧ backoff = none
    · obtain ⟨rfl, rfl⟩ := once
      constructor
      · intro set
        exact ⟨s, (Except.ok.inj set).symm, .inl ⟨rfl, rfl, rfl⟩⟩
      · rintro ⟨s', rfl, ⟨whole, -⟩ | ⟨whole, -⟩⟩
        · obtain rfl := Option.some.inj whole
          rfl
        · cases whole
    · -- whole and in parts at once is one form too many
      rw [b.withStrategy_twice s once]
      constructor
      · intro set
        cases set
      · rintro ⟨s', -, ⟨-, alone⟩ | ⟨whole, -⟩⟩
        · exact absurd alone once
        · cases whole
  | none =>
    rw [b.withStrategy_parts]
    constructor
    · intro set
      cases made : Strategy.make limit backoff with
      | error m =>
        rw [made] at set
        cases set
      | ok s =>
        rw [made] at set
        exact ⟨s, (Except.ok.inj set).symm, .inr ⟨rfl, Strategy.make_eq_ok.1 made⟩⟩
    · rintro ⟨s, rfl, ⟨whole, -⟩ | ⟨-, parts⟩⟩
      · cases whole
      · rw [Strategy.make_eq_ok.2 parts]
        rfl

namespace Workshop

/-! ## Calls and what they ask for -/

/-- The fault of a call that is refused. -/
@[simp] def Reply.fault? : Reply → Option Fault
  | .refused e => some e
  | _ => none

namespace Call

/-- The acceptor that a call adds. -/
def added? : Call σ → Option (Acceptor σ)
  | .add a => some a
  | _ => none

/-- The strategy that a call sets, whole or made of its parts. -/
def strategy? : Call σ → Option (Strategy σ)
  | .strategy (some s) _ _ => some s
  | .strategy none limit backoff => (Strategy.make limit backoff).toOption
  | _ => none

/-- The scheduler that a call sets. -/
def scheduler? : Call σ → Option (Option (Scheduler σ))
  | .scheduler s => some s
  | _ => none

/-- The hooks that a call sets. -/
def hooks? : Call σ → Option (Option (Hooks σ))
  | .hooks h => some h
  | _ => none

end Call

/-- A call and the workshop it was made in. -/
structure Visit (σ : Type) where
  workshop : Workshop σ
  call : Call σ

namespace Visit

/-- A call succeeds unless it is refused. -/
def succeeds (v : Visit σ) : Bool := (v.workshop.step v.call).1.fault?.isNone

/-- The acceptors that a call puts in the place of all others, which are those that its supply had then. -/
def supplied? (v : Visit σ) : Option (List (Acceptor σ)) :=
  match v.call with
  | .acceptors given => (v.workshop.gather given).toOption
  | _ => none

end Visit

/-- The workshop after some calls. -/
def after (w : Workshop σ) (calls : List (Call σ)) : Workshop σ :=
  calls.foldl (fun w c => (w.step c).2) w

/-- The calls with the workshops they were made in. -/
def visits (w : Workshop σ) : List (Call σ) → List (Visit σ)
  | [] => []
  | c :: rest => ⟨w, c⟩ :: (w.step c).2.visits rest

/-- The configuration that calls which have succeeded ask for. -/
def asked (vs : List (Visit σ)) : Configuration σ where
  acceptors := (vs.filterMap Visit.supplied?).getLast?.getD [] ++
    (vs.rtakeWhile (·.supplied?.isNone)).filterMap (·.call.added?)
  strategy := (vs.filterMap (·.call.strategy?)).getLast?
  scheduler := (vs.filterMap (·.call.scheduler?)).getLast?.getD none
  hooks := (vs.filterMap (·.call.hooks?)).getLast?.getD none

/-- The lists of the user's, as they are now. -/
def present (w : Workshop σ) : List (List (Acceptor σ)) := w.lists.map w.shelf.contents

/-- What a call writes to the lists of the user's. -/
def Call.write : Call σ → List (List (Acceptor σ)) → List (List (Acceptor σ))
  | .list items, lists => lists ++ [items]
  | .change number items, lists => lists.set number items
  | _, lists => lists

section Runs

variable (w : Workshop σ)

@[simp] theorem after_nil : w.after [] = w := rfl

@[simp] theorem after_cons (c : Call σ) (rest : List (Call σ)) :
    w.after (c :: rest) = (w.step c).2.after rest := rfl

end Runs

-- below, calls are told apart one by one
attribute [simp] Visit.supplied? Call.added? Call.strategy? Call.scheduler? Call.hooks?

/-! ## Lists that are not shared -/

/-- The list that the builder changes is no one else's, the lists of the user's are different ones, and no one
changes the list of a waiter. -/
structure Separate (w : Workshop σ) : Prop where
  own : w.builder.acceptors < w.shelf.size
  list : ∀ place ∈ w.lists, place < w.shelf.size ∧ place ≠ w.builder.acceptors
  distinct : w.lists.Nodup
  product : ∀ p ∈ w.products, p.acceptors < w.shelf.size ∧ p.acceptors ≠ w.builder.acceptors ∧
    p.acceptors ∉ w.lists

theorem fresh_separate : (fresh : Workshop σ).Separate where
  own := Nat.zero_lt_one
  list _ mine := absurd mine List.not_mem_nil
  distinct := List.nodup_nil
  product _ made := absurd made List.not_mem_nil

/-! ## What a call does -/

/-- The workshop with one more waiter, made of some parts and of a copy of some acceptors. -/
def withProduct (w : Workshop σ) (s : Strategy σ) (items : List (Acceptor σ))
    (scheduler : Option (Scheduler σ)) (hooks : Option (Hooks σ)) : Workshop σ :=
  { w with
    shelf := (w.shelf.put items).2
    products := w.products ++ [⟨s, w.shelf.size, scheduler, hooks⟩] }

/-- What a call answers and does. -/
inductive Does (w : Workshop σ) : Call σ → Reply → Workshop σ → Prop where
  | refused (c e) : Does w c (.refused e) w
  | list (items) : Does w (.list items) (.made w.lists.length)
      { w with shelf := (w.shelf.put items).2, lists := w.lists ++ [w.shelf.size] }
  | change (number items place) (mine : place ∈ w.lists) : Does w (.change number items) .done
      { w with shelf := w.shelf.change place fun _ => items }
  | acceptors (given items) (supplied : w.gather given = .ok items) : Does w (.acceptors given) .done
      { w with shelf := (w.shelf.put items).2, builder := { w.builder with acceptors := w.shelf.size } }
  | add (a) : Does w (.add a) .done { w with shelf := w.shelf.change w.builder.acceptors (· ++ [a]) }
  | strategy (whole limit backoff s)
      (form : whole = some s ∧ limit = .null ∧ backoff = none ∨
        whole = none ∧ limit = .int s.limit ∧ backoff = some s.backoff) :
      Does w (.strategy whole limit backoff) .done
        { w with builder := { w.builder with strategy := some s } }
  | scheduler (s) : Does w (.scheduler s) .done
      { w with builder := { w.builder with scheduler := s } }
  | hooks (h) : Does w (.hooks h) .done { w with builder := { w.builder with hooks := h } }
  | build (s) (set : w.builder.strategy = some s) : Does w .build (.made w.products.length)
      (w.withProduct s (w.shelf.contents w.builder.acceptors) w.builder.scheduler w.builder.hooks)
  | direct (s given items) (supplied : w.gather given = .ok items) :
      Does w (.direct (some s) given) (.made w.products.length) (w.withProduct s items none none)

theorem step_does (w : Workshop σ) (c : Call σ) : w.Does c (w.step c).1 (w.step c).2 := by
  cases c with
  | list items => exact .list items
  | change number items =>
    cases found : w.lists[number]? with
    | none => simpa only [step, found] using .refused ..
    | some place => simpa only [step, found] using .change _ _ place (List.mem_of_getElem? found)
  | acceptors given =>
    cases supplied : w.gather given with
    | error e => simpa only [step, supplied] using .refused ..
    | ok items => simpa only [step, supplied] using .acceptors _ _ supplied
  | add a => exact .add a
  | strategy whole limit backoff =>
    cases set : w.builder.withStrategy whole limit backoff with
    | error m => simpa only [step, set] using .refused ..
    | ok b =>
      obtain ⟨s, rfl, form⟩ := Builder.withStrategy_eq_ok.1 set
      simpa only [step, set] using .strategy _ _ _ s form
  | scheduler s => exact .scheduler s
  | hooks h => exact .hooks h
  | build =>
    cases set : w.builder.strategy with
    | none => simpa only [step, Builder.build, set, keep] using .refused ..
    | some s => simpa only [step, Builder.build, set, Product.make, keep] using .build s set
  | direct strategy given =>
    cases strategy with
    | none => simpa only [step, Product.make, keep] using .refused ..
    | some s =>
      cases supplied : w.gather given with
      | error e => simpa only [step, Product.make, supplied, keep] using .refused ..
      | ok items => simpa only [step, Product.make, supplied, keep] using .direct _ _ _ supplied

namespace Separate

variable {w : Workshop σ} (h : w.Separate)
include h

theorem withBuilder {b : Builder σ} (same : b.acceptors = w.builder.acceptors) :
    Separate { w with builder := b } :=
  ⟨by simpa [same] using h.own, by simpa [same] using h.list, h.distinct, by simpa [same] using h.product⟩

theorem withChange (place : Nat) (f : List (Acceptor σ) → List (Acceptor σ)) :
    Separate { w with shelf := w.shelf.change place f } :=
  ⟨by simpa using h.own, by simpa using h.list, h.distinct, by simpa using h.product⟩

/-- A new list is at a place that nobody holds. -/
theorem withPut (items : List (Acceptor σ)) : Separate { w with shelf := (w.shelf.put items).2 } := by
  refine ⟨by simpa using Nat.lt_succ_of_lt h.own, fun place mine => ?_, h.distinct, fun p made => ?_⟩
  · obtain ⟨inside, other⟩ := h.list place mine
    exact ⟨by simpa using Nat.lt_succ_of_lt inside, other⟩
  · obtain ⟨inside, other⟩ := h.product p made
    exact ⟨by simpa using Nat.lt_succ_of_lt inside, other⟩

theorem withProduct (s : Strategy σ) (items : List (Acceptor σ)) (scheduler : Option (Scheduler σ))
    (hooks : Option (Hooks σ)) : (w.withProduct s items scheduler hooks).Separate := by
  have put := h.withPut items
  refine ⟨put.own, put.list, put.distinct, fun p made => ?_⟩
  rcases List.mem_append.1 made with made | new
  · exact put.product p made
  · obtain rfl := List.mem_singleton.1 new
    exact ⟨by simp [Workshop.withProduct], (Nat.ne_of_lt h.own).symm,
      fun mine => Nat.lt_irrefl _ (h.list _ mine).1⟩

/-- No call makes lists shared. -/
theorem step (c : Call σ) : (w.step c).2.Separate := by
  have does := w.step_does c
  generalize (w.step c).1 = r, (w.step c).2 = w' at does
  cases does with
  | refused => exact h
  | list items =>
    -- the new place becomes one of the user's
    have put := h.withPut items
    refine ⟨put.own, fun place mine => ?_, ?_, fun p made => ?_⟩
    · rcases List.mem_append.1 mine with mine | new
      · exact put.list place mine
      · obtain rfl := List.mem_singleton.1 new
        exact ⟨by simp, (Nat.ne_of_lt h.own).symm⟩
    · refine List.nodup_append.2 ⟨h.distinct, by simp, fun place mine new fresh => ?_⟩
      obtain rfl := List.mem_singleton.1 fresh
      exact Nat.ne_of_lt (h.list place mine).1
    · obtain ⟨inside, other, notMine⟩ := put.product p made
      refine ⟨inside, other, fun mine => ?_⟩
      rcases List.mem_append.1 mine with mine | new
      · exact notMine mine
      · exact absurd (List.mem_singleton.1 new) (Nat.ne_of_lt (h.product p made).1)
  | change number items place mine => exact h.withChange place _
  | acceptors given items supplied =>
    -- the new place becomes the builder's, in the place of the one it had
    have put := h.withPut items
    refine ⟨by simp, fun place mine => ?_, h.distinct, fun p made => ?_⟩
    · exact ⟨(put.list place mine).1, Nat.ne_of_lt (h.list place mine).1⟩
    · obtain ⟨inside, -, notMine⟩ := put.product p made
      exact ⟨inside, Nat.ne_of_lt (h.product p made).1, notMine⟩
  | add a => exact h.withChange _ _
  | strategy | scheduler | hooks => exact h.withBuilder rfl
  | build => exact h.withProduct ..
  | direct => exact h.withProduct ..

theorem after (calls : List (Call σ)) : (w.after calls).Separate := by
  induction calls generalizing w with
  | nil => exact h
  | cons c rest ih => exact ih (h.step c)

/-! ## Waiters stay -/

/-- A new list leaves those of the user's alone. -/
theorem present_put (items : List (Acceptor σ)) :
    w.lists.map (w.shelf.put items).2.contents = w.present :=
  List.map_congr_left fun place mine => Shelf.contents_put_of_lt (h.list place mine).1 items

/-- So does a change of a list that is none of them. -/
theorem present_change_of_ne (f : List (Acceptor σ) → List (Acceptor σ)) :
    w.lists.map (w.shelf.change w.builder.acceptors f).contents = w.present :=
  List.map_congr_left fun place mine => Shelf.contents_change_of_ne (h.list place mine).2 f

/-- A change of one of them is seen in this one only, since they are at different places. -/
theorem present_change {number place : Nat} (found : w.lists[number]? = some place)
    (items : List (Acceptor σ)) :
    w.lists.map (w.shelf.change place fun _ => items).contents = w.present.set number items := by
  have here : number < w.lists.length := (List.getElem?_eq_some_iff.1 found).1
  refine List.ext_getElem? fun i => ?_
  rw [List.getElem?_set, List.getElem?_map]
  by_cases same : number = i
  · subst same
    have inside := (h.list place (List.mem_of_getElem? found)).1
    have there : number < w.present.length := by simpa [present] using here
    rw [found, if_pos rfl, if_pos there, Option.map_some, Shelf.contents_change inside]
  · rw [if_neg same, present, List.getElem?_map]
    cases other : w.lists[i]? with
    | none => rfl
    | some place' =>
      have apart : place' ≠ place := by
        rintro rfl
        exact same ((List.getElem?_inj here h.distinct).1 (found.trans other.symm))
      simp [Shelf.contents_change_of_ne apart]

/-- A call writes to the lists of the user's what it says. -/
theorem present_step (c : Call σ) : (w.step c).2.present = c.write w.present := by
  cases c with
  | list items =>
    show (w.lists ++ [w.shelf.size]).map (w.shelf.put items).2.contents = w.present ++ [items]
    rw [List.map_append, h.present_put items, List.map_singleton, Shelf.contents_put]
  | change number items =>
    cases found : w.lists[number]? with
    | none =>
      have outside : w.present.length ≤ number := by simpa [present] using List.getElem?_eq_none_iff.1 found
      simp only [Workshop.step, found, Call.write, List.set_eq_of_length_le outside]
    | some place =>
      simp only [Workshop.step, found, Call.write]
      exact h.present_change found items
  | acceptors given =>
    cases supplied : w.gather given with
    | error e => simp only [Workshop.step, supplied, Call.write]
    | ok items =>
      simp only [Workshop.step, supplied, Call.write]
      exact h.present_put items
  | add a => exact h.present_change_of_ne _
  | strategy whole limit backoff =>
    simp only [Workshop.step, Call.write]
    split <;> rfl
  | scheduler s | hooks s => rfl
  | build =>
    have does := w.step_does .build
    generalize (w.step .build).1 = r, (w.step .build).2 = w' at does
    cases does with
    | refused => rfl
    | build => exact h.present_put _
  | direct strategy given =>
    have does := w.step_does (.direct strategy given)
    generalize (w.step (.direct strategy given)).1 = r, (w.step (.direct strategy given)).2 = w' at does
    cases does with
    | refused => rfl
    | direct => exact h.present_put _

theorem present_after (calls : List (Call σ)) :
    (w.after calls).present = calls.foldl (fun lists c => c.write lists) w.present := by
  induction calls generalizing w with
  | nil => rfl
  | cons c rest ih =>
    rw [after_cons, ih (h.step c), h.present_step, List.foldl_cons]

/-! ## What is gathered -/

end Separate

/-- A list gives what it holds now. -/
theorem gather_list (w : Workshop σ) (number : Nat) :
    w.gather (.list number) = (w.present[number]?).elim (.error noSuch) .ok := by
  simp only [gather, present, List.getElem?_map]
  cases w.lists[number]? <;> rfl

/-- A waiter gives the acceptors that it has. -/
theorem gather_waiter (w : Workshop σ) (number : Nat) :
    w.gather (.waiter number) = (w.waiters[number]?).elim (.error noSuch) fun made => .ok made.acceptors := by
  simp only [gather, waiters, List.getElem?_map]
  cases w.products[number]? <;> rfl

/-- After any calls, a list of the user's gives what the user has put there last. -/
theorem gather_list_after (calls : List (Call σ)) (number : Nat) :
    (fresh.after calls).gather (.list number) =
      ((calls.foldl (fun lists c => c.write lists) [])[number]?).elim (.error noSuch) .ok := by
  rw [gather_list, fresh_separate.present_after]
  rfl

/-- What cannot be gone through is refused with a fault that names its type, and nothing has changed. -/
theorem acceptors_barren (w : Workshop σ) (typeName : String) : w.step (.acceptors (.barren typeName)) =
    (.refused (.withText .wrongType ("'" ++ typeName ++ "' object is not iterable")), w) := rfl

end Workshop

end Polling
