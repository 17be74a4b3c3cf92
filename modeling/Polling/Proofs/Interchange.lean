import Polling.Proofs.Criteria
import Polling.Proofs.Lockstep

/-!
# Lists of acceptors that are good for the same runs

`Interchangeable` says of two lists of acceptors that no run tells them apart but by the calls of their
matchers: a blocking wait has the same result with either, leaves the caller in the same state and has made
the same other entries, and on a loop, whatever happens there, sessions stay in the same state. All that a
wait depends on otherwise is arbitrary: the operation, the backoff, the hooks, the scheduler, and the code
that runs besides.

Lists are interchangeable if their first verdicts come to the same (`interchangeable_of_effective`). Where
the decisions of two lists coincide, and not only what they come to, either list may also be a part of a longer
one: whatever stands around it, it may be replaced by the other one (`SameDecisions.within`).

The two laws of this module are what the module on acceptors says of first verdicts, for whole runs: the order
of acceptors that do not clash is free (`reordering_changes_nothing`), and that a value without a verdict is
one to wait for may be said as well as left unsaid (`padding_changes_nothing`).
-/

namespace Polling

/-! ## What is seen of a run -/

/-- An entry, unless it is one of a decision. -/
def Event.outward? (e : Event) : Option Event := if e.isDeciding then none else some e

/-- The whole state of the caller, and all entries but those of decisions. -/
def Sight.outward : Sight σ σ := ⟨id, Event.outward?⟩

theorem Sight.outward_clear : Function.Injective (outward : Sight σ σ).view := Function.injective_id

/-- Entries of decisions are not seen. -/
theorem World.coincide_of_isDeciding {w w' : World σ} (h : Coincide .outward w w') {es es' : List Event}
    (deciding : ∀ e ∈ es, e.isDeciding = true) (deciding' : ∀ e ∈ es', e.isDeciding = true) :
    Coincide .outward { w with history := w.history ++ es } { w' with history := w'.history ++ es' } := by
  have unseen : ∀ {es : List Event}, (∀ e ∈ es, e.isDeciding = true) →
      es.filterMap Event.outward? = [] := by
    intro es deciding
    refine List.filterMap_eq_nil_iff.2 fun e he => ?_
    rw [Event.outward?, if_pos (deciding e he)]
  refine ⟨h.caller, ?_⟩
  have history : w.history.filterMap Event.outward? = w'.history.filterMap Event.outward? := h.history
  show (w.history ++ es).filterMap Event.outward? = (w'.history ++ es').filterMap Event.outward?
  rw [List.filterMap_append, List.filterMap_append, history, unseen deciding, unseen deciding']

namespace Waiter

/-- A configuration with another list of acceptors. -/
def accepting (w : Waiter σ) (A : List (Acceptor σ)) : Waiter σ := { w with acceptors := A }

end Waiter

/-- A blocking wait with another list of acceptors. -/
def Blocking.accepting (b : Blocking σ) (A : List (Acceptor σ)) : Blocking σ :=
  { b with waiter := b.waiter.accepting A }

/-- An asynchronous system with another list of acceptors. -/
def Asynchronous.accepting (a : Asynchronous σ) (A : List (Acceptor σ)) : Asynchronous σ :=
  { a with waiter := a.waiter.accepting A }

/-- No run tells one list of acceptors from another, except that other matchers are called. -/
structure Interchangeable (A B : List (Acceptor σ)) : Prop where
  /-- A blocking wait has the same result and leaves a world that looks the same. -/
  blocking : ∀ (b : Blocking σ) (w : World σ),
    ((b.accepting A).run w).1 = ((b.accepting B).run w).1 ∧
      World.Coincide .outward ((b.accepting A).run w).2 ((b.accepting B).run w).2
  /-- Sessions stay in the same state, whatever happens on the loop. -/
  asynchronous : ∀ (a : Asynchronous σ) (s : Session σ) (ms : List (Move σ)),
    Session.Coincide .outward (s.moves (a.accepting A) ms) (s.moves (a.accepting B) ms)
  /-- If a fault leaves the first attempt of an execution, it is the same one. -/
  started : ∀ (a : Asynchronous σ) (s : Session σ) (ms : List (Move σ)),
    ((s.moves (a.accepting A) ms).start (a.accepting A)).1 =
      ((s.moves (a.accepting B) ms).start (a.accepting B)).1

/-! ## Evaluations -/

/-- The transition depends on what an answer comes to. -/
theorem transitionOn_effective (strategy : Strategy σ) (o : Outcome) (attempt : Value)
    (s : Option Verdict) :
    transitionOn strategy o attempt (effective s o) = transitionOn strategy o attempt s := by
  cases s with
  | some v => rfl
  | none => cases o <;> rfl

variable {A B : List (Acceptor σ)}

/-- Evaluations of an outcome coincide if the answers of the two lists come to the same. -/
theorem evaluate_coincides_of_effective (function : ∀ a ∈ A, a.matcher.IsPure)
    (function' : ∀ a ∈ B, a.matcher.IsPure) {o : Outcome}
    (same : ∀ {s t}, FirstVerdict o A s → FirstVerdict o B t → effective s o = effective t o)
    (strategy : Strategy σ) (attempt : Value) :
    Act.Coincide .outward (evaluate A strategy o attempt) (evaluate B strategy o attempt) := by
  intro w w' h
  obtain ⟨s, es, decided, first, deciding⟩ := decideFrom_of_isPure 0 function o w
  obtain ⟨t, es', decided', first', deciding'⟩ := decideFrom_of_isPure 0 function' o w'
  simp only [InStepAt, evaluate_eq, Act.bind_apply, decide, decided, decided']
  -- the answers may be different, but the transition looks only at what they come to
  rw [← transitionOn_effective, same first first', transitionOn_effective]
  have backoff := (Waiter.judgesInSight Sight.outward_clear ⟨strategy, [], none, none⟩).retryOrExhaust
  exact transitionOn_coincides (backoff o attempt) t _ _
    (World.coincide_of_isDeciding h deciding deciding')

/-! ## Runs -/

section Runs

variable (evaluates : ∀ (strategy : Strategy σ) (o : Outcome) (attempt : Value),
  Act.Coincide .outward (evaluate A strategy o attempt) (evaluate B strategy o attempt))
include evaluates

theorem Blocking.accepting_coincides (b : Blocking σ) :
    Act.Coincide .outward (b.accepting A).run (b.accepting B).run := by
  refine run_coincides fun s s' same => ?_
  -- the state is in sight, so the clocks show the same time at the beginning
  obtain rfl : s = s' := same
  exact { b.notifier.coincides Sight.outward_clear b.waiter.strategy.limit (.real (b.clock s)) with
    operation := fun i => Code.coincides_self Sight.outward_clear _
    pause := (b.inSight Sight.outward_clear).pause
    limit := rfl
    evaluate := evaluates b.waiter.strategy }

theorem Asynchronous.accepting_coincides (a : Asynchronous σ) :
    (a.accepting A).Coincide .outward (fun _ => True) (a.accepting B) :=
  { a.inSight Sight.outward_clear with
    notifier := fun now started _ =>
      (a.notifier now).coincides Sight.outward_clear a.waiter.strategy.limit started
    evaluate := evaluates a.waiter.strategy }

theorem interchangeable_of_evaluate : Interchangeable A B := by
  have lockstep : ∀ (a : Asynchronous σ) (s : Session σ) (ms : List (Move σ)),
      Session.Coincide .outward (s.moves (a.accepting A) ms) (s.moves (a.accepting B) ms) := by
    intro a s ms
    exact (s.coincides_refl).moves (Asynchronous.accepting_coincides evaluates a)
      (fun m _ => m.sees Sight.outward_clear) fun _ _ _ _ _ _ _ _ _ => trivial
  refine ⟨fun b w => ?_, lockstep, fun a s ms => ?_⟩
  · exact Blocking.accepting_coincides evaluates b w w ⟨⟨rfl, rfl, rfl⟩, rfl⟩
  · exact ((lockstep a s ms).move_of_coincide (Asynchronous.accepting_coincides evaluates a)
      (m := .start) trivial fun _ => trivial).2 rfl

end Runs

/-- Lists whose first verdicts come to the same are interchangeable. -/
theorem interchangeable_of_effective (function : ∀ a ∈ A, a.matcher.IsPure)
    (function' : ∀ a ∈ B, a.matcher.IsPure)
    (same : ∀ {o s t}, FirstVerdict o A s → FirstVerdict o B t → effective s o = effective t o) :
    Interchangeable A B :=
  interchangeable_of_evaluate fun strategy _ attempt =>
    evaluate_coincides_of_effective function function' same strategy attempt

/-! ## Parts of lists -/

/-- A decision has the same result with either list and leaves the same caller, whatever world it finds and
whatever the matchers do, and no run tells the two apart. -/
structure DecideAlike (A B : List (Acceptor σ)) : Prop extends Interchangeable A B where
  decides : ∀ (o : Outcome) (w : World σ),
    (decide A o w).1 = (decide B o w).1 ∧ (decide A o w).2.caller = (decide B o w).2.caller

/-- Decisions of two lists coincide, wherever in a list their acceptors stand. -/
def SameDecisions (A B : List (Acceptor σ)) : Prop :=
  ∀ o position position', Act.Coincide .outward (decideFrom position A o) (decideFrom position' B o)

theorem sameDecisions_refl (A : List (Acceptor σ)) : SameDecisions A A := by
  intro o position position'
  have unseen : ∀ i payload, (Event.examined (position + i) payload).outward? =
      (Event.examined (position' + i) payload).outward? := fun _ _ => rfl
  exact decideFrom_coincides (fun _ _ _ => Code.coincides_self Sight.outward_clear _) unseen o

namespace SameDecisions

/-- Each of two parts of a list may be replaced. -/
theorem append {A' B' : List (Acceptor σ)} (h : SameDecisions A A') (h' : SameDecisions B B') :
    SameDecisions (A ++ B) (A' ++ B') := by
  intro o position position' w w' same
  obtain ⟨settled, open_⟩ := decideFrom_append position A B o w
  obtain ⟨settled', open_'⟩ := decideFrom_append position' A' B' o w'
  obtain ⟨result, left⟩ := h o position position' w w' same
  by_cases unmatched : (decideFrom position A o w).1 = .ok none
  · -- the second parts are asked, on callers that are the same
    obtain ⟨es, history, goesOn⟩ := open_ unmatched
    obtain ⟨es', history', goesOn'⟩ := open_' (result ▸ unmatched)
    have entries := left.history
    rw [history, history', List.filterMap_append (l := w.history ++ es),
      List.filterMap_append (l := w'.history ++ es')] at entries
    rw [InStepAt, goesOn, goesOn']
    exact h' o _ _ _ _ ⟨left.caller, List.append_cancel_right entries⟩
  · rw [InStepAt, settled unmatched, settled' (result ▸ unmatched)]
    exact ⟨result, left⟩

/-- A part in the middle may be replaced. -/
theorem within (h : SameDecisions A B) (before after : List (Acceptor σ)) :
    SameDecisions (before ++ A ++ after) (before ++ B ++ after) :=
  ((sameDecisions_refl before).append h).append (sameDecisions_refl after)

/-- Matchers that are functions are compared by their first verdicts. -/
theorem of_firstVerdict (function : ∀ a ∈ A, a.matcher.IsPure) (function' : ∀ a ∈ B, a.matcher.IsPure)
    (same : Caller σ → ∀ {o s t}, FirstVerdict o A s → FirstVerdict o B t → s = t) :
    SameDecisions A B := by
  intro o position position' w w' h
  obtain ⟨s, es, decided, first, deciding⟩ := decideFrom_of_isPure position function o w
  obtain ⟨t, es', decided', first', deciding'⟩ := decideFrom_of_isPure position' function' o w'
  rw [InStepAt, decided, decided', same w.caller first first']
  exact ⟨rfl, World.coincide_of_isDeciding h deciding deciding'⟩

theorem evaluate (h : SameDecisions A B) (strategy : Strategy σ) (o : Outcome) (attempt : Value) :
    Act.Coincide .outward (evaluate A strategy o attempt) (evaluate B strategy o attempt) := by
  rw [evaluate_eq, evaluate_eq]
  have backoff := (Waiter.judgesInSight Sight.outward_clear ⟨strategy, [], none, none⟩).retryOrExhaust
  exact InStep.bind (h o 0 0) (transitionOn_coincides (backoff o attempt))

theorem decideAlike (h : SameDecisions A B) : DecideAlike A B where
  toInterchangeable := interchangeable_of_evaluate h.evaluate
  decides o w := by
    obtain ⟨result, left⟩ := h o 0 0 w w ⟨⟨rfl, rfl, rfl⟩, rfl⟩
    exact ⟨result, left.caller.eq Sight.outward_clear⟩

end SameDecisions

/-! ## The two laws -/

/-- Two lists answer alike, in every decision and in every run. -/
structure AnswersAlike (A B : List (Acceptor σ)) : Prop extends Interchangeable A B where
  decides : ∀ (o : Outcome) (w : World σ), ∃ s es es',
    decide A o w = (.ok s, { w with history := w.history ++ es }) ∧
      decide B o w = (.ok s, { w with history := w.history ++ es' })

/-- Lists with the same first verdicts answer alike. -/
theorem answersAlike_of_firstVerdict (function : ∀ a ∈ A, a.matcher.IsPure)
    (function' : ∀ a ∈ B, a.matcher.IsPure)
    (same : ∀ {o s t}, FirstVerdict o A s → FirstVerdict o B t → s = t) : AnswersAlike A B where
  toInterchangeable := interchangeable_of_effective function function' fun first first' => by
    rw [same first first']
  decides o w := by
    obtain ⟨s, es, decided, first, -⟩ := decideFrom_of_isPure 0 function o w
    obtain ⟨t, es', decided', first', -⟩ := decideFrom_of_isPure 0 function' o w
    obtain rfl := same first first'
    exact ⟨s, es, es', decided, decided'⟩

/-- The order of acceptors matters only where they clash. Lists with the same acceptors answer alike if those
that name different verdicts and can match the same outcome are in the same order; so they do if only the
acceptors of values and the acceptors of faults are mixed in another way, or if two neighbours that name the
same verdict have changed places. -/
theorem reordering_changes_nothing (function : ∀ a ∈ A, a.matcher.IsPure) :
    (Reorders A B → AnswersAlike A B) ∧
    ((∀ subject, A.filter (·.subject == subject) = B.filter (·.subject == subject)) →
      AnswersAlike A B) ∧
    ∀ before a b after, A = before ++ a :: b :: after → a.verdict = b.verdict →
      AnswersAlike A (before ++ b :: a :: after) := by
  refine ⟨fun reorders => ?_, fun same => ?_, fun before a b after split verdict => ?_⟩
  · exact answersAlike_of_firstVerdict function (fun b hb => function b (reorders.subset hb))
      reorders.firstVerdict
  · refine answersAlike_of_firstVerdict function (fun b hb => ?_) (FirstVerdict.of_filter same)
    have mem : b ∈ A.filter (·.subject == b.subject) := same b.subject ▸ List.mem_filter.2 ⟨hb, by simp⟩
    exact function b (List.mem_filter.1 mem).1
  · subst split
    refine answersAlike_of_firstVerdict function (fun c hc => function c ?_)
      fun first first' => (first.swap verdict).unique first'
    simp only [List.mem_append, List.mem_cons] at hc ⊢
    tauto

/-- Success on a true value and failure on any fault may change places, since no outcome is both. -/
theorem reordering_changes_nothing_pair :
    AnswersAlike [.onValue .success pure, .onFault .failure fun _ => pure (.value (.flag true))]
      [.onFault .failure fun _ => pure (.value (.flag true)), (.onValue .success pure : Acceptor Unit)] := by
  refine (reordering_changes_nothing fun a ha => ?_).1
    (reorders_pair (Acceptor.not_clash_of_subject (by decide)))
  simp only [List.mem_cons, List.not_mem_nil, or_false] at ha
  rcases ha with rfl | rfl
  · exact ⟨id, fun _ => rfl⟩
  · exact ⟨fun _ => .value (.flag true), fun _ => rfl⟩

/-- That a value without a verdict is one to wait for need not be said. Acceptors that say so, wherever they
are put behind the acceptors of values that name another verdict, change nothing about any run. -/
theorem padding_changes_nothing (function : ∀ a ∈ A, a.matcher.IsPure) (h : Padded A B) :
    Interchangeable A B :=
  interchangeable_of_effective function (h.isPure function) h.effective

/-- The first attempt of a brisk wait leaves nothing. Whether that has no verdict or is said to be nothing yet,
the wait ends in the same way. -/
theorem padding_changes_nothing_brisk :
    Interchangeable (Waiter.brisk {}).acceptors
      ((Waiter.brisk {}).acceptors ++ [.onValue .retry fun _ => pure (.value (.flag true))]) ∧
    ((Blocking.brisk {}).run ⟨⟨(), 0, []⟩, []⟩).1 = (((Blocking.brisk {}).accepting
      ((Waiter.brisk {}).acceptors ++ [.onValue .retry fun _ => pure (.value (.flag true))])).run
        ⟨⟨(), 0, []⟩, []⟩).1 := by
  have function : ∀ a ∈ (Waiter.brisk {}).acceptors, a.matcher.IsPure := by
    intro a ha
    obtain rfl := List.mem_singleton.1 ha
    exact ⟨id, fun _ => rfl⟩
  have same : Interchangeable (Waiter.brisk {}).acceptors
      ((Waiter.brisk {}).acceptors ++ [.onValue .retry fun _ => pure (.value (.flag true))]) :=
    padding_changes_nothing function
      (.keep _ (.insert ⟨fun _ => .value (.flag true), fun _ => rfl⟩ .nil nofun))
  exact ⟨same, (same.blocking (Blocking.brisk {}) ⟨⟨(), 0, []⟩, []⟩).1⟩

end Polling
