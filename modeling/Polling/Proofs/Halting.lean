import Polling.Proofs.SessionProtocol

/-!
# How a callback comes to its end

A callback that may call code of the caller's is refused a fault that the code at a place has raised, or it
leaves a poll that is watched, or it has told of a conclusion, or it leaves the next attempt to the
scheduler, if it does not step aside at once (`Asynchronous.body_halts`). So a promise comes to a conclusion
only in a callback that has told of it (`Session.Begins.ends`).
-/

namespace Polling

namespace Asynchronous

variable (a : Asynchronous σ) (run : RunId) (now : Binary64)

/-- The ways in which a callback, begun in a frame, comes to its end. -/
inductive Halts (k : Callback) (f : Frame σ) : Except Fault Unit × Frame σ → Prop where
  /-- It comes too late, or it takes the end of a poll that is no outcome. -/
  | aside {r g es os} (grows : Frame.Grows f g es os) (tidying : ∀ e ∈ es, e.isTidying = true)
      (unwatched : os.countP Order.isWatch = 0)
      (earlier : ∀ c, g.execution.promise = .concluded c → f.execution.promise = .concluded c) :
      Halts k f (r, g)
  /-- The code at a place raises a fault, which is refused. -/
  | raises {p g e} (reaches : a.Reaches run now k f p g) (raised : (a.visit run now p g).1 = .error e) :
      Halts k f (Step.refuse e (a.visit run now p g).2)
  /-- A poll runs and is watched. -/
  | polls {n g id g'} (reaches : a.Reaches run now k f (.calling n) g)
      (called : Step.perform (Act.call (.polled n) (a.operation run g.execution.calls)) g =
        (.ok (.poll id), g')) :
      Halts k f (.ok (), { g' with execution := { g'.execution with poll := some id } }.order (.watch id))
  /-- The wait has come to a conclusion. -/
  | concludes {n o t c g g'} (reaches : a.Reaches run now k f (.telling n o t) g)
      (next : t.next = .inl c) (told : a.visit run now (.telling n o t) g = (.ok (), g')) :
      Halts k f (.ok (), g'.settle (.concluded c))
  /-- The next attempt is left to the scheduler. -/
  | schedules {n o d g g'} (reaches : a.Reaches run now k f (.telling n o (.retry d)) g)
      (told : a.visit run now (.telling n o (.retry d)) g = (.ok (), g')) :
      Halts k f (a.schedule run d g')

variable {a run now} {k : Callback} {f g : Frame σ} {n : Nat} {o : Outcome}

theorem Reaches.halts_telling {t : Transition} (h : a.Reaches run now k f (.telling n o t) g) :
    a.Halts run now k f (a.body run now k f) := by
  rcases ht : a.visit run now (.telling n o t) g with ⟨e | ⟨⟩, g'⟩
  · have raised : (a.visit run now (.telling n o t) g).1 = .error e := congrArg Prod.fst ht
    rw [h.body_eq, remainder_of_fault raised rfl h.attempt]
    exact .raises h raised
  · have told : Step.perform ((a.notifier now).tell o n g.execution.started t) g = (.ok (), g') := ht
    rw [h.body_eq]
    simp only [remainder, told]
    cases next : t.next with
    | inl c => exact .concludes h next ht
    | inr d =>
      obtain rfl := Transition.next_eq_inr next
      exact .schedules h ht

theorem Reaches.halts_judging (h : a.Reaches run now k f (.judging n o) g) :
    a.Halts run now k f (a.body run now k f) := by
  rcases he : Step.perform (evaluate a.waiter.acceptors a.waiter.strategy o (.int n)) g with ⟨e | t, g'⟩
  · have raised := congrArg Prod.fst (a.visit_judging_error run now he)
    rw [h.body_eq, remainder_of_fault raised rfl h.attempt]
    exact .raises h raised
  · exact (Reaches.telling h he).halts_telling

theorem Reaches.halts_calling (h : a.Reaches run now k f (.calling n) g) :
    a.Halts run now k f (a.body run now k f) := by
  rcases hc : Step.perform (Act.call (.polled n) (a.operation run g.execution.calls)) g with ⟨result, g'⟩
  rcases result with e | ⟨id⟩ | _
  · cases ordinary : e.isOrdinary with
    | true =>
      have raised : ∀ e', (Except.error e : Except Fault Launch) = .error e' → e'.isOrdinary = true := by
        rintro _ ⟨⟩
        exact ordinary
      exact (Reaches.failing h hc rfl raised).halts_judging
    | false =>
      -- a fault that is not ordinary is refused by raising it
      have raised : a.visit run now (.calling n) g = (.error e, g') := by
        simp only [visit, Step.ignoring, hc]
        rfl
      have refused : Step.refuse e g' = (.error e, g') := by
        simp only [Step.refuse, ordinary, Bool.false_eq_true, if_false]
        rfl
      have ends := Halts.raises h (congrArg Prod.fst raised)
      rw [raised, refused] at ends
      rwa [h.body_eq, remainder_of_raised ordinary (congrArg Prod.fst raised) h.attempt, raised]
  · rw [h.body_eq]
    simp only [remainder, hc]
    exact .polls h hc
  · have unraised : ∀ e', (Except.ok .unfit : Except Fault Launch) = .error e' → e'.isOrdinary = true := by
      rintro e' ⟨⟩
    exact (Reaches.failing h hc rfl unraised).halts_judging

/-- Every callback that may call code of the caller's comes to its end in one of these ways. -/
theorem body_halts (own : k = .attempt run ∨ ∃ ending, k = .pollEnded run ending) (f : Frame σ) :
    a.Halts run now k f (a.body run now k f) := by
  cases settled : f.execution.promise.isSettled with
  | true =>
    -- a callback that comes too late stands aside
    have tidies : ∃ es os, Frame.Tidies f (a.body run now k f).2 es os := by
      rcases own with rfl | ⟨ending, rfl⟩
      · exact a.attempt_tidies run now settled
      · exact a.pollEnded_tidies run now ending settled
    obtain ⟨es, os, tidies⟩ := tidies
    exact .aside tidies.toGrows tidies.tidying tidies.unwatched fun c concluded =>
      (tidies.kept settled).symm.trans concluded
  | false =>
    rcases own with rfl | ⟨ending, rfl⟩
    · have reaches : a.Reaches run now (.attempt run) f _ _ := .opening settled
      rcases ho : Step.perform ((a.notifier now).opening (f.execution.attempt + 1) a.waiter.strategy.limit)
        { f with execution := begin f.execution } with ⟨e | ⟨⟩, g⟩
      · have raised : (a.visit run now (.opening (f.execution.attempt + 1))
            { f with execution := begin f.execution }).1 = .error e := congrArg Prod.fst ho
        rw [reaches.body_eq, remainder_of_fault raised rfl reaches.attempt]
        exact .raises reaches raised
      · exact (Reaches.calling reaches ho).halts_calling
    · cases ho : ending.outcome? with
      | some o => exact (Reaches.ended settled ho).halts_judging
      | none =>
        obtain ⟨q, g, serves, tidying, hp, ends, promise⟩ := a.pollEnded_of_none run now ho settled
        obtain ⟨os, evolves⟩ := serves.evolves
        obtain ⟨os', settles⟩ := Frame.settle_evolves g hp
        have grows := (Frame.grows_change (x := forget f.execution) rfl).trans (evolves.trans settles).toGrows
        have halts : a.Halts run now (.pollEnded run ending) f (.ok (), g.settle ending.promise) :=
          .aside grows (by simpa using tidying) (evolves.trans settles).unwatched fun c concluded =>
            absurd (promise.symm.trans concluded) (ending.promise_unconcluded c)
        rwa [← ends] at halts

/-- If a callback leaves a conclusion, it has told of it. -/
theorem Halts.ends {r : Except Fault Unit × Frame σ} (h : a.Halts run now k f r)
    (pending : f.execution.promise.isSettled = false) {c : Conclusion}
    (concluded : r.2.execution.promise = .concluded c) : ∃ i, a.Ends run now k f i c := by
  -- neither the way to a place nor the visit of it concludes anything
  have still : ∀ {p g}, a.Reaches run now k f p g →
      (a.visit run now p g).2.execution.promise ≠ .concluded c := by
    intro p g reaches ends
    obtain ⟨es, os, visits⟩ := a.visit_approaches run now p g
    exact reaches.unconcluded c (Session.concluded_of_orCancelled visits.promise ends)
  cases h with
  | aside grows tidying unwatched earlier =>
    rw [earlier c concluded] at pending
    exact nomatch pending
  | raises reaches raised => exact absurd (Step.refuse_unconcluded concluded) (still reaches)
  | polls reaches called =>
    exact absurd ((congrArg (·.2.execution.promise) called).trans concluded) (still reaches)
  | @concludes n o t c' g g' reaches next told =>
    cases settled : g'.execution.promise.isSettled with
    | true =>
      rw [Frame.settle_of_isSettled settled] at concluded
      exact absurd ((congrArg (·.2.execution.promise) told).trans concluded) (still reaches)
    | false =>
      rw [Frame.settle_of_pending settled] at concluded
      obtain rfl := Promise.concluded.inj concluded
      exact ⟨n, o, t, g, reaches, next, congrArg Prod.fst told⟩
  | schedules reaches told =>
    exact absurd ((congrArg (·.2.execution.promise) told).trans (schedule_unconcluded concluded))
      (still reaches)

end Asynchronous

namespace Session

variable {a : Asynchronous σ} {s : Session σ} {run : RunId} {m : Move σ} {k : Callback} {now : Binary64}
  {x : Execution}

/-- If the promise comes to a conclusion in a callback, the callback has told of it. -/
theorem Begins.ends (begins : s.Begins run m k now x) (pending : x.promise.isSettled = false) {c : Conclusion}
    (concluded : (a.body run now k (s.frame run x)).2.execution.promise = .concluded c) :
    ∃ i, a.Ends run now k (s.frame run x) i c :=
  (a.body_halts begins.own (s.frame run x)).ends pending concluded

end Session

end Polling
