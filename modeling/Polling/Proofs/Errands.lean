import Polling.Proofs.Moves

/-!
# Errands under way

An errand of the loop is under way as often as it is queued or behind a timer that was not taken back:
`Session.pending`. Timers that are taken back stay in the heap, which is why they are not looked for there.

Only the timers of an execution and requests of the caller's bring errands (`Order.brings`); whatever else
is carried out leaves no more of them under way (`pending_foldl_obey_le`). Taken back, an errand is not
under way at all (`pending_drop_self`).
-/

namespace Polling

namespace Heap

/-- Taking items from the front loses none. -/
theorem takeFor_perm (before : α → α → Bool) (p : α → Bool) (steps : Nat) (items : List α) :
    ((takeFor before p steps items).1 ++ (takeFor before p steps items).2).Perm items := by
  induction steps generalizing items with
  | zero => exact .refl _
  | succ steps ih =>
    rw [takeFor]
    split
    · exact .refl _
    · next first rest h =>
      split
      · exact ((ih rest).cons first).trans (pop?_perm h)
      · exact .refl _

/-- What is taken passes the test. -/
theorem of_mem_takeFor {before : α → α → Bool} {p : α → Bool} {steps : Nat} {items : List α} {x : α}
    (h : x ∈ (takeFor before p steps items).1) : p x = true := by
  induction steps generalizing items with
  | zero => exact absurd h (by simp [takeFor])
  | succ steps ih =>
    rw [takeFor] at h
    split at h
    · exact absurd h (by simp)
    · next first rest _ =>
      split at h
      · next passes =>
        rcases List.mem_cons.1 h with rfl | h
        · exact passes
        · exact ih h
      · exact absurd h (by simp)

end Heap

namespace Request

/-- Does a request bring an errand onto the loop? -/
def brings (e : Errand) : Request → Bool
  | .soon e' => e == e'
  | .later _ e' => e == e'
  | _ => false

end Request

/-- Code that asks for an errand in no request of its own. -/
def Code.BringsNo (e : Errand) (c : Code σ α) : Prop :=
  ∀ k, ∀ r ∈ (c k).2.requests, r ∈ k.requests ∨ r.brings e = false

namespace Order

/-- Does an order of an execution bring an errand onto the loop? -/
def brings (run : RunId) (e : Errand) : Order → Bool
  | .timer _ => e == .fire run
  | .request r => r.brings e
  | _ => false

end Order

/-- The orders that a call of such code leaves do not bring the errand. -/
theorem Step.orders_of_perform_call {e : Errand} {c : Code σ α} (brings : c.BringsNo e) (run : RunId)
    (entry : Event) {f : Frame σ} (idle : f.world.caller.requests = []) :
    ∃ os, (perform (Act.call entry c) f).2.orders = f.orders ++ os ∧ ∀ o ∈ os, o.brings run e = false := by
  obtain ⟨os, orders, asked⟩ := Frame.foldl_absorbOne_orders (c f.world.caller).2.requests
    { f with world :=
      { caller := { (c f.world.caller).2 with requests := [] }, history := f.world.history ++ [entry] } }
  refine ⟨os, orders, fun o mem => ?_⟩
  rcases asked o mem with rfl | ⟨r, called, rfl⟩
  · rfl
  · refine (brings f.world.caller r called).resolve_left fun earlier => ?_
    rw [idle] at earlier
    exact absurd earlier (by simp)

namespace Session

/-- Is this errand behind a timer that was not taken back? -/
def awaits (e : Errand) (t : Timer Callback) : Bool := !t.dropped && isErrand e t.callback

/-- How often an errand is under way: queued, or behind a timer. -/
def pending (s : Session σ) (e : Errand) : Nat :=
  s.ready.countP (isErrand e) + s.loop.timers.countP (awaits e)

variable {run : RunId} {s : Session σ}

/-! ## The queue and the timers -/

/-- Queueing a callback that is not an errand touches no errand. -/
theorem pending_soon (s : Session σ) {e : Errand} {c : Callback} (other : isErrand e c = false) :
    (s.soon c).pending e = s.pending e := by
  simp [pending, ready, soon, EventLoop.soon, List.countP_append, other]

theorem pending_later (s : Session σ) {e e' : Errand} (other : e ≠ e') (delay : Binary64) :
    ({ s with loop := s.loop.later delay (.errand e') } : Session σ).pending e = s.pending e := by
  have perm := Heap.push_perm Timer.before ⟨s.loop.time.add delay, .errand e', false⟩ s.loop.timers
  have timers := perm.countP_eq (awaits e)
  simp only [pending, ready, EventLoop.later, EventLoop.schedule]
  rw [timers, List.countP_cons]
  simp [awaits, isErrand, other]

theorem pending_drop (s : Session σ) {e e' : Errand} (other : e ≠ e') :
    ({ s with loop := s.loop.drop (isErrand e') } : Session σ).pending e = s.pending e := by
  have kept : ∀ c : Callback, isErrand e c = true → isErrand e' c = false := by
    intro c hc
    cases c with
    | errand d =>
      obtain rfl : e = d := by simpa [isErrand] using hc
      simpa [isErrand] using fun same => other same.symm
    | _ => exact nomatch hc
  have queued : ∀ cs : List Callback, (cs.filter (!isErrand e' ·)).countP (isErrand e) =
      cs.countP (isErrand e) := by
    intro cs
    rw [List.countP_filter]
    refine List.countP_congr fun c _ => ?_
    simp only [Bool.and_eq_true]
    exact ⟨fun h => h.1, fun h => ⟨h, by simp [kept c h]⟩⟩
  -- timers stay where they are when they are dropped, and no longer count
  simp only [pending, ready, EventLoop.drop, List.countP_append, queued, List.countP_map]
  congr 1
  refine List.countP_congr fun t _ => ?_
  simp only [Function.comp_def, awaits]
  split
  · next dropped =>
    have unlike : isErrand e t.callback = false := by
      cases h : isErrand e t.callback with
      | false => rfl
      | true => exact absurd dropped (by simp [kept _ h])
    simp [unlike]
  · exact Iff.rfl

/-- An errand that is taken back is not under way any more. -/
theorem pending_drop_self (s : Session σ) (e : Errand) :
    ({ s with loop := s.loop.drop (isErrand e) } : Session σ).pending e = 0 := by
  have unqueued : ∀ cs : List Callback, (cs.filter (!isErrand e ·)).countP (isErrand e) = 0 := by
    intro cs
    rw [List.countP_eq_zero]
    intro c mem
    simpa using (List.mem_filter.1 mem).2
  have dropped : (s.loop.drop (isErrand e)).timers.countP (awaits e) = 0 := by
    rw [List.countP_eq_zero]
    intro t mem
    obtain ⟨u, -, rfl⟩ := List.mem_map.1 mem
    split
    · simp [awaits]
    · next other => simp [awaits, other]
  simp only [pending, dropped]
  simp [ready, EventLoop.drop, List.countP_append, unqueued]

/-- A callback that is taken is one errand less under way, if it is that errand. -/
theorem pending_take {l : EventLoop Callback} {c : Option Callback} (taken : s.loop.take = (c, l))
    (e : Errand) :
    s.pending e = c.toList.countP (isErrand e) + ({ s with loop := l } : Session σ).pending e := by
  have from_turn : ∀ {m : EventLoop Callback}, m.takeFromTurn = (c, l) →
      (m.turn ++ m.queue).countP (isErrand e) =
        c.toList.countP (isErrand e) + (l.turn ++ l.queue).countP (isErrand e) ∧
      l.timers = m.timers := by
    intro m hm
    unfold EventLoop.takeFromTurn at hm
    split at hm
    · next first rest turn =>
      obtain ⟨rfl, rfl⟩ := Prod.mk.inj hm
      refine ⟨?_, rfl⟩
      rw [turn]
      simp [List.countP_cons]
      omega
    · obtain ⟨rfl, rfl⟩ := Prod.mk.inj hm
      exact ⟨by simp, rfl⟩
  unfold EventLoop.take at taken
  split at taken
  · obtain ⟨count, timers⟩ := from_turn taken
    -- the timers are those taken back, those due and the others
    have all := (Heap.takeFor_perm Timer.before (·.dropped) s.loop.timers.length
      s.loop.timers).countP_eq (awaits e)
    have live := (Heap.takeFor_perm Timer.before (fun t => !s.loop.time.lt t.due)
      s.loop.liveTimers.length s.loop.liveTimers).countP_eq (awaits e)
    have gone : (Heap.takeFor Timer.before (·.dropped) s.loop.timers.length
        s.loop.timers).1.countP (awaits e) = 0 := by
      rw [List.countP_eq_zero]
      intro t mem
      have dropped : t.dropped = true := Heap.of_mem_takeFor mem
      simp [awaits, dropped]
    have due : ((s.loop.dueTimers.1.filter (!·.dropped)).map (·.callback)).countP (isErrand e) =
        s.loop.dueTimers.1.countP (awaits e) := by
      rw [List.countP_map, List.countP_filter]
      refine List.countP_congr fun t _ => ?_
      simp [awaits, and_comm]
    rw [List.countP_append] at all live
    simp only [pending, ready, timers]
    simp only [EventLoop.nextTurn, List.append_nil, List.countP_append, due] at count ⊢
    have split : s.loop.timers.countP (awaits e) =
        s.loop.dueTimers.1.countP (awaits e) + s.loop.dueTimers.2.countP (awaits e) := by
      rw [gone, Nat.zero_add] at all
      rw [← all]
      exact live.symm
    omega
  · obtain ⟨count, timers⟩ := from_turn taken
    simp only [pending, ready, timers] at count ⊢
    omega

/-- A fault that leaves a callback does not touch what is under way. -/
theorem pending_report (s : Session σ) (fault : Fault) (e : Errand) :
    (s.report fault).pending e = s.pending e := by
  unfold report
  split
  · simp [pending, ready, EventLoop.breakOff]
  · rfl

/-! ## Requests and orders -/

/-- A request that does not bring an errand leaves no more of them under way. -/
theorem pending_answer_le (s : Session σ) {e : Errand} {r : Request} (h : r.brings e = false) :
    (s.answer r).pending e ≤ s.pending e := by
  have soon : ∀ {c : Callback}, isErrand e c = false → (s.soon c).pending e ≤ s.pending e :=
    fun other => Nat.le_of_eq (s.pending_soon other)
  cases r with
  | cancel run =>
    simp only [answer, cancel]
    split
    · split
      · exact Nat.le_refl _
      · exact Nat.le_of_eq (pending_soon _ rfl)
    · exact Nat.le_refl _
  | fire run =>
    simp only [answer, fire]
    split
    · exact soon rfl
    · exact Nat.le_refl _
  | finish poll ending =>
    simp only [answer, finish]
    split
    · exact Nat.le_refl _
    · rw [foldl_soon_pollEnded]
      simp [pending, ready, List.countP_append, List.countP_map, Function.comp_def, isErrand]
  | soon e' => exact soon (c := .errand e') h
  | later delay e' =>
    exact Nat.le_of_eq (s.pending_later (by simpa [Request.brings] using h) delay)
  | drop e' =>
    by_cases same : e = e'
    · subst same
      exact Nat.le_trans (Nat.le_of_eq (s.pending_drop_self e)) (Nat.zero_le _)
    · exact Nat.le_of_eq (s.pending_drop same)

/-- Nor does such an order. -/
theorem pending_obey_le (s : Session σ) {e : Errand} {o : Order} (h : o.brings run e = false) :
    (s.obey run o).pending e ≤ s.pending e := by
  cases o with
  | settled => exact Nat.le_of_eq (s.pending_soon (c := .settled run) rfl)
  | watch poll =>
    simp only [obey, watch]
    split
    · exact Nat.le_of_eq (s.pending_soon rfl)
    · exact Nat.le_refl _
  | timer delay => exact Nat.le_of_eq (s.pending_later (by simpa [Order.brings] using h) delay)
  | stopTimer => exact s.pending_answer_le (r := .drop (.fire run)) rfl
  | request r => exact s.pending_answer_le h

theorem pending_foldl_obey_le {e : Errand} {os : List Order} (h : ∀ o ∈ os, o.brings run e = false)
    (s : Session σ) : (os.foldl (obey · run) s).pending e ≤ s.pending e := by
  induction os generalizing s with
  | nil => exact Nat.le_refl _
  | cons o rest ih =>
    exact Nat.le_trans (ih (fun o' mem => h o' (List.mem_cons_of_mem o mem)) _)
      (pending_obey_le s (h o List.mem_cons_self))

/-- Orders that take a timer back, and bring it by none that follows, leave it nowhere. -/
theorem pending_foldl_obey_stopTimer (before : List Order) {after : List Order}
    (h : ∀ o ∈ after, o.brings run (.fire run) = false) (s : Session σ) :
    ((before ++ .stopTimer :: after).foldl (obey · run) s).pending (.fire run) = 0 := by
  rw [List.foldl_append, List.foldl_cons]
  have gone : ((before.foldl (obey · run) s).obey run .stopTimer).pending (.fire run) = 0 :=
    pending_drop_self _ _
  exact Nat.le_zero.1 (Nat.le_trans (pending_foldl_obey_le h _) (Nat.le_of_eq gone))

end Session

end Polling
