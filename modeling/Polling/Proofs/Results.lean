import Polling.Proofs.RunProtocol

/-!
# A wait ends with what a hook has been told

If the hooks for success and failure are there, a wait comes to a result exactly if one of them has been
told of this very result and has returned. `Heard` says so of the entries of a wait, by the replay of
those in front of the notice.

`Act.Concludes` is the property of the parts of a wait. Parts that tell nobody of the end may stand in
front (`Act.concludes_bind`), and the one that tells of a transition concludes with what the transition
means (`Notifier.tell_concludes`). Blocking runs are put together from both
(`Blocking.run_concludes`).
-/

namespace Polling

/-! ## Results -/

/-- What the caller of a wait gets from its conclusion. -/
def Conclusion.result : Conclusion → Except Fault Response
  | .success r => .ok r
  | .failure f => .error f.fault

/-- What a transition means for the caller of the wait, if it ends the wait. -/
def Transition.result? : Transition → Option (Except Fault Response)
  | .succeed r => some (.ok r)
  | .fail f => some (.error f.fault)
  | .retry _ => none

/-- The result that a hook is told of at the end. -/
def Notice.result? : Notice → Option (Except Fault Response)
  | .success info => some (.ok info.response)
  | .failure info => info.fault.map .error
  | _ => none

/-- All four hooks are there. -/
def Hooks.Complete (h : Hooks σ) : Prop := ∀ n, h.hears n = true

/-- Only what ends a wait has a result. -/
theorem Transition.result?_of_next {t : Transition} {c : Conclusion} (h : t.next = .inl c) :
    t.result? = some c.result := by
  cases t with
  | succeed r =>
    obtain rfl := Sum.inl.inj h
    rfl
  | fail f =>
    obtain rfl := Sum.inl.inj h
    rfl
  | retry d => exact nomatch h

/-- Hooks are told of results at the end only. -/
theorem Notice.isClosing_of_result {n : Notice} {x : Except Fault Response} (h : n.result? = some x) :
    (Event.notice n).isClosing = true := by
  cases n <;> first | rfl | exact nomatch h

/-- Among some entries, a hook is told of a result and returns. -/
def Heard (answer : Event → Code σ Unit) (c : Caller σ) (es : List Event) (x : Except Fault Response) :
    Prop :=
  ∃ before n after, es = before ++ .notice n :: after ∧ n.result? = some x ∧
    (answer (.notice n) (replay answer c before)).1 = .ok ()

section Heard

variable {answer : Event → Code σ Unit} {c : Caller σ} {es es' : List Event} {x : Except Fault Response}

/-- Nobody hears of a result before the end. -/
theorem not_heard (h : ∀ e ∈ es, e.isClosing = false) : ¬ Heard answer c es x := by
  rintro ⟨before, n, after, rfl, result, -⟩
  have open_ := h (.notice n) (by simp)
  rw [Notice.isClosing_of_result result] at open_
  exact nomatch open_

/-- A single notice is heard if the hook returns. -/
theorem heard_singleton {n : Notice} :
    Heard answer c [.notice n] x ↔ n.result? = some x ∧ (answer (.notice n) c).1 = .ok () := by
  constructor
  · rintro ⟨before, m, after, split, result, returned⟩
    cases before with
    | nil =>
      obtain ⟨same, -⟩ := List.cons.inj split
      obtain rfl := Event.notice.inj same
      exact ⟨result, returned⟩
    | cons e before => exact absurd (congrArg List.length split) (by simp)
  · rintro ⟨result, returned⟩
    exact ⟨[], n, [], rfl, result, returned⟩

theorem heard_append : Heard answer c (es ++ es') x ↔
    Heard answer c es x ∨ Heard answer (replay answer c es) es' x := by
  constructor
  · rintro ⟨before, n, after, split, result, returned⟩
    rcases List.append_eq_append_iff.1 split with ⟨mid, rfl, later⟩ | ⟨mid, rfl, later⟩
    · exact .inr ⟨mid, n, after, later, result, by rwa [replay_append] at returned⟩
    · cases mid with
      | nil =>
        refine .inr ⟨[], n, after, later.symm, result, ?_⟩
        simpa using returned
      | cons e mid =>
        obtain ⟨rfl, -⟩ := List.cons.inj later
        exact .inl ⟨before, n, mid, rfl, result, returned⟩
  · rintro (⟨before, n, after, rfl, result, returned⟩ | ⟨before, n, after, rfl, result, returned⟩)
    · exact ⟨before, n, after ++ es', by simp, result, returned⟩
    · exact ⟨es ++ before, n, after, by simp, result, by rwa [replay_append]⟩

end Heard

namespace Act

/-- An act has told a hook of a result, and the hook has returned, exactly if the act itself returns something
that means this result. -/
def Concludes (answer : Event → Code σ Unit) (result : α → Option (Except Fault Response))
    (a : Act σ α) : Prop :=
  ∀ w, ∃ es, (a w).2.history = w.history ++ es ∧ ∀ x, Heard answer w.caller es x ↔
    ∃ y, (a w).1 = .ok y ∧ result y = some x

/-- An act tells nobody of the end. -/
abbrev Opens (a : Act σ α) : Prop := a.Enters (·.isClosing = false)

variable {answer : Event → Code σ Unit} {result : α → Option (Except Fault Response)}

/-- What tells nobody of the end has no result. -/
theorem concludes_of_opens {a : Act σ α} (h : a.Opens) (none : ∀ y, result y = none) :
    a.Concludes answer result := by
  intro w
  obtain ⟨es, history, quiet⟩ := h w
  refine ⟨es, history, fun x => iff_of_false (not_heard quiet) ?_⟩
  rintro ⟨y, -, some⟩
  exact nomatch (none y).symm.trans some

theorem concludes_pure {y : α} (none : result y = none) : (pure y : Act σ α).Concludes answer result := by
  intro w
  refine ⟨[], (List.append_nil _).symm, fun x => iff_of_false (not_heard (by simp)) ?_⟩
  rintro ⟨y', same, some⟩
  obtain rfl := Except.ok.inj same
  exact nomatch none.symm.trans some

/-- What tells nobody of the end may stand in front. -/
theorem concludes_bind {a : Act σ β} {f : β → Act σ α} (replays : a.Replays answer) (opens : a.Opens)
    (concludes : ∀ y, (f y).Concludes answer result) : (a >>= f).Concludes answer result := by
  intro w
  obtain ⟨es, history, quiet⟩ := opens w
  have world := replays.world history
  rw [bind_apply]
  rcases ha : a w with ⟨e | y, w'⟩ <;> rw [ha] at history world <;> dsimp only at history world
  · refine ⟨es, history, fun x => iff_of_false (not_heard quiet) ?_⟩
    rintro ⟨y, raised, -⟩
    exact nomatch raised
  · obtain ⟨es', history', heard⟩ := concludes y w'
    refine ⟨es ++ es', by simp only [history', history, List.append_assoc], fun x => ?_⟩
    rw [heard_append, or_iff_right (not_heard quiet), ← heard x, world]

/-- What an act returns may be put into another form. -/
theorem concludes_map {a : Act σ β} {result' : β → Option (Except Fault Response)}
    (h : a.Concludes answer result') (g : β → α) (same : ∀ y, result (g y) = result' y) :
    (a >>= fun y => pure (g y)).Concludes answer result := by
  intro w
  obtain ⟨es, history, heard⟩ := h w
  rw [bind_apply]
  rcases ha : a w with ⟨e | y, w'⟩ <;> rw [ha] at history heard
  · refine ⟨es, history, fun x => (heard x).trans (iff_of_false ?_ ?_)⟩ <;>
      rintro ⟨y, raised, -⟩ <;> exact nomatch raised
  · refine ⟨es, history, fun x => (heard x).trans ?_⟩
    simp [same]

/-- A hook is told of a result. -/
theorem concludes_call {n : Notice} {r : Except Fault Response} (told : n.result? = some r)
    {hook : Code σ Unit} (hears : answer (.notice n) = hook) :
    (call (.notice n) hook).Concludes answer fun _ => some r := by
  intro w
  refine ⟨[.notice n], rfl, fun x => heard_singleton.trans ?_⟩
  rw [hears, told, call_apply]
  constructor
  · rintro ⟨same, returned⟩
    exact ⟨(), returned, same⟩
  · rintro ⟨⟨⟩, returned, same⟩
    exact ⟨same, returned⟩

end Act

/-! ## The parts of a wait -/

namespace Notifier

variable (w : Waiter σ) (others : Event → Code σ Unit) (clock : σ → Value)

theorem attempt_opens (n : Notifier σ) (k : Value) : (n.attempt k).Opens := by
  unfold attempt
  split
  · exact Act.enters_pure _
  · exact Act.enters_call (P := (·.isClosing = false)) rfl _

theorem retry_opens (n : Notifier σ) (k delay value : Value) (fault : Option Fault) :
    (n.retry k delay value fault).Opens := by
  unfold retry
  split
  · exact Act.enters_pure _
  · exact Act.enters_call (P := (·.isClosing = false)) rfl _

theorem opening_opens (n : Notifier σ) (attempt limit : Nat) : (n.opening attempt limit).Opens :=
  Act.enters_bind (attempt_opens n _) fun _ => Act.enters_record rfl

variable {w} (complete : (w.hooks.getD {}).Complete)
include complete

/-- Telling of a success concludes with the response. -/
theorem success_concludes (k : Value) (r : Response) (started : Value) :
    ((w.notifier clock).success k r started).Concludes (w.answer others) fun _ => some (.ok r) := by
  obtain ⟨hook, installed⟩ := Option.isSome_iff_exists.1
    (complete (.success ⟨k, .int w.strategy.limit, r, .null⟩))
  simp only [success, Waiter.notifier, installed]
  exact Act.concludes_bind (elapsed_replays _ _) (elapsed_enters _ _) fun t =>
    Act.concludes_call rfl (by simp [Waiter.answer, Hooks.hear, installed])

/-- Telling of a failure concludes with its fault. -/
theorem failure_concludes (k : Value) (f : Failure) (started : Value) :
    ((w.notifier clock).failure k (some f.fault) started).Concludes (w.answer others)
      fun _ => some (.error f.fault) := by
  obtain ⟨hook, installed⟩ := Option.isSome_iff_exists.1
    (complete (.failure ⟨k, .int w.strategy.limit, some f.fault, .null⟩))
  simp only [failure, Waiter.notifier, installed]
  exact Act.concludes_bind (elapsed_replays _ _) (elapsed_enters _ _) fun t =>
    Act.concludes_call rfl (by simp [Waiter.answer, Hooks.hear, installed])

/-- Telling of a transition concludes with what it means. -/
theorem tell_concludes (o : Outcome) (attempt : Nat) (started : Value) (t : Transition) :
    ((w.notifier clock).tell o attempt started t).Concludes (w.answer others) fun _ => t.result? := by
  cases t with
  | succeed r => exact success_concludes others clock complete _ r started
  | fail f =>
    exact Act.concludes_bind (Act.replays_record rfl) (Act.enters_record rfl) fun _ =>
      failure_concludes others clock complete _ f started
  | retry d => exact Act.concludes_of_opens (retry_opens _ _ _ _ _) fun _ => rfl

end Notifier

/-! ## Blocking runs -/

namespace Blocking

variable (b : Blocking σ)

variable {b} (complete : (b.waiter.hooks.getD {}).Complete)
include complete

/-- Giving up concludes with the failure. -/
theorem giveUp_concludes (started : Value) (attempt : Nat) (f : Failure) :
    (b.giveUp started attempt f).Concludes b.answer fun c => some c.result := by
  refine Act.concludes_bind (Act.replays_record rfl) (Act.enters_record rfl) fun _ => ?_
  exact Act.concludes_map (Notifier.failure_concludes _ _ complete _ f started) _ fun _ => rfl

/-- Telling of a transition and closing the round conclude with what the transition means, or with the
interruption of the delay. -/
theorem tell_close_concludes (o : Outcome) (attempt : Nat) (started : Value) (t : Transition) :
    (b.notifier.tell o attempt started t >>= fun _ => b.close started attempt t.next).Concludes b.answer
      fun c => c.map Conclusion.result := by
  have ends : ∀ c, t.next = .inl c →
      (b.notifier.tell o attempt started t >>= fun _ => b.close started attempt t.next).Concludes
        b.answer fun c => c.map Conclusion.result := by
    intro c next
    rw [next]
    refine Act.concludes_map (Notifier.tell_concludes _ _ complete o attempt started t)
      (fun _ => some c) fun _ => ?_
    exact (Transition.result?_of_next next).symm
  cases t with
  | succeed r => exact ends _ rfl
  | fail f => exact ends _ rfl
  | retry d =>
    refine Act.concludes_bind (Notifier.tell_replays b.waiter _ _ o attempt started _)
      (Notifier.retry_opens _ _ _ _ _) fun _ => ?_
    -- behind a retry only an interruption can conclude the round
    refine Act.concludes_bind (b.pause_replays d)
      (b.pause_enters rfl rfl) fun stopped => ?_
    cases stopped with
    | false => exact Act.concludes_pure rfl
    | true => exact Act.concludes_map (giveUp_concludes complete started attempt _) some fun _ => rfl

/-- A round concludes with the conclusion that it comes to. -/
theorem round_concludes (started : Value) (attempt : Nat) :
    (b.round started attempt).Concludes b.answer fun c => c.map Conclusion.result := by
  rw [round_eq]
  refine Act.concludes_bind (Notifier.opening_replays b.waiter _ _ _ _) (Notifier.opening_opens _ _ _)
    fun _ => ?_
  refine Act.concludes_bind (b.poll_replays attempt) (b.poll_enters attempt rfl) fun o => ?_
  simp only [Notifier.judge, bind_assoc, pure_bind]
  exact Act.concludes_bind (evaluate_replays b.waiter _ o _)
    (evaluate_enters (fun _ _ => rfl) (fun _ _ => rfl) (fun _ => rfl) _ _ _ _ rfl) fun t =>
      tell_close_concludes complete o attempt started t

/-- So do rounds, as long as an attempt is left. -/
theorem rounds_concludes (started : Value) {left attempt : Nat} (first : 1 ≤ attempt) (more : 1 ≤ left)
    (attempts : left + attempt = b.waiter.strategy.limit + 1) :
    (b.rounds started left attempt).Concludes b.answer fun c => some c.result := by
  induction left generalizing attempt with
  | zero => omega
  | succ left ih =>
    intro w
    obtain ⟨es, history, heard⟩ := round_concludes complete started attempt w
    have world := (b.round_replays started attempt).world history
    rw [rounds, Act.bind_apply]
    rcases hr : b.round started attempt w with ⟨e | _ | c, w'⟩ <;> rw [hr] at history heard world <;>
      dsimp only at history world
    · refine ⟨es, history, fun x => (heard x).trans (iff_of_false ?_ ?_)⟩ <;>
        rintro ⟨y, raised, -⟩ <;> cases raised
    · -- the round has told nobody of the end
      have limit := b.lt_limit_of_round started first hr
      obtain ⟨es', history', heard'⟩ := ih (show 1 ≤ attempt + 1 by omega) (by omega) (by omega) w'
      refine ⟨es ++ es', by simp only [history', history, List.append_assoc], fun x => ?_⟩
      rw [heard_append, or_iff_right ?_, ← heard' x, world]
      rw [heard x]
      rintro ⟨y, same, some⟩
      obtain rfl := Except.ok.inj same
      cases some
    · refine ⟨es, history, fun x => (heard x).trans ?_⟩
      simp

/-- A blocking run comes to a result exactly if a hook has been told of it and has returned. -/
theorem run_concludes : b.run.Concludes b.answer fun c => some c.result :=
  fun w => rounds_concludes complete (.real (b.clock w.caller.state)) (Nat.le_refl 1)
    b.waiter.strategy.limit_pos rfl w

end Blocking

end Polling
