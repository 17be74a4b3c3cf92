import Polling.Proofs.Protocol
import Polling.Proofs.Replay

/-!
# Blocking runs keep to the protocol

`Blocking.protocol` is the protocol of a blocking run. `Blocking.round_keeps` is the step: what the beats
of one round are, by the way in which the round ends. `Blocking.run_follows` puts the rounds of a run
together, and `Blocking.rounds_add` says that the attempts are counted down in vain: a run comes to its end
by itself.
-/

namespace Polling

/-- The number of attempts that a conclusion reports. -/
def Conclusion.attempts : Conclusion → Value
  | .success r => .number r.attempts
  | .failure f => f.attempts

/-- What a transition concludes with reports the attempt. -/
theorem Transition.Suits.attempts {limit i : Nat} {o : Outcome} {t : Transition} {c : Conclusion}
    (h : t.Suits limit i o) (next : t.next = .inl c) : c.attempts = .int i := by
  cases t with
  | succeed r =>
    obtain rfl := Sum.inl.inj next
    obtain rfl : r = ⟨o, .int i⟩ := h
    rfl
  | fail f =>
    obtain rfl := Sum.inl.inj next
    exact h
  | retry d => exact nomatch next

/-- The caller after an act that leaves some entries. -/
theorem Act.Replays.world {answer : Event → Code σ Unit} {a : Act σ α} (h : a.Replays answer)
    {w : World σ} {es : List Event} (history : (a w).2.history = w.history ++ es) :
    (a w).2 = ⟨replay answer w.caller es, w.history ++ es⟩ := by
  obtain ⟨es', left, -⟩ := h w
  rw [left] at history ⊢
  obtain rfl := List.append_cancel_left history
  rfl

namespace Blocking

variable (b : Blocking σ)

/-- In a history that begins with a caller, the poll of an attempt has left an outcome. -/
def Leaves (c : Caller σ) (es : List Event) (i : Nat) (o : Outcome) : Prop :=
  ∃ before after, es = before ++ .polled i :: after ∧
    (b.operation i (replay b.answer c before)).1 = o.result

variable {b} in
theorem Leaves.append {c : Caller σ} {es : List Event} {i : Nat} {o : Outcome} (h : b.Leaves c es i o)
    (later : List Event) : b.Leaves c (es ++ later) i o := by
  obtain ⟨before, after, rfl, left⟩ := h
  exact ⟨before, after ++ later, by simp, left⟩

variable {b} in
theorem Leaves.after {c : Caller σ} {es : List Event} {i : Nat} {o : Outcome} {earlier : List Event}
    (h : b.Leaves (replay b.answer c earlier) es i o) : b.Leaves c (earlier ++ es) i o := by
  obtain ⟨before, after, rfl, left⟩ := h
  exact ⟨earlier ++ before, after, by simp, by rwa [replay_append]⟩

/-- The entry of a delay that a blocking run spends. -/
def spends : { entry : Number → Event // ∀ d, (entry d).delay? = some d } :=
  match b.signal with
  | none => ⟨.slept, fun _ => rfl⟩
  | some _ => ⟨.watched, fun _ => rfl⟩

/-- In a history that begins with a caller, a delay has been cut short, and nothing has been called behind
it but the hook that is told of the end: the signal was set when the delay was to begin, or it ended the
delay. -/
def Cuts (c : Caller σ) (es : List Event) (d : Number) : Prop :=
  ∃ signal before after, b.signal = some signal ∧ es = before ++ after ∧
    after.countP Event.isPolled = 0 ∧ after.countP Event.isDelay = 0 ∧
    (signal.isSet (replay b.answer c before).state = true ∨
      ∃ earlier, before = earlier ++ [.watched d] ∧
        (signal.wait d (replay b.answer c earlier)).1 = .ok true)

variable {b} in
theorem Cuts.after {c : Caller σ} {es : List Event} {d : Number} {earlier : List Event}
    (h : b.Cuts (replay b.answer c earlier) es d) : b.Cuts c (earlier ++ es) d := by
  obtain ⟨signal, before, after, there, rfl, unpolled, undelayed, set | ⟨front, rfl, waited⟩⟩ := h
  · exact ⟨signal, earlier ++ before, after, there, by simp, unpolled, undelayed, .inl (by rwa [replay_append])⟩
  · exact ⟨signal, earlier ++ (front ++ [Event.watched d]), after, there, by simp, unpolled, undelayed,
      .inr ⟨earlier ++ front, by simp, by rwa [replay_append]⟩⟩

/-- The protocol of a blocking run. -/
def protocol (leaves : Nat → Outcome → Prop) (cuts : Number → Prop) : Protocol σ :=
  b.waiter.protocol leaves b.spends cuts

/-- What a poll enters, and the outcome that it leaves. -/
theorem poll_history (i : Nat) (w : World σ) :
    (b.poll i w).2.history = w.history ++ [Event.polled i] ∧
      ∀ o, (b.poll i w).1 = .ok o → (b.operation i w.caller).1 = o.result := by
  simp only [poll, Act.bind_apply, Act.outcomeOf_apply, Act.call_apply]
  rcases hc : b.operation i w.caller with ⟨e | v, c⟩
  · cases ordinary : e.isOrdinary with
    | true =>
      refine ⟨by simp [ordinary], ?_⟩
      intro o ho
      obtain rfl : .raised e = o := by simpa [ordinary] using ho
      rfl
    | false => exact ⟨by simp [ordinary], by simp [ordinary]⟩
  · refine ⟨by simp, ?_⟩
    intro o ho
    obtain rfl : .returned v = o := by simpa using ho
    rfl

/-- What a pause spends. It goes on behind the delay, and it stops only if the signal was set before the
delay or has ended it. -/
theorem pause_beats (d : Number) (w : World σ) : ∃ es, (b.pause d w).2.history = w.history ++ es ∧
    (beatsOf es = [b.spends.1 d] ∨ beatsOf es = [] ∧ (b.pause d w).1 = .ok true) ∧
    ((b.pause d w).1 = .ok true → ∃ signal, b.signal = some signal ∧
      (es = [] ∧ signal.isSet w.caller.state = true ∨
        es = [.watched d] ∧ (signal.wait d w.caller).1 = .ok true)) := by
  cases hs : b.signal with
  | none =>
    have entry : b.spends.1 d = .slept d := by simp [spends, hs]
    simp only [pause, hs, Act.bind_apply, Act.call_apply, entry]
    rcases b.sleep d w.caller with ⟨e | ⟨⟩, c⟩ <;>
      exact ⟨[.slept d], rfl, .inl rfl, by simp⟩
  | some signal =>
    have entry : b.spends.1 d = .watched d := by simp [spends, hs]
    simp only [pause, hs, Act.bind_apply, Act.read_apply, entry]
    cases set : signal.isSet w.caller.state with
    | true => exact ⟨[], by simp, .inr ⟨rfl, rfl⟩, fun _ => ⟨signal, rfl, .inl ⟨rfl, set⟩⟩⟩
    | false =>
      refine ⟨[.watched d], by simp [Act.call_apply], .inl rfl, fun stopped => ?_⟩
      exact ⟨signal, rfl, .inr ⟨rfl, by simpa [Act.call_apply] using stopped⟩⟩

variable {b} in
/-- A pause that stops has been cut short, if nothing is polled or spent behind it. -/
theorem cuts_of_stops {c : Caller σ} {d : Number} {es later : List Event}
    (stops : ∃ signal, b.signal = some signal ∧ (es = [] ∧ signal.isSet c.state = true ∨
      es = [.watched d] ∧ (signal.wait d c).1 = .ok true))
    (unpolled : later.countP Event.isPolled = 0) (undelayed : later.countP Event.isDelay = 0) :
    b.Cuts c (es ++ later) d := by
  obtain ⟨signal, there, set⟩ := stops
  refine ⟨signal, es, later, there, rfl, unpolled, undelayed, ?_⟩
  rcases set with ⟨rfl, set⟩ | ⟨rfl, waited⟩
  · exact .inl set
  · exact .inr ⟨[], rfl, waited⟩

variable {b} in
/-- A wait is given up with the failure at hand. -/
theorem giveUp_eq_ok {started : Value} {i : Nat} {f : Failure} {w w' : World σ} {c : Conclusion}
    (h : b.giveUp started i f w = (.ok c, w')) : c = .failure f := by
  obtain ⟨⟨⟩, w₁, -, h⟩ := Act.bind_eq_ok.1 h
  obtain ⟨⟨⟩, w₂, -, h⟩ := Act.bind_eq_ok.1 h
  exact (Act.pure_eq_ok.1 h).1.symm

/-- Giving up calls nothing but the hook that is told of the failure. -/
theorem giveUp_beats (leaves : Nat → Outcome → Prop) (started : Value) (i : Nat) (f : Failure)
    (w : World σ) : ∃ es, (b.giveUp started i f w).2.history = w.history ++ es ∧
      es.countP Event.isPolled = 0 ∧ es.countP Event.isDelay = 0 ∧
      (beatsOf es = [] ∨ ∃ t, beatsOf es = (b.protocol leaves fun _ => False).failure i f t) := by
  have tells : ∃ es, (b.notifier.failure (.int i) (some f.fault) started
      { w with history := w.history ++ [Event.note (.failed i f.reason)] }).2.history =
        w.history ++ [Event.note (.failed i f.reason)] ++ es ∧
      (beatsOf es = [] ∨ ∃ t, beatsOf es = (b.protocol leaves fun _ => False).failure i f t) :=
    Notifier.failure_beats b.waiter _ _ _ _ i f started _
  obtain ⟨es, history, told⟩ := tells
  refine ⟨Event.note (.failed i f.reason) :: es, ?_, ?_, ?_, told⟩
  · simp only [giveUp, Act.bind_apply, Act.note, Act.record_apply]
    rcases hf : b.notifier.failure (.int i) (some f.fault) started
      { w with history := w.history ++ [Event.note (.failed i f.reason)] } with ⟨e | ⟨⟩, w'⟩ <;>
      rw [hf] at history <;> simpa using history
  · -- the hook is told by a notice, which polls nothing and spends nothing
    rw [← countP_beatsOf_isPolled]
    rcases told with silent | ⟨t, told⟩
    · exact silent ▸ rfl
    · exact told ▸ Protocol.tell_isPolled _ _
  · rw [← countP_beatsOf_isDelay]
    rcases told with silent | ⟨t, told⟩
    · exact silent ▸ rfl
    · exact told ▸ Protocol.tell_isDelay _ _

variable {b} in
/-- Giving up behind a pause that has been cut short is what may follow a retry. -/
theorem judged_of_cut {leaves : Nat → Outcome → Prop} {cuts : Number → Prop} {i : Nat} {o : Outcome}
    {d : Number} (left : leaves i o) (more : i < b.waiter.strategy.limit) (cut : cuts d)
    {es later : List Event} (begun : beatsOf es = [] ∨ beatsOf es = [b.spends.1 d])
    (told : beatsOf later = [] ∨ ∃ t, beatsOf later =
      (b.protocol leaves fun _ => False).failure i ⟨.interrupted i, .int i, none⟩ t) :
    (b.protocol leaves cuts).Judged i
      ((b.protocol leaves fun _ => False).retry i o d ++ beatsOf (es ++ later)) := by
  rw [beatsOf_append]
  rcases told with silent | ⟨t, told⟩
  · rw [silent, List.append_nil]
    rcases begun with none | beats
    · rw [none, List.append_nil]
      exact .retried d left more
    · rw [beats]
      exact .delayed d left more
  · rw [told, ← List.append_assoc]
    exact .interrupted _ t left more cut begun

/-- The beats of a round, by the way in which it ends. -/
def Keeps (p : Protocol σ) (i : Nat) (es : List Event) : Except Fault (Option Conclusion) → Prop
  | .ok none => ∃ o d, p.leaves i o ∧ i < p.limit ∧
      es = p.opening i ++ .polled i :: (p.retry i o d ++ [p.spends d])
  | .ok (some c) => c.attempts = .int i ∧
      ∃ es', es = p.opening i ++ .polled i :: es' ∧ p.Judged i es'
  | .error _ => ∃ called es', es = p.opening i ++ es' ∧ p.Closes i called es'

variable {b} in
/-- What follows the judging of an outcome keeps to the protocol, given the beats before it. -/
theorem close_keeps {leaves : Nat → Outcome → Prop} {i : Nat} {o : Outcome} {t : Transition}
    (left : leaves i o) (suits : t.Suits b.waiter.strategy.limit i o) {told : List Event}
    (judged : (b.protocol leaves fun _ => False).Judged i told)
    (retried : ∀ d, t = .retry d → told = (b.protocol leaves fun _ => False).retry i o d)
    (started : Value) (w : World σ) : ∃ es, (b.close started i t.next w).2.history = w.history ++ es ∧
      Keeps (b.protocol leaves (b.Cuts w.caller es)) i
        ((b.protocol leaves (b.Cuts w.caller es)).opening i ++ Event.polled i :: (told ++ beatsOf es))
        (b.close started i t.next w).1 := by
  cases next : t.next with
  | inl c =>
    exact ⟨[], by simp [close], suits.attempts next, told, by simp, judged.mono (fun _ _ => id) nofun⟩
  | inr d =>
    obtain rfl := Transition.next_eq_inr next
    obtain rfl := retried d rfl
    obtain ⟨es, history, spent, stops⟩ := b.pause_beats d w
    simp only [close, Act.bind_apply]
    rcases hp : b.pause d w with ⟨e | stopped, w'⟩ <;> rw [hp] at history spent stops
    · -- the sleep has raised a fault
      have beats : beatsOf es = [b.spends.1 d] := by simpa using spent
      exact ⟨es, history, true, _, rfl, .polled (by rw [beats]; exact .delayed d left suits)⟩
    · cases stopped with
      | false =>
        have beats : beatsOf es = [b.spends.1 d] := by simpa using spent
        exact ⟨es, history, o, d, left, suits, by rw [beats]; rfl⟩
      | true =>
        obtain ⟨later, history', unpolled, undelayed, told⟩ :=
          b.giveUp_beats leaves started i ⟨.interrupted i, .int i, none⟩ w'
        have cut : b.Cuts w.caller (es ++ later) d := cuts_of_stops (stops rfl) unpolled undelayed
        have judged := judged_of_cut left suits cut (spent.imp_right And.left).symm told
        have entered : w'.history ++ later = w.history ++ (es ++ later) := by
          rw [show w'.history = w.history ++ es from history, List.append_assoc]
        simp only [if_true, Act.bind_apply]
        rcases hg : b.giveUp started i ⟨.interrupted i, .int i, none⟩ w' with ⟨e | c, w''⟩ <;>
          rw [hg] at history'
        · exact ⟨es ++ later, history'.trans entered, true, _, rfl, .polled judged⟩
        · obtain rfl := giveUp_eq_ok hg
          exact ⟨es ++ later, history'.trans entered, rfl, _, rfl, judged⟩

variable {b} in
/-- What is known of the outcomes and of the delays may grow. -/
theorem Keeps.mono {leaves leaves' : Nat → Outcome → Prop} {cuts cuts' : Number → Prop} {i : Nat}
    {es : List Event} {r : Except Fault (Option Conclusion)} (h : Keeps (b.protocol leaves cuts) i es r)
    (more : ∀ i o, leaves i o → leaves' i o) (still : ∀ d, cuts d → cuts' d) :
    Keeps (b.protocol leaves' cuts') i es r := by
  rcases r with e | _ | c
  · obtain ⟨called, es', split, closes⟩ := h
    exact ⟨called, es', split, closes.mono more still⟩
  · obtain ⟨o, d, left, limit, split⟩ := h
    exact ⟨o, d, more _ _ left, limit, split⟩
  · obtain ⟨attempts, es', split, judged⟩ := h
    exact ⟨attempts, es', split, judged.mono more still⟩

variable {b} in
/-- What follows an outcome keeps to the protocol. -/
theorem judge_keeps {leaves : Nat → Outcome → Prop} {i : Nat} (first : 1 ≤ i) {o : Outcome}
    (left : leaves i o) (started : Value) (w : World σ) : ∃ es,
    ((b.notifier.judge b.waiter o i started >>= b.close started i) w).2.history = w.history ++ es ∧
      Keeps (b.protocol leaves (b.Cuts w.caller es)) i
        ((b.protocol leaves (b.Cuts w.caller es)).opening i ++ Event.polled i :: beatsOf es)
        ((b.notifier.judge b.waiter o i started >>= b.close started i) w).1 := by
  obtain ⟨es, history, silent⟩ := evaluate_beats b.waiter.acceptors b.waiter.strategy o (.int i) w
  have replays : (evaluate b.waiter.acceptors b.waiter.strategy o (.int i)).Replays b.answer :=
    evaluate_replays b.waiter _ o _
  have world := replays.world history
  simp only [Notifier.judge, Act.bind_apply]
  rcases he : evaluate b.waiter.acceptors b.waiter.strategy o (.int i) w with ⟨e | t, w₁⟩ <;>
    rw [he] at history world <;> dsimp only at history world
  · exact ⟨es, history, true, _, rfl, .polled (by rw [silent]; exact .silent)⟩
  have suits : t.Suits b.waiter.strategy.limit i o := evaluate_suits first (congrArg Prod.fst he)
  -- the evaluation has left no beat, so what is told comes first
  have tells : ∃ told, (b.notifier.tell o i started t w₁).2.history = w₁.history ++ told ∧
      (b.protocol leaves fun _ => False).Judged i (beatsOf told) ∧
      ∀ d, t = .retry d → beatsOf told = (b.protocol leaves fun _ => False).retry i o d :=
    Notifier.tell_beats b.waiter _ left suits started w₁
  have tell_replays : (b.notifier.tell o i started t).Replays b.answer :=
    Notifier.tell_replays b.waiter _ _ o i started t
  obtain ⟨told, history', judged, retried⟩ := tells
  have world' := tell_replays.world history'
  simp only
  rcases ht : b.notifier.tell o i started t w₁ with ⟨e | ⟨⟩, w₂⟩ <;> rw [ht] at history' world' <;>
    dsimp only at history' world'
  · refine ⟨es ++ told, by simp [history', history], true, _, rfl, .polled ?_⟩
    rw [beatsOf_append, silent]
    exact judged.mono (fun _ _ => id) fun _ => False.elim
  obtain ⟨later, history'', keeps⟩ := close_keeps left suits judged retried started w₂
  have caller : w₂.caller = replay b.answer w.caller (es ++ told) := by
    rw [world', world, replay_append]
  refine ⟨es ++ told ++ later, by simp [history'', history', history], ?_⟩
  rw [beatsOf_append, beatsOf_append, silent]
  refine Keeps.mono keeps (fun _ _ => id) fun d cut => ?_
  rw [caller] at cut
  exact cut.after

/-- A round keeps to the protocol. -/
theorem round_keeps (started : Value) {i : Nat} (first : 1 ≤ i) (w : World σ) : ∃ es,
    (b.round started i w).2 = ⟨replay b.answer w.caller es, w.history ++ es⟩ ∧
      Keeps (b.protocol (b.Leaves w.caller es) (b.Cuts w.caller es)) i (beatsOf es)
        (b.round started i w).1 := by
  suffices h : ∃ es, (b.round started i w).2.history = w.history ++ es ∧
      Keeps (b.protocol (b.Leaves w.caller es) (b.Cuts w.caller es)) i (beatsOf es)
        (b.round started i w).1 by
    obtain ⟨es, history, keeps⟩ := h
    exact ⟨es, (b.round_replays started i).world history, keeps⟩
  have opens : ∃ es, (b.notifier.opening i b.waiter.strategy.limit w).2.history = w.history ++ es ∧
      beatsOf es = (b.protocol (fun _ _ => True) fun _ => False).opening i := Notifier.opening_beats b.waiter _ _ _ _ i w
  have replays : (b.notifier.opening i b.waiter.strategy.limit).Replays b.answer :=
    Notifier.opening_replays b.waiter _ _ i _
  obtain ⟨es, history, beats⟩ := opens
  have world := replays.world history
  rw [round_eq, Act.bind_apply]
  rcases ho : b.notifier.opening i b.waiter.strategy.limit w with ⟨e | ⟨⟩, w₁⟩ <;>
    rw [ho] at history world <;> dsimp only at history world
  · exact ⟨es, history, false, [], by rw [beats, List.append_nil]; rfl, .refused⟩
  -- the operation is called on the caller that the hook has left
  obtain ⟨history', left⟩ := b.poll_history i w₁
  have world' := (b.poll_replays i).world history'
  rw [show w₁.caller = replay b.answer w.caller es from congrArg World.caller world] at left
  simp only [Act.bind_apply]
  rcases hp : b.poll i w₁ with ⟨e | o, w₂⟩ <;> rw [hp] at history' left world' <;>
    dsimp only at history' world'
  · refine ⟨es ++ [Event.polled i], by simp [history', history], true, [.polled i], ?_, .polled .silent⟩
    rw [beatsOf_append, beats]
    rfl
  -- of all attempts only this one has left an outcome
  obtain ⟨leaves, here, only⟩ : ∃ leaves : Nat → Outcome → Prop, leaves i o ∧
      ∀ j x, leaves j x → j = i ∧ x = o := ⟨fun j x => j = i ∧ x = o, ⟨rfl, rfl⟩, fun _ _ => id⟩
  obtain ⟨later, history'', keeps⟩ := judge_keeps (b := b) first here started w₂
  simp only [Act.bind_apply] at history'' keeps
  refine ⟨es ++ Event.polled i :: later, ?_, ?_⟩
  · simp only [history'', history', history, List.append_assoc, List.singleton_append]
  · rw [beatsOf_append, beats]
    refine Keeps.mono keeps ?_ fun d cut => ?_
    · intro j x leaves
      obtain ⟨rfl, rfl⟩ := only j x leaves
      exact ⟨es, later, rfl, left x rfl⟩
    · have caller : w₂.caller = replay b.answer w.caller (es ++ [Event.polled i]) := by
        rw [world', world, replay_append]
      rw [caller] at cut
      have cuts := cut.after
      rwa [List.append_assoc] at cuts

/-- The beats of a run from an attempt on keep to the protocol, behind whole rounds; and a conclusion
reports the latest attempt. -/
theorem rounds_follow (started : Value) {left n : Nat} (attempts : left + n = b.waiter.strategy.limit)
    (more : 1 ≤ left) {c : Caller σ} {es : List Event} (w : World σ)
    (caller : w.caller = replay b.answer c es)
    (before : (b.protocol (b.Leaves c es) (b.Cuts c es)).Cycles n (beatsOf es)) : ∃ later k called,
    (b.rounds started left (n + 1) w).2.history = w.history ++ later ∧
      (b.protocol (b.Leaves c (es ++ later)) (b.Cuts c (es ++ later))).Follows k called (beatsOf (es ++ later)) ∧
      ∀ conclusion, (b.rounds started left (n + 1) w).1 = .ok conclusion →
        called = true ∧ conclusion.attempts = .int k := by
  induction left generalizing n w es with
  | zero => omega
  | succ left ih =>
    obtain ⟨later, world, keeps⟩ := b.round_keeps started (show 1 ≤ n + 1 by omega) w
    have knows : ∀ i o, b.Leaves w.caller later i o → b.Leaves c (es ++ later) i o := by
      intro i o leaves
      rw [caller] at leaves
      exact leaves.after
    have still : ∀ d, b.Cuts w.caller later d → b.Cuts c (es ++ later) d := by
      intro d cut
      rw [caller] at cut
      exact cut.after
    have rounds : (b.protocol (b.Leaves c (es ++ later)) (b.Cuts c (es ++ later))).Cycles n (beatsOf es) :=
      before.mono fun i o leaves => leaves.append later
    rw [Blocking.rounds, Act.bind_apply]
    rcases hr : b.round started (n + 1) w with ⟨e | _ | conclusion, w'⟩ <;> rw [hr] at world keeps
    · obtain ⟨called, es', split, closes⟩ := keeps
      refine ⟨later, n + 1, called, congrArg World.history world, ?_, ?_⟩
      · rw [beatsOf_append, split]
        exact .latest rounds (closes.mono knows still)
      · rintro _ ⟨⟩
    · -- another round follows
      obtain ⟨o, d, leaves, limit, split⟩ := keeps
      have cycles : (b.protocol (b.Leaves c (es ++ later)) (b.Cuts c (es ++ later))).Cycles (n + 1) (beatsOf (es ++ later)) := by
        rw [beatsOf_append, split]
        exact .round rounds (knows _ _ leaves) limit
      have limit' : n + 1 < b.waiter.strategy.limit := limit
      obtain ⟨rest, k, called, history, follows, concludes⟩ := ih (n := n + 1) (by omega) (by omega) w'
        (by rw [replay_append, ← caller]; exact congrArg World.caller world) cycles
      refine ⟨later ++ rest, k, called, ?_, by rw [← List.append_assoc]; exact follows, concludes⟩
      show (b.rounds started left (n + 1 + 1) w').2.history = _
      rw [history, show w'.history = _ from congrArg World.history world, List.append_assoc]
    · obtain ⟨attempts, es', split, judged⟩ := keeps
      refine ⟨later, n + 1, true, congrArg World.history world, ?_, ?_⟩
      · rw [beatsOf_append, split]
        exact .latest rounds (.polled (judged.mono knows still))
      · intro conclusion' same
        obtain rfl := Except.ok.inj same
        exact ⟨rfl, attempts⟩

/-- A run keeps to the protocol, and its conclusion reports the latest attempt. -/
theorem run_follows (w : World σ) : ∃ es k called, (b.run w).2.history = w.history ++ es ∧
    (b.protocol (b.Leaves w.caller es) (b.Cuts w.caller es)).Follows k called (beatsOf es) ∧
    ∀ conclusion, (b.run w).1 = .ok conclusion → called = true ∧ conclusion.attempts = .int k :=
  b.rounds_follow (.real (b.clock w.caller.state)) (Nat.add_zero _) b.waiter.strategy.limit_pos w
    (show w.caller = replay b.answer w.caller [] from rfl) .start

/-- No round goes on behind the last attempt. -/
theorem lt_limit_of_round (started : Value) {i : Nat} (first : 1 ≤ i) {w w' : World σ}
    (h : b.round started i w = (.ok none, w')) : i < b.waiter.strategy.limit := by
  obtain ⟨es, -, keeps⟩ := b.round_keeps started first w
  rw [h] at keeps
  obtain ⟨o, d, -, limit, -⟩ := keeps
  exact limit

/-- The attempts are counted down in vain: with more of them, a run would be the same. -/
theorem rounds_add (started : Value) {left i : Nat} (first : 1 ≤ i)
    (attempts : left + i = b.waiter.strategy.limit + 1) (more : 1 ≤ left) (extra : Nat) (w : World σ) :
    b.rounds started (left + extra) i w = b.rounds started left i w := by
  induction left generalizing i w with
  | zero => omega
  | succ left ih =>
    rw [show left + 1 + extra = left + extra + 1 by omega, rounds, rounds, Act.bind_apply, Act.bind_apply]
    rcases hr : b.round started i w with ⟨e | _ | conclusion, w'⟩
    · rfl
    · have limit := b.lt_limit_of_round started first hr
      exact ih (by omega) (by omega) (by omega) w'
    · rfl

end Blocking

end Polling
