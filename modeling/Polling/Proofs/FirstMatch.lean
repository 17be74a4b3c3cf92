import Polling.Acceptor.Basic

/-!
# The first match decides

A decision calls matchers and nothing else, so it is told by three things: which matchers there are to
call, on which caller each of them is called, and which of them ends the decision. `fitting` are the
acceptors that examine outcomes of the sort at hand, each with its position; `callerAfter` is the caller
that some of them have left, for a matcher may keep a state; and `Passes` says that none of them has ended
the decision. `Decides` puts these together: it has one case for a matcher that raises a fault, one for a
matcher that accepts, and one for a list without either.

`decideFrom_decides` says that every decision comes about in this way. For lists put one behind the other
it follows that the second one is asked only if the first has no answer (`decideFrom_append`), and then it
is asked as it would be by itself, only that its positions are others (`decideFrom_moved`).
-/

namespace Polling

/-! ## How a decision comes about -/

/-- The acceptors of a list that examine an outcome, with their positions. -/
def fitting (position : Nat) (acceptors : List (Acceptor σ)) (o : Outcome) :
    List (Acceptor σ × Nat) :=
  (acceptors.zipIdx position).filter fun p => p.1.subject.fits o

/-- The caller when some matchers have been called on an outcome, one after the other. -/
def callerAfter (o : Outcome) (c : Caller σ) (asked : List (Acceptor σ × Nat)) : Caller σ :=
  asked.foldl (fun c p => (p.1.matcher o.payload c).2) c

/-- The calls of some matchers on an outcome. -/
def examinations (o : Outcome) (asked : List (Acceptor σ × Nat)) : List Event :=
  asked.map fun p => .examined p.2 o.payload

/-- Each of some matchers, called one after the other, returns something that reads as false. -/
def Passes (o : Outcome) (c : Caller σ) (asked : List (Acceptor σ × Nat)) : Prop :=
  ∀ before p after, asked = before ++ p :: after →
    ∃ x, (p.1.matcher o.payload (callerAfter o c before)).1 = .ok x ∧ x.truthy = false

/-- A decision on an outcome, the matchers that there are to call given. Those in front of the one that
ends the decision return something false; those behind it are not called. -/
inductive Decides (o : Outcome) (w : World σ) (fits : List (Acceptor σ × Nat)) :
    Except Fault (Option Verdict) × World σ → Prop where
  /-- A matcher raises a fault, and so does the decision. -/
  | raises {before a i after e c} (split : fits = before ++ (a, i) :: after)
      (passed : Passes o w.caller before)
      (raised : a.matcher o.payload (callerAfter o w.caller before) = (.error e, c)) :
      Decides o w fits (.error e, ⟨c, w.history ++ examinations o (before ++ [(a, i)])⟩)
  /-- A matcher returns something true, and the verdict of its acceptor is the answer. -/
  | accepts {before a i after x c} (split : fits = before ++ (a, i) :: after)
      (passed : Passes o w.caller before)
      (returned : a.matcher o.payload (callerAfter o w.caller before) = (.ok x, c))
      (true_ : x.truthy = true) :
      Decides o w fits (.ok (some a.verdict),
        ⟨c, w.history ++ examinations o (before ++ [(a, i)]) ++ [.note (.matched a.verdict)]⟩)
  /-- All matchers return something false, and there is no answer. -/
  | unmatched (passed : Passes o w.caller fits) :
      Decides o w fits (.ok none,
        ⟨callerAfter o w.caller fits, w.history ++ examinations o fits ++ [.note .unmatched]⟩)

theorem passes_nil (o : Outcome) (c : Caller σ) : Passes o c [] := by
  intro before p after split
  simp at split

/-- A matcher that returns something false may be called in front of others. -/
theorem Passes.cons {o : Outcome} {c c' : Caller σ} {p : Acceptor σ × Nat} {x : Object}
    {asked : List (Acceptor σ × Nat)} (h : Passes o c' asked)
    (returned : p.1.matcher o.payload c = (.ok x, c')) (passed : x.truthy = false) :
    Passes o c (p :: asked) := by
  intro before q after split
  cases before with
  | nil =>
    obtain ⟨rfl, rfl⟩ := List.cons.inj split
    exact ⟨x, congrArg Prod.fst returned, passed⟩
  | cons p' before =>
    obtain ⟨rfl, rest⟩ := List.cons.inj split
    have next : callerAfter o c (p :: before) = callerAfter o c' before := by
      rw [callerAfter, List.foldl_cons, returned, callerAfter]
    rw [next]
    exact h before q after rest

/-- So may it in front of a decision. -/
theorem Decides.cons {o : Outcome} {w : World σ} {a : Acceptor σ} {i : Nat} {x : Object} {c : Caller σ}
    {fits : List (Acceptor σ × Nat)} {r : Except Fault (Option Verdict) × World σ}
    (returned : a.matcher o.payload w.caller = (.ok x, c)) (passed : x.truthy = false)
    (h : Decides o ⟨c, w.history ++ [Event.examined i o.payload]⟩ fits r) : Decides o w ((a, i) :: fits) r := by
  have behind : ∀ asked, callerAfter o w.caller ((a, i) :: asked) = callerAfter o c asked := by
    intro asked
    rw [callerAfter, List.foldl_cons, returned, callerAfter]
  have calls : ∀ asked : List (Acceptor σ × Nat),
      w.history ++ [Event.examined i o.payload] ++ examinations o asked =
        w.history ++ examinations o ((a, i) :: asked) := by
    intro asked
    simp [examinations]
  -- the acceptor in front is one more of those that have passed, whatever ends the decision
  cases h with
  | @raises before a' i' after e c' split passed' raised =>
    rw [calls]
    rw [← behind] at raised
    exact .raises (by rw [split, List.cons_append]) (passed'.cons returned passed) raised
  | @accepts before a' i' after x' c' split passed' returned' true_ =>
    rw [calls]
    rw [← behind] at returned'
    exact .accepts (by rw [split, List.cons_append]) (passed'.cons returned passed) returned' true_
  | unmatched passed' =>
    rw [calls, ← behind]
    exact .unmatched (passed'.cons returned passed)

/-! ## One acceptor -/

/-- The matcher of an acceptor that examines the outcome is called, and its answer read. -/
theorem Acceptor.accepts_of_fits {a : Acceptor σ} {o : Outcome} (fits : a.subject.fits o = true)
    (position : Nat) (w : World σ) :
    a.accepts position o w = ((a.matcher o.payload w.caller).1.map Object.truthy,
      ⟨(a.matcher o.payload w.caller).2, w.history ++ [Event.examined position o.payload]⟩) := by
  rw [Acceptor.accepts, if_pos fits, Act.bind_apply, Act.call_apply]
  rcases a.matcher o.payload w.caller with ⟨e | x, c⟩ <;> rfl

/-- An acceptor for the other sort of outcome does nothing. -/
theorem Acceptor.accepts_of_not_fits {a : Acceptor σ} {o : Outcome} (unfit : a.subject.fits o = false)
    (position : Nat) (w : World σ) : a.accepts position o w = (.ok false, w) := by
  rw [Acceptor.accepts, unfit]
  rfl

theorem fitting_cons_of_fits {a : Acceptor σ} {o : Outcome} (fits : a.subject.fits o = true)
    (position : Nat) (rest : List (Acceptor σ)) :
    fitting position (a :: rest) o = (a, position) :: fitting (position + 1) rest o := by
  simp [fitting, List.zipIdx_cons, fits]

theorem fitting_cons_of_not_fits {a : Acceptor σ} {o : Outcome} (unfit : a.subject.fits o = false)
    (position : Nat) (rest : List (Acceptor σ)) :
    fitting position (a :: rest) o = fitting (position + 1) rest o := by
  simp [fitting, List.zipIdx_cons, unfit]

/-! ## The head of a list -/

section Head

variable {a : Acceptor σ} {o : Outcome} (position : Nat) (rest : List (Acceptor σ)) {w : World σ}

/-- The first acceptor settles the decision, or leaves it to the others. -/
theorem decideFrom_cons (a : Acceptor σ) (o : Outcome) (w : World σ) :
    decideFrom position (a :: rest) o w = match a.accepts position o w with
      | (.ok true, w') =>
        (.ok (some a.verdict), { w' with history := w'.history ++ [Event.note (.matched a.verdict)] })
      | (.ok false, w') => decideFrom (position + 1) rest o w'
      | (.error e, w') => (.error e, w') := by
  rw [decideFrom, Act.bind_apply]
  rcases a.accepts position o w with ⟨e | accepted, w'⟩
  · rfl
  · cases accepted <;> rfl

/-- An acceptor for the other sort of outcome is passed over. -/
theorem decideFrom_cons_of_not_fits (unfit : a.subject.fits o = false) (w : World σ) :
    decideFrom position (a :: rest) o w = decideFrom (position + 1) rest o w := by
  rw [decideFrom_cons, a.accepts_of_not_fits unfit]

/-- A fault of its matcher is the end. -/
theorem decideFrom_cons_of_raises (fits : a.subject.fits o = true) {e : Fault} {c : Caller σ}
    (raised : a.matcher o.payload w.caller = (.error e, c)) :
    decideFrom position (a :: rest) o w =
      (.error e, ⟨c, w.history ++ [Event.examined position o.payload]⟩) := by
  rw [decideFrom_cons, a.accepts_of_fits fits, raised]
  rfl

/-- So is something true. -/
theorem decideFrom_cons_of_true (fits : a.subject.fits o = true) {x : Object} {c : Caller σ}
    (returned : a.matcher o.payload w.caller = (.ok x, c)) (true_ : x.truthy = true) :
    decideFrom position (a :: rest) o w = (.ok (some a.verdict),
      ⟨c, w.history ++ [Event.examined position o.payload] ++ [Event.note (.matched a.verdict)]⟩) := by
  rw [decideFrom_cons, a.accepts_of_fits fits, returned, Except.map, true_]

/-- Something false leaves the decision to the others. -/
theorem decideFrom_cons_of_false (fits : a.subject.fits o = true) {x : Object} {c : Caller σ}
    (returned : a.matcher o.payload w.caller = (.ok x, c)) (passed : x.truthy = false) :
    decideFrom position (a :: rest) o w =
      decideFrom (position + 1) rest o ⟨c, w.history ++ [Event.examined position o.payload]⟩ := by
  rw [decideFrom_cons, a.accepts_of_fits fits, returned, Except.map, passed]

end Head

/-! ## The whole list -/

/-- Every decision comes about as `Decides` says. -/
theorem decideFrom_decides (position : Nat) (acceptors : List (Acceptor σ)) (o : Outcome) (w : World σ) :
    Decides o w (fitting position acceptors o) (decideFrom position acceptors o w) := by
  -- by induction on the list; each matcher finds the caller that those in front of it have left
  induction acceptors generalizing position w with
  | nil =>
    have asked : Decides o w [] _ := .unmatched (passes_nil o w.caller)
    rw [show examinations o ([] : List (Acceptor σ × Nat)) = [] from rfl, List.append_nil] at asked
    exact asked
  | cons a rest ih =>
    cases fits : a.subject.fits o with
    | false =>
      rw [decideFrom_cons_of_not_fits position rest fits, fitting_cons_of_not_fits fits]
      exact ih (position + 1) w
    | true =>
      rw [fitting_cons_of_fits fits]
      rcases hm : a.matcher o.payload w.caller with ⟨e | x, c⟩
      · rw [decideFrom_cons_of_raises position rest fits hm]
        exact .raises (List.nil_append _).symm (passes_nil o w.caller) hm
      · cases hx : x.truthy with
        | true =>
          rw [decideFrom_cons_of_true position rest fits hm hx]
          exact .accepts (List.nil_append _).symm (passes_nil o w.caller) hm hx
        | false =>
          rw [decideFrom_cons_of_false position rest fits hm hx]
          exact .cons hm hx (ih (position + 1) _)

/-- An entry, the positions of matchers moved on. -/
def Event.moved (n : Nat) : Event → Event
  | .examined i payload => .examined (i + n) payload
  | e => e

/-- A decision does not look at the history, and positions are nothing but names to it. -/
theorem decideFrom_moved (n position : Nat) (acceptors : List (Acceptor σ)) (o : Outcome) (w : World σ)
    (history : List Event) : ∃ es,
    (decideFrom position acceptors o w).2.history = w.history ++ es ∧
      decideFrom (position + n) acceptors o { w with history } =
        ((decideFrom position acceptors o w).1,
          ⟨(decideFrom position acceptors o w).2.caller, history ++ es.map (Event.moved n)⟩) := by
  induction acceptors generalizing position w history with
  | nil => exact ⟨[.note .unmatched], rfl, rfl⟩
  | cons a rest ih =>
    cases fits : a.subject.fits o with
    | false =>
      rw [decideFrom_cons_of_not_fits _ _ fits, decideFrom_cons_of_not_fits _ _ fits, Nat.add_right_comm]
      exact ih (position + 1) w history
    | true =>
      rcases hm : a.matcher o.payload w.caller with ⟨e | x, c⟩
      · rw [decideFrom_cons_of_raises _ _ fits hm,
          decideFrom_cons_of_raises (w := { w with history }) _ _ fits hm]
        exact ⟨[.examined position o.payload], rfl, rfl⟩
      · cases hx : x.truthy with
        | true =>
          rw [decideFrom_cons_of_true _ _ fits hm hx,
            decideFrom_cons_of_true (w := { w with history }) _ _ fits hm hx]
          exact ⟨[.examined position o.payload, .note (.matched a.verdict)], by simp,
            by simp [Event.moved]⟩
        | false =>
          rw [decideFrom_cons_of_false _ _ fits hm hx,
            decideFrom_cons_of_false (w := { w with history }) _ _ fits hm hx, Nat.add_right_comm]
          obtain ⟨es, left, same⟩ := ih (position + 1) ⟨c, w.history ++ [Event.examined position o.payload]⟩
            (history ++ [Event.examined (position + n) o.payload])
          -- the matcher has left both with the same caller, so the rest decides alike
          refine ⟨.examined position o.payload :: es, ?_, ?_⟩
          · rw [left]
            simp
          · rw [same]
            simp [Event.moved]

/-- Of two lists, one behind the other, the second is asked only if the first has no answer. -/
theorem decideFrom_append (position : Nat) (A B : List (Acceptor σ)) (o : Outcome) (w : World σ) :
    ((decideFrom position A o w).1 ≠ .ok none →
      decideFrom position (A ++ B) o w = decideFrom position A o w) ∧
    ((decideFrom position A o w).1 = .ok none → ∃ es,
      (decideFrom position A o w).2.history = w.history ++ es ++ [Event.note .unmatched] ∧
      decideFrom position (A ++ B) o w = decideFrom (position + A.length) B o
        ⟨(decideFrom position A o w).2.caller, w.history ++ es⟩) := by
  induction A generalizing position w with
  | nil =>
    -- that nothing has matched is noted only where no list is behind
    refine ⟨fun h => absurd rfl h, fun _ => ⟨[], ?_, ?_⟩⟩
    · simp [decideFrom, Act.bind_apply, Act.note]
    · simp [decideFrom, Act.bind_apply, Act.note]
  | cons a rest ih =>
    rw [List.cons_append, List.length_cons]
    cases fits : a.subject.fits o with
    | false =>
      rw [decideFrom_cons_of_not_fits _ _ fits, decideFrom_cons_of_not_fits _ _ fits, ← Nat.add_assoc,
        Nat.add_right_comm]
      exact ih (position + 1) w
    | true =>
      rcases hm : a.matcher o.payload w.caller with ⟨e | x, c⟩
      · rw [decideFrom_cons_of_raises _ _ fits hm, decideFrom_cons_of_raises _ _ fits hm]
        exact ⟨fun _ => rfl, fun h => nomatch h⟩
      · cases hx : x.truthy with
        | true =>
          rw [decideFrom_cons_of_true _ _ fits hm hx, decideFrom_cons_of_true _ _ fits hm hx]
          exact ⟨fun _ => rfl, fun h => nomatch Except.ok.inj h⟩
        | false =>
          rw [decideFrom_cons_of_false _ _ fits hm hx, decideFrom_cons_of_false _ _ fits hm hx]
          obtain ⟨settled, open_⟩ := ih (position + 1) ⟨c, w.history ++ [Event.examined position o.payload]⟩
          refine ⟨settled, fun h => ?_⟩
          obtain ⟨es, left, goesOn⟩ := open_ h
          refine ⟨.examined position o.payload :: es, by rw [left]; simp, ?_⟩
          rw [goesOn, show position + 1 + rest.length = position + (rest.length + 1) by omega]
          simp

/-- The first match decides. A decision calls the matchers of the acceptors that examine the outcome, in
their order and once each, up to the first one that raises a fault or returns something true, and comes to
the fault or to the verdict that belongs to it. So a list in front of another leaves the other out of
account if it has an answer or raises a fault; if it has none, the other is asked on the caller that
the first has left. -/
theorem first_match_wins (o : Outcome) (w : World σ) :
    (∀ acceptors : List (Acceptor σ), Decides o w (fitting 0 acceptors o) (decide acceptors o w)) ∧
    ∀ A B : List (Acceptor σ),
      ((decide A o w).1 ≠ .ok none → decide (A ++ B) o w = decide A o w) ∧
      ((decide A o w).1 = .ok none → ∃ es es',
        (decide A o w).2.history = w.history ++ es ++ [.note .unmatched] ∧
        (decide B o (decide A o w).2).2.history = (decide A o w).2.history ++ es' ∧
        decide (A ++ B) o w = ((decide B o (decide A o w).2).1,
          ⟨(decide B o (decide A o w).2).2.caller, w.history ++ es ++ es'.map (Event.moved A.length)⟩)) := by
  refine ⟨fun acceptors => decideFrom_decides 0 acceptors o w, fun A B => ?_⟩
  obtain ⟨settled, open_⟩ := decideFrom_append 0 A B o w
  refine ⟨settled, fun unmatched => ?_⟩
  obtain ⟨es, left, goesOn⟩ := open_ unmatched
  obtain ⟨es', left', same⟩ := decideFrom_moved A.length 0 B o (decide A o w).2 (w.history ++ es)
  refine ⟨es, es', left, left', ?_⟩
  show decideFrom 0 (A ++ B) o w = _
  rw [goesOn]
  exact same

/-! ## An example -/

/-- A matcher that counts its calls and gives an answer. -/
def Matcher.counting (answer : Object) : Matcher Nat :=
  fun _ c => (.ok answer, { c with state := c.state + 1 })

/-- It matches everything. -/
def Matcher.yes : Matcher Nat := counting (.value (.flag true))

/-- It matches nothing. -/
def Matcher.no : Matcher Nat := counting (.value .null)

/-- Of a list with an acceptor of faults, one that does not match and one that does, the last two are asked
about a value. A list behind one that has an answer is not asked, and a list behind one that has none is
asked on the caller that the first has left. -/
theorem first_match_wins_counted :
    Decides (.returned .null) ⟨⟨0, 0, []⟩, []⟩ [(.onValue .failure .no, 1), (.onValue .success .yes, 2)]
      (.ok (some .success), ⟨⟨2, 0, []⟩, [.examined 1 (.value .null), .examined 2 (.value .null),
        .note (.matched .success)]⟩) ∧
    (decide ([.onValue .retry .yes] ++ [.onValue .success fun _ => throw (.plain .value [])])
      (.returned .null) ⟨⟨0, 0, []⟩, []⟩).2.caller.state = 1 ∧
    (decide ([.onValue .retry .no] ++ [.onValue .success .yes]) (.returned .null)
      ⟨⟨0, 0, []⟩, []⟩).2.caller.state = 2 := by
  obtain ⟨decides, ordered⟩ := first_match_wins (.returned .null) (⟨⟨0, 0, []⟩, []⟩ : World Nat)
  refine ⟨?_, ?_, ?_⟩
  · exact decides [.onFault .failure fun _ => throw (.plain .value []), .onValue .failure .no,
      .onValue .success .yes]
  · rw [(ordered [.onValue .retry .yes] _).1 nofun]
    decide
  · obtain ⟨es, es', -, -, behind⟩ := (ordered [.onValue .retry .no] [.onValue .success .yes]).2 rfl
    rw [behind]
    rfl

end Polling
