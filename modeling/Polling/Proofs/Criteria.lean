import Polling.Proofs.FirstMatch
import Polling.Proofs.Transitions

/-!
# Acceptors whose matchers are functions

Where matchers are functions of what they examine, whether an acceptor matches an outcome is a fact about
the two, and what a list of them answers is the verdict of the first one that matches. `FirstVerdict` says
this without mention of a run. A decision comes to the first verdict, leaves the caller as it was and enters
nothing but which matchers it has called (`decideFrom_of_isPure`).

So two lists are as good as each other if they have the same first verdicts. `Reorders` is the condition on
the order of acceptors under which they have: acceptors that name different verdicts and can match the same
outcome stay in their order. `Padded` is about lists of which one has more acceptors than the other,
which say of values to wait. They need not have the same first verdicts, but the same `effective` ones: a
value without a verdict counts as one to wait for.
-/

namespace Polling

/-! ## Lists of acceptors that are functions -/

/-- A matcher is a function of what it examines: it raises nothing and does nothing else. -/
def Matcher.IsPure (m : Matcher σ) : Prop := ∃ answer : Object → Object, ∀ x, m x = pure (answer x)

theorem Matcher.isPure_of_forall {m : Matcher σ} (h : ∀ x, ∃ y, m x = pure y) : m.IsPure :=
  ⟨fun x => (h x).choose, fun x => (h x).choose_spec⟩

namespace Acceptor

/-- An acceptor matches an outcome. -/
def Matches (a : Acceptor σ) (o : Outcome) : Prop :=
  a.subject.fits o = true ∧ ∃ x : Object, a.matcher o.payload = pure x ∧ x.truthy = true

/-- Two acceptors that name different verdicts can match the same outcome. -/
def Clash (a b : Acceptor σ) : Prop := a.verdict ≠ b.verdict ∧ ∃ o, a.Matches o ∧ b.Matches o

theorem not_matches_of_not_fits {a : Acceptor σ} {o : Outcome} (unfit : a.subject.fits o = false) :
    ¬ a.Matches o := by
  rintro ⟨fits, -⟩
  exact absurd fits (by rw [unfit]; exact Bool.false_ne_true)

/-- Acceptors of values and acceptors of faults do not clash. -/
theorem not_clash_of_subject {a b : Acceptor σ} (h : a.subject ≠ b.subject) : ¬ a.Clash b := by
  rintro ⟨-, o, ⟨fits, -⟩, ⟨fits', -⟩⟩
  cases hs : a.subject <;> cases ht : b.subject <;> cases o <;>
    simp [hs, ht, Subject.fits] at h fits fits'

/-- On a caller at hand, an acceptor matches only if its matcher returns something true. -/
theorem Matches.truthy {a : Acceptor σ} {o : Outcome} (h : a.Matches o) {c c' : Caller σ} {x : Object}
    (returned : a.matcher o.payload c = (.ok x, c')) : x.truthy = true := by
  obtain ⟨-, y, answers, true_⟩ := h
  rw [answers] at returned
  obtain rfl := Except.ok.inj (congrArg Prod.fst returned)
  exact true_

/-- A matcher that gives a truth value says whether the acceptor matches what it examines. -/
theorem matches_iff_of_flag {a : Acceptor σ} {o : Outcome} {b : Bool}
    (answers : a.matcher o.payload = pure (.value (.flag b))) (c : Caller σ) :
    a.Matches o ↔ a.subject.fits o = true ∧ b = true := by
  have returned : a.matcher o.payload c = (.ok (.value (.flag b)), c) := by
    rw [answers, Code.pure_apply]
  constructor
  · exact fun matched => ⟨matched.1, matched.truthy returned⟩
  · rintro ⟨fits, rfl⟩
    exact ⟨fits, _, answers, rfl⟩

end Acceptor

/-- The answer of a list to an outcome: the verdict of the first acceptor that matches, if one does. -/
inductive FirstVerdict (o : Outcome) : List (Acceptor σ) → Option Verdict → Prop where
  | nil : FirstVerdict o [] none
  | here {a : Acceptor σ} (matched : a.Matches o) (rest : List (Acceptor σ)) :
    FirstVerdict o (a :: rest) (some a.verdict)
  | later {a : Acceptor σ} {rest : List (Acceptor σ)} {s : Option Verdict} (passed : ¬ a.Matches o)
    (h : FirstVerdict o rest s) : FirstVerdict o (a :: rest) s

/-- Entries of a decision: which matchers are called, and what the log says of it. -/
def Event.isDeciding : Event → Bool
  | .examined _ _ => true
  | .note _ => true
  | _ => false

/-- A decision comes to the first verdict, and leaves the caller as it was. -/
theorem decideFrom_of_isPure (position : Nat) {A : List (Acceptor σ)}
    (function : ∀ a ∈ A, a.matcher.IsPure) (o : Outcome) (w : World σ) : ∃ s es,
      decideFrom position A o w = (.ok s, { w with history := w.history ++ es }) ∧
        FirstVerdict o A s ∧ ∀ e ∈ es, e.isDeciding = true := by
  induction A generalizing position w with
  | nil => exact ⟨none, [.note .unmatched], rfl, .nil, by simp [Event.isDeciding]⟩
  | cons a rest ih =>
    obtain ⟨answer, answers⟩ := function a List.mem_cons_self
    have goesOn := ih (position + 1) fun b hb => function b (List.mem_cons_of_mem a hb)
    have returned : a.matcher o.payload w.caller = (.ok (answer o.payload), w.caller) := by
      rw [answers, Code.pure_apply]
    -- a matcher that is a function leaves the caller to the rest of the list as it was
    cases fits : a.subject.fits o with
    | false =>
      rw [decideFrom_cons_of_not_fits _ _ fits]
      obtain ⟨s, es, decided, first, deciding⟩ := goesOn w
      exact ⟨s, es, decided, .later (Acceptor.not_matches_of_not_fits fits) first, deciding⟩
    | true =>
      cases truthy : (answer o.payload).truthy with
      | true =>
        rw [decideFrom_cons_of_true _ _ fits returned truthy]
        exact ⟨some a.verdict, [.examined position o.payload, .note (.matched a.verdict)], by simp,
          .here ⟨fits, _, answers _, truthy⟩ rest, by simp [Event.isDeciding]⟩
      | false =>
        rw [decideFrom_cons_of_false _ _ fits returned truthy]
        obtain ⟨s, es, decided, first, deciding⟩ :=
          goesOn { w with history := w.history ++ [Event.examined position o.payload] }
        have passed : ¬ a.Matches o := fun matched =>
          absurd (matched.truthy returned) (by rw [truthy]; exact Bool.false_ne_true)
        refine ⟨s, .examined position o.payload :: es, ?_, .later passed first,
          by simpa [Event.isDeciding] using deciding⟩
        rw [decided, List.append_assoc]
        rfl

/-! ## First verdicts -/

namespace FirstVerdict

variable {o : Outcome} {A B : List (Acceptor σ)} {s t : Option Verdict}

/-- There is one answer. -/
theorem unique (h : FirstVerdict o A s) (h' : FirstVerdict o A t) : s = t := by
  induction h with
  | nil => cases h'; rfl
  | here matched rest =>
    cases h' with
    | here _ _ => rfl
    | later passed _ => exact absurd matched passed
  | later passed _ ih =>
    cases h' with
    | here matched _ => exact absurd matched passed
    | later _ h' => exact ih h'

/-- Without an answer, no acceptor matches. -/
theorem not_matches (h : FirstVerdict o A none) (i : Fin A.length) : ¬ A[i].Matches o := by
  induction A with
  | nil => exact i.elim0
  | cons a rest ih =>
    cases h with
    | later passed h =>
      cases i using Fin.cases with
      | zero => exact passed
      | succ i => exact ih h i

/-- With an answer, there is a first acceptor that matches. -/
theorem exists_first {v : Verdict} (h : FirstVerdict o A (some v)) :
    ∃ i : Fin A.length, A[i].Matches o ∧ A[i].verdict = v ∧ ∀ j < i, ¬ A[j].Matches o := by
  induction A with
  | nil => exact nomatch h
  | cons a rest ih =>
    cases h with
    | here matched _ => exact ⟨0, matched, rfl, fun j before => absurd before (Fin.not_lt_zero j)⟩
    | later passed h =>
      obtain ⟨i, matched, verdict, first⟩ := ih h
      refine ⟨i.succ, matched, verdict, fun j before => ?_⟩
      cases j using Fin.cases with
      | zero => exact passed
      | succ j => exact first j (Fin.succ_lt_succ_iff.1 before)

/-- There is an answer if some acceptor matches. -/
theorem isSome_iff (h : FirstVerdict o A s) : s.isSome = true ↔ ∃ a ∈ A, a.Matches o := by
  induction h with
  | nil => simp
  | here matched rest => simp [matched]
  | later passed h ih => simp [passed, ih]

/-- The answer is the verdict of an acceptor that matches. -/
theorem exists_matches {v : Verdict} (h : FirstVerdict o A (some v)) :
    ∃ a ∈ A, a.Matches o ∧ a.verdict = v := by
  obtain ⟨i, matched, verdict, -⟩ := h.exists_first
  exact ⟨A[i], List.getElem_mem _, matched, verdict⟩

/-- Where the acceptors that match name one verdict, it is the answer. -/
theorem eq_some_iff {v : Verdict} (h : FirstVerdict o A s)
    (one : ∀ a ∈ A, a.Matches o → a.verdict = v) : s = some v ↔ ∃ a ∈ A, a.Matches o := by
  rw [← h.isSome_iff]
  cases s with
  | none => simp
  | some u =>
    obtain ⟨a, ha, matched, rfl⟩ := h.exists_matches
    simp [one a ha matched]

/-- Where no acceptor matches, there is no answer. -/
theorem eq_none (h : FirstVerdict o A s) (passed : ∀ a ∈ A, ¬ a.Matches o) : s = none := by
  cases s with
  | none => rfl
  | some v =>
    obtain ⟨a, ha, matched, -⟩ := h.exists_matches
    exact absurd matched (passed a ha)

/-- Lists that name one verdict, the same one, have the same answer if they match the same outcomes. -/
theorem eq_of_verdict {v : Verdict} (h : FirstVerdict o A s) (h' : FirstVerdict o B t)
    (one : ∀ a ∈ A, a.verdict = v) (one' : ∀ b ∈ B, b.verdict = v)
    (same : (∃ a ∈ A, a.Matches o) ↔ ∃ b ∈ B, b.Matches o) : s = t := by
  by_cases matched : ∃ a ∈ A, a.Matches o
  · rw [(h.eq_some_iff fun a ha _ => one a ha).2 matched,
      (h'.eq_some_iff fun b hb _ => one' b hb).2 (same.1 matched)]
  · rw [h.eq_none fun a ha here => matched ⟨a, ha, here⟩,
      h'.eq_none fun b hb here => matched (same.2 ⟨b, hb, here⟩)]

end FirstVerdict

/-! ## The order of acceptors -/

/-- A list has the acceptors of another one in an order in which those that clash stay as they are. -/
def Reorders (A B : List (Acceptor σ)) : Prop :=
  ∃ e : Fin A.length ≃ Fin B.length, (∀ i, B[e i] = A[i]) ∧
    ∀ i j, i < j → A[i].Clash A[j] → e i < e j

/-- It has no other acceptors. -/
theorem Reorders.subset {A B : List (Acceptor σ)} (h : Reorders A B) : B ⊆ A := by
  obtain ⟨e, same, -⟩ := h
  intro b hb
  obtain ⟨k, inside, rfl⟩ := List.mem_iff_getElem.1 hb
  have there : A[e.symm ⟨k, inside⟩] = B[k] := by simpa using (same (e.symm ⟨k, inside⟩)).symm
  exact there ▸ List.getElem_mem _

/-- Two acceptors that do not clash may change places. -/
theorem reorders_pair {a b : Acceptor σ} (h : ¬ a.Clash b) : Reorders [a, b] [b, a] := by
  refine ⟨(Equiv.swap 0 1 : Fin 2 ≃ Fin 2), ?_, ?_⟩
  · exact Fin.forall_fin_two.2 ⟨rfl, rfl⟩
  · intro i j before clash
    have places : ∀ i j : Fin 2, i < j → i = 0 ∧ j = 1 := by decide
    obtain ⟨rfl, rfl⟩ := places i j before
    exact absurd clash h

/-- Such lists have the same answers. If the acceptors that give them are different ones and name different
verdicts, they clash, and then each is in front of the other. -/
theorem Reorders.firstVerdict {A B : List (Acceptor σ)} (h : Reorders A B) {o : Outcome}
    {s t : Option Verdict} (hA : FirstVerdict o A s) (hB : FirstVerdict o B t) : s = t := by
  obtain ⟨e, same, kept⟩ := h
  have same' : ∀ k, A[e.symm k] = B[k] := fun k => by simpa using (same (e.symm k)).symm
  cases s with
  | none =>
    cases t with
    | none => rfl
    | some v =>
      obtain ⟨k, matched, -, -⟩ := hB.exists_first
      rw [← same'] at matched
      exact absurd matched (hA.not_matches _)
  | some v =>
    obtain ⟨i, matched, rfl, first⟩ := hA.exists_first
    cases t with
    | none =>
      rw [← same] at matched
      exact absurd matched (hB.not_matches _)
    | some u =>
      obtain ⟨k, matched', rfl, first'⟩ := hB.exists_first
      rw [← same'] at matched' ⊢
      rw [← same] at matched
      by_contra differ
      have clash : A[i].Clash A[e.symm k] :=
        ⟨fun verdicts => differ (congrArg some verdicts), o, same i ▸ matched, matched'⟩
      have distinct : i ≠ e.symm k := by
        rintro rfl
        exact differ rfl
      -- neither is behind the other
      have front : ¬ e.symm k < i := fun before => first _ before matched'
      have front' : ¬ e i < k := fun before => first' _ before matched
      have before := kept i (e.symm k) (by omega) clash
      rw [e.apply_symm_apply] at before
      exact front' before

/-- The answer to an outcome is given by those acceptors that examine outcomes of its sort. -/
theorem FirstVerdict.filter {o : Outcome} {A : List (Acceptor σ)} {s : Option Verdict}
    (h : FirstVerdict o A s) : FirstVerdict o (A.filter fun a => a.subject.fits o) s := by
  induction h with
  | nil => exact .nil
  | @here a matched rest =>
    simp only [List.filter_cons, matched.1, if_true]
    exact .here matched _
  | @later a rest s passed h ih =>
    rw [List.filter_cons]
    split
    · exact .later passed ih
    · exact ih

/-- Two acceptors that name the same verdict may be put in either order. -/
theorem FirstVerdict.swap {o : Outcome} {before after : List (Acceptor σ)} {a b : Acceptor σ}
    (verdict : a.verdict = b.verdict) {s : Option Verdict}
    (h : FirstVerdict o (before ++ a :: b :: after) s) :
    FirstVerdict o (before ++ b :: a :: after) s := by
  induction before with
  | nil =>
    cases h with
    | here matched _ =>
      by_cases matched' : b.Matches o
      · exact verdict ▸ .here matched' _
      · exact .later matched' (.here matched _)
    | later passed h =>
      cases h with
      | here matched' _ => exact .here matched' _
      | later passed' h => exact .later passed' (.later passed h)
  | cons c before ih =>
    cases h with
    | here matched _ => exact .here matched _
    | later passed h => exact .later passed (ih h)

/-- How acceptors of values and acceptors of faults are mixed makes no difference. -/
theorem FirstVerdict.of_filter {A B : List (Acceptor σ)}
    (same : ∀ subject, A.filter (·.subject == subject) = B.filter (·.subject == subject)) {o : Outcome}
    {s t : Option Verdict} (hA : FirstVerdict o A s) (hB : FirstVerdict o B t) : s = t := by
  obtain ⟨subject, fits⟩ : ∃ subject, ∀ a : Acceptor σ, a.subject.fits o = (a.subject == subject) := by
    cases o with
    | returned v => exact ⟨.value, fun a => by cases a.subject <;> rfl⟩
    | raised e => exact ⟨.fault, fun a => by cases a.subject <;> rfl⟩
  have hA := hA.filter
  have hB := hB.filter
  simp only [fits] at hA hB
  exact hA.unique (same subject ▸ hB)

/-! ## Acceptors that say of values to wait -/

/-- What an answer to an outcome comes to: a value without a verdict is one to wait for. -/
def effective : Option Verdict → Outcome → Option Verdict
  | none, .returned _ => some .retry
  | s, _ => s

/-- Some acceptors that say of values to wait are put into a list, none of them in front of an acceptor of
values that names another verdict. -/
inductive Padded : List (Acceptor σ) → List (Acceptor σ) → Prop where
  | nil : Padded [] []
  | keep (a : Acceptor σ) {A B : List (Acceptor σ)} (h : Padded A B) : Padded (a :: A) (a :: B)
  | insert {m : Matcher σ} (function : m.IsPure) {A B : List (Acceptor σ)} (h : Padded A B)
    (behind : ∀ a ∈ A, a.subject = .value → a.verdict = .retry) : Padded A (.onValue .retry m :: B)

theorem Padded.isPure {A B : List (Acceptor σ)} (h : Padded A B)
    (function : ∀ a ∈ A, a.matcher.IsPure) : ∀ b ∈ B, b.matcher.IsPure := by
  induction h with
  | nil => exact function
  | keep a h ih =>
    intro b hb
    rcases List.mem_cons.1 hb with rfl | hb
    · exact function b List.mem_cons_self
    · exact ih (fun c hc => function c (List.mem_cons_of_mem a hc)) b hb
  | insert pure_ h behind ih =>
    intro b hb
    rcases List.mem_cons.1 hb with rfl | hb
    · exact pure_
    · exact ih function b hb

/-- In a list whose acceptors of values all say to wait, that is what comes of a value. -/
theorem FirstVerdict.effective_of_retry {A : List (Acceptor σ)} {v : Value} {s : Option Verdict}
    (h : FirstVerdict (.returned v) A s) (waits : ∀ a ∈ A, a.subject = .value → a.verdict = .retry) :
    effective s (.returned v) = some .retry := by
  induction h with
  | nil => rfl
  | @here a matched rest =>
    -- what matches a value examines values
    have value : a.subject = .value := by
      cases subject : a.subject with
      | value => rfl
      | fault => exact absurd matched.1 (by rw [subject]; exact Bool.false_ne_true)
    rw [waits a List.mem_cons_self value]
    rfl
  | later passed h ih => exact ih fun a ha => waits a (List.mem_cons_of_mem _ ha)

/-- The acceptors that are put in make no difference to what an answer comes to. -/
theorem Padded.effective {A B : List (Acceptor σ)} (h : Padded A B) {o : Outcome} {s t : Option Verdict}
    (hA : FirstVerdict o A s) (hB : FirstVerdict o B t) : effective s o = effective t o := by
  induction h generalizing s t with
  | nil => rw [hA.unique hB]
  | keep a h ih =>
    cases hA with
    | here matched _ =>
      cases hB with
      | here _ _ => rfl
      | later passed _ => exact absurd matched passed
    | later passed hA =>
      cases hB with
      | here matched _ => exact absurd matched passed
      | later _ hB => exact ih hA hB
  | insert function h behind ih =>
    cases hB with
    | later _ hB => exact ih hA hB
    | here matched _ =>
      -- what is put in has matched, so the outcome is a value
      cases o with
      | raised e => exact nomatch matched.1
      | returned v => exact hA.effective_of_retry behind

end Polling
