import Mathlib.Data.List.Forall2
import Polling.Acceptor.Web
import Polling.Fault.Construct
import Polling.Proofs.KindPatterns

/-!
# Decisions by web rules

An acceptor that is made of a web rule matches the outcomes that the rule with its codes is about
(`matches_iff_meets`), and its matcher is a function. So the answer of a list of such acceptors can be read off
the rules: on a response it is the verdict of the first rule that has the status code among its codes, on a
fault it is to poll again if some rule is about the fault, and on anything else there is none
(`web_rules_decide`).

No codes mean something else for each sort of rule: a rule on responses is refused, and a rule on
status errors is about all of them. Otherwise a rule is about an outcome if it would be for one of its codes
alone (`meets_iff_exists`). Hence only the set of codes counts of neighbouring rules of one sort.
-/

namespace Polling

namespace WebRule

/-! ## What a rule is about -/

/-- The verdict that the acceptors of a rule name. -/
def verdict : WebRule → Verdict
  | .status v => v
  | .statusError => .retry
  | .transportError => .retry

/-- A status code is one of the codes, by the equality of values. -/
def Among (status : Int) (codes : List Value) : Prop :=
  ∃ c ∈ codes, (Value.int status).equals c = true

instance (status : Int) (codes : List Value) : Decidable (Among status codes) :=
  inferInstanceAs (Decidable (∃ c ∈ codes, (Value.int status).equals c = true))

/-- A rule with its codes is about an outcome. -/
def Meets (r : WebRule) (codes : List Value) (o : Outcome) : Prop :=
  match r, o with
  | .status _, .returned (.response code) => Among code codes
  | .statusError, .raised (.status _ code) => codes = [] ∨ Among code codes
  | .transportError, .raised e => e.isA .transport = true
  | _, _ => False

theorem hasCode_iff_among {codes : List Value} {status : Int} :
    Acceptor.hasCode codes status = true ↔ Among status codes := List.any_eq_true

/-- Faults of the transport, as a pattern. -/
theorem flatten_transport : (KindPattern.kind .transport).flatten = [FaultKind.transport].map some := rfl

/-- With codes, a rule is about what it would be about with one of them alone. -/
theorem meets_iff_exists {r : WebRule} {codes : List Value} (nonempty : codes ≠ []) {o : Outcome} :
    r.Meets codes o ↔ ∃ c ∈ codes, r.Meets [c] o := by
  obtain ⟨first, hfirst⟩ := List.exists_mem_of_ne_nil codes nonempty
  cases r with
  | status v =>
    cases o with
    | raised e => simp [Meets]
    | returned x => cases x <;> simp [Meets, Among]
  | statusError =>
    cases o with
    | returned x => simp [Meets]
    | raised e => cases e <;> simp [Meets, Among, nonempty]
  | transportError =>
    cases o with
    | returned x => simp [Meets]
    | raised e =>
      -- codes make no difference to it
      exact ⟨fun isA => ⟨first, hfirst, isA⟩, fun ⟨_, _, isA⟩ => isA⟩

/-- Of a fault, there are only rules that say to poll again. -/
theorem verdict_of_meets_raised {r : WebRule} {codes : List Value} {e : Fault}
    (h : r.Meets codes (.raised e)) : r.verdict = .retry := by
  cases r with
  | status v => exact h.elim
  | statusError => rfl
  | transportError => rfl

/-- What a rule on status errors is about is one, and no fault of the transport. -/
theorem isA_of_meets_statusError {codes : List Value} {e : Fault}
    (h : WebRule.statusError.Meets codes (.raised e)) :
    e.isA .httpStatus = true ∧ e.isA .transport = false := by
  cases e with
  | status args code =>
    have kinds : FaultKind.httpStatus.isA .httpStatus = true ∧ FaultKind.httpStatus.isA .transport = false := by
      decide
    exact kinds
  | _ => exact h.elim

/-! ## The acceptors of a rule -/

section Acceptor

variable {r : WebRule} {codes : List Value} {a : Acceptor σ}

/-- By status code, at least one code is needed. -/
theorem acceptor_status_eq_ok {v : Verdict} :
    (WebRule.status v).acceptor codes = .ok a ↔
      codes ≠ [] ∧ a = .onValue v (Acceptor.statusMatcher codes) := by
  cases codes with
  | nil => exact iff_of_false (fun h => nomatch h) fun h => h.1 rfl
  | cons c codes =>
    refine ⟨fun h => ⟨List.cons_ne_nil c codes, (Except.ok.inj h).symm⟩, ?_⟩
    rintro ⟨-, rfl⟩
    rfl

theorem acceptor_transportError_eq_ok :
    WebRule.transportError.acceptor codes = .ok a ↔ codes = [] ∧ a = .onKinds .retry (.kind .transport) := by
  cases codes with
  | nil =>
    refine ⟨fun h => ⟨rfl, (Except.ok.inj h).symm⟩, ?_⟩
    rintro ⟨-, rfl⟩
    rfl
  | cons c codes => exact iff_of_false (fun h => nomatch h) fun h => nomatch h.1

theorem verdict_of_acceptor (made : r.acceptor codes = .ok a) : a.verdict = r.verdict := by
  cases r with
  | status v =>
    obtain ⟨-, rfl⟩ := acceptor_status_eq_ok.1 made
    rfl
  | statusError =>
    obtain rfl := Except.ok.inj made
    rfl
  | transportError =>
    obtain ⟨-, rfl⟩ := acceptor_transportError_eq_ok.1 made
    rfl

theorem isPure_of_acceptor (made : r.acceptor codes = .ok a) : a.matcher.IsPure := by
  cases r with
  | status v =>
    obtain ⟨-, rfl⟩ := acceptor_status_eq_ok.1 made
    refine Matcher.isPure_of_forall fun x => ?_
    cases x with
    | fault e => exact ⟨_, rfl⟩
    | value x => cases x <;> exact ⟨_, rfl⟩
  | statusError =>
    obtain rfl := Except.ok.inj made
    refine Matcher.isPure_of_forall fun x => ?_
    cases x with
    | value x => exact ⟨_, rfl⟩
    | fault e => cases e <;> exact ⟨_, rfl⟩
  | transportError =>
    obtain ⟨-, rfl⟩ := acceptor_transportError_eq_ok.1 made
    exact KindPattern.isPure_of_flatten flatten_transport

/-- An acceptor that is made of a rule matches what the rule is about. -/
theorem matches_iff_meets (made : r.acceptor codes = .ok a) (c : Caller σ) (o : Outcome) :
    a.Matches o ↔ r.Meets codes o := by
  -- for each sort of rule, the outcomes that it cannot be about come apart first
  cases r with
  | status v =>
    obtain ⟨-, rfl⟩ := acceptor_status_eq_ok.1 made
    cases o with
    | raised e => exact iff_of_false (Acceptor.not_matches_of_not_fits rfl) id
    | returned x =>
      cases x with
      | response code =>
        rw [Acceptor.matches_iff_of_flag rfl c, hasCode_iff_among]
        exact and_iff_right rfl
      | _ =>
        rw [Acceptor.matches_iff_of_flag rfl c]
        exact iff_of_false (fun h => Bool.false_ne_true h.2) id
  | statusError =>
    obtain rfl := Except.ok.inj made
    cases o with
    | returned x => exact iff_of_false (Acceptor.not_matches_of_not_fits rfl) id
    | raised e =>
      cases e with
      | status args code =>
        rw [Acceptor.matches_iff_of_flag rfl c, Bool.or_eq_true, List.isEmpty_iff, hasCode_iff_among]
        exact and_iff_right rfl
      | _ =>
        rw [Acceptor.matches_iff_of_flag rfl c]
        exact iff_of_false (fun h => Bool.false_ne_true h.2) id
  | transportError =>
    obtain ⟨-, rfl⟩ := acceptor_transportError_eq_ok.1 made
    rw [KindPattern.matches_of_flatten flatten_transport c]
    cases o with
    | returned x => exact iff_of_false (fun h => Bool.false_ne_true h.1) id
    | raised e => simp [Subject.fits, Meets, Fault.isA, Object.kind, Outcome.payload]

end Acceptor

/-! ## Lists of such acceptors -/

/-- The acceptors of a list have been made of rules with their codes, one by one. -/
def Makes (rules : List (WebRule × List Value)) (A : List (Acceptor σ)) : Prop :=
  List.Forall₂ (fun r a => r.1.acceptor r.2 = .ok a) rules A

/-- The verdict of a rule with its codes on responses with a status code. -/
def onResponse (code : Int) : WebRule × List Value → Option Verdict
  | (.status v, codes) => if Among code codes then some v else none
  | _ => none

namespace Makes

variable {rules : List (WebRule × List Value)} {A : List (Acceptor σ)} (h : Makes rules A)
include h

/-- Each of the acceptors has been made of one of the rules. -/
theorem exists_rule {a : Acceptor σ} (ha : a ∈ A) : ∃ r ∈ rules, r.1.acceptor r.2 = .ok a := by
  induction h with
  | nil => simp at ha
  | @cons r b rules A made rest ih =>
    rcases List.mem_cons.1 ha with rfl | ha
    · exact ⟨r, List.mem_cons_self, made⟩
    · obtain ⟨r', hr', made'⟩ := ih ha
      exact ⟨r', List.mem_cons_of_mem r hr', made'⟩

theorem isPure : ∀ a ∈ A, a.matcher.IsPure := by
  intro a ha
  obtain ⟨r, -, made⟩ := h.exists_rule ha
  exact isPure_of_acceptor made

/-- Some acceptor matches if some rule is about the outcome. -/
theorem exists_matches_iff (c : Caller σ) (o : Outcome) :
    (∃ a ∈ A, a.Matches o) ↔ ∃ r ∈ rules, r.1.Meets r.2 o := by
  induction h with
  | nil => simp
  | cons made rest ih => simp only [List.mem_cons, exists_eq_or_imp, ih, matches_iff_meets made c]

/-- The answer to a fault is to poll again, or there is none. -/
theorem eq_retry_of_raised (c : Caller σ) {e : Fault} {s : Option Verdict}
    (first : FirstVerdict (.raised e) A s) {P : Prop} [Decidable P]
    (meets : P ↔ ∃ r ∈ rules, r.1.Meets r.2 (.raised e)) : s = if P then some .retry else none := by
  rw [← h.exists_matches_iff c] at meets
  split
  · next met =>
    refine (first.eq_some_iff fun a ha matched => ?_).2 (meets.1 met)
    obtain ⟨r, -, made⟩ := h.exists_rule ha
    rw [verdict_of_acceptor made]
    exact verdict_of_meets_raised ((matches_iff_meets made c _).1 matched)
  · next unmet => exact first.eq_none fun a ha matched => unmet (meets.2 ⟨a, ha, matched⟩)

/-- The answer to a response is the verdict of the first rule that has one. -/
theorem firstVerdict_response (c : Caller σ) (code : Int) :
    FirstVerdict (.returned (.response code)) A (rules.findSome? (onResponse code)) := by
  induction h with
  | nil => exact .nil
  | @cons r a rules A made rest ih =>
    have meets := matches_iff_meets made c (.returned (.response code))
    obtain ⟨rule, codes⟩ := r
    rw [List.findSome?_cons]
    cases rule with
    | status v =>
      by_cases among : Among code codes
      · rw [onResponse, if_pos among, ← show a.verdict = v from verdict_of_acceptor made]
        exact .here (meets.2 among) A
      · rw [onResponse, if_neg among]
        exact .later (fun matched => among (meets.1 matched)) ih
    | statusError => exact .later meets.1 ih
    | transportError => exact .later meets.1 ih

end Makes

/-- Acceptors that are made of rules of one sort name the verdict of the sort. -/
theorem Makes.verdict_of_sort {rule : WebRule} {css : List (List Value)} {A : List (Acceptor σ)}
    (h : Makes (css.map (rule, ·)) A) : ∀ a ∈ A, a.verdict = rule.verdict := by
  intro a ha
  obtain ⟨r, hr, made⟩ := h.exists_rule ha
  obtain ⟨cs, -, rfl⟩ := List.mem_map.1 hr
  exact verdict_of_acceptor made

/-- What rules of one sort are about together is what the sort is about with one of their codes. -/
theorem exists_meets_iff {rule : WebRule} {css : List (List Value)} (nonempty : [] ∉ css) {o : Outcome} :
    (∃ r ∈ css.map (rule, ·), r.1.Meets r.2 o) ↔ ∃ c ∈ css.flatten, rule.Meets [c] o := by
  have each : ∀ cs ∈ css, (rule.Meets cs o ↔ ∃ c ∈ cs, rule.Meets [c] o) := fun cs hcs =>
    meets_iff_exists fun empty => nonempty (empty ▸ hcs)
  simp only [List.mem_map, exists_exists_and_eq_and, List.mem_flatten]
  constructor
  · rintro ⟨cs, hcs, meets⟩
    obtain ⟨c, hc, meets⟩ := (each cs hcs).1 meets
    exact ⟨c, ⟨cs, hcs, hc⟩, meets⟩
  · rintro ⟨c, ⟨cs, hcs, hc⟩, meets⟩
    exact ⟨cs, hcs, (each cs hcs).2 ⟨c, hc, meets⟩⟩

/-- Of neighbouring rules of one sort, only the set of their codes counts, if none is without codes. -/
theorem sameDecisions_of_codes {rule : WebRule} {css dss : List (List Value)} (nonempty : [] ∉ css)
    (nonempty' : [] ∉ dss) (codes : ∀ c, c ∈ css.flatten ↔ c ∈ dss.flatten) {A B : List (Acceptor σ)}
    (h : Makes (css.map (rule, ·)) A) (h' : Makes (dss.map (rule, ·)) B) : SameDecisions A B := by
  refine SameDecisions.of_firstVerdict h.isPure h'.isPure fun c o s t first first' =>
    first.eq_of_verdict first' h.verdict_of_sort h'.verdict_of_sort ?_
  rw [h.exists_matches_iff c, h'.exists_matches_iff c, exists_meets_iff nonempty, exists_meets_iff nonempty']
  simp only [codes]

end WebRule

/-! ## Status errors -/

namespace FaultKind

theorem ofReason_isA_httpStatus (n : Int) : (ofReason n).isA .httpStatus = false := by
  unfold ofReason
  split <;> decide

theorem refined_isA_httpStatus {asked : FaultKind} (other : asked.isA .httpStatus = false) (number : Value) :
    (asked.refined number).isA .httpStatus = false := by
  unfold refined
  split
  · cases number.number?.bind Number.whole? with
    | none => decide
    | some n => exact ofReason_isA_httpStatus n
  · exact other

/-- No status error is a fault of polling. -/
theorem isA_httpStatus_of_wait : ∀ k ∈ known, k.isA .wait = true → k.isA .httpStatus = false := by
  decide +kernel

end FaultKind

/-- A fault of the operating system is of the kind asked for, or of the one that its reason refines it to. -/
theorem Fault.kind_of_ofSystem {asked : FaultKind} {args : List Value} {e : Fault}
    (made : ofSystem asked args = .ok e) : e.kind = asked ∨ ∃ number, e.kind = asked.refined number := by
  unfold ofSystem at made
  split at made
  · next number reason further =>
    split at made
    · exact .inl (Except.ok.inj made ▸ rfl)
    · refine .inr ⟨number, ?_⟩
      dsimp only at made
      split at made
      · exact Except.ok.inj made ▸ rfl
      · exact Except.ok.inj made ▸ rfl
      · split at made
        · next n _ _ =>
          cases counted : checkCount n with
          | error m => simp [counted, bind, Except.bind] at made
          | ok u =>
            simp only [counted, bind, Except.bind] at made
            exact Except.ok.inj made ▸ rfl
        · exact Except.ok.inj made ▸ rfl
  · exact .inl (Except.ok.inj made ▸ rfl)

namespace FaultRequest

/-- A kind that takes any arguments is no status error. -/
theorem isA_httpStatus_of_signature? {k : FaultKind} (unsigned : signature? k = none) :
    k.isA .httpStatus = false := by
  by_contra h
  simp only [signature?, Bool.eq_true_of_not_eq_false h, if_true] at unsigned
  split at unsigned
  · cases unsigned
  · split at unsigned <;> cases unsigned

/-- Of the known kinds, no status error is made but with the status code of a response. -/
theorem status_of_make {r : FaultRequest} (known : r.kind ∈ FaultKind.known) {e : Fault}
    (made : r.make = .ok e) (isA : e.isA .httpStatus = true) : ∃ args code, e = .status args code := by
  -- a fault of the kind asked for is a status error if that kind is one
  have of_kind : r.kind.isA .httpStatus = false → e.kind ≠ r.kind := by
    intro other same
    rw [Fault.isA, same, other] at isA
    exact Bool.false_ne_true isA
  have of_wait : r.kind.isA .wait = true → e.kind ≠ r.kind := fun wait =>
    of_kind (FaultKind.isA_httpStatus_of_wait r.kind known wait)
  unfold make at made
  split at made
  · next unsigned =>
    have other := isA_httpStatus_of_signature? unsigned
    split at made
    · rcases Fault.kind_of_ofSystem made with same | ⟨number, refined⟩
      · exact absurd same (of_kind other)
      · rw [Fault.isA, refined, FaultKind.refined_isA_httpStatus other] at isA
        exact absurd isA Bool.false_ne_true
    · exact absurd (Except.ok.inj made ▸ rfl) (of_kind other)
  · next s _ =>
    cases bound : bind s r with
    | error m => simp [bound, Bind.bind, Except.bind] at made
    | ok given =>
      simp only [bound, Bind.bind, Except.bind] at made
      split at made
      · next exhausted =>
        have wait := FaultKind.isA_trans exhausted (show FaultKind.retriesExhausted.isA .wait = true by decide)
        exact absurd (Except.ok.inj made ▸ rfl) (of_wait wait)
      · split at made
        · next wait => exact absurd (Except.ok.inj made ▸ rfl) (of_wait wait)
        · split at made
          · split at made
            · exact ⟨_, _, (Except.ok.inj made).symm⟩
            · cases made
          · next other => exact absurd (Except.ok.inj made ▸ rfl) (of_kind (Bool.eq_false_of_not_eq_true other))

end FaultRequest

/-! ## The decisions -/

/-- A decision of a list on an outcome comes to an answer and leaves the caller as it was. -/
def AnswersWith (A : List (Acceptor σ)) (o : Outcome) (s : Option Verdict) : Prop :=
  ∀ w : World σ, (decide A o w).1 = .ok s ∧ (decide A o w).2.caller = w.caller

/-- What acceptors that are made of web rules answer. -/
structure WebAnswers (rules : List (WebRule × List Value)) (A : List (Acceptor σ)) : Prop where
  /-- On a response, the verdict of the first rule that has its status code among its codes. -/
  response : ∀ code, AnswersWith A (.returned (.response code)) (rules.findSome? (WebRule.onResponse code))
  /-- On another value nothing, not even if it has a status code. -/
  otherValue : ∀ v, (∀ code, v ≠ .response code) → AnswersWith A (.returned v) none
  statusError : ∀ args code, AnswersWith A (.raised (.status args code))
    (if ∃ r ∈ rules, r.1 = .statusError ∧ (r.2 = [] ∨ WebRule.Among code r.2) then some .retry else none)
  transportError : ∀ e, e.isA .transport = true → AnswersWith A (.raised e)
    (if ∃ r ∈ rules, r.1 = .transportError then some .retry else none)
  otherFault : ∀ e, e.isA .httpStatus = false → e.isA .transport = false → AnswersWith A (.raised e) none

namespace WebRule.Makes

variable {rules : List (WebRule × List Value)} {A : List (Acceptor σ)} (h : Makes rules A)
include h

/-- The answer is the first verdict. -/
theorem answersWith {o : Outcome} {s : Option Verdict}
    (first : Caller σ → ∀ {t}, FirstVerdict o A t → t = s) : AnswersWith A o s := by
  intro w
  obtain ⟨t, es, decided, first', -⟩ := decideFrom_of_isPure 0 h.isPure o w
  rw [decide, decided, first w.caller first']
  exact ⟨rfl, rfl⟩

/-- There is none to an outcome that no rule is about. -/
theorem answersWith_none {o : Outcome} (unmet : ∀ r codes, ¬ Meets r codes o) : AnswersWith A o none := by
  refine h.answersWith fun c t first => first.eq_none fun a ha matched => ?_
  obtain ⟨r, -, made⟩ := h.exists_rule ha
  exact unmet r.1 r.2 ((matches_iff_meets made c o).1 matched)

theorem webAnswers : WebAnswers rules A where
  response code := h.answersWith fun c _ first => first.unique (h.firstVerdict_response c code)
  otherValue v other := by
    refine h.answersWith_none fun r codes meets => ?_
    cases r with
    | status _ =>
      cases v with
      | response code => exact other code rfl
      | _ => exact meets
    | statusError => exact meets
    | transportError => exact meets
  statusError args code := by
    refine h.answersWith fun c _ first => h.eq_retry_of_raised c first ?_
    refine exists_congr fun r => and_congr_right fun _ => ?_
    -- of a fault, only rules of one sort can be
    obtain ⟨rule, codes⟩ := r
    cases rule with
    | status _ => simp [Meets]
    | statusError => simp [Meets]
    | transportError =>
      have meets : WebRule.statusError.Meets [] (.raised (.status args code)) := Or.inl rfl
      simp [Meets, (isA_of_meets_statusError meets).2]
  transportError e isA := by
    refine h.answersWith fun c _ first => h.eq_retry_of_raised c first ?_
    refine exists_congr fun r => and_congr_right fun _ => ?_
    obtain ⟨rule, codes⟩ := r
    cases rule with
    | status _ => simp [Meets]
    | statusError =>
      refine iff_of_false nofun fun meets => ?_
      exact Bool.false_ne_true ((isA_of_meets_statusError meets).2.symm.trans isA)
    | transportError => exact iff_of_true rfl isA
  otherFault e status transport := by
    refine h.answersWith_none fun r codes meets => ?_
    cases r with
    | status _ => exact meets
    | statusError => exact Bool.false_ne_true (status.symm.trans (isA_of_meets_statusError meets).1)
    | transportError => exact Bool.false_ne_true (transport.symm.trans meets)

end WebRule.Makes

/-- Lists of acceptors that are made of web rules answer as the rules say, whatever order, sorts and codes the
rules have, and between any other acceptors only the set of codes counts of neighbouring rules of one sort,
if none of them is without codes. A rule on responses that is without codes is refused for its value. Of the
known kinds, a status error is made with the status code of a response, and only with one. -/
theorem web_rules_decide :
    (∀ verdict : Verdict,
      ((WebRule.status verdict).acceptor [] : Except Misuse (Acceptor σ)) = .error .noStatusCodes ∧
        ∀ code codes, ∃ a : Acceptor σ, (WebRule.status verdict).acceptor (code :: codes) = .ok a) ∧
    Misuse.noStatusCodes.fault.isA .value = true ∧
    (∀ (rules : List (WebRule × List Value)) (A : List (Acceptor σ)), WebRule.Makes rules A →
      WebAnswers rules A) ∧
    (∀ r : FaultRequest, r.kind ∈ FaultKind.known → ∀ e, r.make = .ok e → e.isA .httpStatus = true →
      ∃ args code, e = .status args code) ∧
    ∀ (rule : WebRule) (css dss : List (List Value)), [] ∉ css → [] ∉ dss →
      (∀ c, c ∈ css.flatten ↔ c ∈ dss.flatten) → ∀ A B : List (Acceptor σ),
        WebRule.Makes (css.map (rule, ·)) A → WebRule.Makes (dss.map (rule, ·)) B →
          ∀ before after : List (Acceptor σ), DecideAlike (before ++ A ++ after) (before ++ B ++ after) := by
  refine ⟨fun verdict => ⟨rfl, fun code codes => ⟨_, rfl⟩⟩, by decide, fun rules A made => made.webAnswers,
    fun r known e made => FaultRequest.status_of_make known made, ?_⟩
  intro rule css dss nonempty nonempty' codes A B made made' before after
  exact ((WebRule.sameDecisions_of_codes nonempty nonempty' codes made made').within before after).decideAlike

/-! ## An example -/

/-- Rules for a job that is asked for over the web. -/
def WebRule.forJob : List (WebRule × List Value) :=
  [(.status .success, [.int 200, .int 204]), (.status .retry, [.int 202, .int 204]), (.statusError, [.int 503]),
    (.status .failure, [.int 404]), (.transportError, [])]

/-- The acceptors that are made of them. -/
def Acceptor.forJob : List (Acceptor Unit) :=
  [.onValue .success (statusMatcher [.int 200, .int 204]), .onValue .retry (statusMatcher [.int 202, .int 204]),
    .retryOnStatusError [.int 503], .onValue .failure (statusMatcher [.int 404]), .retryOnTransportError]

/-- Of two rules with the code of a response the first one decides. A value that resembles a response, a status
error with another code and a missing key have no answer. Between a rule of the job and an acceptor of all
faults, two rules with one code each are as good as one rule that has the codes the other way round, and one of
them twice. -/
theorem web_rules_decide_job :
    WebRule.Makes WebRule.forJob Acceptor.forJob ∧
    AnswersWith Acceptor.forJob (.returned (.response 204)) (some .success) ∧
    AnswersWith Acceptor.forJob (.returned (.response 202)) (some .retry) ∧
    AnswersWith Acceptor.forJob (.returned (.response 500)) none ∧
    AnswersWith Acceptor.forJob (.returned (.lookalike 200)) none ∧
    AnswersWith Acceptor.forJob (.raised (.status [.null] 503)) (some .retry) ∧
    AnswersWith Acceptor.forJob (.raised (.status [.null] 404)) none ∧
    AnswersWith Acceptor.forJob (.raised (.plain .connectTimeout [])) (some .retry) ∧
    AnswersWith Acceptor.forJob (.raised (.plain .key [])) none ∧
    ((⟨.httpStatus, [.null], [], some 503⟩ : FaultRequest).make = .ok (.status [.null] 503) ∧
      ∃ args code, Fault.status [.null] 503 = .status args code) ∧
    DecideAlike
      ([Acceptor.retryOnStatusError [.int 503]] ++
        [Acceptor.onValue .success (Acceptor.statusMatcher [.int 200]),
          Acceptor.onValue .success (Acceptor.statusMatcher [.int 204])] ++
        [(Acceptor.onKinds .failure (.kind .root) : Acceptor Unit)])
      ([Acceptor.retryOnStatusError [.int 503]] ++
        [Acceptor.onValue .success (Acceptor.statusMatcher [.int 204, .int 200, .int 204])] ++
        [Acceptor.onKinds .failure (.kind .root)]) := by
  obtain ⟨-, -, answers, responses, codes⟩ := web_rules_decide (σ := Unit)
  have made : WebRule.Makes WebRule.forJob Acceptor.forJob :=
    .cons rfl (.cons rfl (.cons rfl (.cons rfl (.cons rfl .nil))))
  have job := answers _ _ made
  have known : FaultKind.httpStatus ∈ FaultKind.known := by decide
  refine ⟨made, job.response 204, job.response 202, job.response 500, job.otherValue _ nofun,
    job.statusError _ 503, job.statusError _ 404, job.transportError _ (by decide),
    job.otherFault _ (by decide) (by decide),
    ⟨rfl, responses ⟨.httpStatus, [.null], [], some 503⟩ known _ rfl (by decide)⟩, ?_⟩
  refine codes (.status .success) [[.int 200], [.int 204]] [[.int 204, .int 200, .int 204]] (by simp) (by simp)
    (fun c => ?_) _ _ (.cons rfl (.cons rfl .nil)) (.cons rfl .nil) _ _
  simp only [List.flatten_cons, List.flatten_nil, List.cons_append, List.nil_append, List.mem_cons,
    List.not_mem_nil, or_false]
  tauto

end Polling
