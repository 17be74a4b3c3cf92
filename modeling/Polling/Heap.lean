/-!
# Binary heaps

A heap keeps items in a list in such a way that the one to be taken next comes first. The children of
the item at a place `i` are those at `2 * i + 1` and `2 * i + 2`, and no child goes before its parent.

A new item is put at the end and rises as long as it goes before its parent. When the first item is
taken, the last one replaces it, sinks to the bottom on the way of the children that go first, and
rises again from there.

A test tells which of two items goes before the other. Where it is no order, as between times one of
which is not a number, these rules still say where every item ends up.

Both operations only move items: `push_perm` and `pop?_perm`.
-/

namespace Polling.Heap

/-- The items with those at two places exchanged. -/
def exchange (items : List α) (i j : Nat) : List α :=
  match items[i]?, items[j]? with
  | some x, some y => (items.set i y).set j x
  | _, _ => items

/-- The place of the parent of a place. -/
def parent (place : Nat) : Nat := (place - 1) / 2

/-- Does the item at a place go before its parent? -/
def outranks (before : α → α → Bool) (items : List α) (place : Nat) : Bool :=
  match items[place]?, items[parent place]? with
  | some x, some y => place != 0 && before x y
  | _, _ => false

/-- Let the item at a place rise as long as it goes before its parent, but no more than `steps`
times. -/
def rise (before : α → α → Bool) : (steps : Nat) → List α → (place : Nat) → List α
  | 0, items, _ => items
  | steps + 1, items, place =>
    if outranks before items place then
      rise before steps (exchange items place (parent place)) (parent place)
    else items

/-- The place of the child that goes first; the second one unless the first goes before it. -/
def firstChild? (before : α → α → Bool) (items : List α) (place : Nat) : Option Nat :=
  match items[2 * place + 1]?, items[2 * place + 2]? with
  | some x, some y => some (if before x y then 2 * place + 1 else 2 * place + 2)
  | some _, none => some (2 * place + 1)
  | none, _ => none

/-- Let the item at a place sink to the bottom, but no more than `steps` times, and tell its place
then. -/
def sink (before : α → α → Bool) : (steps : Nat) → List α → (place : Nat) → List α × Nat
  | 0, items, place => (items, place)
  | steps + 1, items, place =>
    match firstChild? before items place with
    | some child => sink before steps (exchange items place child) child
    | none => (items, place)

/-- A heap with one more item. -/
def push (before : α → α → Bool) (x : α) (items : List α) : List α :=
  rise before items.length (items ++ [x]) items.length

/-- The heap in which an item replaces the first one. -/
def settleFirst (before : α → α → Bool) (items : List α) : List α :=
  let (items, place) := sink before items.length items 0
  rise before items.length items place

/-- The first item and the heap without it. -/
def pop? (before : α → α → Bool) : List α → Option (α × List α)
  | [] => none
  | first :: rest =>
    match rest.getLast? with
    | none => some (first, [])
    | some last => some (first, settleFirst before (last :: rest.dropLast))

/-- Take items from the front as long as they pass a test, but no more than `steps` of them. -/
def takeFor (before : α → α → Bool) (p : α → Bool) : (steps : Nat) → List α → List α × List α
  | 0, items => ([], items)
  | steps + 1, items =>
    match pop? before items with
    | none => ([], items)
    | some (first, rest) =>
      if p first then
        let (taken, rest) := takeFor before p steps rest
        (first :: taken, rest)
      else ([], items)

/-- The items from the front that pass a test, and the heap of what is left. -/
def takeWhile (before : α → α → Bool) (p : α → Bool) (items : List α) : List α × List α :=
  takeFor before p items.length items

/-! ## Nothing is lost -/

theorem exchange_perm (items : List α) (i j : Nat) : (exchange items i j).Perm items := by
  unfold exchange
  split
  · next x y hx hy =>
    obtain ⟨hi, rfl⟩ := List.getElem?_eq_some_iff.1 hx
    obtain ⟨hj, rfl⟩ := List.getElem?_eq_some_iff.1 hy
    exact List.set_set_perm hi hj
  · exact .refl _

theorem rise_perm (before : α → α → Bool) (steps : Nat) (items : List α) (place : Nat) :
    (rise before steps items place).Perm items := by
  induction steps generalizing items place with
  | zero => exact .refl _
  | succ steps ih =>
    rw [rise]
    split
    · exact (ih _ _).trans (exchange_perm items place (parent place))
    · exact .refl _

theorem sink_perm (before : α → α → Bool) (steps : Nat) (items : List α) (place : Nat) :
    (sink before steps items place).1.Perm items := by
  induction steps generalizing items place with
  | zero => exact .refl _
  | succ steps ih =>
    rw [sink]
    split
    · next child _ => exact (ih _ _).trans (exchange_perm items place child)
    · exact .refl _

/-- Pushing adds the item. -/
theorem push_perm (before : α → α → Bool) (x : α) (items : List α) :
    (push before x items).Perm (x :: items) :=
  (rise_perm before _ _ _).trans (List.perm_append_singleton x items)

theorem settleFirst_perm (before : α → α → Bool) (items : List α) :
    (settleFirst before items).Perm items :=
  (rise_perm before _ _ _).trans (sink_perm before _ _ _)

/-- Taking the first item leaves the others. -/
theorem pop?_perm {before : α → α → Bool} {items rest : List α} {first : α}
    (h : pop? before items = some (first, rest)) : (first :: rest).Perm items := by
  match items with
  | [] => exact nomatch h
  | x :: others =>
    rw [pop?] at h
    split at h
    · next hlast =>
      obtain ⟨rfl, rfl⟩ := Prod.mk.inj (Option.some.inj h)
      rw [List.getLast?_eq_none_iff.1 hlast]
    · next last hlast =>
      obtain ⟨rfl, rfl⟩ := Prod.mk.inj (Option.some.inj h)
      obtain ⟨front, rfl⟩ := List.getLast?_eq_some_iff.1 hlast
      refine List.Perm.cons _ ((settleFirst_perm before _).trans ?_)
      rw [List.dropLast_concat]
      exact (List.perm_append_singleton last front).symm

end Polling.Heap
