import Mathlib

/-! Results that may be faults, and lists that are worked through from the left: each element gives
a result, or the fault is the one of the first element that gives none (`mapM_eq_error_iff`). -/

namespace Telemetry

variable {α β γ ε ε' : Type}

/-! ## Single results -/

theorem exists_of_bind_eq_ok {x : Except ε α} {f : α → Except ε β} {y : β}
    (h : x >>= f = .ok y) : ∃ a, x = .ok a ∧ f a = .ok y := by
  cases x with
  | error e => cases h
  | ok a => exact ⟨a, rfl, h⟩

theorem bind_eq_error_iff {x : Except ε α} {f : α → Except ε β} {e : ε} :
    x >>= f = .error e ↔ x = .error e ∨ ∃ a, x = .ok a ∧ f a = .error e := by
  cases x with
  | error e' => simp [bind, Except.bind]
  | ok a => simp [bind, Except.bind]

theorem exists_of_map_eq_ok {x : Except ε α} {f : α → β} {y : β} (h : x.map f = .ok y) :
    ∃ a, x = .ok a ∧ f a = y := by
  cases x with
  | error e => cases h
  | ok a => exact ⟨a, rfl, Except.ok.inj h⟩

theorem mapError_eq_ok_iff {x : Except ε α} {f : ε → ε'} {y : α} :
    x.mapError f = .ok y ↔ x = .ok y := by
  cases x <;> simp [Except.mapError]

theorem exists_of_mapError_eq_error {x : Except ε α} {f : ε → ε'} {e : ε'}
    (h : x.mapError f = .error e) : ∃ fault, x = .error fault ∧ f fault = e := by
  cases x with
  | error fault => exact ⟨fault, rfl, Except.error.inj h⟩
  | ok a => cases h

/-- The fault of a result, if it is one. -/
def fault? : Except ε α → Option ε
  | .error e => some e
  | .ok _ => none

theorem fault?_eq_some_iff {x : Except ε α} {e : ε} : fault? x = some e ↔ x = .error e := by
  cases x <;> simp [fault?]

theorem fault?_eq_none_iff {x : Except ε α} : fault? x = none ↔ ∃ y, x = .ok y := by
  cases x <;> simp [fault?]

theorem fault?_map (x : Except ε α) (f : α → β) : fault? (x.map f) = fault? x := by
  cases x <;> rfl

/-! ## Traversals -/

section Traversal

variable {f : α → Except ε β} {x : α} {xs : List α} {y : β} {ys : List β} {e : ε}

/-- The fault `e` is the one of the first element that `f` gives no result for. -/
def FirstFault (f : α → Except ε β) (xs : List α) (e : ε) : Prop :=
  ∃ before x after, xs = before ++ x :: after ∧ (∀ b ∈ before, ∃ y, f b = .ok y) ∧ f x = .error e

theorem firstFault_iff : FirstFault f xs e ↔ xs.findSome? (fun x => fault? (f x)) = some e := by
  simp only [FirstFault, List.findSome?_eq_some_iff, fault?_eq_some_iff, fault?_eq_none_iff,
    and_comm (a := ∀ b ∈ _, _)]

theorem mapM_cons_of_error (h : f x = .error e) : (x :: xs).mapM f = .error e := by
  rw [List.mapM_cons, h]
  rfl

theorem mapM_cons_of_ok (h : f x = .ok y) : (x :: xs).mapM f = (xs.mapM f).map (y :: ·) := by
  rw [List.mapM_cons, h]
  cases xs.mapM f <;> rfl

theorem fault?_mapM (f : α → Except ε β) (xs : List α) :
    fault? (xs.mapM f) = xs.findSome? fun x => fault? (f x) := by
  induction xs with
  | nil => rfl
  | cons x xs ih =>
    cases h : f x with
    | error e => rw [mapM_cons_of_error h, List.findSome?_cons, h]; rfl
    | ok y => rw [mapM_cons_of_ok h, fault?_map, ih, List.findSome?_cons, h]; rfl

/-- A traversal fails with its first fault. -/
theorem mapM_eq_error_iff : xs.mapM f = .error e ↔ FirstFault f xs e := by
  rw [firstFault_iff, ← fault?_mapM, fault?_eq_some_iff]

/-- A traversal gives the results of all elements in their order. -/
theorem mapM_eq_ok_iff : xs.mapM f = .ok ys ↔ List.Forall₂ (fun x y => f x = .ok y) xs ys := by
  induction xs generalizing ys with
  | nil =>
    rw [List.forall₂_nil_left_iff, List.mapM_nil]
    exact ⟨fun h => by cases h; rfl, fun h => by rw [h]; rfl⟩
  | cons x xs ih =>
    cases h : f x with
    | error e =>
      rw [mapM_cons_of_error h, List.forall₂_cons_left_iff]
      simp [h]
    | ok y =>
      rw [mapM_cons_of_ok h, List.forall₂_cons_left_iff]
      cases hxs : xs.mapM f with
      | error e => simp [Except.map, ← ih, hxs]
      | ok zs => simp [Except.map, ← ih, hxs, h, eq_comm]

end Traversal

end Telemetry
