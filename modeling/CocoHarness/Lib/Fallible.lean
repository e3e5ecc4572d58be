/-
# CocoHarness.Lib.Fallible — throwing computations.

A computation that may throw is an `Except`.  These are the rules by which a proof peels one apart:
what a sequence does once its first part is known, and what a successful sequence says of its parts.
-/
import Mathlib.Data.List.Forall2

namespace CocoHarness.Lib

universe u v

variable {ε : Type u} {α β : Type v}

@[simp] theorem pure_eq_ok (a : α) : (pure a : Except ε α) = .ok a := rfl

@[simp] theorem throw_eq_error (e : ε) : (throw e : Except ε α) = .error e := rfl

@[simp] theorem ok_bind (a : α) (f : α → Except ε β) : (Except.ok a >>= f) = f a := rfl

@[simp] theorem error_bind (e : ε) (f : α → Except ε β) : (Except.error e >>= f) = .error e := rfl

variable {x : Except ε α} {f : α → Except ε β} {b : β}

theorem bind_eq_ok_iff : (x >>= f) = .ok b ↔ ∃ a, x = .ok a ∧ f a = .ok b := by cases x <;> simp

theorem except_map_ok {f : α → β} (h : x.map f = .ok b) : ∃ a, x = .ok a ∧ f a = b := by
  cases x with
  | error e => cases h
  | ok a => exact ⟨a, rfl, Except.ok.inj h⟩

/-- A traversal returns when every computation does, with their results in order. -/
theorem mapM_eq_ok_iff {xs : List α} {ys : List β} :
    xs.mapM f = .ok ys ↔ List.Forall₂ (fun x y => f x = .ok y) xs ys := by
  induction xs generalizing ys with
  | nil =>
    rw [List.mapM_nil, pure_eq_ok, Except.ok.injEq, List.forall₂_nil_left_iff]
    exact eq_comm
  | cons x xs ih =>
    rw [List.mapM_cons, List.forall₂_cons_left_iff]
    simp only [bind_eq_ok_iff, ih, pure_eq_ok, Except.ok.injEq]
    constructor
    · rintro ⟨y, hy, ys, hys, rfl⟩
      exact ⟨y, ys, hy, hys, rfl⟩
    · rintro ⟨y, ys, hy, hys, rfl⟩
      exact ⟨y, hy, ys, hys, rfl⟩

/-- Two computations agree: both throw, or both return, with related results. -/
inductive Agree (R : α → β → Prop) : Except ε α → Except ε β → Prop
  | error {e e' : ε} : Agree R (.error e) (.error e')
  | ok {a : α} {b : β} : R a b → Agree R (.ok a) (.ok b)

variable {R : α → β → Prop} {y : Except ε β}

theorem Agree.imp {S : α → β → Prop} (h : Agree R x y)
    (himp : ∀ a b, x = .ok a → y = .ok b → R a b → S a b) : Agree S x y := by
  cases h with
  | error => exact .error
  | ok hab => exact .ok (himp _ _ rfl rfl hab)

theorem Agree.map {γ δ : Type v} {S : γ → δ → Prop}
    (h : Agree R x y) {f : α → γ} {g : β → δ} (hmap : ∀ a b, R a b → S (f a) (g b)) :
    Agree S (f <$> x) (g <$> y) := by
  cases h with
  | error => exact .error
  | ok hab => exact .ok (hmap _ _ hab)

end CocoHarness.Lib
