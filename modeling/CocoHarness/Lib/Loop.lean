/-
# CocoHarness.Lib.Loop — a loop whose turns may end it.

A turn answers the next state or an outcome.  `run` bounds the turns; `Leads` and `Ends` say what the
loop does with any bound large enough, so that a proof follows the loop without counting.
-/
import Mathlib.Logic.Basic

namespace CocoHarness.Lib.Loop

universe u v

variable {σ : Type u} {ω : Type v}

/-- The loop, for at most `fuel` turns; `none` while it still runs. -/
def run (turn : σ → σ ⊕ ω) : Nat → σ → Option ω
  | 0, _ => none
  | fuel + 1, s =>
    match turn s with
    | .inl s => run turn fuel s
    | .inr outcome => some outcome

variable {turn : σ → σ ⊕ ω} {s s' s'' : σ} {outcome outcome' : ω}

@[simp] theorem run_zero (s : σ) : run turn 0 s = none := rfl

theorem run_inl (h : turn s = .inl s') (fuel : Nat) : run turn (fuel + 1) s = run turn fuel s' := by rw [run, h]

theorem run_inr (h : turn s = .inr outcome) (fuel : Nat) : run turn (fuel + 1) s = some outcome := by rw [run, h]

theorem run_mono {n m : Nat} (hle : n ≤ m) (h : run turn n s = some outcome) : run turn m s = some outcome := by
  induction n generalizing s m with
  | zero => cases h
  | succ n ih =>
    obtain ⟨m, rfl⟩ : ∃ k, m = k + 1 := ⟨m - 1, by omega⟩
    cases hturn : turn s with
    | inl s' =>
      rw [run_inl hturn] at h ⊢
      exact ih (by omega) h
    | inr o =>
      rw [run_inr hturn] at h ⊢
      exact h

/-! ## What the loop comes to -/

def Leads (turn : σ → σ ⊕ ω) (s s' : σ) : Prop := ∃ k, ∀ fuel, run turn (fuel + k) s = run turn fuel s'

def Ends (turn : σ → σ ⊕ ω) (s : σ) (outcome : ω) : Prop := ∃ fuel, run turn fuel s = some outcome

theorem Leads.step (h : turn s = .inl s') : Leads turn s s' := ⟨1, fun fuel => run_inl h fuel⟩

theorem Leads.trans (h : Leads turn s s') (h' : Leads turn s' s'') : Leads turn s s'' := by
  obtain ⟨k, hk⟩ := h
  obtain ⟨l, hl⟩ := h'
  refine ⟨l + k, fun fuel => ?_⟩
  rw [← Nat.add_assoc, hk, hl]

theorem Ends.step (h : turn s = .inr outcome) : Ends turn s outcome := ⟨1, run_inr h 0⟩

theorem Leads.ends (h : Leads turn s s') (h' : Ends turn s' outcome) : Ends turn s outcome := by
  obtain ⟨k, hk⟩ := h
  obtain ⟨fuel, hrun⟩ := h'
  exact ⟨fuel + k, by rw [hk, hrun]⟩

theorem Ends.enough (h : Ends turn s outcome) : ∃ enough, ∀ fuel, enough ≤ fuel → run turn fuel s = some outcome := by
  obtain ⟨n, hn⟩ := h
  exact ⟨n, fun fuel hle => run_mono hle hn⟩

theorem run_cases {n : Nat} (h : run turn n s = some outcome) :
    (∃ s' m, turn s = .inl s' ∧ n = m + 1 ∧ run turn m s' = some outcome) ∨ turn s = .inr outcome := by
  cases n with
  | zero => cases h
  | succ n =>
    cases hturn : turn s with
    | inl s' =>
      rw [run_inl hturn] at h
      exact Or.inl ⟨s', n, rfl, rfl, h⟩
    | inr o =>
      rw [run_inr hturn] at h
      rw [Option.some.inj h]
      exact Or.inr rfl

end CocoHarness.Lib.Loop
