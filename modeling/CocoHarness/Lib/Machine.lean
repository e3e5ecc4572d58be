/-
# CocoHarness.Lib.Machine — runs, invariants and simulations.

A deterministic machine answers each input and moves on; `run` is its reply list over a whole input
list.  Two machines that answer alike on related states, and stay related, answer alike over every
run (`run_simulates`): this is how a stateful implementation is compared with a specification that
recomputes everything.  A system several parties act on takes one action after another, in any order
its guards allow; what every action keeps holds wherever `exec` leads (`exec_invariant`).
-/
import Mathlib.Logic.Relation

namespace CocoHarness.Lib.Machine

universe u v w x

/-! ## Deterministic machines -/

section Deterministic

variable {σ : Type u} {τ : Type v} {ι : Type w} {ο : Type x}

/-- Feed the inputs one by one: the last state, and every reply in order. -/
def run (step : σ → ι → σ × ο) : σ → List ι → σ × List ο
  | s, [] => (s, [])
  | s, i :: is => ((run step (step s i).1 is).1, (step s i).2 :: (run step (step s i).1 is).2)

@[simp] theorem run_nil (step : σ → ι → σ × ο) (s : σ) : run step s [] = (s, []) := rfl

@[simp] theorem run_cons (step : σ → ι → σ × ο) (s : σ) (i : ι) (is : List ι) :
    run step s (i :: is) = ((run step (step s i).1 is).1, (step s i).2 :: (run step (step s i).1 is).2) := rfl

theorem run_append (step : σ → ι → σ × ο) (s : σ) (is js : List ι) : run step s (is ++ js)
      = ((run step (run step s is).1 js).1, (run step s is).2 ++ (run step (run step s is).1 js).2) := by
  induction is generalizing s with
  | nil => simp
  | cons i is ih => simp [ih]

@[simp] theorem run_length (step : σ → ι → σ × ο) (s : σ) (is : List ι) :
    (run step s is).2.length = is.length := by
  induction is generalizing s with
  | nil => rfl
  | cons i is ih => simp [ih]

variable {s : σ}

theorem run_invariant {step : σ → ι → σ × ο} {I : σ → Prop} (hstep : ∀ s i, I s → I (step s i).1) (hs : I s) (is : List ι) : I (run step s is).1 := by
  induction is generalizing s with
  | nil => exact hs
  | cons i is ih => exact ih (hstep s i hs)

/-- **Simulation.** Machines that answer alike on related states and stay related answer alike over
every run. -/
theorem run_simulates {step : σ → ι → σ × ο} {step' : τ → ι → τ × ο} {R : σ → τ → Prop}
    (hstep : ∀ s t i, R s t → (step s i).2 = (step' t i).2 ∧ R (step s i).1 (step' t i).1) {t : τ} (hs : R s t) (is : List ι) :
    (run step s is).2 = (run step' t is).2 ∧ R (run step s is).1 (run step' t is).1 := by
  induction is generalizing s t with
  | nil => exact ⟨rfl, hs⟩
  | cons i is ih =>
    obtain ⟨hreply, hnext⟩ := hstep s t i hs
    obtain ⟨hreplies, hlast⟩ := ih hnext
    exact ⟨by simp [hreply, hreplies], hlast⟩

end Deterministic

/-! ## Systems of guarded actions -/

section Guarded

variable {σ : Type u} {α : Type v}

/-- Take the actions one by one; `none` when one of them is not enabled. -/
def exec (step : σ → α → Option σ) : σ → List α → Option σ
  | s, [] => some s
  | s, a :: as => (step s a).bind fun s' => exec step s' as

theorem exec_append (step : σ → α → Option σ) (s : σ) (as bs : List α) :
    exec step s (as ++ bs) = (exec step s as).bind fun s' => exec step s' bs := by
  induction as generalizing s with
  | nil => rfl
  | cons a as ih =>
    simp only [List.cons_append, exec, Option.bind_assoc]
    exact congrArg _ (funext ih)

variable {step : σ → α → Option σ} {I : σ → Prop} {as : List α} {s s' : σ}

/-- **Invariance.** What every action taken preserves holds of the state the actions lead to. -/
theorem exec_invariant (hstep : ∀ a ∈ as, ∀ s s', I s → step s a = some s' → I s') (hs : I s)
    (h : exec step s as = some s') : I s' := by
  induction as generalizing s with
  | nil =>
    cases h
    exact hs
  | cons a as ih =>
    obtain ⟨mid, hmid, hrest⟩ := Option.bind_eq_some_iff.mp h
    exact ih (fun b hb => hstep b (List.mem_cons_of_mem a hb))
      (hstep a List.mem_cons_self s mid hs hmid) hrest

/-- Every action of the run meets the condition in the state it is taken in. -/
def Along (step : σ → α → Option σ) (P : σ → α → Prop) : σ → List α → Prop
  | _, [] => True
  | s, a :: as => P s a ∧ (step s a).elim True fun s' => Along step P s' as

instance decidableAlong (step : σ → α → Option σ) (P : σ → α → Prop) [∀ s a, Decidable (P s a)] :
    ∀ (s : σ) (as : List α), Decidable (Along step P s as)
  | _, [] => inferInstanceAs (Decidable True)
  | s, a :: as =>
    let rest : Decidable ((step s a).elim True fun s' => Along step P s' as) :=
      match step s a with
      | none => inferInstanceAs (Decidable True)
      | some s' => decidableAlong step P s' as
    inferInstanceAs (Decidable (P s a ∧ (step s a).elim True fun s' => Along step P s' as))

variable {P : σ → α → Prop}

theorem Along.append {bs : List α} (h : exec step s as = some s')
    (halong : Along step P s (as ++ bs)) : Along step P s as ∧ Along step P s' bs := by
  induction as generalizing s with
  | nil =>
    cases h
    exact ⟨trivial, halong⟩
  | cons a as ih =>
    obtain ⟨mid, hmid, hrest⟩ := Option.bind_eq_some_iff.mp h
    obtain ⟨hmeets, hlater⟩ := halong
    rw [hmid] at hlater
    obtain ⟨hfirst, hlast⟩ := ih hrest hlater
    exact ⟨⟨hmeets, by rw [hmid]; exact hfirst⟩, hlast⟩

/-- **Conditional invariance.**  What every action that meets a condition preserves holds along runs of them. -/
theorem exec_invariant_along (hstep : ∀ s a s', I s → P s a → step s a = some s' → I s')
    (hs : I s) (h : exec step s as = some s') (halong : Along step P s as) : I s' := by
  induction as generalizing s with
  | nil =>
    cases h
    exact hs
  | cons a as ih =>
    obtain ⟨mid, hmid, hrest⟩ := Option.bind_eq_some_iff.mp h
    obtain ⟨hmeets, hlater⟩ := halong
    rw [hmid] at hlater
    exact ih (hstep s a mid hs hmeets hmid) hrest hlater

theorem Along.of_forall {P : α → Prop} (h : ∀ a ∈ as, P a) (s : σ) : Along step (fun _ a => P a) s as := by
  induction as generalizing s with
  | nil => trivial
  | cons a as ih =>
    refine ⟨h a (List.mem_cons_self ..), ?_⟩
    have hrest := ih fun b hb => h b (List.mem_cons_of_mem a hb)
    cases step s a with
    | none => trivial
    | some s' => exact hrest s'

/-- What holds of such actions in every state they lead to holds along every run of them. -/
theorem Along.of_invariant {Q : σ → α → Prop}
    (hstep : ∀ s a s', I s → P s a → step s a = some s' → I s') (hQ : ∀ s a, I s → P s a → Q s a) (hs : I s) (halong : Along step P s as) : Along step Q s as := by
  induction as generalizing s with
  | nil => trivial
  | cons a as ih =>
    obtain ⟨hmeets, hlater⟩ := halong
    refine ⟨hQ s a hs hmeets, ?_⟩
    cases hnext : step s a with
    | none => trivial
    | some s' =>
      rw [hnext] at hlater
      exact ih (hstep s a s' hs hmeets hnext) hlater

end Guarded

end CocoHarness.Lib.Machine
