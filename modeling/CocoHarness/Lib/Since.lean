/-
# CocoHarness.Lib.Since — the past-time operator "p has happened and no q since".

A log is read from its end: what is open in it is what some entry opened and no later entry closed.
-/
import Mathlib.Data.List.Induction

namespace CocoHarness.Lib

universe u

variable {α : Type u}

def Since (p q : α → Prop) (log : List α) : Prop :=
  ∃ before entry after, log = before ++ entry :: after ∧ p entry ∧ ∀ e ∈ after, ¬ q e

namespace Since

variable {p p' q q' : α → Prop} {log : List α}

theorem since_nil : ¬ Since p q [] := by
  rintro ⟨before, entry, after, h, -⟩
  simp at h

theorem since_snoc {e : α} : Since p q (log ++ [e]) ↔ p e ∨ Since p q log ∧ ¬ q e := by
  constructor
  · rintro ⟨before, entry, after, hlog, hp, hq⟩
    rcases List.eq_nil_or_concat after with rfl | ⟨after, last, rfl⟩
    · obtain ⟨-, h⟩ := List.append_inj' hlog rfl
      exact .inl (by simpa [List.singleton_inj.mp h] using hp)
    · have hlog : log ++ [e] = (before ++ entry :: after) ++ [last] := by simpa using hlog
      obtain ⟨hbefore, hlast⟩ := List.append_inj' hlog rfl
      obtain rfl := List.singleton_inj.mp hlast
      exact .inr ⟨⟨before, entry, after, hbefore, hp, fun x hx => hq x (by simp [hx])⟩, hq e (by simp)⟩
  · rintro (hp | ⟨⟨before, entry, after, rfl, hp, hq⟩, he⟩)
    · exact ⟨log, e, [], rfl, hp, by simp⟩
    · refine ⟨before, entry, after ++ [e], by simp, hp, fun x hx => ?_⟩
      rcases List.mem_append.mp hx with hx | hx
      · exact hq x hx
      · rwa [List.mem_singleton.mp hx]

theorem mono (hp : ∀ e ∈ log, p e → p' e) (hq : ∀ e ∈ log, q' e → q e) (h : Since p q log) : Since p' q' log := by
  obtain ⟨before, entry, after, rfl, hentry, hafter⟩ := h
  exact ⟨before, entry, after, rfl, hp entry (by simp) hentry, fun e he hqe => hafter e he (hq e (by simp [he]) hqe)⟩

def scan (p q : α → Prop) [DecidablePred p] [DecidablePred q] (log : List α) : Bool :=
  log.foldl (fun opened e => decide (p e) || opened && !decide (q e)) false

theorem scan_iff [DecidablePred p] [DecidablePred q] : scan p q log = true ↔ Since p q log := by
  induction log using List.reverseRecOn with
  | nil => simp [scan, since_nil]
  | append_singleton log e ih =>
    rw [since_snoc, ← ih]
    simp [scan, List.foldl_append]

instance [DecidablePred p] [DecidablePred q] : Decidable (Since p q log) := decidable_of_iff _ scan_iff

end Since

end CocoHarness.Lib
