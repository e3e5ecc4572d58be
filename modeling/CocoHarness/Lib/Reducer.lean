/-
# CocoHarness.Lib.Reducer — folds that are stopped and resumed.

A reducer folds a log into a state.  A state kept with the number of entries it covers (`CutAt`) stands
for the whole prefix: more entries resume it, a longer log keeps it, and a shorter log keeps it as long
as it still has that many entries.  Entries that carry their position can be replayed from any suffix
that reaches back far enough, skipping what the state covers already (`foldl_skip`).
-/
import Mathlib.Data.List.Basic
import Mathlib.Order.Nat

namespace CocoHarness.Lib

open List

universe u v

structure Reducer (σ : Type u) (α : Type v) where
  init : σ
  step : σ → α → σ

namespace Reducer

variable {σ : Type u} {α : Type v} (r : Reducer σ α) {log log' : List α} {n : Nat} {s : σ}

def fold (log : List α) : σ := log.foldl r.step r.init

@[simp] theorem fold_nil : r.fold [] = r.init := rfl

theorem fold_snoc (log : List α) (e : α) : r.fold (log ++ [e]) = r.step (r.fold log) e := by simp [fold]

theorem fold_append (log rest : List α) : r.fold (log ++ rest) = rest.foldl r.step (r.fold log) := by simp [fold]

/-! ## Cuts -/

def CutAt (log : List α) (n : Nat) (s : σ) : Prop := n ≤ log.length ∧ s = r.fold (log.take n)

variable {r}

theorem cutAt_fold (log : List α) : r.CutAt log log.length (r.fold log) := ⟨Nat.le_refl _, by rw [take_length]⟩

theorem CutAt.resume (h : r.CutAt log n s) : (log.drop n).foldl r.step s = r.fold log := by
  obtain ⟨-, rfl⟩ := h
  rw [← fold_append, take_append_drop]

theorem CutAt.extend (h : r.CutAt log n s) (hfront : log <+: log') : r.CutAt log' n s := by
  obtain ⟨hle, rfl⟩ := h
  obtain ⟨rest, rfl⟩ := hfront
  refine ⟨by simp; omega, ?_⟩
  rw [take_append_of_le_length hle]

theorem CutAt.shrink (h : r.CutAt log n s) (hfront : log' <+: log) (hn : n ≤ log'.length) : r.CutAt log' n s := by
  obtain ⟨-, rfl⟩ := h
  obtain ⟨rest, rfl⟩ := hfront
  exact ⟨hn, by rw [take_append_of_le_length hn]⟩

theorem CutAt.transfer (h : r.CutAt log n s) (hcomparable : log <+: log' ∨ log' <+: log)
    (hn : n ≤ log'.length) : r.CutAt log' n s :=
  hcomparable.elim h.extend fun hfront => h.shrink hfront hn

/-! ## Numbered entries -/

def NumberedFrom (seq : α → Int) (start : Int) (entries : List α) : Prop :=
  ∀ (i : Nat) e, entries[i]? = some e → seq e = start + i

variable {seq : α → Int} {start : Int} {entries : List α}

theorem NumberedFrom.drop (h : NumberedFrom seq start entries) (n : Nat) :
    NumberedFrom seq (start + n) (entries.drop n) := by
  intro i e he
  rw [getElem?_drop] at he
  rw [h (n + i) e he]
  push_cast
  omega

theorem NumberedFrom.tail {e : α} (h : NumberedFrom seq start (e :: entries)) :
    NumberedFrom seq (start + 1) entries := by
  simpa using h.drop 1

theorem NumberedFrom.front (h : NumberedFrom seq start entries) {front : List α}
    (hfront : front <+: entries) : NumberedFrom seq start front := by
  intro i e he
  obtain ⟨rest, rfl⟩ := hfront
  have hlt : i < front.length := (List.getElem?_eq_some_iff.mp he).1
  exact h i e (by rw [List.getElem?_append_left hlt, he])

theorem NumberedFrom.snoc (h : NumberedFrom seq start entries) {e : α}
    (he : seq e = start + entries.length) : NumberedFrom seq start (entries ++ [e]) := by
  intro i e' he'
  rcases lt_trichotomy i entries.length with hlt | rfl | hgt
  · rw [List.getElem?_append_left hlt] at he'
    exact h i e' he'
  · simp only [getElem?_concat_length, Option.some.injEq] at he'
    rw [← he', he]
  · rw [getElem?_eq_none (by simp; omega)] at he'
    cases he'

theorem NumberedFrom.getLast (h : NumberedFrom seq start entries) :
    (entries.getLast?.map seq).getD (start - 1) = start + entries.length - 1 := by
  cases hlast : entries.getLast? with
  | none =>
    rw [getLast?_eq_none_iff] at hlast
    simp [hlast]
  | some e =>
    have hne : entries ≠ [] := by
      rintro rfl
      simp at hlast
    have hpos := length_pos_iff.mpr hne
    rw [getLast?_eq_getElem?] at hlast
    rw [Option.map_some, Option.getD_some, h _ e hlast]
    omega

theorem foldl_skip_none (step : σ → α → σ) {covered : Int} (hcovered : covered < start)
    (h : NumberedFrom seq start entries) (s : σ) :
    entries.foldl (fun s e => if covered < seq e then step s e else s) s = entries.foldl step s := by
  induction entries generalizing start s with
  | nil => rfl
  | cons e entries ih =>
    have he : seq e = start := by simpa using h 0 e rfl
    have happly : covered < seq e := by omega
    simp only [foldl_cons, happly, if_true]
    exact ih (by omega) h.tail _

/-- **Skipping.**  Onto a state that covers `covered` replaying applies just the entries after it. -/
theorem foldl_skip (step : σ → α → σ) {covered : Int} (n : Nat) (hcovered : covered = start + n - 1)
    (h : NumberedFrom seq start entries) (s : σ) :
    entries.foldl (fun s e => if covered < seq e then step s e else s) s = (entries.drop n).foldl step s := by
  induction n generalizing start entries with
  | zero => exact foldl_skip_none step (by omega) h s
  | succ n ih =>
    cases entries with
    | nil => rfl
    | cons e entries =>
      have he : seq e = start := by simpa using h 0 e rfl
      have hskip : ¬ covered < seq e := by omega
      simp only [foldl_cons, hskip, if_false, drop_succ_cons]
      exact ih (by push_cast at hcovered; omega) h.tail

end Reducer

end CocoHarness.Lib
