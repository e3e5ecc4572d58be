/-
# CocoHarness.Lib.InsertionMap — a map that iterates in the order its keys were first added.

This is the `Map` of JavaScript: setting a key that is present keeps its place, setting a new one adds
it at the end, and deleting a key forgets its place.  That no key is listed twice is a field of the
map, so what a lookup returns is what iteration meets (`lookup_eq_some_iff`).
-/
import Mathlib.Data.List.Nodup

namespace CocoHarness.Lib

open List

universe u v

structure InsertionMap (α : Type u) (β : Type v) where
  entries : List (α × β) := []
  nodup : (entries.map Prod.fst).Nodup := by simp

namespace InsertionMap

variable {α : Type u} {β : Type v}

instance : EmptyCollection (InsertionMap α β) := ⟨{}⟩

def keys (m : InsertionMap α β) : List α := m.entries.map Prod.fst

variable {m : InsertionMap α β}

@[ext]
theorem ext {n : InsertionMap α β} (h : m.entries = n.entries) : m = n := by
  obtain ⟨_, _⟩ := m
  obtain ⟨_, _⟩ := n
  subst h
  rfl

@[simp] theorem entries_empty : (∅ : InsertionMap α β).entries = [] := rfl

@[simp] theorem keys_empty : (∅ : InsertionMap α β).keys = [] := rfl

theorem keys_nodup (m : InsertionMap α β) : m.keys.Nodup := m.nodup

variable {k : α}

theorem mem_keys : k ∈ m.keys ↔ ∃ v, (k, v) ∈ m.entries := by simp [keys]

theorem eq_empty_of_keys (h : ∀ k, k ∉ m.keys) : m = ∅ := by
  ext1
  cases hm : m.entries with
  | nil => rfl
  | cons e es => exact absurd (mem_keys.mpr ⟨e.2, by simp [hm]⟩) (h e.1)

variable [DecidableEq α]

/-! ## Operations -/

def lookup (m : InsertionMap α β) (k : α) : Option β := m.entries.lookup k

/-- The entries with one key set: in place when present, at the end otherwise. -/
def setEntries (k : α) (v : β) : List (α × β) → List (α × β)
  | [] => [(k, v)]
  | (l, w) :: rest => if l = k then (k, v) :: rest else (l, w) :: setEntries k v rest

theorem mem_setEntries_keys (k : α) (v : β) (es : List (α × β)) (l : α) :
    l ∈ (setEntries k v es).map Prod.fst ↔ l = k ∨ l ∈ es.map Prod.fst := by
  induction es with
  | nil => simp [setEntries]
  | cons e es ih =>
    obtain ⟨j, w⟩ := e
    rw [setEntries]
    split
    · next heq =>
      subst heq
      simp
    · rw [map_cons, mem_cons, ih, map_cons, mem_cons, or_left_comm]

theorem setEntries_nodup (k : α) (v : β) {es : List (α × β)} (h : (es.map Prod.fst).Nodup) :
    ((setEntries k v es).map Prod.fst).Nodup := by
  induction es with
  | nil => simp [setEntries]
  | cons e es ih =>
    obtain ⟨j, w⟩ := e
    obtain ⟨hj, hes⟩ := nodup_cons.mp h
    rw [setEntries]
    split
    · next heq =>
      subst heq
      exact h
    · next hne =>
      refine nodup_cons.mpr ⟨fun hmem => ?_, ih hes⟩
      rcases (mem_setEntries_keys k v es j).mp hmem with heq | hmem
      · exact hne heq
      · exact hj hmem

def set (m : InsertionMap α β) (k : α) (v : β) : InsertionMap α β where
  entries := setEntries k v m.entries
  nodup := setEntries_nodup k v m.nodup

def erase (m : InsertionMap α β) (k : α) : InsertionMap α β where
  entries := m.entries.filter (·.1 ≠ k)
  nodup := m.nodup.sublist (filter_sublist.map Prod.fst)

/-! ## What a lookup returns -/

@[simp] theorem lookup_empty (k : α) : (∅ : InsertionMap α β).lookup k = none := rfl

theorem lookup_eq_some_iff {v : β} : m.lookup k = some v ↔ (k, v) ∈ m.entries := by
  obtain ⟨es, h⟩ := m
  induction es with
  | nil => simp [lookup]
  | cons e es ih =>
    obtain ⟨j, w⟩ := e
    obtain ⟨hj, hes⟩ := nodup_cons.mp h
    rw [lookup, lookup_cons]
    by_cases hk : k = j
    · subst hk
      have hmem : (k, v) ∉ es := fun hv => hj (mem_map.mpr ⟨(k, v), hv, rfl⟩)
      simp [hmem, eq_comm]
    · rw [beq_eq_false_iff_ne.mpr hk]
      simpa [hk, lookup] using ih hes

theorem lookup_isSome_iff : (m.lookup k).isSome ↔ k ∈ m.keys := by
  rw [mem_keys, Option.isSome_iff_exists]
  exact exists_congr fun _ => lookup_eq_some_iff

@[simp] theorem mem_keys_set {l : α} {v : β} :
    l ∈ (m.set k v).keys ↔ l = k ∨ l ∈ m.keys := mem_setEntries_keys k v m.entries l

@[simp] theorem mem_keys_erase {l : α} : l ∈ (m.erase k).keys ↔ l ≠ k ∧ l ∈ m.keys := by
  simp only [mem_keys, erase, mem_filter, decide_eq_true_eq, exists_and_right]
  exact and_comm

theorem mem_entries_set {v : β} {e : α × β} (h : e ∈ (m.set k v).entries) : e = (k, v) ∨ e.1 ≠ k ∧ e ∈ m.entries := by
  obtain ⟨es, hnodup⟩ := m
  change e ∈ setEntries k v es at h
  change e = (k, v) ∨ e.1 ≠ k ∧ e ∈ es
  induction es with
  | nil => exact .inl (by simpa [setEntries] using h)
  | cons f es ih =>
    obtain ⟨j, w⟩ := f
    obtain ⟨hj, hes⟩ := nodup_cons.mp hnodup
    rw [setEntries] at h
    split at h
    · next heq =>
      subst heq
      rcases mem_cons.mp h with rfl | h
      · exact .inl rfl
      · exact .inr ⟨fun he => hj (mem_map.mpr ⟨e, h, he⟩), mem_cons_of_mem _ h⟩
    · next hne =>
      rcases mem_cons.mp h with rfl | h
      · exact .inr ⟨hne, mem_cons_self⟩
      · rcases ih hes h with heq | ⟨he, hmem⟩
        · exact .inl heq
        · exact .inr ⟨he, mem_cons_of_mem _ hmem⟩

theorem mem_entries_erase {e : α × β} : e ∈ (m.erase k).entries ↔ e.1 ≠ k ∧ e ∈ m.entries := by
  simp only [erase, mem_filter, decide_eq_true_eq, and_comm]

theorem lookup_set (m : InsertionMap α β) (k l : α) (v : β) :
    (m.set k v).lookup l = if l = k then some v else m.lookup l := by
  obtain ⟨es, hnodup⟩ := m
  change (setEntries k v es).lookup l = if l = k then some v else es.lookup l
  clear hnodup
  induction es with
  | nil => by_cases hl : l = k <;> simp [setEntries, lookup_cons, hl, beq_eq_false_iff_ne.mpr]
  | cons e es ih =>
    obtain ⟨j, w⟩ := e
    rw [setEntries]
    by_cases hj : j = k
    · subst hj
      by_cases hl : l = j <;> simp [lookup_cons, hl, beq_eq_false_iff_ne.mpr]
    · rw [if_neg hj, lookup_cons, lookup_cons, ih]
      by_cases hl : l = j
      · subst hl
        simp [hj]
      · simp only [beq_eq_false_iff_ne.mpr hl]

theorem lookup_erase (m : InsertionMap α β) (k l : α) : (m.erase k).lookup l = if l = k then none else m.lookup l := by
  refine Option.ext fun v => ?_
  rw [lookup_eq_some_iff, mem_entries_erase]
  by_cases hl : l = k
  · simp [hl]
  · simp [hl, lookup_eq_some_iff]

/-! ## Counting entries -/

theorem perm_of_lookup {v : β} (h : m.lookup k = some v) : m.entries.Perm ((k, v) :: (m.erase k).entries) := by
  have hmem := lookup_eq_some_iff.mp h
  obtain ⟨es, hnodup⟩ := m
  change (k, v) ∈ es at hmem
  change es.Perm ((k, v) :: es.filter (·.1 ≠ k))
  clear h
  induction es with
  | nil => simp at hmem
  | cons e es ih =>
    obtain ⟨j, w⟩ := e
    obtain ⟨hj, hes⟩ := nodup_cons.mp hnodup
    rcases mem_cons.mp hmem with heq | hmem
    · cases heq
      have hrest : es.filter (fun e => decide (e.1 ≠ k)) = es :=
        filter_eq_self.mpr fun e he => by simpa using fun heq => hj (mem_map.mpr ⟨e, he, heq⟩)
      rw [filter_cons_of_neg (by simp), hrest]
    · have hne : j ≠ k := fun heq => hj (mem_map.mpr ⟨(k, v), hmem, heq.symm⟩)
      rw [filter_cons_of_pos (by simpa using hne)]
      exact ((ih hes hmem).cons _).trans (List.Perm.swap _ _ _)

theorem entries_set_of_lookup_none (h : m.lookup k = none) (v : β) : (m.set k v).entries = m.entries ++ [(k, v)] := by
  obtain ⟨es, hnodup⟩ := m
  change es.lookup k = none at h
  change setEntries k v es = es ++ [(k, v)]
  clear hnodup
  induction es with
  | nil => rfl
  | cons e es ih =>
    obtain ⟨j, w⟩ := e
    rw [lookup_cons] at h
    split at h
    · cases h
    · next hne => rw [setEntries, if_neg fun heq => by simp [heq] at hne, ih h, cons_append]

theorem map_entries_set {γ : Type*} {v v' : β} (h : m.lookup k = some v) {f : β → γ} (hf : f v' = f v) :
    (m.set k v').entries.map (fun e => f e.2) = m.entries.map fun e => f e.2 := by
  obtain ⟨es, hnodup⟩ := m
  change es.lookup k = some v at h
  change (setEntries k v' es).map _ = es.map _
  clear hnodup
  induction es with
  | nil => simp at h
  | cons e es ih =>
    obtain ⟨l, w⟩ := e
    rw [setEntries]
    by_cases hl : l = k
    · subst hl
      obtain rfl : w = v := by simpa using h
      simp [hf]
    · have hne : (k == l) = false := by simpa using Ne.symm hl
      rw [lookup_cons, hne] at h
      simp [hl, ih h]

end InsertionMap

end CocoHarness.Lib
