/-
# CocoHarness.Lib.MarkedText — texts with a placeholder unit, and a table of what each one stands for.

A list of units holds a distinguished unit, the placeholder, once for every embedded object; a table kept
beside it lists the objects in the order of their offsets.  `positions` is what such a table has to list,
`expand` is what the text stands for, and `substitute` is the loop that computes it from the offsets
(`substitute_positions`).  `positions_splice` says how the table moves when a range of the text is
replaced, and `commonEdit` recovers one range between two texts.
-/
import Mathlib.Data.List.Sort

namespace CocoHarness.Lib.MarkedText

open List Nat

universe u

variable {α : Type u}

def slice (xs : List α) (start stop : Nat) : List α := (xs.drop start).take (stop - start)

def splice (xs : List α) (start stop : Nat) (inserted : List α) : List α := xs.take start ++ inserted ++ xs.drop stop

variable [DecidableEq α] {p : α}

/-! ## Where the placeholders are -/

def positions (p : α) : List α → List Nat
  | [] => []
  | x :: xs => if x = p then 0 :: (positions p xs).map (· + 1) else (positions p xs).map (· + 1)

variable {xs : List α}

theorem positions_eq_nil : positions p xs = [] ↔ p ∉ xs := by
  induction xs with
  | nil => simp [positions]
  | cons x xs ih =>
    rw [positions, mem_cons]
    split
    · next h => simp [h]
    · next h => rw [map_eq_nil_iff, ih, not_or]; exact ⟨fun hx => ⟨fun hp => h hp.symm, hx⟩, (·.2)⟩

theorem positions_append (xs ys : List α) :
    positions p (xs ++ ys) = positions p xs ++ (positions p ys).map (· + xs.length) := by
  induction xs with
  | nil => simp [positions]
  | cons x xs ih =>
    rw [cons_append, positions, positions, ih]
    have hshift : (positions p ys).map (fun i => i + xs.length + 1)
        = (positions p ys).map (· + (x :: xs).length) := map_congr_left fun i _ => by
      rw [length_cons]
      omega
    split <;> simp only [map_append, map_map, cons_append, ← hshift, Function.comp_def]

theorem lt_of_mem_positions {i : Nat} (h : i ∈ positions p xs) : i < xs.length := by
  induction xs generalizing i with
  | nil => cases h
  | cons x xs ih =>
    have htail : ∀ i ∈ (positions p xs).map (· + 1), i < (x :: xs).length := by
      intro i hi
      obtain ⟨j, hj, rfl⟩ := mem_map.mp hi
      have := ih hj
      rw [length_cons]
      omega
    rw [positions] at h
    split at h
    · rcases mem_cons.mp h with rfl | h
      · rw [length_cons]; omega
      · exact htail i h
    · exact htail i h

theorem positions_take (xs : List α) (n : Nat) : positions p (xs.take n) = (positions p xs).filter (· < n) := by
  rcases le_total xs.length n with hle | hle
  · rw [take_of_length_le hle, filter_eq_self.mpr]
    intro i hi
    have := lt_of_mem_positions hi
    exact decide_eq_true (by omega)
  · have hlen : (xs.take n).length = n := by rw [length_take]; omega
    conv_rhs => rw [← take_append_drop n xs, positions_append, filter_append]
    rw [filter_eq_self.mpr, filter_eq_nil_iff.mpr, append_nil]
    · intro i hi
      obtain ⟨j, -, rfl⟩ := mem_map.mp hi
      rw [decide_eq_true_eq, hlen]
      omega
    · intro i hi
      have := lt_of_mem_positions hi
      exact decide_eq_true (by omega)

theorem positions_drop (xs : List α) (n : Nat) :
    positions p (xs.drop n) = ((positions p xs).filter (n ≤ ·)).map (· - n) := by
  rcases le_total xs.length n with hle | hle
  · rw [drop_eq_nil_of_le hle, filter_eq_nil_iff.mpr]
    · rfl
    · intro i hi
      have := lt_of_mem_positions hi
      rw [decide_eq_true_eq]
      omega
  · have hlen : (xs.take n).length = n := by rw [length_take]; omega
    conv_rhs => rw [← take_append_drop n xs, positions_append, filter_append]
    rw [filter_eq_nil_iff.mpr, filter_eq_self.mpr, nil_append, map_map]
    · refine (map_id'' (fun i => ?_) _).symm
      rw [Function.comp_apply, hlen]
      omega
    · intro i hi
      obtain ⟨j, -, rfl⟩ := mem_map.mp hi
      exact decide_eq_true (by omega)
    · intro i hi
      have := lt_of_mem_positions hi
      rw [decide_eq_true_eq]
      omega

/-- **How the table moves.**  What stood behind the range shifts, and the inserted text brings its own. -/
theorem positions_splice {inserted : List α} {start stop : Nat} (hstart : start ≤ xs.length) :
    positions p (splice xs start stop inserted)
      = (positions p xs).filter (· < start) ++ (positions p inserted).map (· + start)
        ++ ((positions p xs).filter (stop ≤ ·)).map (fun i => i - stop + (start + inserted.length)) := by
  have hlen : (xs.take start).length = start := by rw [length_take]; omega
  rw [splice, positions_append, positions_append, positions_take, positions_drop, map_map, length_append, hlen]
  rfl

theorem positions_sorted (xs : List α) : (positions p xs).Pairwise (· < ·) := by
  induction xs with
  | nil => exact .nil
  | cons x xs ih =>
    have htail : ((positions p xs).map (· + 1)).Pairwise (· < ·) := pairwise_map.mpr (ih.imp fun h => by omega)
    rw [positions]
    split
    · refine pairwise_cons.mpr ⟨fun i hi => ?_, htail⟩
      obtain ⟨j, -, rfl⟩ := mem_map.mp hi
      omega
    · exact htail

/-! ## What the text stands for -/

def expand (p : α) : List α → List (List α) → List α
  | [], _ => []
  | x :: xs, forms => if x = p then forms.headD [] ++ expand p xs forms.tail else x :: expand p xs forms

theorem expand_of_notMem (h : p ∉ xs) (forms : List (List α)) : expand p xs forms = xs := by
  induction xs with
  | nil => rfl
  | cons x xs ih =>
    rw [mem_cons, not_or] at h
    rw [expand, if_neg (Ne.symm h.1), ih h.2]

theorem notMem_expand {forms : List (List α)} (h : ∀ form ∈ forms, p ∉ form) : p ∉ expand p xs forms := by
  induction xs generalizing forms with
  | nil => exact not_mem_nil
  | cons x xs ih =>
    rw [expand]
    split
    · rw [mem_append, not_or]
      refine ⟨?_, ih fun form hform => h form (mem_of_mem_tail hform)⟩
      cases forms with
      | nil => exact not_mem_nil
      | cons form forms => exact h form (mem_cons_self ..)
    · next hne =>
      rw [mem_cons, not_or]
      exact ⟨Ne.symm hne, ih h⟩

/-- The loop: text is copied, and each offset replaced by its form. -/
def substitute (xs : List α) (cursor : Nat) : List (Nat × List α) → List α
  | [] => xs.drop cursor
  | (offset, form) :: parts => slice xs cursor offset ++ form ++ substitute xs (offset + 1) parts

theorem substitute_copy {cursor : Nat} (hlt : cursor < xs.length) {parts : List (Nat × List α)}
    (h : ∀ part ∈ parts.head?, cursor < part.1) :
    substitute xs cursor parts = xs[cursor] :: substitute xs (cursor + 1) parts := by
  cases parts with
  | nil => exact drop_eq_getElem_cons hlt
  | cons part parts =>
    obtain ⟨offset, form⟩ := part
    have hoffset : cursor < offset := h (offset, form) rfl
    have hslice : slice xs cursor offset = xs[cursor] :: slice xs (cursor + 1) offset := by
      rw [slice, drop_eq_getElem_cons hlt, show offset - cursor = offset - (cursor + 1) + 1 by omega, take_succ_cons]
      rfl
    rw [substitute, substitute, hslice, cons_append, cons_append]

theorem substitute_behind (xs : List α) : ∀ (before : List α) (forms : List (List α)),
    forms.length = (positions p xs).length →
    substitute (before ++ xs) before.length (((positions p xs).map (· + before.length)).zip forms)
      = expand p xs forms := by
  induction xs with
  | nil =>
    intro before forms _
    rw [append_nil]
    exact drop_length
  | cons x xs ih =>
    intro before forms hlength
    have hnext : before ++ x :: xs = (before ++ [x]) ++ xs := by rw [append_assoc]; rfl
    have hsucc : (before ++ [x]).length = before.length + 1 := by rw [length_append]; rfl
    have hshift : ((positions p xs).map (· + 1)).map (· + before.length)
        = (positions p xs).map (· + (before ++ [x]).length) := by
      rw [map_map]
      apply map_congr_left
      intro i _
      rw [Function.comp_apply, hsucc]
      omega
    rw [positions] at hlength ⊢
    by_cases hx : x = p
    · -- the placeholder itself
      rw [if_pos hx] at hlength ⊢
      cases forms with
      | nil => cases hlength
      | cons form forms =>
        rw [length_cons, length_cons, length_map, Nat.add_right_cancel_iff] at hlength
        rw [map_cons, zip_cons_cons, substitute, Nat.zero_add, hshift, hnext, ← hsucc,
          ih (before ++ [x]) forms hlength, slice, Nat.sub_self, take_zero, nil_append, expand,
          if_pos hx]
        rfl
    · rw [if_neg hx] at hlength ⊢
      rw [length_map] at hlength
      have hhere : ∀ h : before.length < (before ++ x :: xs).length, (before ++ x :: xs)[before.length] = x := by
        intro h
        simp
      rw [hshift, substitute_copy (by rw [length_append, length_cons]; omega), hhere, expand, if_neg hx]
      · rw [hnext, ← hsucc, ih (before ++ [x]) forms hlength]
      · intro part hpart
        obtain ⟨hmem, -⟩ := of_mem_zip (mem_of_mem_head? hpart)
        obtain ⟨i, -, hi⟩ := mem_map.mp hmem
        rw [hsucc] at hi
        omega

/-- **The loop computes what the text stands for** when it is given the placeholders' own offsets. -/
theorem substitute_positions {forms : List (List α)} (h : forms.length = (positions p xs).length) :
    substitute xs 0 ((positions p xs).zip forms) = expand p xs forms := by
  have hloop := substitute_behind xs [] forms h
  simpa using hloop

/-! ## Recovering an edit -/

def commonLength : List α → List α → Nat
  | x :: xs, y :: ys => if x = y then commonLength xs ys + 1 else 0
  | _, _ => 0

theorem commonLength_le (xs ys : List α) : commonLength xs ys ≤ xs.length ∧ commonLength xs ys ≤ ys.length := by
  induction xs generalizing ys with
  | nil => exact ⟨zero_le _, zero_le _⟩
  | cons x xs ih =>
    cases ys with
    | nil => exact ⟨zero_le _, zero_le _⟩
    | cons y ys =>
      obtain ⟨hx, hy⟩ := ih ys
      rw [commonLength]
      split
      · rw [length_cons, length_cons]; omega
      · exact ⟨zero_le _, zero_le _⟩

theorem take_commonLength (xs ys : List α) : xs.take (commonLength xs ys) = ys.take (commonLength xs ys) := by
  induction xs generalizing ys with
  | nil => rfl
  | cons x xs ih =>
    cases ys with
    | nil => rfl
    | cons y ys =>
      rw [commonLength]
      split
      · next h => rw [take_succ_cons, take_succ_cons, ih ys, h]
      · rfl

theorem length_le_commonLength (before xs ys : List α) :
    before.length ≤ commonLength (before ++ xs) (before ++ ys) := by
  induction before with
  | nil => exact zero_le _
  | cons b before ih =>
    rw [cons_append, cons_append, commonLength, if_pos rfl, length_cons]
    omega

/-- How many units two texts share at the back, behind what they share at the front. -/
def commonSuffix (prev next : List α) : Nat :=
  min (min prev.length next.length - commonLength prev next) (commonLength prev.reverse next.reverse)

theorem commonSuffix_le (prev next : List α) : commonLength prev next + commonSuffix prev next ≤ prev.length ∧
      commonLength prev next + commonSuffix prev next ≤ next.length := by
  have hprefix := commonLength_le prev next
  rw [commonSuffix]
  omega

theorem drop_commonSuffix (prev next : List α) :
    prev.drop (prev.length - commonSuffix prev next) = next.drop (next.length - commonSuffix prev next) := by
  have hsame : ∀ n, n ≤ commonLength prev.reverse next.reverse → prev.reverse.take n = next.reverse.take n := by
    intro n hn
    have htake := congrArg (List.take n) (take_commonLength prev.reverse next.reverse)
    rwa [take_take, take_take, min_eq_left hn] at htake
  have h := hsame (commonSuffix prev next) (min_le_right _ _)
  rw [take_reverse, take_reverse] at h
  exact reverse_inj.mp h

theorem splice_common (prev next : List α) :
    splice prev (commonLength prev next) (prev.length - commonSuffix prev next)
      (slice next (commonLength prev next) (next.length - commonSuffix prev next)) = next := by
  have hle := commonSuffix_le prev next
  rw [splice, take_commonLength, drop_commonSuffix, slice, append_assoc]
  have hdrop : next.drop (next.length - commonSuffix prev next) = (next.drop (commonLength prev next)).drop
        (next.length - commonSuffix prev next - commonLength prev next) := by
    rw [drop_drop]
    congr 1
    omega
  rw [hdrop, take_append_drop, take_append_drop]

/-- **The edit that is recovered inserts no placeholder** when some edit between the two texts inserts none. -/
theorem notMem_common {before mid after inserted : List α} (h : p ∉ inserted) : p ∉ slice (before ++ inserted ++ after)
      (commonLength (before ++ mid ++ after) (before ++ inserted ++ after))
      ((before ++ inserted ++ after).length
        - commonSuffix (before ++ mid ++ after) (before ++ inserted ++ after)) := by
  generalize hprev : before ++ mid ++ after = prev
  generalize hnext : before ++ inserted ++ after = next
  have hfront : before.length ≤ commonLength prev next := by
    rw [← hprev, ← hnext, append_assoc, append_assoc]
    apply length_le_commonLength
  have hback : after.length ≤ commonLength prev.reverse next.reverse := by
    rw [← hprev, ← hnext, reverse_append, @List.reverse_append _ (before ++ inserted), ← @List.length_reverse _ after]
    apply length_le_commonLength
  have hplen : prev.length = before.length + mid.length + after.length := by
    rw [← hprev, length_append, length_append]
  have hnlen : next.length = before.length + inserted.length + after.length := by
    rw [← hnext, length_append, length_append]
  have hle := commonLength_le prev next
  have hinserted : ∀ i, before.length ≤ i → next[i]? = some p → before.length + inserted.length ≤ i := by
    intro i hi hget
    by_contra hlt
    rw [← hnext, getElem?_append_left (by rw [length_append]; omega), getElem?_append_right hi] at hget
    exact h (mem_of_getElem? hget)
  -- behind the true edit the two texts agree, up to the change of length
  have hshift : ∀ i, before.length + inserted.length ≤ i →
      next[i]? = prev[i - (before.length + inserted.length) + (before.length + mid.length)]? := by
    intro i hi
    rw [← hnext, ← hprev, getElem?_append_right (by rw [length_append]; omega),
      getElem?_append_right (by rw [length_append]; omega), length_append,
      length_append]
    congr 1
    omega
  have hcommon : ∀ i, i < commonLength prev next → prev[i]? = next[i]? := by
    intro i hi
    have htake := congrArg (·[i]?) (take_commonLength prev next)
    simpa only [getElem?_take, if_pos hi] using htake
  have hnone : ∀ i, before.length ≤ i → mid.length < inserted.length →
      i + mid.length < commonLength prev next + inserted.length → next[i]? ≠ some p := by
    intro i
    induction i using Nat.strongRecOn with
    | ind i ih =>
      intro hi hlonger hlt hget
      have hbehind := hinserted i hi hget
      rw [hshift i hbehind, hcommon _ (by omega)] at hget
      exact ih _ (by omega) (by omega) hlonger (by omega) hget
  intro hmem
  obtain ⟨k, hk⟩ := mem_iff_getElem?.mp hmem
  rw [slice, getElem?_take] at hk
  split at hk
  · next hlt =>
    rw [getElem?_drop] at hk
    have hsuffix : commonSuffix prev next = min (min prev.length next.length - commonLength prev next)
      (commonLength prev.reverse next.reverse) := rfl
    rcases lt_or_ge mid.length inserted.length with hlonger | hshorter
    · rcases lt_or_ge (commonSuffix prev next) after.length with hs | hs
      · exact hnone _ (by omega) hlonger (by omega) hk
      · have := hinserted _ (by omega) hk
        omega
    · have := hinserted _ (by omega) hk
      omega
  · cases hk

end CocoHarness.Lib.MarkedText
