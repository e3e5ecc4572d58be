/-
# CocoHarness.Lib.Register — one register under dated statements.

A statement says at a date what a register holds, or that it holds nothing.  A later value wins over an earlier one;
a statement of absence clears what is not later than it, and leaves no date behind.  Where the latest value is later
than every absence, the outcome is that value in whatever order the statements come and however often
(`settleAll_newest`).
-/
import Mathlib.Data.Int.Basic

namespace CocoHarness.Lib.Register

open List

universe u

structure Row (α : Type u) where
  value : α
  seq : Int
deriving DecidableEq

variable {α : Type u}

abbrev Statement (α : Type u) := Int × Option α

def settle (row : Option (Row α)) (statement : Statement α) : Option (Row α) :=
  match statement.2 with
  | some value =>
    match row with
    | some r => if statement.1 ≤ r.seq then some r else some { value, seq := statement.1 }
    | none => some { value, seq := statement.1 }
  | none =>
    match row with
    | some r => if statement.1 < r.seq then some r else none
    | none => none

def settleAll (row : Option (Row α)) (statements : List (Statement α)) : Option (Row α) :=
  statements.foldl settle row

@[simp] theorem settleAll_nil (row : Option (Row α)) : settleAll row [] = row := rfl

@[simp] theorem settleAll_cons (row : Option (Row α)) (st : Statement α) (sts : List (Statement α)) :
    settleAll row (st :: sts) = settleAll (settle row st) sts := rfl

theorem settleAll_append (row : Option (Row α)) (as bs : List (Statement α)) :
    settleAll row (as ++ bs) = settleAll (settleAll row as) bs :=
  foldl_append

def Tells (history : Int → Option α) (statements : List (Statement α)) : Prop :=
  ∀ st ∈ statements, st.2 = history st.1

variable {history : Int → Option α} {statements : List (Statement α)}

theorem said_of_settleAll {row : Option (Row α)} {r : Row α} (h : settleAll row statements = some r) :
    row = some r ∨ (r.seq, some r.value) ∈ statements := by
  induction statements generalizing row with
  | nil => exact Or.inl h
  | cons st sts ih =>
    rcases ih h with hrow | hmem
    · obtain ⟨date, said⟩ := st
      unfold settle at hrow
      dsimp only at hrow
      split at hrow
      · split at hrow
        · split at hrow
          · exact Or.inl hrow
          · cases hrow
            exact Or.inr mem_cons_self
        · cases hrow
          exact Or.inr mem_cons_self
      · split at hrow
        · split at hrow
          · exact Or.inl hrow
          · cases hrow
        · cases hrow
    · exact Or.inr (mem_cons_of_mem _ hmem)

/-- **The newest value stays**, when nothing said comes after it. -/
theorem settleAll_newest {value : α} {seq : Int} (htells : Tells history statements)
    (hvalue : history seq = some value) (hle : ∀ date said, (date, some said) ∈ statements → date ≤ seq)
    (hlt : ∀ date, (date, none) ∈ statements → date < seq) {row : Option (Row α)}
    (hrow : ∀ r, row = some r → r.seq ≤ seq ∧ history r.seq = some r.value)
    (hmem : (seq, some value) ∈ statements ∨ row = some { value, seq }) :
    settleAll row statements = some { value, seq } := by
  induction statements generalizing row with
  | nil =>
    rcases hmem with hmem | hmem
    · cases hmem
    · exact hmem
  | cons st sts ih =>
    obtain ⟨date, said⟩ := st
    have htold : said = history date := htells _ mem_cons_self
    refine ih (fun st hst => htells st (mem_cons_of_mem _ hst))
      (fun d s hs => hle d s (mem_cons_of_mem _ hs))
      (fun d hs => hlt d (mem_cons_of_mem _ hs)) ?_ ?_
    · intro r hr
      rcases said_of_settleAll (show settleAll row [(date, said)] = some r from hr) with hold | hnew
      · exact hrow r hold
      · cases mem_singleton.mp hnew
        exact ⟨hle _ _ mem_cons_self, htold.symm⟩
    · cases said with
      | none =>
        -- an absence is earlier than the newest value
        have hearlier := hlt date mem_cons_self
        rcases hmem with hmem | rfl
        · exact Or.inl ((mem_cons.mp hmem).resolve_left (by simp))
        · right
          simp only [settle, if_pos hearlier]
      | some other =>
        have hnotlater := hle date other mem_cons_self
        by_cases hdate : date = seq
        · subst hdate
          cases htold.trans hvalue
          right
          cases row with
          | none => rfl
          | some r =>
            obtain ⟨hr, hkept⟩ := hrow r rfl
            simp only [settle]
            split
            · next hle' =>
              obtain ⟨v, s⟩ := r
              obtain rfl : s = date := Int.le_antisymm hr hle'
              cases hkept.symm.trans hvalue
              rfl
            · rfl
        · rcases hmem with hmem | rfl
          · refine Or.inl ((mem_cons.mp hmem).resolve_left ?_)
            intro heq
            exact hdate (Prod.mk.inj heq).1.symm
          · right
            simp only [settle, if_pos hnotlater]

theorem settleAll_empty (h : ∀ date said, (date, some said) ∉ statements) : settleAll none statements = none := by
  cases hrow : settleAll none statements with
  | none => rfl
  | some r =>
    rcases said_of_settleAll hrow with hno | hmem
    · cases hno
    · exact absurd hmem (h _ _)

theorem settleAll_cleared {date : Int} (h : ∀ d said, (d, some said) ∈ statements → d ≤ date) :
    settleAll none (statements ++ [(date, none)]) = none := by
  rw [settleAll_append, settleAll_cons, settleAll_nil]
  cases hrow : settleAll none statements with
  | none => rfl
  | some r =>
    rcases said_of_settleAll hrow with hno | hmem
    · cases hno
    · simp only [settle, if_neg (Int.not_lt.mpr (h _ _ hmem))]

theorem settleAll_revived (date : Int) (value : α) :
    settleAll none [(date, some value)] = some { value, seq := date } := rfl

end CocoHarness.Lib.Register
