/-
# CocoHarness.Lib.Utf8Cut — cutting an encoded text.

A character is encoded by one lead byte, which announces the length, and continuation bytes (`encodeChar_shape`).
A cut anywhere in an encoded text falls before or into one character (`cut_encode`); what a byte budget keeps of
whole characters at either end is the text up to there (`longestPrefix_of_cut`, `longestSuffix_of_cut`).
-/
import CocoHarness.Lib.Utf8

namespace CocoHarness.Lib.Utf8

open List

/-! ## Lead and continuation bytes -/

def isContinuation (b : UInt8) : Bool := b &&& 0xC0 == 0x80

def sequenceLength (lead : UInt8) : Nat :=
  if lead < 0x80 then 1 else if lead < 0xE0 then 2 else if lead < 0xF0 then 3
  else if lead < 0xF8 then 4 else 0

variable {n : Nat}

theorem isContinuation_ofNat (h : n < 256) : isContinuation (UInt8.ofNat n) = decide (0x80 ≤ n ∧ n < 0xC0) := by
  have hall : ∀ n < 256, isContinuation (UInt8.ofNat n) = decide (0x80 ≤ n ∧ n < 0xC0) := by decide +kernel
  exact hall n h

theorem sequenceLength_ofNat (h : n < 256) : sequenceLength (UInt8.ofNat n)
      = if n < 0x80 then 1 else if n < 0xE0 then 2 else if n < 0xF0 then 3 else if n < 0xF8 then 4 else 0 := by
  have hall : ∀ n < 256, sequenceLength (UInt8.ofNat n)
      = if n < 0x80 then 1 else if n < 0xE0 then 2 else if n < 0xF0 then 3
        else if n < 0xF8 then 4 else 0 := by
    decide +kernel
  exact hall n h

/-- **A character's bytes.**  A lead byte that announces their number, and at most three more. -/
theorem encodeChar_shape (c : Char) : ∃ lead tail, encodeChar c = lead :: tail
    ∧ isContinuation lead = false ∧ (∀ b ∈ tail, isContinuation b = true) ∧ tail.length ≤ 3
    ∧ sequenceLength lead = tail.length + 1 := by
  have hrange := toNat_range c
  unfold encodeChar
  set n := c.toNat with hn
  have hcont : ∀ m, isContinuation (UInt8.ofNat (0x80 + m % 64)) = true := by
    intro m
    rw [isContinuation_ofNat (by omega)]
    exact decide_eq_true (by omega)
  by_cases h₁ : n < 0x80
  · rw [if_pos h₁]
    refine ⟨_, [], rfl, ?_, forall_mem_nil _, by decide, ?_⟩
    · rw [isContinuation_ofNat (by omega)]
      exact decide_eq_false (by omega)
    · rw [sequenceLength_ofNat (by omega), if_pos h₁]
      rfl
  by_cases h₂ : n < 0x800
  · rw [if_neg h₁, if_pos h₂]
    refine ⟨_, _, rfl, ?_, ?_, by simp, ?_⟩
    · rw [isContinuation_ofNat (by omega)]
      exact decide_eq_false (by omega)
    · intro b hb
      rw [mem_singleton.mp hb]
      exact hcont n
    · rw [sequenceLength_ofNat (by omega), if_neg (by omega), if_pos (by omega)]
      rfl
  by_cases h₃ : n < 0x10000
  · rw [if_neg h₁, if_neg h₂, if_pos h₃]
    refine ⟨_, _, rfl, ?_, ?_, by simp, ?_⟩
    · rw [isContinuation_ofNat (by omega)]
      exact decide_eq_false (by omega)
    · intro b hb
      simp only [mem_cons, not_mem_nil, or_false] at hb
      rcases hb with rfl | rfl
      · exact hcont _
      · exact hcont _
    · rw [sequenceLength_ofNat (by omega), if_neg (by omega), if_neg (by omega), if_pos (by omega)]
      rfl
  · rw [if_neg h₁, if_neg h₂, if_neg h₃]
    refine ⟨_, _, rfl, ?_, ?_, by simp, ?_⟩
    · rw [isContinuation_ofNat (by omega)]
      exact decide_eq_false (by omega)
    · intro b hb
      simp only [mem_cons, not_mem_nil, or_false] at hb
      rcases hb with rfl | rfl | rfl
      · exact hcont _
      · exact hcont _
      · exact hcont _
    · rw [sequenceLength_ofNat (by omega), if_neg (by omega), if_neg (by omega), if_neg (by omega), if_pos (by omega)]
      rfl

theorem encodeChar_pos (c : Char) : 0 < (encodeChar c).length := by
  obtain ⟨lead, tail, hshape, -⟩ := encodeChar_shape c
  rw [hshape]
  exact Nat.succ_pos _

/-! ## Lengths -/

def byteLength (cs : List Char) : Nat := (encode cs).length

@[simp] theorem byteLength_nil : byteLength [] = 0 := rfl

@[simp] theorem byteLength_cons (c : Char) (cs : List Char) :
    byteLength (c :: cs) = (encodeChar c).length + byteLength cs := by
  simp [byteLength, encode]

@[simp] theorem byteLength_append (as bs : List Char) :
    byteLength (as ++ bs) = byteLength as + byteLength bs := by
  simp [byteLength, encode_append]

variable {cs : List Char}

theorem byteLength_eq_zero (h : byteLength cs = 0) : cs = [] := by
  cases cs with
  | nil => rfl
  | cons c cs =>
    have hpos := encodeChar_pos c
    rw [byteLength_cons] at h
    omega

theorem cut_encode (h : n < byteLength cs) :
    ∃ front c back k, cs = front ++ c :: back ∧ n = byteLength front + k ∧ k < (encodeChar c).length := by
  induction cs generalizing n with
  | nil => exact absurd h (Nat.not_lt_zero n)
  | cons c cs ih =>
    rw [byteLength_cons] at h
    by_cases hin : n < (encodeChar c).length
    · exact ⟨[], c, cs, n, rfl, by rw [byteLength_nil, Nat.zero_add], hin⟩
    · obtain ⟨front, d, back, k, rfl, hk, hlt⟩ := ih (show n - (encodeChar c).length < byteLength cs by omega)
      refine ⟨c :: front, d, back, k, rfl, ?_, hlt⟩
      rw [byteLength_cons]
      omega

/-! ## What a budget keeps -/

/-- The longest text of whole characters at the head that fits a budget. -/
structure LongestPrefix (budget : Nat) (cs kept : List Char) : Prop where
  isPrefix : kept <+: cs
  fits : byteLength kept ≤ budget
  longest : ∀ other, other <+: cs → byteLength other ≤ budget → other <+: kept

/-- The longest text of whole characters at the tail that fits a budget. -/
structure LongestSuffix (budget : Nat) (cs kept : List Char) : Prop where
  isSuffix : kept <:+ cs
  fits : byteLength kept ≤ budget
  longest : ∀ other, other <:+ cs → byteLength other ≤ budget → other <:+ kept

variable {budget : Nat} {kept kept' : List Char}

theorem LongestPrefix.unique (h : LongestPrefix budget cs kept) (h' : LongestPrefix budget cs kept') : kept = kept' :=
  (h'.longest kept h.isPrefix h.fits).eq_of_length_le (h.longest kept' h'.isPrefix h'.fits).length_le

theorem LongestSuffix.unique (h : LongestSuffix budget cs kept) (h' : LongestSuffix budget cs kept') : kept = kept' :=
  (h'.longest kept h.isSuffix h.fits).eq_of_length_le (h.longest kept' h'.isSuffix h'.fits).length_le

variable {front back : List Char} {c : Char} {k : Nat}

theorem longestPrefix_of_cut
    (h : k < (encodeChar c).length) : LongestPrefix (byteLength front + k) (front ++ c :: back) front where
  isPrefix := prefix_append _ _
  fits := Nat.le_add_right _ _
  longest := by
    intro other hother hfits
    rcases prefix_or_prefix_of_prefix hother (prefix_append front (c :: back)) with hle | hge
    · exact hle
    · -- a longer one has the whole character
      obtain ⟨more, rfl⟩ := hge
      obtain ⟨rest, hrest⟩ := hother
      rw [append_assoc, append_cancel_left_eq] at hrest
      cases more with
      | nil => rw [append_nil]
      | cons d more =>
        rw [cons_append, List.cons.injEq] at hrest
        rw [byteLength_append, byteLength_cons, hrest.1] at hfits
        omega

theorem longestSuffix_of_cut
    (h : k < (encodeChar c).length) : LongestSuffix (k + byteLength back) (front ++ c :: back) back where
  isSuffix := (suffix_cons c back).trans (suffix_append _ _)
  fits := Nat.le_add_left _ _
  longest := by
    intro other hother hfits
    have hback : back <:+ front ++ c :: back := (suffix_cons c back).trans (suffix_append _ _)
    rcases suffix_or_suffix_of_suffix hother hback with hle | hge
    · exact hle
    · -- a longer one has the whole character
      obtain ⟨more, rfl⟩ := hge
      obtain ⟨rest, hrest⟩ := hother
      rw [← append_assoc, append_cons, append_cancel_right_eq] at hrest
      rcases eq_nil_or_concat more with rfl | ⟨before, d, rfl⟩
      · exact suffix_rfl
      · rw [concat_eq_append, ← append_assoc] at hrest
        obtain ⟨-, hlast⟩ := append_inj' hrest rfl
        rw [concat_eq_append, List.cons.inj hlast |>.1, byteLength_append, byteLength_append, byteLength_cons] at hfits
        omega

theorem longestSuffix_whole (front back : List Char) : LongestSuffix (byteLength back) (front ++ back) back where
  isSuffix := suffix_append _ _
  fits := Nat.le_refl _
  longest := by
    intro other hother hfits
    rcases suffix_or_suffix_of_suffix hother (suffix_append front back) with hle | hge
    · exact hle
    · obtain ⟨more, rfl⟩ := hge
      rw [byteLength_append] at hfits
      rw [byteLength_eq_zero (show byteLength more = 0 by omega)]
      exact suffix_rfl

end CocoHarness.Lib.Utf8
