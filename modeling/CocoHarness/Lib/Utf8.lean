/-
# CocoHarness.Lib.Utf8 — texts as bytes.

`encode` is the UTF-8 encoding of a string.  `decode` is the decoder a JavaScript engine applies to a
buffer: it never fails, and replaces each maximal ill-formed run by U+FFFD, reading the byte that broke
the run again.  `decode_encode` is the round trip, and `newline_notMem_encode` the fact a line-based
format rests on: bytes above 0x7F only ever belong to multi-byte characters, so the newline byte stands
for a newline.
-/
import CocoHarness.Lib.JsonText

namespace CocoHarness.Lib.Utf8

open List

/-! ## Encoding -/

def encodeChar (c : Char) : List UInt8 :=
  let n := c.toNat
  if n < 0x80 then [UInt8.ofNat n]
  else if n < 0x800 then [UInt8.ofNat (0xC0 + n / 64), UInt8.ofNat (0x80 + n % 64)]
  else if n < 0x10000 then
    [UInt8.ofNat (0xE0 + n / 4096), UInt8.ofNat (0x80 + n / 64 % 64), UInt8.ofNat (0x80 + n % 64)]
  else
    [UInt8.ofNat (0xF0 + n / 262144), UInt8.ofNat (0x80 + n / 4096 % 64),
      UInt8.ofNat (0x80 + n / 64 % 64), UInt8.ofNat (0x80 + n % 64)]

def encode (cs : List Char) : List UInt8 := cs.flatMap encodeChar

/-! ## Decoding -/

/-- The continuation bytes a lead byte announces, the range of the first of them, and its own bits. -/
def lead (a : Nat) : Option (Nat × Nat × Nat × Nat) :=
  if 0xC2 ≤ a ∧ a ≤ 0xDF then some (1, 0x80, 0xBF, a - 0xC0)
  else if a = 0xE0 then some (2, 0xA0, 0xBF, 0)
  else if a = 0xED then some (2, 0x80, 0x9F, 0xD)
  else if 0xE1 ≤ a ∧ a ≤ 0xEF then some (2, 0x80, 0xBF, a - 0xE0)
  else if a = 0xF0 then some (3, 0x90, 0xBF, 0)
  else if a = 0xF4 then some (3, 0x80, 0x8F, 4)
  else if 0xF1 ≤ a ∧ a ≤ 0xF3 then some (3, 0x80, 0xBF, a - 0xF0)
  else none

/-- The code point, or nothing when a byte falls outside its range, and the bytes still to be read. -/
def continuation : Nat → Nat → Nat → Nat → List UInt8 → Option Nat × List UInt8
  | 0, _, _, v, r => (some v, r)
  | _ + 1, _, _, _, [] => (none, [])
  | need + 1, lo, hi, v, b :: r =>
    if lo ≤ b.toNat ∧ b.toNat ≤ hi then
      continuation need 0x80 0xBF (v * 64 + (b.toNat - 0x80)) r
    else (none, b :: r)

theorem length_continuation (need lo hi v : Nat) (r : List UInt8) :
    (continuation need lo hi v r).2.length ≤ r.length := by
  induction r generalizing need lo hi v with
  | nil => cases need <;> simp [continuation]
  | cons b r ih =>
    cases need with
    | zero => simp [continuation]
    | succ need =>
      rw [continuation]
      split
      · exact (ih _ _ _ _).trans (by simp)
      · simp

def decode : List UInt8 → List Char
  | [] => []
  | a :: r =>
    if a.toNat < 0x80 then Char.ofNat a.toNat :: decode r
    else
      match lead a.toNat with
      | none => Char.ofNat 0xFFFD :: decode r
      | some (need, lo, hi, v) =>
        Char.ofNat ((continuation need lo hi v r).1.getD 0xFFFD) :: decode (continuation need lo hi v r).2
termination_by bs => bs.length
decreasing_by
  · simp
  · simp
  · have := length_continuation need lo hi v r
    simp only [length_cons]; omega

/-! ## The round trip -/

theorem toNat_ofNat {n : Nat} (h : n < 256) : (UInt8.ofNat n).toNat = n := by simp only [UInt8.toNat_ofNat']; omega

theorem continuation_cons {need lo hi v b : Nat} (r : List UInt8) (hb : b < 256) (h : lo ≤ b ∧ b ≤ hi) :
    continuation (need + 1) lo hi v (UInt8.ofNat b :: r) = continuation need 0x80 0xBF (v * 64 + (b - 0x80)) r := by
  rw [continuation, toNat_ofNat hb, if_pos h]

theorem toNat_range (c : Char) : c.toNat < 0xD800 ∨ 0xDFFF < c.toNat ∧ c.toNat < 0x110000 := c.valid

theorem decode_encodeChar (c : Char) (r : List UInt8) : decode (encodeChar c ++ r) = c :: decode r := by
  have hchar : Char.ofNat c.toNat = c := Char.ofNat_toNat c
  have hrange := toNat_range c
  set n := c.toNat with hn
  unfold encodeChar
  rw [← hn]
  by_cases h₁ : n < 0x80
  · simp only [h₁, if_true, singleton_append]
    rw [decode, toNat_ofNat (by omega), if_pos h₁, hchar]
  by_cases h₂ : n < 0x800
  · simp only [h₁, h₂, if_true, if_false, cons_append, nil_append]
    have hlead : lead (0xC0 + n / 64) = some (1, 0x80, 0xBF, 0xC0 + n / 64 - 0xC0) := by rw [lead, if_pos (by omega)]
    rw [decode, toNat_ofNat (by omega), if_neg (by omega), hlead]
    simp only
    rw [continuation_cons _ (by omega) (by omega)]
    simp only [continuation, Option.getD_some]
    rw [show (0xC0 + n / 64 - 0xC0) * 64 + (0x80 + n % 64 - 0x80) = n by omega, hchar]
  by_cases h₃ : n < 0x10000
  · simp only [h₁, h₂, h₃, if_true, if_false, cons_append, nil_append]
    obtain ⟨lo, hi, hlead, hlo⟩ : ∃ lo hi, lead (0xE0 + n / 4096) = some (2, lo, hi, n / 4096) ∧
        lo ≤ 0x80 + n / 64 % 64 ∧ 0x80 + n / 64 % 64 ≤ hi := by
      by_cases h0 : n / 4096 = 0
      · exact ⟨0xA0, 0xBF, by simp [lead, h0], by omega⟩
      by_cases hD : n / 4096 = 0xD
      · exact ⟨0x80, 0x9F, by simp [lead, hD], by omega⟩
      · refine ⟨0x80, 0xBF, ?_, by omega⟩
        rw [lead, if_neg (by omega), if_neg (by omega), if_neg (by omega), if_pos (by omega)]
        simp
    rw [decode, toNat_ofNat (by omega), if_neg (by omega), hlead]
    simp only
    rw [continuation_cons _ (by omega) hlo, continuation_cons _ (by omega) (by omega)]
    simp only [continuation, Option.getD_some]
    rw [show (n / 4096 * 64 + (0x80 + n / 64 % 64 - 0x80)) * 64 + (0x80 + n % 64 - 0x80) = n by omega, hchar]
  · simp only [h₁, h₂, h₃, if_false, cons_append, nil_append]
    obtain ⟨lo, hi, hlead, hlo⟩ : ∃ lo hi, lead (0xF0 + n / 262144) = some (3, lo, hi, n / 262144) ∧
        lo ≤ 0x80 + n / 4096 % 64 ∧ 0x80 + n / 4096 % 64 ≤ hi := by
      by_cases h0 : n / 262144 = 0
      · exact ⟨0x90, 0xBF, by simp [lead, h0], by omega⟩
      by_cases h4 : n / 262144 = 4
      · exact ⟨0x80, 0x8F, by simp [lead, h4], by omega⟩
      · refine ⟨0x80, 0xBF, ?_, by omega⟩
        rw [lead, if_neg (by omega), if_neg (by omega), if_neg (by omega), if_neg (by omega),
          if_neg (by omega), if_neg (by omega), if_pos (by omega)]
        simp
    rw [decode, toNat_ofNat (by omega), if_neg (by omega), hlead]
    simp only
    rw [continuation_cons _ (by omega) hlo, continuation_cons _ (by omega) (by omega),
      continuation_cons _ (by omega) (by omega)]
    simp only [continuation, Option.getD_some]
    rw [show ((n / 262144 * 64 + (0x80 + n / 4096 % 64 - 0x80)) * 64
      + (0x80 + n / 64 % 64 - 0x80)) * 64 + (0x80 + n % 64 - 0x80) = n by omega, hchar]

/-- **UTF-8 round trip.** -/
theorem decode_encode (cs : List Char) : decode (encode cs) = cs := by
  induction cs with
  | nil => simp [encode, decode]
  | cons c cs ih => rw [encode, flatMap_cons, decode_encodeChar, ← encode, ih]

theorem encode_append (as bs : List Char) : encode (as ++ bs) = encode as ++ encode bs := flatMap_append

/-! ## The newline byte -/

def newline : UInt8 := 0x0A

theorem encode_newline : encode ['\n'] = [newline] := by decide

theorem newline_notMem_encodeChar {c : Char} (h : 32 ≤ c.toNat) : newline ∉ encodeChar c := by
  have hrange := toNat_range c
  have hne : ∀ n, n < 256 → n ≠ 10 → newline ≠ UInt8.ofNat n := by
    intro n hn h10 heq
    have := congrArg UInt8.toNat heq
    rw [toNat_ofNat hn] at this
    exact h10 this.symm
  intro hmem
  simp only [encodeChar] at hmem
  split at hmem
  · rw [mem_singleton] at hmem
    exact hne _ (by omega) (by omega) hmem
  split at hmem
  · simp only [mem_cons, not_mem_nil, or_false] at hmem
    rcases hmem with hmem | hmem <;> exact hne _ (by omega) (by omega) hmem
  split at hmem
  · simp only [mem_cons, not_mem_nil, or_false] at hmem
    rcases hmem with hmem | hmem | hmem <;> exact hne _ (by omega) (by omega) hmem
  · simp only [mem_cons, not_mem_nil, or_false] at hmem
    rcases hmem with hmem | hmem | hmem | hmem <;> exact hne _ (by omega) (by omega) hmem

theorem newline_notMem_encode {cs : List Char} (h : ∀ c ∈ cs, 32 ≤ c.toNat) : newline ∉ encode cs := by
  intro hmem
  obtain ⟨c, hc, hmem⟩ := mem_flatMap.mp hmem
  exact newline_notMem_encodeChar (h c hc) hmem

theorem newline_notMem_encode_text (v : Json) : newline ∉ encode (JsonText.text v) :=
  newline_notMem_encode (JsonText.text_printable v)

end CocoHarness.Lib.Utf8
