/-
# CocoHarness.Lib.Numeral — number texts, written and read back.

`numberText` lays a number out as `Number.prototype.toString` does: with `k` significant digits and the decimal point
after the `n`-th of them, the digits padded with zeros when `k ≤ n ≤ 21`, a point inside them when `0 < n ≤ 21`, a
leading `0.` when `-6 < n ≤ 0`, and the exponent form otherwise.
-/
import CocoHarness.Lib.Json
import Mathlib.Data.List.TakeWhile
import Mathlib.Data.Nat.Digits.Lemmas

namespace CocoHarness.Lib.Numeral

open List Nat

/-! ## Decimal digits -/

def isDigit (c : Char) : Bool := decide (48 ≤ c.toNat ∧ c.toNat ≤ 57)

def digitVal (c : Char) : Nat := c.toNat - 48

def digitChar (d : Nat) : Char := Char.ofNat (48 + d)

def digitsVal (cs : List Char) : Nat := Nat.ofDigits 10 (cs.reverse.map digitVal)

def natText (n : Nat) : List Char := if n = 0 then ['0'] else (Nat.digits 10 n).reverse.map digitChar

def zeros (n : Nat) : List Char := List.replicate n '0'

variable {d : Nat}

theorem toNat_digitChar (h : d < 10) : (digitChar d).toNat = 48 + d := by
  have hv : (48 + d).isValidChar := by left; omega
  rw [digitChar, Char.ofNat, dif_pos hv]
  rfl

theorem digitVal_digitChar (h : d < 10) : digitVal (digitChar d) = d := by simp [digitVal, toNat_digitChar h]

theorem isDigit_digitChar (h : d < 10) : isDigit (digitChar d) = true := by
  simp only [isDigit, toNat_digitChar h, decide_eq_true_eq]; omega

theorem digitsVal_append (xs ys : List Char) :
    digitsVal (xs ++ ys) = digitsVal xs * 10 ^ ys.length + digitsVal ys := by
  simp only [digitsVal, reverse_append, map_append, ofDigits_append, length_map, length_reverse]
  ring

@[simp] theorem digitsVal_zeros (n : Nat) : digitsVal (zeros n) = 0 := by
  induction n with
  | zero => rfl
  | succ n ih =>
    rw [zeros, replicate_succ', ← zeros, digitsVal_append, ih]
    rfl

theorem digitsVal_natText (n : Nat) : digitsVal (natText n) = n := by
  unfold natText
  split
  · next h => subst h; rfl
  · have hmap : (digits 10 n).map (digitVal ∘ digitChar) = digits 10 n := by
      rw [map_congr_left (g := id), map_id]
      intro d hd
      exact digitVal_digitChar (digits_lt_base (by decide) hd)
    rw [digitsVal, ← map_reverse, reverse_reverse, map_map, hmap, ofDigits_digits]

theorem natText_isDigit (n : Nat) : ∀ c ∈ natText n, isDigit c = true := by
  intro c hc
  unfold natText at hc
  split at hc
  · rw [mem_singleton] at hc; subst hc; decide
  · simp only [mem_map, mem_reverse] at hc
    obtain ⟨d, hd, rfl⟩ := hc
    exact isDigit_digitChar (digits_lt_base (by decide) hd)

theorem zeros_isDigit (n : Nat) : ∀ c ∈ zeros n, isDigit c = true := by
  intro c hc
  rw [eq_of_mem_replicate hc]; decide

theorem natText_ne_nil (n : Nat) : natText n ≠ [] := by
  unfold natText
  split
  · simp
  · next h => simpa using digits_ne_nil_iff_ne_zero.mpr h

variable {n : Nat} {c : Char}

theorem natText_head_ne_zero (hn : n ≠ 0) {cs : List Char} (h : natText n = c :: cs) : c ≠ '0' := by
  rw [natText, if_neg hn] at h
  have hne : digits 10 n ≠ [] := digits_ne_nil_iff_ne_zero.mpr hn
  have hlast := getLast_digit_ne_zero 10 hn
  have hlt := digits_lt_base (b := 10) (by decide) (getLast_mem hne)
  have hc : c = digitChar ((digits 10 n).getLast hne) := by
    have := congrArg List.head? h
    rw [map_reverse, List.head?_reverse, List.getLast?_map, List.getLast?_eq_some_getLast hne] at this
    simpa using this.symm
  intro h0
  have := digitVal_digitChar hlt
  rw [← hc, h0] at this
  exact hlast this.symm

/-! ## Numbers as digits and an exponent -/

def reduce (m : Int) : Nat → Number
  | 0 => .int m
  | k + 1 => if h : 10 ∣ m then reduce (m / 10) k else .frac m k h

def ofDecimal (neg : Bool) (m : Nat) (e : Int) : Number :=
  let s : Int := if neg then -m else m
  match e with
  | .ofNat k => .int (s * 10 ^ k)
  | .negSucc k => reduce s (k + 1)

/-- The sign, the significant digits and the decimal exponent of a number; the last digit is not zero. -/
def decimal : Number → Bool × List Char × Int
  | .int n =>
    let ds := Nat.digits 10 n.natAbs
    (decide (n < 0), (ds.dropWhile (· = 0)).reverse.map digitChar, (ds.takeWhile (· = 0)).length)
  | .frac m p _ => (decide (m < 0), natText m.natAbs, .negSucc p)

/-- The layouts of a positive decimal: digits `ds`, and the point after the `n`-th. -/
def layout (ds : List Char) (n : Int) : List Char :=
  if ds.length ≤ n ∧ n ≤ 21 then ds ++ zeros (n.toNat - ds.length)
  else if 0 < n ∧ n ≤ 21 then ds.take n.toNat ++ '.' :: ds.drop n.toNat
  else if -6 < n ∧ n ≤ 0 then '0' :: '.' :: (zeros (-n).toNat ++ ds)
  else
    ds.take 1 ++ (if ds.length = 1 then [] else '.' :: ds.drop 1)
      ++ 'e' :: (if n - 1 < 0 then '-' else '+') :: natText (n - 1).natAbs

def numberText (x : Number) : List Char :=
  if x = .int 0 then ['0']
  else
    (if (decimal x).1 then ['-'] else []) ++ layout (decimal x).2.1 ((decimal x).2.1.length + (decimal x).2.2)

/-! ## The JSON number grammar -/

def readFraction : List Char → Option (List Char × List Char)
  | '.' :: r => if r.takeWhile isDigit = [] then none else some (r.takeWhile isDigit, r.dropWhile isDigit)
  | r => some ([], r)

def readExponentDigits (neg : Bool) (r : List Char) : Option (Int × List Char) :=
  if r.takeWhile isDigit = [] then none
  else
    let v : Int := digitsVal (r.takeWhile isDigit)
    some (if neg then -v else v, r.dropWhile isDigit)

def readExponent : List Char → Option (Int × List Char)
  | 'e' :: '-' :: r | 'E' :: '-' :: r => readExponentDigits true r
  | 'e' :: '+' :: r | 'E' :: '+' :: r => readExponentDigits false r
  | 'e' :: r | 'E' :: r => readExponentDigits false r
  | r => some (0, r)

/-- An unsigned number: an integer part without leading zeros, a fraction, an exponent. -/
def readUnsigned (neg : Bool) (r : List Char) : Option (Number × List Char) :=
  let ds := r.takeWhile isDigit
  if ds = [] ∨ (ds.head? = some '0' ∧ ds ≠ ['0']) then none
  else do
    let (fs, r₁) ← readFraction (r.dropWhile isDigit)
    let (e, r₂) ← readExponent r₁
    some (ofDecimal neg (digitsVal (ds ++ fs)) (e - fs.length), r₂)

def readNumber : List Char → Option (Number × List Char)
  | '-' :: r => readUnsigned true r
  | r => readUnsigned false r

/-! ## The round trip -/

def Stops (rest : List Char) : Prop := ∀ c r, rest = c :: r → isDigit c = false ∧ c ≠ '.' ∧ c ≠ 'e' ∧ c ≠ 'E'

theorem stops_nil : Stops [] := nofun

variable {r : List Char}

theorem stops_cons (h : isDigit c = false ∧ c ≠ '.' ∧ c ≠ 'e' ∧ c ≠ 'E') : Stops (c :: r) := by
  rintro _ _ ⟨⟩; exact h

theorem span_digits {ds rest : List Char} (hds : ∀ c ∈ ds, isDigit c = true)
    (hrest : ∀ c r, rest = c :: r → isDigit c = false) :
    (ds ++ rest).takeWhile isDigit = ds ∧ (ds ++ rest).dropWhile isDigit = rest := by
  induction ds with
  | nil =>
    cases rest with
    | nil => simp
    | cons c r => simp [hrest c r rfl]
  | cons d ds ih =>
    have hd : isDigit d = true := hds d (by simp)
    have := ih (fun c hc => hds c (by simp [hc]))
    simp [hd, this]

theorem readFraction_of_digits {fs rest : List Char} (hne : fs ≠ [])
    (hfs : ∀ c ∈ fs, isDigit c = true) (hrest : ∀ c r, rest = c :: r → isDigit c = false) :
    readFraction ('.' :: (fs ++ rest)) = some (fs, rest) := by
  obtain ⟨htake, hdrop⟩ := span_digits hfs hrest
  simp [readFraction, htake, hdrop, hne]

theorem readFraction_absent {rest : List Char} (h : ∀ c r, rest = c :: r → c ≠ '.') :
    readFraction rest = some ([], rest) := by
  unfold readFraction
  split
  · next r => exact absurd rfl (h '.' r rfl)
  · rfl

theorem readExponent_absent {rest : List Char} (h : Stops rest) : readExponent rest = some (0, rest) := by
  unfold readExponent
  split <;> first | rfl | (have hstop := h _ _ rfl; simp at hstop)

theorem readExponent_natText (x : Int) {rest : List Char} (hrest : ∀ c r, rest = c :: r → isDigit c = false) :
    readExponent ('e' :: (if x < 0 then '-' else '+') :: (natText x.natAbs ++ rest)) = some (x, rest) := by
  obtain ⟨htake, hdrop⟩ := span_digits (natText_isDigit x.natAbs) hrest
  split
  · simp only [readExponent, readExponentDigits, htake, hdrop, natText_ne_nil, if_false, digitsVal_natText, if_true]
    simp only [Option.some.injEq, Prod.mk.injEq, and_true]
    omega
  · simp only [readExponent, readExponentDigits, htake, hdrop, natText_ne_nil, if_false,
      digitsVal_natText, Bool.false_eq_true]
    simp only [Option.some.injEq, Prod.mk.injEq, and_true]
    omega

def IntegerPart (ds : List Char) : Prop :=
  (∀ c ∈ ds, isDigit c = true) ∧ ds ≠ [] ∧ (ds.head? = some '0' → ds = ['0'])

/-- **Reading by parts.**  If each part reads off the text as written, the number read is theirs. -/
theorem readUnsigned_of_parts {neg : Bool} {ds fs r₁ r₂ rest : List Char} {e : Int}
    (hds : IntegerPart ds) (hr₁ : ∀ c r, r₁ = c :: r → isDigit c = false)
    (hf : readFraction r₁ = some (fs, r₂)) (he : readExponent r₂ = some (e, rest)) :
    readUnsigned neg (ds ++ r₁) = some (ofDecimal neg (digitsVal (ds ++ fs)) (e - fs.length), rest)
    := by
  obtain ⟨htake, hdrop⟩ := span_digits hds.1 hr₁
  have hzero : ¬ (ds = [] ∨ (ds.head? = some '0' ∧ ds ≠ ['0'])) := by
    rintro (h | ⟨h, h'⟩)
    · exact hds.2.1 h
    · exact h' (hds.2.2 h)
  simp [readUnsigned, htake, hdrop, hzero, hf, he]

/-- Digits that may open a layout: they do not start with a zero. -/
def Leading (ds : List Char) : Prop := (∀ c ∈ ds, isDigit c = true) ∧ ds ≠ [] ∧ ds.head? ≠ some '0'

theorem integerPart_zero : IntegerPart ['0'] := ⟨forall_mem_singleton.mpr rfl, by simp, fun _ => rfl⟩

theorem Leading.integerPart {ds : List Char} (h : Leading ds) : IntegerPart ds :=
  ⟨h.1, h.2.1, fun h0 => absurd h0 h.2.2⟩

theorem Leading.append_zeros {ds : List Char} (h : Leading ds) (n : Nat) : Leading (ds ++ zeros n) := by
  refine ⟨?_, by simp [h.2.1], ?_⟩
  · intro c hc
    rcases mem_append.mp hc with hc | hc
    · exact h.1 c hc
    · exact zeros_isDigit n c hc
  · rw [List.head?_append_of_ne_nil _ h.2.1]; exact h.2.2

theorem Leading.take {ds : List Char} (h : Leading ds) (hn : 0 < n) : Leading (ds.take n) := by
  refine ⟨fun c hc => h.1 c (mem_of_mem_take hc), ?_, ?_⟩
  · intro h0
    rcases take_eq_nil_iff.mp h0 with h0 | h0
    · omega
    · exact h.2.1 h0
  · rw [List.head?_take, if_neg (by omega)]; exact h.2.2

/-- A number of ten and a power is read in lowest terms by dividing the power back out. -/
theorem ofDecimal_shift (neg : Bool) (m k : Nat) (e : Int) (he : 0 ≤ e) :
    ofDecimal neg (m * 10 ^ k) e = ofDecimal neg m (e + k) := by
  obtain ⟨n, rfl⟩ := Int.eq_ofNat_of_zero_le he
  have : (n : Int) + k = Int.ofNat (n + k) := by simp
  rw [this]
  simp only [ofDecimal]
  cases neg <;> simp only [Bool.false_eq_true, if_false, if_true, Number.int.injEq] <;>
    push_cast <;> ring

/-- **Every layout reads back.** -/
theorem readUnsigned_layout (neg : Bool) {ds rest : List Char} (hds : Leading ds) (n : Int) (hrest : Stops rest) :
    readUnsigned neg (layout ds n ++ rest) = some (ofDecimal neg (digitsVal ds) (n - ds.length), rest)
    := by
  have hnodigit : ∀ c r, rest = c :: r → isDigit c = false := fun c r h => (hrest c r h).1
  have hnopoint : ∀ c r, rest = c :: r → c ≠ '.' := fun c r h => (hrest c r h).2.1
  unfold layout
  split
  · -- an integer, padded with zeros
    next h =>
    rw [readUnsigned_of_parts (hds.append_zeros _).integerPart hnodigit
      (readFraction_absent hnopoint) (readExponent_absent hrest)]
    have hexp : ((n.toNat - ds.length : Nat) : Int) = n - ds.length := by omega
    have hlen : (zeros (n.toNat - ds.length)).length = n.toNat - ds.length := by simp [zeros]
    rw [append_nil, digitsVal_append, digitsVal_zeros, add_zero, hlen, ofDecimal_shift _ _ _ _ (by simp)]
    simp [hexp]
  split
  · -- the point stands inside the digits
    next h₁ h =>
    have hdrop : ds.drop n.toNat ≠ [] := by
      intro h0
      have := drop_eq_nil_iff.mp h0
      omega
    rw [append_assoc, cons_append, readUnsigned_of_parts (hds.take (by omega)).integerPart (by rintro _ _ ⟨⟩; decide)
        (readFraction_of_digits hdrop (fun c hc => hds.1 c (mem_of_mem_drop hc)) hnodigit)
        (readExponent_absent hrest),
      take_append_drop, length_drop]
    have hexp : (0 : Int) - ((ds.length - n.toNat : Nat) : Int) = n - ds.length := by omega
    rw [hexp]
  split
  · -- a leading zero and a point
    next h₁ h₂ h =>
    have hfs : ∀ c ∈ zeros (-n).toNat ++ ds, isDigit c = true := by
      intro c hc
      rcases mem_append.mp hc with hc | hc
      · exact zeros_isDigit _ c hc
      · exact hds.1 c hc
    rw [show '0' :: '.' :: (zeros (-n).toNat ++ ds) ++ rest
        = ['0'] ++ '.' :: ((zeros (-n).toNat ++ ds) ++ rest) by simp,
      readUnsigned_of_parts integerPart_zero (by rintro _ _ ⟨⟩; decide)
        (readFraction_of_digits (by simp [hds.2.1]) hfs hnodigit) (readExponent_absent hrest)]
    have hval : digitsVal (['0'] ++ (zeros (-n).toNat ++ ds)) = digitsVal ds := by
      rw [digitsVal_append, digitsVal_append, digitsVal_zeros]
      simp [digitsVal, digitVal]
    have hexp : (0 : Int) - ((zeros (-n).toNat ++ ds).length : Nat) = n - ds.length := by
      simp only [zeros, length_append, length_replicate]; omega
    rw [hval, hexp]
  · -- the exponent form
    next h₁ h₂ h₃ =>
    have hone : Leading (ds.take 1) := hds.take (by omega)
    have hexp := readExponent_natText (n - 1) hnodigit
    by_cases hlen : ds.length = 1
    · rw [if_pos hlen, append_nil, append_assoc, cons_append, cons_append,
        readUnsigned_of_parts hone.integerPart (by rintro _ _ ⟨⟩; decide)
          (readFraction_absent (by rintro _ _ ⟨⟩; decide)) hexp, append_nil,
        take_of_length_le (by omega), hlen]
      simp
    · have hdrop : ds.drop 1 ≠ [] := by
        intro h0
        have hle := drop_eq_nil_iff.mp h0
        have hpos := length_pos_of_ne_nil hds.2.1
        omega
      rw [if_neg hlen]
      simp only [append_assoc, cons_append]
      rw [readUnsigned_of_parts hone.integerPart (by rintro _ _ ⟨⟩; decide)
          (readFraction_of_digits hdrop (fun c hc => hds.1 c (mem_of_mem_drop hc)) (by rintro _ _ ⟨⟩; decide)) hexp,
        take_append_drop, length_drop]
      have hpos := length_pos_of_ne_nil hds.2.1
      have hsum : n - 1 - ((ds.length - 1 : Nat) : Int) = n - ds.length := by omega
      rw [hsum]

theorem signed_natAbs (n : Int) : (if decide (n < 0) = true then -(n.natAbs : Int) else n.natAbs) = n := by
  by_cases h : n < 0 <;> simp only [h, decide_true, decide_false, if_true, Bool.false_eq_true, if_false] <;> omega

theorem natText_eq_significant (hn : n ≠ 0) : natText n = ((digits 10 n).dropWhile (· = 0)).reverse.map digitChar
      ++ zeros ((digits 10 n).takeWhile (· = 0)).length := by
  have hzeros : ((digits 10 n).takeWhile (· = 0)).map digitChar
      = zeros ((digits 10 n).takeWhile (· = 0)).length := by
    rw [zeros, eq_replicate_iff]
    refine ⟨by simp, ?_⟩
    intro c hc
    obtain ⟨d, hd, rfl⟩ := mem_map.mp hc
    have := mem_takeWhile_imp hd
    simp only [decide_eq_true_eq] at this
    subst this; rfl
  rw [natText, if_neg hn]
  conv_lhs => rw [← takeWhile_append_dropWhile (p := (· = 0)) (l := digits 10 n)]
  rw [reverse_append, map_append]
  congr 1
  rw [map_reverse, hzeros, zeros, reverse_replicate]

theorem decimal_spec (x : Number) (hx : x ≠ .int 0) : Leading (decimal x).2.1
      ∧ ofDecimal (decimal x).1 (digitsVal (decimal x).2.1) (decimal x).2.2 = x := by
  cases x with
  | int n =>
    have hn : n.natAbs ≠ 0 := by intro h; exact hx (by rw [Int.natAbs_eq_zero.mp h])
    have htext := natText_eq_significant hn
    set ds := ((digits 10 n.natAbs).dropWhile (· = 0)).reverse.map digitChar with hds
    set z := ((digits 10 n.natAbs).takeWhile (· = 0)).length with hz
    have hval : digitsVal ds * 10 ^ z = n.natAbs := by
      have := congrArg digitsVal htext
      rw [digitsVal_natText, digitsVal_append, digitsVal_zeros] at this
      simpa [zeros] using this.symm
    have hne : ds ≠ [] := by
      intro h0
      rw [h0] at hval
      simp [digitsVal] at hval
      omega
    refine ⟨⟨?_, hne, ?_⟩, ?_⟩
    · intro c hc
      exact natText_isDigit n.natAbs c (by rw [htext]; exact mem_append_left _ hc)
    · obtain ⟨c, cs, hc⟩ := exists_cons_of_ne_nil hne
      have hcons : natText n.natAbs = c :: (cs ++ zeros z) := by rw [htext, hc, cons_append]
      have hhead := natText_head_ne_zero hn hcons
      show ds.head? ≠ some '0'
      simp [hc, hhead]
    · show ofDecimal (decide (n < 0)) (digitsVal ds) (z : Int) = .int n
      have := ofDecimal_shift (decide (n < 0)) (digitsVal ds) z 0 le_rfl
      rw [hval, Int.zero_add] at this
      rw [← this]
      simp only [ofDecimal, signed_natAbs]
      simp
  | frac m p h =>
    have hm : m.natAbs ≠ 0 := by intro h0; exact h ⟨0, by rw [Int.natAbs_eq_zero.mp h0]; simp⟩
    refine ⟨⟨natText_isDigit _, natText_ne_nil _, ?_⟩, ?_⟩
    · obtain ⟨c, cs, hc⟩ := exists_cons_of_ne_nil (natText_ne_nil m.natAbs)
      have hhead := natText_head_ne_zero hm hc
      simp [decimal, hc, hhead]
    · simp only [decimal, digitsVal_natText, ofDecimal, signed_natAbs, reduce, dif_neg h]

theorem readNumber_of_readUnsigned {v : Number × List Char}
    (h : readUnsigned false r = some v) : readNumber r = some v := by
  unfold readNumber
  split
  · simp [readUnsigned, isDigit] at h
  · exact h

/-- **Number round trip.** -/
theorem readNumber_numberText (x : Number) {rest : List Char} (hrest : Stops rest) :
    readNumber (numberText x ++ rest) = some (x, rest) := by
  unfold numberText
  split
  · next hx =>
    subst hx
    have hread := @readUnsigned_of_parts false _ _ _ _ _ _ integerPart_zero (fun c r h => (hrest c r h).1)
      (readFraction_absent (fun c r h => (hrest c r h).2.1)) (readExponent_absent hrest)
    rw [readNumber_of_readUnsigned hread]
    rfl
  · next hx =>
    obtain ⟨hlead, hval⟩ := decimal_spec x hx
    set d := decimal x with hd
    have hread := readUnsigned_layout d.1 hlead (d.2.1.length + d.2.2) hrest
    have hexp : (d.2.1.length + d.2.2 : Int) - d.2.1.length = d.2.2 := by omega
    rw [hexp, hval] at hread
    cases hneg : d.1 with
    | true => simpa [hneg, readNumber] using hneg ▸ hread
    | false => simpa [hneg] using readNumber_of_readUnsigned (hneg ▸ hread)

/-! ## The characters of a number's text -/

def isNumberChar (c : Char) : Bool := isDigit c || c == '-' || c == '+' || c == '.' || c == 'e'

theorem isNumberChar_of_isDigit (h : isDigit c = true) : isNumberChar c = true := by simp [isNumberChar, h]

theorem layout_isNumberChar {ds : List Char} (hds : ∀ c ∈ ds, isDigit c = true) (n : Int) :
    ∀ c ∈ layout ds n, isNumberChar c = true := by
  intro c hc
  have hdigits : ∀ {cs : List Char}, (∀ d ∈ cs, isDigit d = true) → c ∈ cs →
      isNumberChar c = true := fun h hc => isNumberChar_of_isDigit (h c hc)
  unfold layout at hc
  split at hc
  · rcases mem_append.mp hc with hc | hc
    · exact hdigits hds hc
    · exact hdigits (zeros_isDigit _) hc
  split at hc
  · simp only [mem_append, mem_cons] at hc
    rcases hc with hc | rfl | hc
    · exact hdigits hds (mem_of_mem_take hc)
    · decide
    · exact hdigits hds (mem_of_mem_drop hc)
  split at hc
  · simp only [mem_append, mem_cons] at hc
    rcases hc with rfl | rfl | hc | hc
    · decide
    · decide
    · exact hdigits (zeros_isDigit _) hc
    · exact hdigits hds hc
  · simp only [mem_append, mem_cons] at hc
    rcases hc with (hc | hc) | rfl | rfl | hc
    · exact hdigits hds (mem_of_mem_take hc)
    · split at hc
      · simp at hc
      · rcases mem_cons.mp hc with rfl | hc
        · decide
        · exact hdigits hds (mem_of_mem_drop hc)
    · decide
    · split <;> decide
    · exact hdigits (natText_isDigit _) hc

theorem numberText_isNumberChar (x : Number) : ∀ c ∈ numberText x, isNumberChar c = true := by
  intro c hc
  unfold numberText at hc
  split at hc
  · rw [mem_singleton] at hc; subst hc; decide
  · next hx =>
    have hdigits := (decimal_spec x hx).1.1
    rcases mem_append.mp hc with hc | hc
    · split at hc
      · rw [mem_singleton] at hc; subst hc; decide
      · simp at hc
    · exact layout_isNumberChar hdigits _ c hc

theorem numberText_ne_nil (x : Number) : numberText x ≠ [] := by
  intro h
  have := readNumber_numberText x stops_nil
  rw [h] at this
  simp [readNumber, readUnsigned] at this

example : numberText (.int 120) = ['1', '2', '0'] := by decide

end CocoHarness.Lib.Numeral
