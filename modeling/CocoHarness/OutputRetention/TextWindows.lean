/-
# CocoHarness.OutputRetention.TextWindows — what a text retainer keeps.

However the stream is split, the retainer holds its first bytes and its last (`Holds`), so what it finishes with
depends on the stream only.  On an encoded text each window is trimmed to whole characters, and those are the longest
that fit.
-/
import CocoHarness.OutputRetention.TextRetainer

namespace CocoHarness.OutputRetention

open Lib Lib.Utf8 SessionLog List Nat

/-! ## Trimming an encoded text -/

theorem getD_append_at (xs ys : List UInt8) (lead : UInt8) : (xs ++ lead :: ys).getD xs.length 0 = lead := by
  simp [getD_eq_getElem?_getD]

variable {xs tail : List UInt8} {lead : UInt8}

theorem scanBack_tail (hlead : isContinuation lead = false)
    (htail : ∀ b ∈ tail, isContinuation b = true) (hshort : tail.length ≤ 3) (j : Nat)
    (hj : j ≤ tail.length) : scanBack (xs ++ lead :: tail) (xs.length + 1 + j) = xs.length + 1 := by
  induction j with
  | zero =>
    rw [Nat.add_zero, scanBack, getD_append_at, if_neg]
    rintro ⟨hcont, -⟩
    rw [hlead] at hcont
    cases hcont
  | succ j ih =>
    have hbyte : (xs ++ lead :: tail).getD (xs.length + 1 + j) 0 = tail.getD j 0 := by
      rw [getD_eq_getElem?_getD, append_cons, getElem?_append_right (by simp), getD_eq_getElem?_getD]
      congr 2
      simp
    have hmem : tail.getD j 0 ∈ tail := by
      rw [getD_eq_getElem?_getD, getElem?_eq_getElem (by omega), Option.getD_some]
      exact getElem_mem _
    rw [← add_assoc, scanBack, hbyte, if_pos]
    · exact ih (by omega)
    · refine ⟨htail _ hmem, ?_⟩
      rw [length_append, length_cons]
      omega

theorem trimTrailing_lead (hlead : isContinuation lead = false)
    (htail : ∀ b ∈ tail, isContinuation b = true) (hshort : tail.length ≤ 3)
    (hlength : sequenceLength lead ≠ 0) :
    trimTrailingPartialUtf8 (xs ++ lead :: tail)
      = if tail.length + 1 < sequenceLength lead then xs else xs ++ lead :: tail := by
  have hscan : scanBack (xs ++ lead :: tail) (xs.length + 1 + tail.length) = xs.length + 1 :=
    scanBack_tail hlead htail hshort tail.length (le_refl _)
  have hall : (xs ++ lead :: tail).length = xs.length + 1 + tail.length := by
    rw [length_append, length_cons]
    omega
  unfold trimTrailingPartialUtf8
  rw [hall, hscan]
  simp only [getD_append_at, if_neg hlength]
  rw [show xs.length + 1 + tail.length - xs.length = tail.length + 1 by omega, take_left]

/-- **Trimming the prefix** drops the bytes of a character that is cut. -/
theorem trimTrailing_cut (front : List Char) (c : Char) {k : Nat} (hk : k < (encodeChar c).length) :
    trimTrailingPartialUtf8 (encode front ++ (encodeChar c).take k) = encode front := by
  obtain ⟨lead, tail, hshape, hlead, htail, hshort, hlength⟩ := encodeChar_shape c
  rw [hshape] at hk ⊢
  cases k with
  | succ k =>
    -- the character is begun
    rw [take_succ_cons, trimTrailing_lead hlead (fun b hb => htail b (mem_of_mem_take hb))
      (by rw [length_take]; omega) (by omega), if_pos]
    rw [length_take, hlength]
    rw [length_cons] at hk
    omega
  | zero =>
    -- the character before it is whole
    rw [take_zero, append_nil]
    rcases eq_nil_or_concat front with rfl | ⟨before, d, rfl⟩
    · rfl
    · obtain ⟨lead', tail', hshape', hlead', htail', hshort', hlength'⟩ := encodeChar_shape d
      rw [concat_eq_append, encode_append]
      have hlast : encode [d] = lead' :: tail' := by simp [encode, hshape']
      rw [hlast, trimTrailing_lead hlead' htail' hshort' (by omega), if_neg (by omega)]

theorem trimLeading_encode (cs : List Char) : trimLeadingContinuationUtf8 (encode cs) = encode cs := by
  cases cs with
  | nil => rfl
  | cons c cs =>
    obtain ⟨lead, tail, hshape, hlead, -⟩ := encodeChar_shape c
    have hcons : encode (c :: cs) = lead :: (tail ++ encode cs) := by simp [encode, hshape]
    rw [hcons]
    unfold trimLeadingContinuationUtf8
    rw [dropWhile_cons, hlead, if_neg (by decide)]

/-- **Trimming the suffix** drops what is left of a character that is cut. -/
theorem trimLeading_cut (c : Char) (back : List Char) (k : Nat) :
    trimLeadingContinuationUtf8 ((encodeChar c).drop (k + 1) ++ encode back) = encode back := by
  obtain ⟨lead, tail, hshape, -, htail, -⟩ := encodeChar_shape c
  rw [hshape, drop_succ_cons]
  have hskip : ∀ bs : List UInt8, (∀ b ∈ bs, isContinuation b = true) →
      trimLeadingContinuationUtf8 (bs ++ encode back) = trimLeadingContinuationUtf8 (encode back) := by
    intro bs hbs
    unfold trimLeadingContinuationUtf8
    exact dropWhile_append_of_pos hbs
  rw [hskip _ fun b hb => htail b (mem_of_mem_drop hb), trimLeading_encode]

/-! ## The windows of an encoded text -/

variable {cs : List Char} {cap : Nat}

theorem prefix_window (h : cap < byteLength cs) : ∃ front, LongestPrefix cap cs front
      ∧ trimTrailingPartialUtf8 ((encode cs).take cap) = encode front := by
  obtain ⟨front, c, back, k, rfl, rfl, hk⟩ := cut_encode h
  refine ⟨front, longestPrefix_of_cut hk, ?_⟩
  have hbytes : encode (front ++ c :: back) = encode front ++ (encodeChar c ++ encode back) := by
    rw [encode_append]
    simp [encode]
  rw [hbytes, byteLength, take_length_add_append, take_append_of_le_length (le_of_lt hk)]
  exact trimTrailing_cut front c hk

theorem suffix_window (h : cap ≤ byteLength cs) : ∃ back, LongestSuffix cap cs back
      ∧ trimLeadingContinuationUtf8 ((encode cs).drop (byteLength cs - cap)) = encode back := by
  rcases Nat.eq_zero_or_pos cap with rfl | hpos
  · -- nothing fits
    refine ⟨[], ?_, ?_⟩
    · have hwhole := longestSuffix_whole cs []
      rwa [append_nil] at hwhole
    · rw [Nat.sub_zero, byteLength, drop_length]
      rfl
  obtain ⟨front, c, back, k, rfl, hcut, hk⟩ := cut_encode (show byteLength cs - cap < byteLength cs by omega)
  have hbytes : encode (front ++ c :: back) = encode front ++ (encodeChar c ++ encode back) := by
    rw [encode_append]
    simp [encode]
  rw [byteLength_append, byteLength_cons] at hcut h
  cases k with
  | zero =>
    -- the cut is before a character
    have hcap : cap = byteLength (c :: back) := by
      rw [byteLength_cons]
      omega
    refine ⟨c :: back, ?_, ?_⟩
    · rw [hcap]
      exact longestSuffix_whole front (c :: back)
    · rw [byteLength_append, byteLength_cons, hcut, hbytes, Nat.add_zero, byteLength, drop_left]
      have hback : encodeChar c ++ encode back = encode (c :: back) := by simp [encode]
      rw [hback]
      exact trimLeading_encode _
  | succ k =>
    refine ⟨back, ?_, ?_⟩
    · have hcap : cap = ((encodeChar c).length - (k + 1)) + byteLength back := by omega
      rw [hcap]
      exact longestSuffix_of_cut (by omega)
    · rw [byteLength_append, byteLength_cons, hcut, hbytes, byteLength, drop_length_add_append,
        drop_append_of_le_length (le_of_lt hk)]
      exact trimLeading_cut c back k

/-! ## What is held -/

/-- The retainer has seen a stream: it holds its first bytes and its last. -/
structure TextRetainer.Holds (r : TextRetainer) (stream : List UInt8) : Prop where
  total : r.total = stream.length
  front : r.prefixChunks.flatten = stream.take r.prefixCap
  prefixHeld : r.prefixHeld = (stream.take r.prefixCap).length
  back : r.suffixChunks.flatten = stream.drop (stream.length - r.suffixCap)
  suffixHeld : r.suffixHeld = r.suffixChunks.flatten.length

theorem pruneChunks_spec (cap : Nat) (chunks : List (List UInt8)) :
    ∃ n, (pruneChunks cap chunks chunks.flatten.length).1.flatten = chunks.flatten.drop n
      ∧ (pruneChunks cap chunks chunks.flatten.length).2
        = (pruneChunks cap chunks chunks.flatten.length).1.flatten.length
      ∧ n ≤ chunks.flatten.length - cap
      ∧ ∀ head rest, (pruneChunks cap chunks chunks.flatten.length).1 = head :: rest →
        (head :: rest).flatten.length - head.length < cap := by
  induction chunks with
  | nil => exact ⟨0, rfl, rfl, zero_le _, nofun⟩
  | cons head rest ih =>
    have hheld : (head :: rest).flatten.length - head.length = rest.flatten.length := by
      rw [flatten_cons, length_append]
      omega
    unfold pruneChunks
    rw [hheld]
    split
    · next hlong =>
      obtain ⟨n, hflat, hlength, hle, hshort⟩ := ih
      refine ⟨head.length + n, ?_, hlength, ?_, hshort⟩
      · rw [hflat, flatten_cons, drop_length_add_append]
      · rw [flatten_cons, length_append]
        omega
    · next hfits =>
      refine ⟨0, rfl, rfl, zero_le _, ?_⟩
      rintro head' rest' heq
      cases heq
      rw [hheld]
      omega

theorem window_spec (hcap : 0 < cap) (chunks : List (List UInt8)) :
    (trimHead cap (pruneChunks cap chunks chunks.flatten.length)).1.flatten
        = chunks.flatten.drop (chunks.flatten.length - cap)
      ∧ (trimHead cap (pruneChunks cap chunks chunks.flatten.length)).2
        = (chunks.flatten.drop (chunks.flatten.length - cap)).length := by
  obtain ⟨n, hflat, hlength, hle, hshort⟩ := pruneChunks_spec cap chunks
  cases hpruned : pruneChunks cap chunks chunks.flatten.length with
  | mk kept held =>
    rw [hpruned] at hflat hlength hshort
    dsimp only at hflat hlength hshort
    have hkept := congrArg List.length hflat
    rw [length_drop] at hkept
    cases kept with
    | nil =>
      -- nothing is left: nothing was there
      have hnothing : chunks.flatten.length = 0 := by
        rw [flatten_nil, length_nil] at hkept
        omega
      have hempty := eq_nil_of_length_eq_zero hnothing
      rw [hempty, drop_nil]
      exact ⟨rfl, hlength⟩
    | cons head rest =>
      have hshort := hshort head rest rfl
      have hsplit : (head :: rest).flatten = head ++ rest.flatten := flatten_cons ..
      have hsum : (head :: rest).flatten.length = head.length + rest.flatten.length := by rw [hsplit, length_append]
      unfold trimHead
      dsimp only
      split
      · next hlong =>
        have hin : held - cap ≤ head.length := by omega
        refine ⟨?_, ?_⟩
        · rw [flatten_cons, ← drop_append_of_le_length hin, ← hsplit, hflat, drop_drop]
          congr 1
          omega
        · rw [length_drop]
          omega
      · next hfits =>
        have hzero : n = chunks.flatten.length - cap := by omega
        rw [← hzero]
        exact ⟨hflat, by rw [hlength, hflat]⟩

namespace TextRetainer

variable {r : TextRetainer} {stream : List UInt8}

theorem pushPrefix_spec (r : TextRetainer) (bytes : List UInt8)
    (hfront : r.prefixChunks.flatten = stream.take r.prefixCap)
    (hheld : r.prefixHeld = (stream.take r.prefixCap).length) :
    ∃ prefixChunks prefixHeld, r.pushPrefix bytes = { r with prefixChunks, prefixHeld }
      ∧ prefixChunks.flatten = (stream ++ bytes).take r.prefixCap
      ∧ prefixHeld = ((stream ++ bytes).take r.prefixCap).length := by
  have htake : (stream ++ bytes).take r.prefixCap
      = stream.take r.prefixCap ++ bytes.take (r.prefixCap - stream.length) := take_append
  have hroom : r.prefixHeld = min r.prefixCap stream.length := by rw [hheld, length_take]
  have hcut : bytes.take (min (r.prefixCap - r.prefixHeld) bytes.length)
      = bytes.take (r.prefixCap - stream.length) := by
    rw [show r.prefixCap - r.prefixHeld = r.prefixCap - stream.length by omega, ← take_take, take_length]
  rw [htake, length_append, ← hheld, ← hcut]
  unfold pushPrefix
  dsimp only
  split
  · refine ⟨_, _, rfl, ?_, ?_⟩
    · rw [flatten_append, hfront, flatten_singleton]
    · rw [length_take]
      omega
  · next hfull =>
    refine ⟨r.prefixChunks, r.prefixHeld, rfl, ?_, ?_⟩
    · rw [Nat.eq_zero_of_not_pos hfull, take_zero, append_nil]
      exact hfront
    · rw [Nat.eq_zero_of_not_pos hfull, take_zero, length_nil, Nat.add_zero]

theorem pushSuffix_spec (r : TextRetainer) (bytes : List UInt8)
    (hback : r.suffixChunks.flatten = stream.drop (stream.length - r.suffixCap))
    (hheld : r.suffixHeld = r.suffixChunks.flatten.length) :
    ∃ suffixChunks suffixHeld, r.pushSuffix bytes = { r with suffixChunks, suffixHeld }
      ∧ suffixChunks.flatten = (stream ++ bytes).drop ((stream ++ bytes).length - r.suffixCap)
      ∧ suffixHeld = suffixChunks.flatten.length := by
  unfold pushSuffix
  split
  · next hpos =>
    have hflat : (r.suffixChunks ++ [bytes]).flatten = (stream ++ bytes).drop (stream.length - r.suffixCap) := by
      rw [flatten_append, hback, flatten_singleton, drop_append_of_le_length (by omega)]
    have hsum : r.suffixHeld + bytes.length = (r.suffixChunks ++ [bytes]).flatten.length := by
      rw [hheld, flatten_append, length_append, flatten_singleton]
    obtain ⟨hwindow, hkept⟩ := window_spec hpos (r.suffixChunks ++ [bytes])
    rw [← hsum] at hwindow hkept
    refine ⟨(trimHead r.suffixCap (pruneChunks r.suffixCap (r.suffixChunks ++ [bytes])
      (r.suffixHeld + bytes.length))).1, (trimHead r.suffixCap (pruneChunks r.suffixCap
      (r.suffixChunks ++ [bytes]) (r.suffixHeld + bytes.length))).2, rfl, ?_, ?_⟩
    · rw [hwindow, hsum, hflat, drop_drop, length_drop]
      congr 1
      rw [length_append]
      omega
    · rw [hkept, hwindow]
  · next hzero =>
    refine ⟨r.suffixChunks, r.suffixHeld, rfl, ?_, hheld⟩
    rw [hback, Nat.eq_zero_of_not_pos hzero, Nat.sub_zero, Nat.sub_zero, drop_length, drop_length]

/-- **Pushing a chunk** is seeing its bytes. -/
theorem Holds.push (h : r.Holds stream) (chunk : Chunk) : (r.push chunk).1.Holds (stream ++ chunk.encoded)
      ∧ (r.push chunk).1.prefixCap = r.prefixCap ∧ (r.push chunk).1.suffixCap = r.suffixCap := by
  obtain ⟨prefixChunks, prefixHeld, hearlier, hfront, hheld⟩ :=
    pushPrefix_spec { r with total := r.total + chunk.encoded.length } chunk.encoded h.front h.prefixHeld
  obtain ⟨suffixChunks, suffixHeld, hsuffix, hback, hheld'⟩ :=
    pushSuffix_spec { r with total := r.total + chunk.encoded.length, prefixChunks, prefixHeld }
      chunk.encoded h.back h.suffixHeld
  unfold TextRetainer.push
  dsimp only
  rw [hearlier, hsuffix]
  refine ⟨⟨?_, hfront, hheld, hback, hheld'⟩, rfl, rfl⟩
  show r.total + _ = _
  rw [h.total, length_append]

def seen (chunks : List Chunk) : List UInt8 := chunks.flatMap Chunk.encoded

theorem Holds.pushAll (h : r.Holds stream) (chunks : List Chunk) : (r.pushAll chunks).Holds (stream ++ seen chunks)
      ∧ (r.pushAll chunks).prefixCap = r.prefixCap ∧ (r.pushAll chunks).suffixCap = r.suffixCap := by
  induction chunks generalizing r stream with
  | nil =>
    rw [seen, flatMap_nil, append_nil]
    exact ⟨h, rfl, rfl⟩
  | cons chunk chunks ih =>
    obtain ⟨hpush, hcap, hcap'⟩ := h.push chunk
    obtain ⟨hall, hcaps, hcaps'⟩ := ih hpush
    rw [seen, flatMap_cons, ← append_assoc]
    exact ⟨hall, hcaps.trans hcap, hcaps'.trans hcap'⟩

theorem create_spec {strategy : TextRetentionStrategy} (h : create strategy = .ok r) :
    r.Holds [] ∧ r = { prefixCap := r.prefixCap, suffixCap := r.suffixCap } := by
  have hfresh : r = { prefixCap := r.prefixCap, suffixCap := r.suffixCap } := by
    cases strategy with
    | head maxBytes | tail maxBytes =>
      simp only [create, bind_eq_ok_iff, pure_eq_ok, Except.ok.injEq] at h
      obtain ⟨_, -, rfl⟩ := h
      rfl
    | headTail headBytes tailBytes =>
      simp only [create, bind_eq_ok_iff, pure_eq_ok, Except.ok.injEq] at h
      obtain ⟨_, -, _, -, rfl⟩ := h
      rfl
  refine ⟨?_, hfresh⟩
  rw [hfresh]
  exact ⟨rfl, by simp, by simp, by simp, rfl⟩

/-! ## Finishing -/

/-- What a stream is retained as: nothing else of the retainer matters. -/
def retained (prefixCap suffixCap : Nat) (stream : List UInt8) : RetainedText :=
  if stream.length ≤ prefixCap + suffixCap then
    { text := decodeText stream, truncated := false, omittedBytes := .none }
  else
    let front := trimTrailingPartialUtf8 (stream.take prefixCap)
    let back := trimLeadingContinuationUtf8 (stream.drop (stream.length - suffixCap))
    { text := decodeText front ++ decodeText back
      truncated := true
      omittedBytes := .exact (stream.length - front.length - back.length) }

theorem trimTrailing_length (bytes : List UInt8) : (trimTrailingPartialUtf8 bytes).length ≤ bytes.length := by
  unfold trimTrailingPartialUtf8
  dsimp only
  split
  · exact le_refl _
  · split
    · exact le_refl _
    · split
      · exact length_take_le' ..
      · exact le_refl _

theorem trimLeading_length (bytes : List UInt8) : (trimLeadingContinuationUtf8 bytes).length ≤ bytes.length :=
  (dropWhile_sublist _).length_le

theorem omittedAt_eq (r : TextRetainer) (total : Nat) : r.omittedAt total = total - (r.prefixCap + r.suffixCap) := by
  unfold omittedAt
  dsimp only
  omega

/-- **Finishing** depends on the stream that was seen. -/
theorem Holds.finish (h : r.Holds stream) : r.finish = retained r.prefixCap r.suffixCap stream := by
  have hlength := congrArg List.length h.back
  rw [length_drop, ← h.suffixHeld] at hlength
  have hback : r.suffixChunks.flatten.drop
      (r.suffixHeld - min (r.total - min r.total r.prefixCap) r.suffixCap)
        = stream.drop (stream.length - min (stream.length - min stream.length r.prefixCap) r.suffixCap) := by
    rw [h.back, h.total, drop_drop]
    congr 1
    omega
  unfold TextRetainer.finish retained
  dsimp only
  rw [hback, h.front, omittedAt_eq, h.total]
  by_cases hfits : stream.length ≤ r.prefixCap + r.suffixCap
  · -- prefix and suffix are next to each other
    rw [if_pos hfits, Nat.sub_eq_zero_of_le hfits]
    have hrest : stream.length - min (stream.length - min stream.length r.prefixCap) r.suffixCap
        = min stream.length r.prefixCap := by omega
    have hwhole : stream.take r.prefixCap ++ stream.drop (min stream.length r.prefixCap) = stream := by
      rcases le_total stream.length r.prefixCap with hle | hle
      · rw [min_eq_left hle, drop_length, append_nil, take_of_length_le hle]
      · rw [min_eq_right hle, take_append_drop]
    have hnothing : stream.length - (stream.take r.prefixCap).length
        - (stream.drop (min stream.length r.prefixCap)).length = 0 := by
      rw [length_take, length_drop]
      omega
    simp only [hrest, hwhole, hnothing, lt_irrefl, if_false, decide_false]
  · rw [if_neg hfits]
    have hsome : 0 < stream.length - (r.prefixCap + r.suffixCap) := by omega
    have hwindow : stream.length - min (stream.length - min stream.length r.prefixCap) r.suffixCap
        = stream.length - r.suffixCap := by omega
    have hfront := trimTrailing_length (stream.take r.prefixCap)
    have hkept := trimLeading_length (stream.drop (stream.length - r.suffixCap))
    rw [length_take] at hfront
    rw [length_drop] at hkept
    have homitted : 0 < stream.length - (trimTrailingPartialUtf8 (stream.take r.prefixCap)).length
        - (trimLeadingContinuationUtf8 (stream.drop (stream.length - r.suffixCap))).length := by omega
    simp only [hwindow, hsome, homitted, if_true, decide_true]

end TextRetainer

/-! ## What is kept of a text -/

open TextRetainer (seen retained)

/-- The longest prefix and suffix of whole characters that fit, or the whole text, with the exact count left out;
every push has said whether anything would be left out. -/
structure RetainsText (cs : List Char) (chunks : List Chunk) (r : TextRetainer) : Prop where
  whole : byteLength cs ≤ r.prefixCap + r.suffixCap →
    (r.pushAll chunks).finish = { text := cs, truncated := false, omittedBytes := .none }
  cut : r.prefixCap + r.suffixCap < byteLength cs → ∃ front back omitted,
    LongestPrefix r.prefixCap cs front ∧ LongestSuffix r.suffixCap cs back ∧ (r.pushAll chunks).finish
        = { text := front ++ back, truncated := true, omittedBytes := .exact omitted }
      ∧ byteLength (r.pushAll chunks).finish.text + omitted = byteLength cs
  told : ∀ before chunk after, chunks = before ++ chunk :: after →
    ((r.pushAll before).push chunk).2.truncated = ((r.pushAll before).push chunk).1.finish.truncated

def NoMarkFirst (prefixCap suffixCap : Nat) (cs : List Char) : Prop :=
  if byteLength cs ≤ prefixCap + suffixCap then cs.head? ≠ some byteOrderMark
  else (∀ front, LongestPrefix prefixCap cs front → front.head? ≠ some byteOrderMark)
    ∧ ∀ back, LongestSuffix suffixCap cs back → back.head? ≠ some byteOrderMark

variable {cs : List Char}

theorem withoutMark_eq_self : withoutMark cs = cs ↔ cs.head? ≠ some byteOrderMark := by
  cases cs with
  | nil => exact ⟨fun _ => nofun, fun _ => rfl⟩
  | cons c rest =>
    rw [withoutMark, head?_cons]
    by_cases hmark : c = byteOrderMark
    · rw [if_pos hmark, hmark]
      refine ⟨fun hself => ?_, fun hne => absurd rfl hne⟩
      have hlength := congrArg List.length hself
      rw [length_cons] at hlength
      omega
    · rw [if_neg hmark]
      exact ⟨fun _ heq => hmark (Option.some.inj heq), fun _ => rfl⟩

theorem withoutMark_length (cs : List Char) : (withoutMark cs).length ≤ cs.length := by
  cases cs with
  | nil => exact le_refl _
  | cons c rest =>
    rw [withoutMark]
    split
    · exact le_succ _
    · exact le_refl _

theorem withoutMark_suffix (cs : List Char) : withoutMark cs <:+ cs := by
  cases cs with
  | nil => exact suffix_rfl
  | cons c rest =>
    rw [withoutMark]
    split
    · exact suffix_cons _ _
    · exact suffix_rfl

theorem withoutMark_append_eq {front back : List Char} (h : withoutMark front ++ withoutMark back = front ++ back) :
    withoutMark front = front ∧ withoutMark back = back := by
  have hfront := withoutMark_length front
  have hback := withoutMark_length back
  have hlength := congrArg List.length h
  rw [length_append, length_append] at hlength
  exact ⟨(withoutMark_suffix front).eq_of_length_le (by omega), (withoutMark_suffix back).eq_of_length_le (by omega)⟩

theorem decodeText_encode (cs : List Char) : decodeText (encode cs) = withoutMark cs := by
  rw [decodeText, decode_encode]

theorem TextRetainer.Holds.told {r : TextRetainer} {stream : List UInt8} (h : r.Holds stream) (chunk : Chunk) :
    (r.push chunk).2.truncated = (r.push chunk).1.finish.truncated := by
  obtain ⟨hpush, -, -⟩ := h.push chunk
  have hsaid : (r.push chunk).2.truncated = decide ((r.push chunk).1.omittedAt (r.push chunk).1.total > 0) := by
    rw [TextRetainer.push]
  rw [hsaid, hpush.finish, TextRetainer.omittedAt_eq, hpush.total]
  unfold retained
  split
  · next hfits =>
    rw [Nat.sub_eq_zero_of_le hfits]
    rfl
  · exact decide_eq_true (by omega)

/-- **What is retained of a text.**  However an encoded text is split, the retainer does what it is for exactly if no
buffer that is decoded begins with a byte order mark. -/
theorem text_retained_iff {strategy : TextRetentionStrategy} {r : TextRetainer}
    (hcreate : TextRetainer.create strategy = .ok r) {chunks : List Chunk}
    (hstream : seen chunks = encode cs) :
    RetainsText cs chunks r ↔ NoMarkFirst r.prefixCap r.suffixCap cs := by
  obtain ⟨hfresh, -⟩ := TextRetainer.create_spec hcreate
  obtain ⟨hall, hcap, hcap'⟩ := hfresh.pushAll chunks
  rw [nil_append, hstream] at hall
  have hfinish := hall.finish
  rw [hcap, hcap', retained, show (encode cs).length = byteLength cs from rfl] at hfinish
  have htold : ∀ before chunk after, chunks = before ++ chunk :: after →
      ((r.pushAll before).push chunk).2.truncated = ((r.pushAll before).push chunk).1.finish.truncated := by
    intro before chunk after _
    exact (hfresh.pushAll before).1.told chunk
  unfold NoMarkFirst
  by_cases hfits : byteLength cs ≤ r.prefixCap + r.suffixCap
  · -- the whole text is decoded at once
    rw [if_pos hfits, ← withoutMark_eq_self]
    rw [if_pos hfits, decodeText_encode] at hfinish
    constructor
    · intro hretains
      have hwhole := hretains.whole hfits
      rw [hfinish] at hwhole
      exact congrArg RetainedText.text hwhole
    · intro hself
      refine ⟨fun _ => ?_, fun hlonger => absurd hlonger (by omega), htold⟩
      rw [hfinish, hself]
  · -- each window is trimmed and decoded by itself
    rw [if_neg hfits]
    obtain ⟨front, hfront, htrim⟩ := prefix_window (show r.prefixCap < byteLength cs by omega)
    obtain ⟨back, hback, htrim'⟩ := suffix_window (show r.suffixCap ≤ byteLength cs by omega)
    rw [if_neg hfits] at hfinish
    dsimp only at hfinish
    rw [htrim, htrim', decodeText_encode, decodeText_encode] at hfinish
    have hlengths : byteLength front + byteLength back
        + (byteLength cs - byteLength front - byteLength back) = byteLength cs := by
      have hle := hfront.fits
      have hle' := hback.fits
      omega
    constructor
    · intro hretains
      obtain ⟨front', back', omitted, hfront', hback', hcut, -⟩ := hretains.cut (by omega)
      obtain rfl := hfront'.unique hfront
      obtain rfl := hback'.unique hback
      rw [hfinish] at hcut
      obtain ⟨hself, hself'⟩ := withoutMark_append_eq (congrArg RetainedText.text hcut)
      constructor
      · intro other hother
        rw [hother.unique hfront]
        exact withoutMark_eq_self.mp hself
      · intro other hother
        rw [hother.unique hback]
        exact withoutMark_eq_self.mp hself'
    · rintro ⟨hmark, hmark'⟩
      rw [withoutMark_eq_self.mpr (hmark front hfront), withoutMark_eq_self.mpr (hmark' back hback)]
        at hfinish
      refine ⟨fun hle => absurd hle hfits, fun _ => ?_, htold⟩
      refine ⟨front, back, _, hfront, hback, hfinish, ?_⟩
      rw [hfinish, byteLength_append]
      exact hlengths

/-- A text whose second character is split between two chunks, cut inside that character. -/
theorem text_retained_of_split : seen [.bytes [0x61, 0xC3], .bytes [0xA9, 0x62]] = encode ['a', 'é', 'b']
      ∧ RetainsText ['a', 'é', 'b'] [.bytes [0x61, 0xC3], .bytes [0xA9, 0x62]]
        { prefixCap := 2, suffixCap := 0 } := by
  have hstream : seen [.bytes [0x61, 0xC3], .bytes [0xA9, 0x62]] = encode ['a', 'é', 'b'] := by decide
  have hcreate : TextRetainer.create (.head (.finite (.int 2))) = .ok { prefixCap := 2, suffixCap := 0 } := rfl
  refine ⟨hstream, (text_retained_iff hcreate hstream).mpr ?_⟩
  have hcut : ¬ byteLength ['a', 'é', 'b'] ≤ 2 + 0 := by decide
  rw [NoMarkFirst, if_neg hcut]
  constructor
  · intro front hfront
    cases front with
    | nil => exact nofun
    | cons c front =>
      obtain ⟨rest, hrest⟩ := hfront.isPrefix
      rw [List.head?_cons, (List.cons.inj hrest).1]
      decide
  · intro back hback
    rw [byteLength_eq_zero (Nat.le_zero.mp hback.fits)]
    exact nofun

def markedText : List Char := ['a', 'b', byteOrderMark, 'c']

/-- Of the mark and one character only the character is returned, and the mark is not counted. -/
theorem mark_dropped : TextRetainer.create (.tail (.finite (.int 4))) = .ok { prefixCap := 0, suffixCap := 4 }
      ∧ ¬ RetainsText markedText [.text markedText] { prefixCap := 0, suffixCap := 4 } := by
  refine ⟨rfl, fun hretains => ?_⟩
  have hfinish : (TextRetainer.pushAll { prefixCap := 0, suffixCap := 4 } [.text markedText]).finish
      = { text := ['c'], truncated := true, omittedBytes := .exact 2 } := by
    decide +kernel
  obtain ⟨_, _, omitted, -, -, hcut, hcount⟩ := hretains.cut (by decide)
  rw [hfinish] at hcut hcount
  cases congrArg RetainedText.omittedBytes hcut
  exact absurd hcount (by decide)

/-- **Only the bytes matter**, whether or not they are a text: what is retained, and what each push says, depend on
the strategy and on all the bytes pushed, not on how they are split. -/
theorem retained_of_seen {strategy : TextRetentionStrategy} {r : TextRetainer} (hcreate : TextRetainer.create strategy = .ok r)
    (chunks : List Chunk) : (r.pushAll chunks).finish = retained r.prefixCap r.suffixCap (seen chunks) ∧
      ∀ chunk, ((r.pushAll chunks).push chunk).2.truncated =
        (retained r.prefixCap r.suffixCap (seen (chunks ++ [chunk]))).truncated := by
  obtain ⟨hall, hcap, hcap'⟩ := (TextRetainer.create_spec hcreate).1.pushAll chunks
  refine ⟨by rw [hall.finish, hcap, hcap', nil_append], fun chunk => ?_⟩
  obtain ⟨hpush, hcaps, hcaps'⟩ := hall.push chunk
  rw [hall.told chunk, hpush.finish, hcaps, hcaps', hcap, hcap', nil_append]
  simp only [seen, flatMap_append, flatMap_singleton]

/-- Two bytes that begin no character. -/
theorem retained_of_seen_broken : ((({ prefixCap := 1, suffixCap := 1 } : TextRetainer).pushAll
      [.bytes [0xC3], .bytes [0xFF]]).finish) = retained 1 1 [0xC3, 0xFF] := by
  have hcreate : TextRetainer.create (.headTail (.finite (.int 1)) (.finite (.int 1))) = .ok { prefixCap := 1, suffixCap := 1 } := rfl
  exact (retained_of_seen hcreate [.bytes [0xC3], .bytes [0xFF]]).1

end CocoHarness.OutputRetention
