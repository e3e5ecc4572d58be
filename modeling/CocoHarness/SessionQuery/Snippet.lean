/-
# CocoHarness.SessionQuery.Snippet — the excerpt that is shown of a document found.

FTS5 marks its matches in the document; `normalizeMarkedText` takes the marks out, remembers where the first one
stood, and squeezes white space.  `makeSnippet` shows at most so many code points of what is left, around the match,
with an ellipsis where text was cut.
-/
import CocoHarness.Lib.WhiteSpace
import CocoHarness.Lib.MarkedText

namespace CocoHarness.SessionQuery

open Lib Lib.MarkedText List

/-! ## The excerpt -/

def ftsHighlightStart : Char := '\uFDD0'

def ftsHighlightEnd : Char := '\uFDD1'

def ellipsis : Char := '…'

def isSpace (c : Char) : Bool := c.toNat < 0x10000 && Utf16.isSpace (UInt16.ofNat c.toNat)

structure Normalizing where
  characters : List Char := []
  matchStart : Option Nat := none

def Normalizing.read (s : Normalizing) (character : Char) : Normalizing :=
  if character = ftsHighlightStart then { s with matchStart := s.matchStart.or (some s.characters.length) }
  else if character = ftsHighlightEnd then s
  else if isSpace character then
    if 0 < s.characters.length ∧ s.characters.getLast? ≠ some ' ' then
      { s with characters := s.characters ++ [' '] }
    else s
  else { s with characters := s.characters ++ [character] }

structure NormalizedText where
  text : List Char
  matchStart : Nat

def normalizeMarkedText (markedText : List Char) : NormalizedText :=
  let s := markedText.foldl Normalizing.read {}
  { text := if s.characters.getLast? = some ' ' then s.characters.dropLast else s.characters
    matchStart := s.matchStart.getD 0 }

structure Excerpt where
  leading : List Char
  start : Nat
  stop : Nat
  trailing : List Char

/-- The arithmetic of `makeSnippet`, for a text that is too long. -/
def excerpt (length matchStart maxChars : Nat) : Excerpt :=
  let matchedIndex := min matchStart (length - 1)
  let start := matchedIndex - maxChars / 3
  let leading := if 0 < start then [ellipsis] else []
  let contentLength := maxChars - leading.length - 1
  let (start, trailing, contentLength) :=
    if contentLength < 1 then (matchedIndex, [], maxChars - leading.length)
    else if start + contentLength ≤ matchedIndex then (matchedIndex - contentLength + 1, [ellipsis], contentLength)
    else (start, [ellipsis], contentLength)
  let stop := min length (start + contentLength)
  let (start, trailing, contentLength) :=
    if stop = length then (stop - (maxChars - leading.length), [], maxChars - leading.length)
    else (start, trailing, contentLength)
  { leading, start, stop := min length (start + contentLength), trailing }

def makeSnippet (markedText : List Char) (maxChars : Nat) : List Char :=
  let { text := clean, matchStart } := normalizeMarkedText markedText
  if clean.length ≤ maxChars then clean
  else if maxChars = 1 then [ellipsis]
  else
    let { leading, start, stop, trailing } := excerpt clean.length matchStart maxChars
    leading ++ slice clean start stop ++ trailing

/-! ## What it shows -/

/-- `shown` is a run of the text between `before` and `behind`, with the ellipses. -/
structure Snippet (text : List Char) (maxChars : Nat) (result before shown behind : List Char) : Prop where
  split : text = before ++ shown ++ behind
  ellipses : ∃ leading trailing, result = leading ++ shown ++ trailing ∧ (leading = [] ∨ leading = [ellipsis]) ∧
    (trailing = [] ∨ trailing = [ellipsis]) ∧ (leading ≠ [] → before ≠ []) ∧ (trailing ≠ [] → behind ≠ []) ∧
    (before ≠ [] → leading ≠ [])
  short : result.length ≤ maxChars
  whole : text.length ≤ maxChars → result = text

structure Excerpt.Fits (e : Excerpt) (length matched maxChars : Nat) : Prop where
  leading : e.leading = if 0 < e.start then [ellipsis] else []
  trailing : e.trailing = [] ∨ e.trailing = [ellipsis] ∧ e.stop < length
  order : e.start ≤ matched ∧ matched < e.stop ∧ e.stop ≤ length
  short : e.leading.length + (e.stop - e.start) + e.trailing.length ≤ maxChars

theorem excerpt_fits {length matchStart maxChars : Nat} (hmax : 2 ≤ maxChars) (hlong : maxChars < length)
    (hmatch : matchStart < length) : (excerpt length matchStart maxChars).Fits length matchStart maxChars := by
  have hindex : min matchStart (length - 1) = matchStart := by omega
  unfold excerpt
  simp only [hindex]
  by_cases hstart : 0 < matchStart - maxChars / 3
  · -- text is cut on the left, and stays so wherever the start is moved
    have hend : ∀ start, 0 < start → start ≤ matchStart → matchStart < start + (maxChars - 1) →
        Excerpt.Fits ⟨[ellipsis], start, min length (start + (maxChars - 1)), []⟩ length matchStart maxChars := by
      intro start hpos hle hlt
      exact ⟨(if_pos hpos).symm, .inl rfl, by dsimp only; omega, by simp only [length_nil, length_singleton]; omega⟩
    have hmid : ∀ start, 0 < start → start ≤ matchStart → matchStart < start + (maxChars - 1 - 1) →
        ¬ min length (start + (maxChars - 1 - 1)) = length →
        Excerpt.Fits ⟨[ellipsis], start, min length (start + (maxChars - 1 - 1)), [ellipsis]⟩ length matchStart maxChars := by
      intro start hpos hle hlt hcut
      exact ⟨(if_pos hpos).symm, .inr ⟨rfl, by dsimp only; omega⟩, by dsimp only; omega,
        by simp only [length_singleton]; omega⟩
    simp only [if_pos hstart, length_singleton]
    by_cases hroom : maxChars - 1 - 1 < 1
    · simp only [if_pos hroom]
      split
      · exact hend _ (by omega) (by omega) (by omega)
      · exact hend _ (by omega) (by omega) (by omega)
    · simp only [if_neg hroom]
      by_cases hfar : matchStart - maxChars / 3 + (maxChars - 1 - 1) ≤ matchStart
      · simp only [if_pos hfar]
        split
        · exact hend _ (by omega) (by omega) (by omega)
        · next hcut => exact hmid _ (by omega) (by omega) (by omega) hcut
      · simp only [if_neg hfar]
        split
        · exact hend _ (by omega) (by omega) (by omega)
        · next hcut => exact hmid _ hstart (by omega) (by omega) hcut
  · -- the run starts with the text, and does not reach its end
    have hroom : ¬ maxChars - 0 - 1 < 1 := by omega
    have hnear : ¬ matchStart - maxChars / 3 + (maxChars - 0 - 1) ≤ matchStart := by omega
    have hcut : ¬ min length (matchStart - maxChars / 3 + (maxChars - 0 - 1)) = length := by omega
    simp only [if_neg hstart, length_nil, if_neg hroom, if_neg hnear, if_neg hcut]
    exact ⟨(if_neg hstart).symm, .inr ⟨rfl, by dsimp only; omega⟩, by dsimp only; omega,
      by simp only [length_nil, length_singleton]; omega⟩

theorem makeSnippet_snippet {maxChars : Nat} (hmax : 1 ≤ maxChars) (markedText : List Char)
    (hmatch : (normalizeMarkedText markedText).matchStart < (normalizeMarkedText markedText).text.length) :
    ∃ before shown behind,
      Snippet (normalizeMarkedText markedText).text maxChars (makeSnippet markedText maxChars) before shown behind ∧
      (2 ≤ maxChars → before.length ≤ (normalizeMarkedText markedText).matchStart ∧
        (normalizeMarkedText markedText).matchStart < before.length + shown.length) := by
  unfold makeSnippet
  generalize normalizeMarkedText markedText = normalized at hmatch ⊢
  obtain ⟨clean, matchStart⟩ := normalized
  dsimp only at hmatch ⊢
  split
  · next hfits =>
    refine ⟨[], clean, [], ⟨by rw [nil_append, append_nil], ⟨[], [], ?_⟩, hfits, fun _ => rfl⟩, fun _ => ?_⟩
    · exact ⟨by rw [nil_append, append_nil], .inl rfl, .inl rfl, fun h => h, fun h => h, fun h => h⟩
    · exact ⟨Nat.zero_le _, by rw [length_nil, Nat.zero_add]; exact hmatch⟩
  · next hlong =>
    have hne : clean ≠ [] := length_pos_iff.mp (by omega)
    split
    · next hone =>
      subst hone
      refine ⟨[], [], clean, ⟨rfl, ⟨[], [ellipsis], ?_⟩, Nat.le_refl _, fun h => absurd h hlong⟩, fun h => by omega⟩
      exact ⟨rfl, .inl rfl, .inr rfl, fun h => absurd rfl h, fun _ => hne, fun h => absurd rfl h⟩
    · next hmany =>
      obtain ⟨hleading, htrailing, horder, hshort⟩ :=
        @excerpt_fits clean.length matchStart maxChars (by omega) (by omega) hmatch
      generalize excerpt clean.length matchStart maxChars = e at hleading htrailing horder hshort ⊢
      obtain ⟨leading, start, stop, trailing⟩ := e
      dsimp only at hleading htrailing horder hshort ⊢
      have hshown : (slice clean start stop).length = stop - start := by
        rw [slice, length_take, length_drop]
        omega
      have hbefore : (clean.take start).length = start := by
        rw [length_take]
        omega
      refine ⟨clean.take start, slice clean start stop, clean.drop stop, ⟨?_, ⟨leading, trailing, rfl, ?_, ?_⟩, ?_, ?_⟩,
        fun _ => by rw [hbefore, hshown]; omega⟩
      · rw [slice, append_assoc]
        have hrest : clean.drop stop = (clean.drop start).drop (stop - start) := by
          rw [drop_drop]
          congr 1
          omega
        rw [hrest, take_append_drop, take_append_drop]
      · rw [hleading]
        split
        · exact .inr rfl
        · exact .inl rfl
      · refine ⟨htrailing.imp_right And.left, fun h => ?_, fun h => ?_, fun h => ?_⟩
        · rw [hleading] at h
          split at h
          · next hpos =>
            apply length_pos_iff.mp
            rw [hbefore]
            exact hpos
          · exact absurd rfl h
        · rcases htrailing with hnone | ⟨-, hlt⟩
          · exact absurd hnone h
          · apply length_pos_iff.mp
            rw [length_drop]
            omega
        · have hpos := length_pos_iff.mpr h
          rw [hbefore] at hpos
          rw [hleading, if_pos hpos]
          exact cons_ne_nil _ _
      · rw [length_append, length_append, hshown]
        exact hshort
      · exact fun h => absurd h hlong

/-! ## Where the match is -/

theorem isSpace_space : isSpace ' ' = true := by decide

variable {s : Normalizing}

theorem foldl_read_matchStart {i : Nat} (h : s.matchStart = some i) (t : List Char) :
    (t.foldl Normalizing.read s).matchStart = some i := by
  induction t generalizing s with
  | nil => exact h
  | cons c t ih =>
    apply ih
    unfold Normalizing.read
    split
    · show s.matchStart.or _ = _
      rw [h]
      rfl
    · repeat' split
      all_goals exact h

theorem foldl_read_unmarked {t : List Char} (h : ftsHighlightStart ∉ t) :
    (t.foldl Normalizing.read s).matchStart = s.matchStart := by
  induction t generalizing s with
  | nil => rfl
  | cons c t ih =>
    rw [mem_cons, not_or] at h
    rw [foldl_cons, ih h.2]
    unfold Normalizing.read
    rw [if_neg (Ne.symm h.1)]
    repeat' split
    all_goals rfl

/-- Reading on only adds behind what has been read. -/
theorem foldl_read_characters (t : List Char) (s : Normalizing) :
    ∃ more, (t.foldl Normalizing.read s).characters = s.characters ++ more := by
  induction t generalizing s with
  | nil => exact ⟨[], (append_nil _).symm⟩
  | cons c t ih =>
    obtain ⟨more, hmore⟩ := ih (s.read c)
    have hone : ∃ one, (s.read c).characters = s.characters ++ one := by
      unfold Normalizing.read
      repeat' split
      all_goals first | exact ⟨[], (append_nil _).symm⟩ | exact ⟨_, rfl⟩
    obtain ⟨one, hone⟩ := hone
    exact ⟨one ++ more, by rw [foldl_cons, hmore, hone, append_assoc]⟩

/-- **The match keeps its place**: its first code point is the one at `matchStart`. -/
theorem normalizeMarkedText_match {before behind : List Char} {c : Char} (hfirst : ftsHighlightStart ∉ before)
    (hstart : c ≠ ftsHighlightStart) (hend : c ≠ ftsHighlightEnd) (hspace : isSpace c = false) :
    (normalizeMarkedText (before ++ ftsHighlightStart :: c :: behind)).text[
      (normalizeMarkedText (before ++ ftsHighlightStart :: c :: behind)).matchStart]? = some c ∧
    (normalizeMarkedText (before ++ ftsHighlightStart :: c :: behind)).matchStart
      = (before.foldl Normalizing.read {}).characters.length := by
  generalize hread : before.foldl Normalizing.read {} = s
  have hmark : s.matchStart = none := by
    rw [← hread]
    exact foldl_read_unmarked hfirst
  have hstep : (s.read ftsHighlightStart).read c
      = { characters := s.characters ++ [c], matchStart := some s.characters.length } := by
    unfold Normalizing.read
    rw [if_pos rfl, if_neg hstart, if_neg hend, hspace, hmark]
    rfl
  unfold normalizeMarkedText
  rw [foldl_append, foldl_cons, foldl_cons, hread, hstep]
  have hmatch := @foldl_read_matchStart ⟨s.characters ++ [c], some s.characters.length⟩ _ rfl behind
  obtain ⟨more, hmore⟩ := foldl_read_characters behind ⟨s.characters ++ [c], some s.characters.length⟩
  dsimp only at hmore ⊢
  rw [hmatch]
  refine ⟨?_, rfl⟩
  rw [hmore, Option.getD_some]
  have hget : (s.characters ++ [c] ++ more)[s.characters.length]? = some c := by simp
  split
  · next hlast =>
    -- what is taken off the end is a space, and the match starts at none
    have hne : more ≠ [] := by
      rintro rfl
      rw [append_nil, getLast?_append] at hlast
      obtain rfl := Option.some.inj hlast
      rw [isSpace_space] at hspace
      cases hspace
    rw [getElem?_dropLast, if_pos, hget]
    have := length_pos_iff.mpr hne
    simp only [length_append, length_singleton]
    omega
  · exact hget

/-- **What a snippet shows.**  Of a document whose first match starts at a character that is no white space, at most
`maxChars` code points: a run of the normalized text, which is all of it when it fits, with an ellipsis only where
text was cut and always where it was cut on the left; from two code points on, the start of the match is shown. -/
theorem makeSnippet_spec {maxChars : Nat} (hmax : 1 ≤ maxChars) {before behind : List Char} {c : Char}
    (hfirst : ftsHighlightStart ∉ before) (hstart : c ≠ ftsHighlightStart) (hend : c ≠ ftsHighlightEnd)
    (hspace : isSpace c = false) :
    let markedText := before ++ ftsHighlightStart :: c :: behind
    let { text, matchStart } := normalizeMarkedText markedText
    text[matchStart]? = some c ∧ matchStart = (before.foldl Normalizing.read {}).characters.length ∧
      ∃ left shown right, Snippet text maxChars (makeSnippet markedText maxChars) left shown right ∧
        (2 ≤ maxChars → left.length ≤ matchStart ∧ matchStart < left.length + shown.length) := by
  obtain ⟨hget, hplace⟩ := @normalizeMarkedText_match before behind c hfirst hstart hend hspace
  exact ⟨hget, hplace, makeSnippet_snippet hmax _ (List.getElem?_eq_some_iff.mp hget).1⟩

/-- Of `a [b] c` a snippet of two code points shows where the match starts. -/
theorem makeSnippet_spec_marked : makeSnippet ['a', ' ', ' ', ftsHighlightStart, 'b', ftsHighlightEnd, 'c'] 2 = [ellipsis, 'b'] ∧
    (normalizeMarkedText (['a', ' ', ' '] ++ ftsHighlightStart :: 'b' :: [ftsHighlightEnd, 'c'])).text[
      (normalizeMarkedText (['a', ' ', ' '] ++ ftsHighlightStart :: 'b' :: [ftsHighlightEnd, 'c'])).matchStart]? = some 'b' :=
  ⟨by decide +kernel, (@makeSnippet_spec 2 (by decide) ['a', ' ', ' '] [ftsHighlightEnd, 'c'] 'b' (by decide) (by decide)
    (by decide) (by decide)).1⟩

end CocoHarness.SessionQuery
