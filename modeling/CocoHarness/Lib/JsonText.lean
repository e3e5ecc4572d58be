/-
# CocoHarness.Lib.JsonText — JSON texts, written and read back.

`text` is `JSON.stringify` without indentation and `parse` is `JSON.parse`.  Both work on characters, so a string
holds Unicode scalar values: an escape that names an unpaired surrogate does not read.

`Writes v t` says that `t` reads back as `v` whatever stands behind it; the only thing it asks of that is that it
does not continue a number.
-/
import CocoHarness.Lib.Numeral

namespace CocoHarness.Lib.JsonText

open List Option Json

open Numeral (numberText readNumber Stops stops_cons stops_nil readNumber_numberText
  numberText_ne_nil numberText_isNumberChar isNumberChar)

/-! ## Strings -/

def hexChar (d : Nat) : Char := if d < 10 then Char.ofNat (48 + d) else Char.ofNat (87 + d)

def hexVal (c : Char) : Option Nat :=
  if 48 ≤ c.toNat ∧ c.toNat ≤ 57 then some (c.toNat - 48)
  else if 97 ≤ c.toNat ∧ c.toNat ≤ 102 then some (c.toNat - 87)
  else if 65 ≤ c.toNat ∧ c.toNat ≤ 70 then some (c.toNat - 55)
  else none

/-- The two-character escapes `JSON.stringify` writes, by the character escaped. -/
def shortEscape (c : Char) : Option Char :=
  if c = '"' then some '"' else if c = '\\' then some '\\' else if c = '\n' then some 'n'
  else if c = '\r' then some 'r' else if c = '\t' then some 't'
  else if c = Char.ofNat 8 then some 'b' else if c = Char.ofNat 12 then some 'f' else none

def escapeChar (c : Char) : List Char :=
  match shortEscape c with
  | some e => ['\\', e]
  | none =>
    if c.toNat < 32 then ['\\', 'u', '0', '0', hexChar (c.toNat / 16), hexChar (c.toNat % 16)]
    else [c]

def quoted (cs : List Char) : List Char := '"' :: (cs.flatMap escapeChar ++ ['"'])

def unescape (e : Char) : Option Char :=
  if e = '"' then some '"' else if e = '\\' then some '\\' else if e = '/' then some '/'
  else if e = 'n' then some '\n' else if e = 'r' then some '\r' else if e = 't' then some '\t'
  else if e = 'b' then some (Char.ofNat 8) else if e = 'f' then some (Char.ofNat 12) else none

def hexUnit (a b c d : Char) : Option Nat := do
  some (4096 * (← hexVal a) + 256 * (← hexVal b) + 16 * (← hexVal c) + (← hexVal d))

/-- The rest of a string after its opening quote, and what follows the closing quote. -/
def readString : List Char → Option (List Char × List Char)
  | [] => none
  | c :: r =>
    if c = '"' then some ([], r)
    else if c = '\\' then
      match r with
      | [] => none
      | e :: r =>
        match unescape e with
        | some x => (readString r).map fun p => (x :: p.1, p.2)
        | none =>
          if e = 'u' then
            match r with
            | h₁ :: h₂ :: h₃ :: h₄ :: r =>
              match hexUnit h₁ h₂ h₃ h₄ with
              | none => none
              | some u =>
                if u < 0xD800 ∨ 0xDFFF < u then
                  (readString r).map fun p => (Char.ofNat u :: p.1, p.2)
                else
                  match r with
                  | b :: v :: l₁ :: l₂ :: l₃ :: l₄ :: r =>
                    if b = '\\' ∧ v = 'u' ∧ u < 0xDC00 then
                      match hexUnit l₁ l₂ l₃ l₄ with
                      | none => none
                      | some w =>
                        if 0xDC00 ≤ w ∧ w ≤ 0xDFFF then
                          (readString r).map fun p =>
                            (Char.ofNat (0x10000 + (u - 0xD800) * 1024 + (w - 0xDC00)) :: p.1, p.2)
                        else none
                    else none
                  | _ => none
            | _ => none
          else none
    else if c.toNat < 32 then none
    else (readString r).map fun p => (c :: p.1, p.2)

/-! ## Values -/

mutual

def text : Json → List Char
  | .null => ['n', 'u', 'l', 'l']
  | .bool true => ['t', 'r', 'u', 'e']
  | .bool false => ['f', 'a', 'l', 's', 'e']
  | .num n => numberText n
  | .str s => quoted s.toList
  | .arr [] => ['[', ']']
  | .arr (x :: xs) => '[' :: (text x ++ elementsText xs)
  | .obj [] => ['{', '}']
  | .obj ((k, v) :: fs) => '{' :: (quoted k.toList ++ ':' :: (text v ++ membersText fs))

def elementsText : List Json → List Char
  | [] => [']']
  | x :: xs => ',' :: (text x ++ elementsText xs)

def membersText : List (String × Json) → List Char
  | [] => ['}']
  | (k, v) :: fs => ',' :: (quoted k.toList ++ ':' :: (text v ++ membersText fs))

end

def isWs (c : Char) : Bool := c == ' ' || c == '\t' || c == '\n' || c == '\r'

def skipWs (cs : List Char) : List Char := cs.dropWhile isWs

def readWord (word : List Char) (v : Json) (r : List Char) : Option (Json × List Char) :=
  if word.isPrefixOf r then some (v, r.drop word.length) else none

def setField (fs : List (String × Json)) (k : String) (v : Json) : List (String × Json) :=
  if k ∈ Json.keys fs then fs.map fun f => if f.1 = k then (k, v) else f else fs ++ [(k, v)]

mutual

/-- One value; the fuel bounds the nesting and the number of elements. -/
def readValue : Nat → List Char → Option (Json × List Char)
  | 0, _ => none
  | fuel + 1, cs =>
    match skipWs cs with
    | [] => none
    | c :: r =>
      if c = 'n' then readWord ['u', 'l', 'l'] .null r
      else if c = 't' then readWord ['r', 'u', 'e'] (.bool true) r
      else if c = 'f' then readWord ['a', 'l', 's', 'e'] (.bool false) r
      else if c = '"' then (readString r).map fun p => (.str (String.ofList p.1), p.2)
      else if c = '[' then
        if (skipWs r).head? = some ']' then some (.arr [], (skipWs r).tail)
        else (readElements fuel r).map fun p => (.arr p.1, p.2)
      else if c = '{' then
        if (skipWs r).head? = some '}' then some (.obj [], (skipWs r).tail)
        else (readMembers fuel r []).map fun p => (.obj p.1, p.2)
      else (readNumber (c :: r)).map fun p => (.num p.1, p.2)

def readElements : Nat → List Char → Option (List Json × List Char)
  | 0, _ => none
  | fuel + 1, cs => do
    let (v, r) ← readValue fuel cs
    match skipWs r with
    | [] => none
    | c :: r =>
      if c = ',' then (readElements fuel r).map fun p => (v :: p.1, p.2)
      else if c = ']' then some ([v], r)
      else none

def readMembers : Nat → List Char → List (String × Json) → Option (List (String × Json) × List Char)
  | 0, _, _ => none
  | fuel + 1, cs, acc =>
    match skipWs cs with
    | [] => none
    | q :: r =>
      if q ≠ '"' then none
      else do
        let (k, r) ← readString r
        match skipWs r with
        | [] => none
        | c :: r =>
          if c ≠ ':' then none
          else do
            let (v, r) ← readValue fuel r
            let acc := setField acc (String.ofList k) v
            match skipWs r with
            | [] => none
            | c :: r =>
              if c = ',' then readMembers fuel r acc
              else if c = '}' then some (acc, r)
              else none

end

def parse (cs : List Char) : Option Json :=
  match readValue (2 * cs.length + 1) cs with
  | some (v, r) => if skipWs r = [] then some v else none
  | none => none

/-! ## Strings read back -/

theorem hexVal_hexChar {d : Nat} (h : d < 16) : hexVal (hexChar d) = some d := by interval_cases d <;> decide

variable {c : Char}

theorem unescape_shortEscape {e : Char} (h : shortEscape c = some e) : unescape e = some c := by
  unfold shortEscape at h
  repeat' split at h
  all_goals first
    | (cases h; subst_vars; decide)
    | cases h

theorem hexUnit_control {n : Nat} (h : n < 32) : hexUnit '0' '0' (hexChar (n / 16)) (hexChar (n % 16)) = some n := by
  have h0 : hexVal '0' = some 0 := by decide
  have hhi : hexVal (hexChar (n / 16)) = some (n / 16) := hexVal_hexChar (by omega)
  have hlo : hexVal (hexChar (n % 16)) = some (n % 16) := hexVal_hexChar (by omega)
  simp only [hexUnit, h0, hhi, hlo, bind_eq_bind, bind_some, Option.some.injEq]
  omega

theorem readString_escapeChar (c : Char) (r : List Char) :
    readString (escapeChar c ++ r) = (readString r).map fun p => (c :: p.1, p.2) := by
  unfold escapeChar
  split
  · next e he =>
    have hu := unescape_shortEscape he
    rw [cons_append, cons_append, nil_append, readString.eq_def]
    simp [hu]
  · next he =>
    have hq : c ≠ '"' := by rintro rfl; simp [shortEscape] at he
    have hb : c ≠ '\\' := by rintro rfl; simp [shortEscape] at he
    split
    · next hc =>
      have hunit := hexUnit_control hc
      have hnone : unescape 'u' = none := by decide
      have hrange : c.toNat < 0xD800 ∨ 0xDFFF < c.toNat := by omega
      rw [readString.eq_def]
      simp [hnone, hunit, hrange]
    · next hc =>
      rw [cons_append, nil_append, readString.eq_def]
      simp [hq, hb, hc]

theorem readString_quoted (cs r : List Char) : readString (cs.flatMap escapeChar ++ '"' :: r) = some (cs, r) := by
  induction cs with
  | nil => rw [flatMap_nil, nil_append, readString.eq_def]; simp
  | cons c cs ih =>
    rw [flatMap_cons, append_assoc, readString_escapeChar, ih]
    rfl

/-! ## Values read back -/

theorem text_ne_nil (v : Json) : text v ≠ [] := by
  cases v with
  | bool b | arr b | obj b => cases b <;> simp [text]
  | num n => simpa [text] using numberText_ne_nil n
  | _ => simp [text, quoted]

theorem text_head (v : Json) : ∃ c r, text v = c :: r ∧ isWs c = false ∧ c ≠ ']' := by
  cases v with
  | null | str s => exact ⟨_, _, rfl, by decide, by decide⟩
  | bool b | arr b | obj b => cases b <;> exact ⟨_, _, rfl, by decide, by decide⟩
  | num n =>
    obtain ⟨c, r, hc⟩ := exists_cons_of_ne_nil (numberText_ne_nil n)
    have hchar := numberText_isNumberChar n c (by simp [hc])
    refine ⟨c, r, hc, ?_, ?_⟩
    · by_contra hws
      simp only [isWs, Bool.not_eq_false, Bool.or_eq_true, beq_iff_eq] at hws
      rcases hws with ((rfl | rfl) | rfl) | rfl <;> exact absurd hchar (by decide)
    · rintro rfl; exact absurd hchar (by decide)

theorem skipWs_cons (h : isWs c = false) (r : List Char) : skipWs (c :: r) = c :: r := by simp [skipWs, h]

theorem setField_of_notMem {fs : List (String × Json)} {k : String} (h : k ∉ Json.keys fs) (v : Json) : setField fs k v = fs ++ [(k, v)] := by
  simp [setField, h]

theorem lookup_replaceField {fs : List (String × Json)} {k : String} (h : k ∈ Json.keys fs) (l : String) (v : Json) :
    (fs.map fun f => if f.1 = k then (k, v) else f).lookup l = if l = k then some v else fs.lookup l := by
  induction fs with
  | nil => simp [Json.keys] at h
  | cons f fs ih =>
    obtain ⟨j, w⟩ := f
    rw [map_cons]
    by_cases hj : j = k
    · subst hj
      by_cases hl : l = j
      · simp [hl]
      · simp only [if_true, lookup_cons, beq_eq_false_iff_ne.mpr hl, if_neg hl]
        by_cases hmem : j ∈ Json.keys fs
        · rw [ih hmem, if_neg hl]
        · rw [List.map_congr_left (g := id), List.map_id]
          intro f hf
          rw [if_neg, id]
          rintro rfl
          exact hmem (mem_map.mpr ⟨f, hf, rfl⟩)
    · have hmem : k ∈ Json.keys fs := by simpa [Json.keys, Ne.symm hj] using h
      rw [if_neg hj, lookup_cons, lookup_cons, ih hmem]
      by_cases hl : l = j
      · subst hl
        simp [hj]
      · simp only [beq_eq_false_iff_ne.mpr hl]

theorem lookup_setField (fs : List (String × Json)) (k l : String) (v : Json) :
    (setField fs k v).lookup l = if l = k then some v else fs.lookup l := by
  rw [setField]
  split
  · next hk => exact lookup_replaceField hk l v
  · next hk =>
    have hnone : fs.lookup k = none := lookup_eq_none_iff.mpr fun f hf => by
      simpa using fun heq => hk (mem_map.mpr ⟨f, hf, heq.symm⟩)
    rw [lookup_append]
    by_cases hl : l = k
    · simp [hl, hnone]
    · simp [hl, lookup_cons, beq_eq_false_iff_ne.mpr hl]

variable {r : List Char}

theorem readValue_num (n : Number) {fuel : Nat} (hr : Stops r) :
    readValue (fuel + 1) (text (.num n) ++ r) = some (.num n, r) := by
  obtain ⟨c, t, hc, hws, hne⟩ := text_head (.num n)
  have hchar : isNumberChar c = true := numberText_isNumberChar n c (by
    rw [show numberText n = c :: t from hc]; simp)
  have hread := readNumber_numberText n hr
  rw [show numberText n = c :: t from hc, cons_append] at hread
  have hn : ∀ d, isNumberChar d = false → c ≠ d := by rintro d hd rfl; rw [hchar] at hd; cases hd
  rw [hc, cons_append, readValue, skipWs_cons hws]
  simp only [hn 'n' (by decide), hn 't' (by decide), hn 'f' (by decide), hn '"' (by decide),
    hn '[' (by decide), hn '{' (by decide), if_false, hread, map_some]

/-! ## Blanks -/

def Blank (w : List Char) : Prop := ∀ c ∈ w, isWs c = true

/-- The text reads back as the value, whatever stands behind it. -/
structure Writes (v : Json) (t : List Char) : Prop where
  reads : ∀ fuel r, 2 * t.length ≤ fuel → Stops r → readValue fuel (t ++ r) = some (v, r)
  head : ∃ c rest, t = c :: rest ∧ isWs c = false ∧ c ≠ ']'

variable {v x : Json} {xs : List Json} {k : String} {fs : List (String × Json)}
  {w w' t e : List Char}

theorem skipWs_blank (h : Blank w) (r : List Char) : skipWs (w ++ r) = skipWs r := dropWhile_append_of_pos h

theorem readValue_blank (h : Blank w) (fuel : Nat) (r : List Char) : readValue fuel (w ++ r) = readValue fuel r := by
  cases fuel with
  | zero => rfl
  | succ fuel => rw [readValue, readValue, skipWs_blank h]

theorem stops_blank (h : Blank w) (hc : Stops (c :: r)) : Stops (w ++ c :: r) := by
  cases w with
  | nil => exact hc
  | cons d w =>
    apply stops_cons
    have hd := h d mem_cons_self
    simp only [isWs, Bool.or_eq_true, beq_iff_eq] at hd
    rcases hd with ((rfl | rfl) | rfl) | rfl <;> decide

theorem Writes.parse (h : Writes v t) : parse t = some v := by
  have hread := h.reads (2 * t.length + 1) [] (by omega) stops_nil
  rw [append_nil] at hread
  simp [JsonText.parse, hread, skipWs]

/-! ## Arrays -/

/-- What stands behind an element: the others, and the closing bracket. -/
inductive Elements : List Json → List Char → Prop where
  | close {w : List Char} : Blank w → Elements [] (w ++ [']'])
  | next {w t e : List Char} {x : Json} {xs : List Json} :
    Blank w → Writes x t → Elements xs e → Elements (x :: xs) (',' :: (w ++ (t ++ e)))

theorem Elements.stops (h : Elements xs e) (r : List Char) : Stops (e ++ r) := by
  cases h with
  | close hw =>
    rw [append_assoc]
    exact stops_blank hw (stops_cons (by decide))
  | next => exact stops_cons (by decide)

theorem Elements.length_pos (h : Elements xs e) : 0 < e.length := by cases h <;> simp

/-- **Elements read back**, by induction on what stands behind the first. -/
theorem Elements.reads (h : Elements xs e) (hw : Blank w) (hx : Writes x t) (fuel : Nat) (r : List Char)
    (hfuel : 2 * (t.length + e.length) ≤ fuel) :
    readElements fuel (w ++ (t ++ (e ++ r))) = some (x :: xs, r) := by
  induction h generalizing x t w fuel with
  | @close w' hw' =>
    rw [length_append, length_singleton] at hfuel
    obtain ⟨n, rfl⟩ : ∃ n, fuel = n + 1 := ⟨fuel - 1, by omega⟩
    have hread := hx.reads n (w' ++ [']'] ++ r) (by omega) ((Elements.close hw').stops r)
    rw [readElements, readValue_blank hw, hread]
    have hclose : isWs ']' = false := by decide
    simp [skipWs_blank hw', skipWs_cons hclose]
  | @next w' t' e' y ys hw' hy he ih =>
    simp only [length_cons, length_append] at hfuel
    obtain ⟨n, rfl⟩ : ∃ n, fuel = n + 1 := ⟨fuel - 1, by omega⟩
    have hread := hx.reads n _ (by omega) ((Elements.next hw' hy he).stops r)
    have hrest := ih hw' hy n (by omega)
    rw [readElements, readValue_blank hw, hread]
    have hcomma : isWs ',' = false := by decide
    simp [skipWs_cons hcomma, hrest]

theorem Writes.arr (hw : Blank w) (hx : Writes x t) (he : Elements xs e) :
    Writes (.arr (x :: xs)) ('[' :: (w ++ (t ++ e))) where
  reads := by
    intro fuel r hfuel _
    simp only [length_cons, length_append] at hfuel
    obtain ⟨n, rfl⟩ : ∃ n, fuel = n + 1 := ⟨fuel - 1, by omega⟩
    have hopen : isWs '[' = false := by decide
    have hread := he.reads hw hx n r (by omega)
    -- an array that is not empty does not close right away
    have hhead : (skipWs (w ++ (t ++ (e ++ r)))).head? ≠ some ']' := by
      obtain ⟨c, rest, rfl, hc, hne⟩ := hx.head
      rw [skipWs_blank hw, cons_append, skipWs_cons hc]
      simpa using hne
    rw [cons_append, append_assoc, append_assoc, readValue, skipWs_cons hopen]
    simp [hhead, hread]
  head := ⟨'[', _, rfl, by decide, by decide⟩

/-! ## Objects -/

/-- What stands behind a member: the others, and the closing brace. -/
inductive Members : List (String × Json) → List Char → Prop where
  | close {w : List Char} : Blank w → Members [] (w ++ ['\x7d'])
  | next {w w' t e : List Char} {k : String} {v : Json} {fs : List (String × Json)} :
    Blank w → Blank w' → Writes v t → Members fs e →
      Members ((k, v) :: fs) (',' :: (w ++ (quoted k.toList ++ ':' :: (w' ++ (t ++ e)))))

theorem Members.stops (h : Members fs e) (r : List Char) : Stops (e ++ r) := by
  cases h with
  | close hw =>
    rw [append_assoc]
    exact stops_blank hw (stops_cons (by decide))
  | next => exact stops_cons (by decide)

theorem setField_fresh {acc : List (String × Json)} (h : (Json.keys (acc ++ (k, v) :: fs)).Nodup) :
    setField acc k v = acc ++ [(k, v)] := by
  apply setField_of_notMem
  intro hmem
  simp only [Json.keys, map_append, map_cons, nodup_append] at h
  exact h.2.2 k hmem k mem_cons_self rfl

/-- **Members read back**, behind those in the accumulator. -/
theorem Members.reads (h : Members fs e) (hw : Blank w) (hw' : Blank w') (hv : Writes v t) (fuel : Nat)
    (acc : List (String × Json)) (r : List Char) (hnodup : (Json.keys (acc ++ (k, v) :: fs)).Nodup)
    (hfuel : 2 * (t.length + e.length) ≤ fuel) :
    readMembers fuel (w ++ (quoted k.toList ++ ':' :: (w' ++ (t ++ (e ++ r))))) acc
      = some (acc ++ (k, v) :: fs, r) := by
  have hquote : isWs '"' = false := by decide
  have hcolon : isWs ':' = false := by decide
  have hfield := setField_fresh hnodup
  induction h generalizing k v t w w' fuel acc with
  | @close u hu =>
    rw [length_append, length_singleton] at hfuel
    obtain ⟨n, rfl⟩ : ∃ n, fuel = n + 1 := ⟨fuel - 1, by omega⟩
    have hread := hv.reads n (u ++ ['\x7d'] ++ r) (by omega) ((Members.close hu).stops r)
    have hclose : isWs '\x7d' = false := by decide
    simp only [quoted, cons_append, append_assoc, nil_append] at hread ⊢
    rw [readMembers, skipWs_blank hw, skipWs_cons hquote]
    simp only [ne_eq, not_true, if_false, readString_quoted, bind_eq_bind, bind_some,
      skipWs_cons hcolon, readValue_blank hw', hread, String.ofList_toList, hfield]
    simp [skipWs_blank hu, skipWs_cons hclose]
  | @next u u' t' e' l y gs hu hu' hy he ih =>
    simp only [length_cons, length_append] at hfuel
    obtain ⟨n, rfl⟩ : ∃ n, fuel = n + 1 := ⟨fuel - 1, by omega⟩
    have hread := hv.reads n _ (by omega) ((@Members.next _ _ _ _ l _ _ hu hu' hy he).stops r)
    have hnodup' : (Json.keys ((acc ++ [(k, v)]) ++ (l, y) :: gs)).Nodup := by simpa using hnodup
    have hrest := ih hu hu' hy n (acc ++ [(k, v)]) hnodup' (by omega) (setField_fresh hnodup')
    have hcomma : isWs ',' = false := by decide
    simp only [quoted, cons_append, append_assoc, nil_append] at hrest hread ⊢
    rw [readMembers, skipWs_blank hw, skipWs_cons hquote]
    simp only [ne_eq, not_true, if_false, readString_quoted, bind_eq_bind, bind_some,
      skipWs_cons hcolon, readValue_blank hw', hread, String.ofList_toList, hfield, skipWs_cons hcomma,
      if_true, hrest]

theorem Writes.obj (hw : Blank w) (hw' : Blank w') (hv : Writes v t) (he : Members fs e)
    (hnodup : (Json.keys ((k, v) :: fs)).Nodup) :
    Writes (.obj ((k, v) :: fs)) ('\x7b' :: (w ++ (quoted k.toList ++ ':' :: (w' ++ (t ++ e))))) where
  reads := by
    intro fuel r hfuel _
    simp only [length_cons, length_append] at hfuel
    obtain ⟨n, rfl⟩ : ∃ n, fuel = n + 1 := ⟨fuel - 1, by omega⟩
    have hopen : isWs '\x7b' = false := by decide
    have hquote : isWs '"' = false := by decide
    have hread := he.reads hw hw' hv n [] r hnodup (by omega)
    rw [cons_append, readValue, skipWs_cons hopen]
    simp only [quoted, cons_append, append_assoc, nil_append] at hread ⊢
    simp [skipWs_blank hw, skipWs_cons hquote, hread]
  head := ⟨'\x7b', _, rfl, by decide, by decide⟩

/-! ## The round trip -/

theorem writes_scalar (h : ∀ fuel r, Stops r → readValue (fuel + 1) (text v ++ r) = some (v, r)) :
    Writes v (text v) where
  reads := by
    intro fuel r hfuel hr
    have hpos := length_pos_of_ne_nil (text_ne_nil v)
    obtain ⟨n, rfl⟩ : ∃ n, fuel = n + 1 := ⟨fuel - 1, by omega⟩
    exact h n r hr
  head := text_head v

theorem elements_elementsText (h : ∀ x ∈ xs, Writes x (text x)) : Elements xs (elementsText xs) := by
  induction xs with
  | nil => exact .close (w := []) nofun
  | cons x xs ih =>
    exact .next (w := []) nofun (h x mem_cons_self)
      (ih fun y hy => h y (mem_cons_of_mem _ hy))

theorem members_membersText (h : ∀ f ∈ fs, Writes f.2 (text f.2)) : Members fs (membersText fs) := by
  induction fs with
  | nil => exact .close (w := []) nofun
  | cons f fs ih =>
    exact .next (show Blank [] from nofun) (show Blank [] from nofun) (h f mem_cons_self)
      (ih fun g hg => h g (mem_cons_of_mem _ hg))

theorem writes_text (v : Json) : v.WF → Writes v (text v) := by
  induction v using induct with
  | null =>
    have hws : isWs 'n' = false := by decide
    exact fun _ => writes_scalar fun fuel r _ => by simp [text, readValue, skipWs_cons hws, readWord]
  | bool b =>
    have ht : isWs 't' = false := by decide
    have hf : isWs 'f' = false := by decide
    refine fun _ => writes_scalar fun fuel r _ => ?_
    cases b <;> simp [text, readValue, skipWs_cons ht, skipWs_cons hf, readWord]
  | num n => exact fun _ => writes_scalar fun _ _ hr => readValue_num n hr
  | str s =>
    have hws : isWs '"' = false := by decide
    exact fun _ => writes_scalar fun fuel r _ => by
      simp [text, quoted, readValue, skipWs_cons hws, readString_quoted]
  | arr xs ih =>
    intro hwf
    rw [wf_arr] at hwf
    have hopen : isWs '[' = false := by decide
    have hclose : isWs ']' = false := by decide
    cases xs with
    | nil =>
      exact writes_scalar fun fuel r _ => by simp [text, readValue, skipWs_cons hopen, skipWs_cons hclose]
    | cons x xs =>
      exact (ih x mem_cons_self (hwf x mem_cons_self)).arr (w := []) nofun
        (elements_elementsText fun y hy => ih y (mem_cons_of_mem _ hy) (hwf y (mem_cons_of_mem _ hy)))
  | obj fs ih =>
    intro hwf
    rw [wf_obj] at hwf
    have hopen : isWs '\x7b' = false := by decide
    have hclose : isWs '\x7d' = false := by decide
    cases fs with
    | nil =>
      exact writes_scalar fun fuel r _ => by simp [text, readValue, skipWs_cons hopen, skipWs_cons hclose]
    | cons f fs =>
      have hmembers := members_membersText fun g hg =>
        ih g (mem_cons_of_mem _ hg) (hwf.2 g (mem_cons_of_mem _ hg))
      have hblank : Blank [] := nofun
      exact (ih f mem_cons_self (hwf.2 f mem_cons_self)).obj hblank hblank hmembers hwf.1

/-- **JSON round trip.** `JSON.parse(JSON.stringify(v))` is `v`. -/
theorem parse_text (hwf : v.WF) : parse (text v) = some v := (writes_text v hwf).parse

/-! ## A text has no control characters -/

theorem escapeChar_printable (c : Char) : ∀ d ∈ escapeChar c, 32 ≤ d.toNat := by
  intro d hd
  unfold escapeChar at hd
  split at hd
  · next e he =>
    simp only [mem_cons, not_mem_nil, or_false] at hd
    rcases hd with rfl | rfl
    · decide
    · unfold shortEscape at he
      repeat' split at he
      all_goals first
        | (cases he; decide)
        | cases he
  · split at hd
    · next hc =>
      have hhex : ∀ n < 16, 32 ≤ (hexChar n).toNat := by decide
      simp only [mem_cons, not_mem_nil, or_false] at hd
      rcases hd with rfl | rfl | rfl | rfl | rfl | rfl
      · decide
      · decide
      · decide
      · decide
      · exact hhex _ (by omega)
      · exact hhex _ (by omega)
    · rw [mem_singleton] at hd; subst hd; omega

theorem quoted_printable (cs : List Char) : ∀ d ∈ quoted cs, 32 ≤ d.toNat := by
  intro d hd
  simp only [quoted, mem_cons, mem_append, mem_flatMap, not_mem_nil, or_false] at hd
  rcases hd with rfl | ⟨c, -, hd⟩ | rfl
  · decide
  · exact escapeChar_printable c d hd
  · decide

theorem elementsText_printable (xs : List Json) (h : ∀ x ∈ xs, ∀ d ∈ text x, 32 ≤ d.toNat) :
    ∀ d ∈ elementsText xs, 32 ≤ d.toNat := by
  induction xs with
  | nil => intro d hd; simp only [elementsText, mem_singleton] at hd; subst hd; decide
  | cons x xs ih =>
    intro d hd
    simp only [elementsText, mem_cons, mem_append] at hd
    rcases hd with rfl | hd | hd
    · decide
    · exact h x (by simp) d hd
    · exact ih (fun y hy => h y (by simp [hy])) d hd

theorem membersText_printable (fs : List (String × Json))
    (h : ∀ f ∈ fs, ∀ d ∈ text f.2, 32 ≤ d.toNat) : ∀ d ∈ membersText fs, 32 ≤ d.toNat := by
  induction fs with
  | nil => intro d hd; simp only [membersText, mem_singleton] at hd; subst hd; decide
  | cons f fs ih =>
    intro d hd
    simp only [membersText, mem_cons, mem_append] at hd
    rcases hd with rfl | hd | rfl | hd | hd
    · decide
    · exact quoted_printable _ d hd
    · decide
    · exact h f (by simp) d hd
    · exact ih (fun g hg => h g (by simp [hg])) d hd

theorem text_printable (v : Json) : ∀ d ∈ text v, 32 ≤ d.toNat := by
  induction v using induct with
  | null => simp [text]
  | bool b => cases b <;> simp [text]
  | num n =>
    intro d hd
    have := numberText_isNumberChar n d hd
    simp only [isNumberChar, Numeral.isDigit, Bool.or_eq_true, decide_eq_true_eq, beq_iff_eq]
      at this
    rcases this with (((h | rfl) | rfl) | rfl) | rfl
    · omega
    all_goals decide
  | str s => exact quoted_printable _
  | arr xs ih =>
    cases xs with
    | nil => simp [text]
    | cons x xs =>
      intro d hd
      simp only [text, mem_cons, mem_append] at hd
      rcases hd with rfl | hd | hd
      · decide
      · exact ih x (by simp) d hd
      · exact elementsText_printable xs (fun y hy => ih y (by simp [hy])) d hd
  | obj fs ih =>
    cases fs with
    | nil => simp [text]
    | cons f fs =>
      intro d hd
      simp only [text, mem_cons, mem_append] at hd
      rcases hd with rfl | hd | rfl | hd | hd
      · decide
      · exact quoted_printable _ d hd
      · decide
      · exact ih f (by simp) d hd
      · exact membersText_printable fs (fun g hg => ih g (by simp [hg])) d hd

end CocoHarness.Lib.JsonText
