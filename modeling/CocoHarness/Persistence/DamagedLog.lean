/-
# CocoHarness.Persistence.DamagedLog — what a scan makes of garbage behind a header.

The scan keeps the longest run of leading rows that decode to events numbered from zero, and looks through the rows
behind it for a completed turn: one there proves that committed data was damaged, none means that a crash tore the
tail.  Decoding a row is guarded, looking at what it decoded to is not: a row that is the JSON text `null` has no
fields to look at, and the text of the gap message converts the row's own `seq` to a string.
-/
import CocoHarness.Persistence.CrashRecovery
import CocoHarness.Persistence.ScannerChunks

namespace CocoHarness.Persistence

open Lib Lib.SafeInteger SessionLog List Utf8 SessionLogScanner Option

/-! ## Rows -/

abbrev Row := Option (List Json)

structure Recovers (rows : List Row) (k : Nat) (events : List Json) : Prop where
  count : k ≤ rows.length
  decoded : ∃ rowEvents : List (List Json), rows.take k = rowEvents.map some ∧ events = rowEvents.flatten
  numbered : Numbered 0 events

structure LongestPrefix (rows : List Row) (k : Nat) (events : List Json) : Prop extends Recovers rows k events where
  longest : ∀ k' events', Recovers rows k' events' → k' ≤ k

variable {key : String}

theorem toString_ne_of_not_digit (i : Nat) (h : ∃ c ∈ key.toList, c.isDigit = false) : toString i ≠ key := by
  rintro rfl
  obtain ⟨c, hc, hdigit⟩ := h
  rw [Nat.toString_eq_ofList_toDigits, String.toList_ofList] at hc
  have := Nat.isDigit_of_mem_toDigits (by omega) (by omega) hc
  rw [this] at hdigit
  cases hdigit

variable {v : Json}

theorem jsGet_of_ne_null (h : v ≠ .null) (hlength : key ≠ "length")
    (hkey : ∃ c ∈ key.toList, c.isDigit = false) : jsGet (some v) key = .ok (v.get? key) := by
  cases v with
  | null => exact absurd rfl h
  | bool _ | num _ | obj fields => rfl
  | arr xs =>
    have hnone : (ownFields (some (.arr xs))).lookup key = none := by
      rw [lookup_eq_none_iff]
      intro field hfield
      obtain ⟨i, hi, rfl⟩ := mem_mapIdx.mp hfield
      exact bne_iff_ne.mpr (toString_ne_of_not_digit i hkey).symm
    rw [jsGet, if_neg hlength, hnone]
    rfl
  | str s =>
    have hnone : (ownFields (some (.str s))).lookup key = none := by
      rw [lookup_eq_none_iff]
      intro field hfield
      obtain ⟨i, hi, rfl⟩ := mem_mapIdx.mp hfield
      exact bne_iff_ne.mpr (toString_ne_of_not_digit i hkey).symm
    rw [jsGet, if_neg hlength, hnone]
    rfl

theorem jsGet_type (h : v ≠ .null) : jsGet (some v) "type" = .ok (v.get? "type") :=
  jsGet_of_ne_null h (by decide) ⟨'t', by decide, by decide⟩

theorem jsGet_seq (h : v ≠ .null) : jsGet (some v) "seq" = .ok (v.get? "seq") :=
  jsGet_of_ne_null h (by decide) ⟨'s', by decide, by decide⟩

variable {row : Row} {rows : List Row}

namespace SessionLogScanner

section

variable {s : SessionLogScanner} {issue : String} {line : List UInt8} {endByte : Nat}

end

end SessionLogScanner

/-! ## The longest prefix exists -/

variable {rows : List Row}

variable {k : Nat} {events : List Json}

theorem LongestPrefix.unique {k' : Nat} {events' : List Json}
    (h : LongestPrefix rows k events) (h' : LongestPrefix rows k' events') : k = k' ∧ events = events' := by
  obtain rfl : k = k' := Nat.le_antisymm (h'.longest k events h.toRecovers) (h.longest k' events' h'.toRecovers)
  obtain ⟨rowEvents, hrows, rfl⟩ := h.decoded
  obtain ⟨rowEvents', hrows', rfl⟩ := h'.decoded
  have hinj : Function.Injective (some : List Json → Row) := fun _ _ => some.inj
  obtain rfl := hinj.list_map (hrows.symm.trans hrows')
  exact ⟨rfl, rfl⟩

/-! ## The whole scan -/

variable {headerLine : List UInt8}

end CocoHarness.Persistence
