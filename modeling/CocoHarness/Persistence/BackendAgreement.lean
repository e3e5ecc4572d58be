/-
# CocoHarness.Persistence.BackendAgreement — the two backends read damage alike.

The line scanner decides as it goes: the first damaged record ends the preserved prefix, and a
completed turn behind it rejects the log.  The row scan looks for the last completed turn first.  On
corresponding records they keep the same events and reject the same logs
(`scanRows_agrees_scanLog`), because a packed record expands to consecutive seqs and so is continued
as a whole or not at all.
-/
import CocoHarness.Persistence.CrashRecovery
import CocoHarness.Persistence.SqliteSchema

namespace CocoHarness.Persistence

open Lib Lib.SafeInteger SessionLog List Utf8 SessionLogScanner Except SessionEvent

/-! ## A packed record expands to consecutive seqs -/

variable {tag : String}

theorem malformed_ne_ok {α : Type} {why : String} {a : α} : malformed tag why ≠ .ok a := nofun

variable {data : Json} {base : RunDataBase}

theorem validateRunData_members {key : String}
    {payload : List String} (h : validateRunData tag data key = .ok (base, payload)) :
    payload ≠ [] := by
  unfold validateRunData at h
  split at h
  · split at h
    · split at h
      · split at h
        · next hpayload =>
          rw [Option.filter_eq_some_iff] at hpayload
          split at h
          · simp only [ne_eq, ite_not] at h
            split at h
            · obtain ⟨-, rfl⟩ := Prod.mk.inj (ok.inj h)
              simpa using hpayload.2
            · exact absurd h malformed_ne_ok
          · exact absurd h malformed_ne_ok
        · exact absurd h malformed_ne_ok
      · exact absurd h malformed_ne_ok
    · exact absurd h malformed_ne_ok
  · exact absurd h malformed_ne_ok

theorem validateRowData_members {payload : RowPayload}
    (h : validateRowData tag data = .ok (base, payload)) : payload.members ≠ [] := by
  unfold validateRowData at h
  dsimp only at h
  split at h
  · split at h
    · exact absurd h malformed_ne_ok
    split at h
    · split at h
      · exact absurd h malformed_ne_ok
      · simp only [bind_eq_ok_iff, pure_eq_ok, ok.injEq, Prod.mk.injEq] at h
        obtain ⟨⟨base', args⟩, hrun, -, rfl⟩ := h
        exact validateRunData_members hrun
    · exact absurd h malformed_ne_ok
  · split at h
    · exact absurd h malformed_ne_ok
    · simp only [bind_eq_ok_iff, pure_eq_ok, ok.injEq, Prod.mk.injEq] at h
      obtain ⟨⟨base', texts⟩, hrun, -, rfl⟩ := h
      have hmembers := validateRunData_members hrun
      split <;> exact hmembers

variable {value : Json}

theorem validateRow_spec {row : ChunkRow} (h : validateRow value tag = .ok row) :
    0 ≤ row.seq0 ∧ row.payload.members ≠ [] ∧ IsSafe (fsub (fadd row.seq0 row.payload.members.length) 1) := by
  unfold validateRow at h
  split at h
  · exact absurd h malformed_ne_ok
  split at h
  · next seq0 hseq0 =>
    rw [Option.filter_eq_some_iff] at hseq0
    split at h
    · split at h
      · simp only [bind_eq_ok_iff] at h
        obtain ⟨⟨base, payload⟩, hdata, h⟩ := h
        split at h
        · exact absurd h malformed_ne_ok
        · next hsafe =>
          split at h
          · exact absurd h malformed_ne_ok
          · cases h
            exact ⟨by simpa using hseq0.2, validateRowData_members hdata, not_not.mp hsafe⟩
      · exact absurd h malformed_ne_ok
    · exact absurd h malformed_ne_ok
  · exact absurd h malformed_ne_ok

theorem expandMembers_seq {row : ChunkRow} {members : List String} :
    ∀ {k : Nat} {time : Int} {dt : List Int} {i : Nat} {d : DeltaEvent},
      (expandMembers row k time members dt)[i]? = some d →
      d.seq = fadd row.seq0 (k + i : Nat) ∧ i < members.length := by
  induction members with
  | nil => intro k time dt i d h; simp [expandMembers] at h
  | cons member members ih =>
    intro k time dt i d h
    cases i with
    | zero =>
      cases dt <;>
      · cases h
        exact ⟨rfl, by simp⟩
    | succ i =>
      cases dt with
      | nil => simp [expandMembers] at h
      | cons gap gaps =>
        obtain ⟨hseq, hlt⟩ := ih h
        exact ⟨by rw [hseq, show k + 1 + i = k + (i + 1) by omega], by simpa using hlt⟩

variable {values : List Json}

/-- The events of one stored record carry consecutive seqs, or there is only one value. -/
theorem decodeStorageRecord_seqs (h : decodeStorageRecord value = .ok values) : values ≠ [] ∧
      (values = [value] ∨ ∃ seq0 : Int, ∀ (i : Nat) v, values[i]? = some v →
        v.get? "seq" = some (intField (seq0 + i))) := by
  have hself : (pure [value] : Except JsError (List Json)) = .ok values → values ≠ [] ∧ values = [value] := by
    intro h
    cases h
    exact ⟨by simp, rfl⟩
  unfold decodeStorageRecord at h
  split at h
  · next tag _ =>
    split at h
    · simp only [bind_eq_ok_iff, pure_eq_ok, ok.injEq] at h
      obtain ⟨row, hrow, rfl⟩ := h
      obtain ⟨hpos, hne, hsafe⟩ := validateRow_spec hrow
      refine ⟨?_, .inr ⟨row.seq0, fun i v hv => ?_⟩⟩
      · obtain ⟨member, members, hmembers⟩ := exists_cons_of_ne_nil hne
        simp [expandRow, hmembers, expandMembers]
      · simp only [expandRow, getElem?_map, Option.map_eq_some_iff] at hv
        obtain ⟨_, ⟨d, hd, rfl⟩, rfl⟩ := hv
        obtain ⟨hseq, hlt⟩ := expandMembers_seq hd
        rw [toJson_seq]
        have hexact := fadd_of_isSafe_last hpos hsafe hlt
        rw [DeltaEvent.toEvent, hseq, Nat.zero_add, hexact]
    · obtain ⟨hne, rfl⟩ := hself h
      exact ⟨hne, .inl rfl⟩
  · obtain ⟨hne, rfl⟩ := hself h
    exact ⟨hne, .inl rfl⟩

/-! ## Corresponding records -/

def envelopeFields : List String := ["type", "seq", "time", "data", "sourceEventSeqs", "surfaceOp", "ignorable"]

/-- What a line decodes to is the event: an object with its envelope fields. -/
def ReadAs (e : SessionEvent) (v : Json) : Prop :=
  ∃ e' fields, e.Same e' ∧ v = .obj fields ∧ ∀ key ∈ envelopeFields, v.get? key = e'.toJson.get? key

variable {e : SessionEvent} {v : Json}

theorem ReadAs.of_storedAs (h : StoredAs e v) : ReadAs e v := by
  obtain ⟨e', rfl, hsame⟩ := h
  exact ⟨e', e'.fields, hsame, rfl, fun _ _ => rfl⟩

theorem ReadAs.get_seq (h : ReadAs e v) : v.get? "seq" = some (intField e.seq) := by
  obtain ⟨e', fields, hsame, -, hfields⟩ := h
  rw [hfields "seq" (by decide), toJson_seq, hsame.seq]

theorem ReadAs.jsGet_seq (h : ReadAs e v) : jsGet (some v) "seq" = .ok (some (intField e.seq)) := by
  have hseq := h.get_seq
  obtain ⟨_, fields, -, rfl, -⟩ := h
  exact congrArg ok hseq

theorem ReadAs.jsGet_type (h : ReadAs e v) : jsGet (some v) "type" = .ok (some (.str e.type)) := by
  obtain ⟨e', fields, hsame, rfl, hfields⟩ := h
  rw [hsame.type]
  exact congrArg ok (hfields "type" (by decide))

/-- A stored record: a line, and the rows of its events. An undecodable one is an undecodable line, and a row whose
JSON does not parse. -/
structure StoredRecord where
  line : List UInt8
  rows : List EventRow
  oneLine : Utf8.newline ∉ line
  corresponds :
    (SessionLogScanner.decodeLine line = none ∧ ∃ row, rows = [row] ∧ rowToEvent row = none) ∨
    ∃ values events, SessionLogScanner.decodeLine line = some values ∧
      rows.map rowToEvent = events.map some ∧ List.Forall₂ ReadAs events values

def EventsFrom (start : Int) (events : List SessionEvent) : Prop :=
  ∀ (i : Nat) e, events[i]? = some e → e.seq = start + i

variable {line : List UInt8}

theorem decodeStorageRecord_of_decodeLine (h : decodeLine line = some values) :
    ∃ value, decodeStorageRecord value = .ok values := by
  obtain ⟨value, -, hvalue⟩ := Option.bind_eq_some_iff.mp h
  refine ⟨value, ?_⟩
  cases hdecode : decodeStorageRecord value with
  | error e => simp [hdecode, Except.toOption] at hvalue
  | ok values' => simpa [hdecode, Except.toOption] using hvalue

variable {events : List SessionEvent}

/-- The events of a decodable record are numbered consecutively from the first of them. -/
theorem eventsFrom_of_decodeLine
    (h : decodeLine line = some values) (hstored : List.Forall₂ ReadAs events values) :
    ∃ first rest, events = first :: rest ∧ EventsFrom first.seq events := by
  obtain ⟨value, hdecode⟩ := decodeStorageRecord_of_decodeLine h
  obtain ⟨hne, hseqs⟩ := decodeStorageRecord_seqs hdecode
  cases hstored with
  | nil => exact absurd rfl hne
  | @cons first v rest values hfirst hrest =>
    refine ⟨first, rest, rfl, ?_⟩
    rcases hseqs with hsingle | ⟨seq0, hseqs⟩
    · cases hsingle
      obtain rfl := forall₂_nil_right_iff.mp hrest
      intro i e he
      cases i with
      | zero =>
        cases he
        simp
      | succ i => simp at he
    · have hseq : ∀ (i : Nat) e, (first :: rest)[i]? = some e → e.seq = seq0 + i := by
        intro i e he
        obtain ⟨hi, rfl⟩ := List.getElem?_eq_some_iff.mp he
        have hall : List.Forall₂ ReadAs (first :: rest) (v :: values) := .cons hfirst hrest
        have hi' : i < (v :: values).length := hall.length_eq ▸ hi
        have hv := hall.get hi hi'
        have hget := hseqs i _ (List.getElem?_eq_getElem hi')
        rw [get_eq_getElem, get_eq_getElem] at hv
        rw [hv.get_seq] at hget
        simpa [intField] using hget
      intro i e he
      have hzero := hseq 0 first rfl
      rw [hseq i e he, hzero]
      simp

theorem someTurnEnd_readAs (h : List.Forall₂ ReadAs events values) :
    someTurnEnd values = .ok (events.any (·.type = "turn/end")) := by
  induction h with
  | nil => rfl
  | @cons e v events values hv _ ih =>
    by_cases htype : e.type = "turn/end" <;>
      simp [someTurnEnd, hv.jsGet_type, htype, ih]

variable {rows : List EventRow}

theorem any_isTurnEndRow : ∀ {events : List SessionEvent}, rows.map rowToEvent = events.map some →
      rows.any isTurnEndRow = events.any (·.type = "turn/end") := by
  induction rows with
  | nil =>
    intro events h
    obtain rfl : events = [] := by simpa using h.symm
    rfl
  | cons row rows ih =>
    intro events h
    cases events with
    | nil => simp at h
    | cons e events =>
      obtain ⟨hrow, hrows⟩ := cons.inj h
      rw [any_cons, any_cons, ih hrows, isTurnEndRow, hrow, (rowToEvent_spec hrow).2]
      simp

theorem numbered_of_eventsFrom (h : List.Forall₂ ReadAs events values) {start : Nat}
    (hseq : EventsFrom start events) : Numbered start values := by
  intro i v hv
  obtain ⟨hi, rfl⟩ := List.getElem?_eq_some_iff.mp hv
  have hi' : i < events.length := h.length_eq ▸ hi
  have hread := h.get hi' hi
  have hnext := hseq i _ (List.getElem?_eq_getElem hi')
  rw [get_eq_getElem, get_eq_getElem] at hread
  rw [hread.jsGet_seq, hnext]
  push_cast
  rfl

/-! ## The row loop -/

/-- The index of the last completed turn, as seen from index `i` on. -/
def EndsAt (last : Int) (i : Nat) (rows : List EventRow) : Prop :=
  ∀ k ≤ rows.length, ((i + k : Nat) : Int) ≤ last ↔ (rows.drop k).any isTurnEndRow = true

theorem endsAt_lastTurnEnd (rows : List EventRow) : EndsAt (lastTurnEnd rows rows.length) 0 rows := by
  intro k hk
  have h := le_lastTurnEnd_iff rows k hk le_rfl
  rw [take_length] at h
  rwa [Nat.zero_add]

variable {last : Int} {i : Nat}

theorem EndsAt.here (h : EndsAt last i rows) : (i : Int) ≤ last ↔ rows.any isTurnEndRow = true := by
  simpa using h 0 (Nat.zero_le _)

variable {rest : List EventRow}

theorem EndsAt.append (h : EndsAt last i (rows ++ rest)) : EndsAt last (i + rows.length) rest := by
  intro k hk
  have hshift := h (rows.length + k) (by rw [length_append]; omega)
  rwa [drop_length_add_append, ← Nat.add_assoc] at hshift

theorem preserveLoop_append : ∀ {events : List SessionEvent} {i : Nat}, rows.map rowToEvent = events.map some →
      EventsFrom i events →
      preserveLoop 0 last i (rows ++ rest) = (events ++ ·) <$> preserveLoop 0 last (i + rows.length) rest := by
  induction rows with
  | nil =>
    intro events i h _
    obtain rfl : events = [] := by simpa using h.symm
    rw [nil_append, length_nil, Nat.add_zero]
    cases preserveLoop 0 last i rest <;> rfl
  | cons row rows ih =>
    intro events i h hseq
    cases events with
    | nil => simp at h
    | cons e events =>
      obtain ⟨hrow, hrows⟩ := cons.inj h
      have hhere : e.seq = 0 + i := by simpa using hseq 0 e rfl
      have hrest : EventsFrom (i + 1 : Nat) events := fun k e' he' => by
        rw [hseq (k + 1) e' he']
        push_cast
        omega
      rw [cons_append, preserveLoop, hrow]
      simp only [hhere, ne_eq, not_true_eq_false, if_false, ih hrows hrest, length_cons]
      rw [show i + (rows.length + 1) = i + 1 + rows.length by omega]
      cases preserveLoop 0 last (i + 1 + rows.length) rest <;> rfl

variable {row : EventRow}

/-- A row that does not continue the prefix ends it, and rejects the log behind which a turn completes. -/
theorem preserveLoop_hole (hends : EndsAt last i (row :: rest))
    (hhole : ∀ event, rowToEvent row = some event → event.seq ≠ i) :
    ∃ e, preserveLoop 0 last i (row :: rest) = if (row :: rest).any isTurnEndRow then .error e else .ok [] := by
  simp only [← hends.here]
  rw [preserveLoop]
  cases hrow : rowToEvent row with
  | none => exact ⟨_, rfl⟩
  | some event =>
    have hne : event.seq ≠ 0 + (i : Int) := by simpa using hhole event hrow
    simp only [if_pos hne]
    exact ⟨_, rfl⟩

/-! ## The scanner behind a hole -/

variable {s : SessionLogScanner}

theorem writeLines_cons (hfragments : s.fragments = []) (offset : Nat) (line : List UInt8) (rest : List (List UInt8)) :
    s.writeLines offset (line :: rest) = s.consumeEventLine line (offset + line.length + 1) >>= fun s' =>
        s'.writeLines (offset + line.length + 1) rest := by
  have hfresh : { s with fragments := [] } = s := by rw [← hfragments]
  rw [writeLines, hfragments, nil_append, hfresh]

variable {records : List StoredRecord}

theorem writeLines_issue : ∀ {s : SessionLogScanner} {offset : Nat} {issue : String}, s.issue = some issue →
      s.fragments = [] → ∃ s' : SessionLogScanner, s'.events = s.events ∧ s'.header = s.header ∧
        s.writeLines offset (records.map StoredRecord.line)
          = if (records.flatMap StoredRecord.rows).any isTurnEndRow then .error (.error issue)
            else .ok s' := by
  induction records with
  | nil => intro s offset issue _ _; exact ⟨s, rfl, rfl, rfl⟩
  | cons r records ih =>
    intro s offset issue hissue hfragments
    let s' : SessionLogScanner := { s with eventLine := s.eventLine + 1 }
    obtain ⟨s'', hevents, hheader, hrun⟩ := @ih s' (offset + r.line.length + 1) issue hissue hfragments
    refine ⟨s'', hevents, hheader, ?_⟩
    rw [map_cons, flatMap_cons, any_append, writeLines_cons hfragments]
    rcases r.corresponds with ⟨hline, row, hrows, hrow⟩ | ⟨values, events, hline, hrows, hstored⟩
    · have hstep : s.consumeEventLine r.line (offset + r.line.length + 1) = .ok s' := by
        rw [consumeEventLine, hline]
        simp [hissue, s']
      rw [hstep, ok_bind, hrun, hrows]
      simp [isTurnEndRow, hrow]
    · have hstep : s.consumeEventLine r.line (offset + r.line.length + 1)
          = if events.any (·.type = "turn/end") then .error (.error issue) else .ok s' := by
        simp only [consumeEventLine, hline, hissue, someTurnEnd_readAs hstored,
          ok_bind, throw_eq_error, pure_eq_ok, s']
      rw [hstep, any_isTurnEndRow hrows]
      cases events.any (·.type = "turn/end") with
      | true => rfl
      | false => simpa using hrun

/-! ## The two readings -/

theorem seqGap_of_ne {expected : Nat} {first : SessionEvent} (values : List Json) (hv : ReadAs first v)
    (hne : first.seq ≠ expected) :
    ∃ got, seqGap expected (v :: values) = .ok (some (expected, got)) ∧
      stringOf got = .ok (jsStringOf got) := by
  refine ⟨some (intField first.seq), ?_, rfl⟩
  have hfield : intField first.seq ≠ intField expected := by
    simpa [intField] using hne
  simp [seqGap, hv.jsGet_seq, hfield]

/-- The later scanner kept the preserved events behind those of the earlier one. -/
def KeptBehind (s s' : SessionLogScanner) (preserved : List SessionEvent) : Prop :=
  s'.header = s.header ∧ ∃ values, s'.events = s.events ++ values ∧ List.Forall₂ ReadAs preserved values

/-- A record that is a hole to both readings: both look for a completed turn at or behind it. -/
theorem agree_at_hole {r : StoredRecord} {offset : Nat} (issue : String) (hfragments : s.fragments = [])
    (hends : EndsAt last s.events.length ((r :: records).flatMap StoredRecord.rows))
    (hrows : r.rows = row :: rows)
    (hhole : ∀ event, rowToEvent row = some event → event.seq ≠ s.events.length)
    (hstep : s.consumeEventLine r.line (offset + r.line.length + 1)
      = if r.rows.any isTurnEndRow then .error (.error issue)
        else .ok { s with eventLine := s.eventLine + 1, issue := some issue }) :
    Agree (KeptBehind s) (s.writeLines offset ((r :: records).map StoredRecord.line))
      (preserveLoop 0 last s.events.length ((r :: records).flatMap StoredRecord.rows)) := by
  rw [flatMap_cons, hrows, cons_append] at hends ⊢
  obtain ⟨e, hloop⟩ := preserveLoop_hole hends hhole
  let broken : SessionLogScanner := { s with eventLine := s.eventLine + 1, issue := some issue }
  obtain ⟨s', hevents, hheader, hrun⟩ :=
    @writeLines_issue records broken (offset + r.line.length + 1) issue rfl hfragments
  rw [hloop, map_cons, writeLines_cons hfragments, hstep, ← cons_append, any_append, ← hrows]
  cases r.rows.any isTurnEndRow with
  | true => exact .error
  | false =>
    simp only [Bool.false_eq_true, if_false, ok_bind, Bool.false_or]
    rw [hrun]
    split
    · exact .error
    · exact .ok ⟨hheader, [], by rw [hevents, append_nil], .nil⟩

/-- **The lines and the rows of the same records**: both readings reject, or keep the same further events. -/
theorem writeLines_agrees_preserveLoop : ∀ {s : SessionLogScanner} {offset : Nat}, s.issue = none → s.fragments = [] →
      EndsAt last s.events.length (records.flatMap StoredRecord.rows) →
      Agree (KeptBehind s) (s.writeLines offset (records.map StoredRecord.line))
        (preserveLoop 0 last s.events.length (records.flatMap StoredRecord.rows)) := by
  induction records with
  | nil => intro s offset _ _ _; exact .ok ⟨rfl, [], by simp, .nil⟩
  | cons r records ih =>
    intro s offset hissue hfragments hends
    rcases r.corresponds with ⟨hline, row, hrows, hrow⟩ | ⟨values, events, hline, hrows, hstored⟩
    · refine agree_at_hole
        s!"corrupt session log: unparsable committed event at line {s.eventLine + 1}"
        hfragments hends hrows (by simp [hrow]) ?_
      rw [consumeEventLine, hline, hrows]
      simp [hissue, isTurnEndRow, hrow]
    · obtain ⟨first, rest, rfl, hfrom⟩ := eventsFrom_of_decodeLine hline hstored
      cases hstored with
      | @cons _ v _ values hv hvalues =>
      by_cases hnext : first.seq = s.events.length
      -- The record continues the prefix, and so do all of its events.
      · rw [hnext] at hfrom
        let next : SessionLogScanner := { s with
          eventLine := s.eventLine + 1, events := s.events ++ v :: values
          committedBytes := offset + r.line.length + 1 }
        have hstep : s.consumeEventLine r.line (offset + r.line.length + 1) = .ok next := by
          rw [consumeEventLine, hline]
          simp [hissue, seqGap_of_numbered (numbered_of_eventsFrom (.cons hv hvalues) hfrom), next]
        have hlength : next.events.length = s.events.length + r.rows.length := by
          have hrowsLength : r.rows.length = rest.length + 1 := by simpa using congrArg length hrows
          simp [next, hrowsLength, hvalues.length_eq]
        rw [flatMap_cons] at hends ⊢
        rw [map_cons, writeLines_cons hfragments, hstep, ok_bind, preserveLoop_append hrows hfrom, ← hlength]
        have hends' := hends.append
        rw [← hlength] at hends'
        have hrun := @ih next (offset + r.line.length + 1) hissue hfragments hends'
        have hmap := hrun.map (S := KeptBehind s) (f := id) (g := ((first :: rest) ++ ·)) ?_
        · simpa using hmap
        rintro s' preserved ⟨hheader, values', hevents, hpreserved⟩
        exact ⟨hheader, v :: values ++ values', by simp [hevents, next], rel_append (.cons hv hvalues) hpreserved⟩
      -- The record breaks the numbering at its first event.
      · obtain ⟨row, rows, hrowsCons⟩ : ∃ row rows, r.rows = row :: rows := by
          cases hr : r.rows with
          | nil => simp [hr] at hrows
          | cons row rows => exact ⟨row, rows, rfl⟩
        have hrow : rowToEvent row = some first := by
          rw [hrowsCons] at hrows
          exact (cons.inj hrows).1
        obtain ⟨got, hgap, htext⟩ := seqGap_of_ne values hv hnext
        refine agree_at_hole (s!"corrupt session log: seq gap in committed region at line {s.eventLine + 1} "
            ++ s!"(expected {s.events.length}, got {jsStringOf got})")
          hfragments hends hrowsCons
          (fun event hevent => by rwa [Option.some.inj (hevent.symm.trans hrow)]) ?_
        rw [any_isTurnEndRow hrows, consumeEventLine, hline]
        simp [hissue, hgap, htext, someTurnEnd_readAs (.cons hv hvalues)]

/-! ## Deleting the torn rows -/

/-- A session's rows by seq; they are distinct, and a session numbers its events from 0. -/
structure TableRows (rows : List EventRow) : Prop where
  ascending : rows.Pairwise (·.seq < ·.seq)
  natural : ∀ row ∈ rows, 0 ≤ row.seq

theorem TableRows.le_seq (h : TableRows rows) (hi : i < rows.length) : (i : Int) ≤ rows[i].seq := by
  induction i with
  | zero => simpa using h.natural _ (getElem_mem hi)
  | succ i ih =>
    have hbefore := ih (by omega)
    have hlt := pairwise_iff_getElem.mp h.ascending i (i + 1) (by omega) hi (by omega)
    push_cast
    omega

theorem preserveLoop_spec : ∀ {i : Nat} {preserved : List SessionEvent}, preserveLoop 0 last i rows = .ok preserved →
      preserved.length ≤ rows.length ∧
      (rows.take preserved.length).map rowToEvent = preserved.map some ∧ EventsFrom i preserved := by
  induction rows with
  | nil =>
    intro i preserved h
    cases h
    exact ⟨le_rfl, rfl, fun _ _ h => by cases h⟩
  | cons row rows ih =>
    intro i preserved h
    have hstop : ∀ {e : JsError}, (if (i : Int) ≤ last then error e else ok [])
        = .ok preserved → preserved = [] := by
      intro e h
      split at h
      · cases h
      · exact (ok.inj h).symm
    rw [preserveLoop] at h
    cases hrow : rowToEvent row with
    | none =>
      rw [hrow] at h
      obtain rfl := hstop h
      exact ⟨Nat.zero_le _, rfl, fun _ _ h => by cases h⟩
    | some event =>
      simp only [hrow, ne_eq, ite_not] at h
      split at h
      · next hseq =>
        simp only [bind_eq_ok_iff, pure_eq_ok, ok.injEq] at h
        obtain ⟨rest, hrest, rfl⟩ := h
        obtain ⟨hlength, hrows, hfrom⟩ := ih hrest
        refine ⟨by simpa using hlength, by simp [hrow, hrows], fun k e he => ?_⟩
        cases k with
        | zero =>
          cases he
          simpa using hseq
        | succ k =>
          rw [hfrom k e he]
          push_cast
          omega
      · obtain rfl := hstop h
        exact ⟨Nat.zero_le _, rfl, fun _ _ h => by cases h⟩

variable {kept : RowScan}

theorem scanRows_preserved (h : scanRows rows 0 = .ok kept) :
    (rows.take kept.preserved.length).map rowToEvent = kept.preserved.map some := by
  simp only [scanRows, bind_eq_ok_iff, pure_eq_ok, ok.injEq] at h
  obtain ⟨preserved, hloop, rfl⟩ := h
  exact (preserveLoop_spec hloop).2.1

theorem deleteTorn_scanRows (htable : TableRows rows) (h : scanRows rows 0 = .ok kept) :
    deleteTorn rows kept.tornFrom = rows.take kept.preserved.length := by
  simp only [scanRows, bind_eq_ok_iff, pure_eq_ok, ok.injEq] at h
  obtain ⟨preserved, hloop, rfl⟩ := h
  obtain ⟨hlength, hrows, hfrom⟩ := preserveLoop_spec hloop
  dsimp only
  split
  · rw [deleteTorn, zero_add]
    conv_lhs => rw [← take_append_drop preserved.length rows, filter_append]
    have hkept : (rows.take preserved.length).filter (·.seq < (preserved.length : Int))
        = rows.take preserved.length := by
      rw [filter_eq_self]
      intro row hmem
      obtain ⟨j, hj, rfl⟩ := getElem_of_mem hmem
      have hj' : j < preserved.length := by
        rw [length_take] at hj
        omega
      have hread : rowToEvent (rows.take preserved.length)[j] = some preserved[j] := by
        have hget := congrArg (·[j]?) hrows
        simpa only [getElem?_map, List.getElem?_eq_getElem hj, List.getElem?_eq_getElem hj',
          Option.map_some, Option.some.injEq] using hget
      have hseq := hfrom j _ (List.getElem?_eq_getElem hj')
      rw [(rowToEvent_spec hread).1] at hseq
      simp only [decide_eq_true_eq]
      omega
    have htorn : (rows.drop preserved.length).filter (·.seq < (preserved.length : Int)) = [] := by
      rw [filter_eq_nil_iff]
      intro row hmem
      obtain ⟨j, hj, rfl⟩ := getElem_of_mem hmem
      rw [length_drop] at hj
      have hle := htable.le_seq (i := preserved.length + j) (by omega)
      rw [getElem_drop]
      simp only [decide_eq_true_eq]
      omega
    rw [hkept, htorn, append_nil]
  · next hall => rw [deleteTorn, take_of_length_le (by omega)]

/-! ## The two scans -/

variable {headerLine : List UInt8} {header : Json}

theorem scanLog_lines (hline : newline ∉ headerLine)
    (hheader : parseHeaderRecord (headerLine ++ [newline]) = .ok header)
    {lines : List (List UInt8)} (hlines : ∀ line ∈ lines, newline ∉ line) :
    ∃ s : SessionLogScanner, s.header = header ∧ s.events = [] ∧ s.issue = none ∧ s.fragments = [] ∧
      scanLog (headerLine ++ newline :: Lines.join newline lines)
        = (fun s' => (finish s').2)
            <$> s.writeLines (headerLine ++ [newline]).length lines := by
  have hcut : Lines.cut newline (Lines.join newline lines) = (lines, []) := by
    simpa using Lines.cut_join hlines not_mem_nil
  refine ⟨{ header, committedBytes := (headerLine ++ [newline]).length
            inputBytes := (headerLine ++ [newline]).length
              + (Lines.join newline lines).length }, rfl, rfl, rfl, rfl, ?_⟩
  rw [scanLog, Lines.first?_line hline]
  simp only [new, hheader, ok_bind, pure_eq_ok, write, hcut,
    Bool.false_eq_true, if_false]
  cases writeLines _ _ lines <;> rfl

/-- **The backends agree on damage.**  The line scan and the row scan of the same records both reject the log, or keep
the same events; and of a table's rows, deleting those marked as torn leaves exactly the rows of the kept events. -/
theorem scanRows_agrees_scanLog (hline : Utf8.newline ∉ headerLine)
    (hheader : parseHeaderRecord (headerLine ++ [Utf8.newline]) = .ok header)
    (records : List StoredRecord) :
    Agree (fun (scan : SessionLogScan) (kept : RowScan) =>
        scan.header = header ∧ List.Forall₂ ReadAs kept.preserved scan.events ∧
        ((records.flatMap StoredRecord.rows).take kept.preserved.length).map rowToEvent = kept.preserved.map some ∧
        (TableRows (records.flatMap StoredRecord.rows) → deleteTorn (records.flatMap StoredRecord.rows) kept.tornFrom
            = (records.flatMap StoredRecord.rows).take kept.preserved.length))
      (scanLog (headerLine ++ Utf8.newline :: Lines.join Utf8.newline (records.map StoredRecord.line)))
      (scanRows (records.flatMap StoredRecord.rows) 0) := by
  have hlines : ∀ line ∈ records.map StoredRecord.line, Utf8.newline ∉ line := by
    intro line hmem
    obtain ⟨r, -, rfl⟩ := mem_map.mp hmem
    exact r.oneLine
  obtain ⟨s, hs, hevents, hissue, hfragments, hscan⟩ := scanLog_lines hline hheader hlines
  generalize hrows : records.flatMap StoredRecord.rows = rows
  have hends : EndsAt (lastTurnEnd rows rows.length) s.events.length
      (records.flatMap StoredRecord.rows) := by
    rw [hevents, hrows]
    exact endsAt_lastTurnEnd _
  have hagree := @writeLines_agrees_preserveLoop _ records s (headerLine ++ [Utf8.newline]).length
    hissue hfragments hends
  rw [hevents, length_nil, hrows] at hagree
  have hread : Agree (fun (scan : SessionLogScan) (kept : RowScan) =>
      scan.header = header ∧ List.Forall₂ ReadAs kept.preserved scan.events)
      (scanLog (headerLine ++ Utf8.newline ::
        Lines.join Utf8.newline (records.map StoredRecord.line))) (scanRows rows 0) := by
    rw [hscan]
    refine hagree.map fun s' preserved hkept => ?_
    obtain ⟨hheader', values, hvalues, hpreserved⟩ := hkept
    rw [hevents, nil_append] at hvalues
    exact ⟨hheader'.trans hs, by simpa [SessionLogScanner.finish, hvalues] using hpreserved⟩
  refine hread.imp fun scan kept _ hkept hsame => ?_
  exact ⟨hsame.1, hsame.2, scanRows_preserved hkept, fun htable => deleteTorn_scanRows htable hkept⟩

/-- What the two backends write for the events of one storage record. -/
def StoredRecord.written (r : StorageRecord) (events : List SessionEvent) (hwf : r.toJson.WF)
    (hrestores : Restores [r] events) (hevents : ∀ e ∈ events, e.WF)
    (hsources : ∀ e ∈ events, ∀ v, e.sourceEventSeqs = some v → truthy v = true) : StoredRecord where
  line := recordLine r
  rows := events.map insertedRow
  oneLine := Utf8.newline_notMem_encode_text _
  corresponds := by
    obtain ⟨values, hdecode, hstored⟩ := hrestores
    simp only [map_cons, map_nil, decodeRecords, bind_eq_ok_iff, pure_eq_ok, Except.ok.injEq] at hdecode
    obtain ⟨values', hdecode, _, rfl, rfl⟩ := hdecode
    rw [append_nil] at hstored
    refine .inr ⟨values', events, decodeLine_recordLine hwf hdecode, ?_, hstored.imp fun _ _ => ReadAs.of_storedAs⟩
    rw [map_map]
    exact map_congr_left fun e he => rowToEvent_insertedRow (hevents e he) (hsources e he)

def tornRecord : StoredRecord where
  line := Utf8.encode ['\x7b']
  rows := [{ seq := 3, type := "turn/end", time := 0, data := "\x7b", sourceEventSeqs := none
             surfaceOp := none, ignorable := none }]
  oneLine := by decide
  corresponds := .inl ⟨by rw [SessionLogScanner.decodeLine, Utf8.decode_encode]; rfl, _, rfl, rfl⟩

def sampleRun : List SessionEvent := [textChunk 0 5 "a", textChunk 1 5 "b", textChunk 2 4 "c"]

def sampleRecord : StoredRecord :=
  .written (.row { turn := .int 1, step := .int 1, index := .int 0, dt := [0, -1], seq0 := 0
                   time0 := 5, payload := .text ["a", "b", "c"] }) sampleRun (row_toJson_wf _)
    (packChunkRuns_restores (by decide : ∀ e ∈ sampleRun, ¬ IsRowTag e.type))
    (by
      intro e he
      simp only [sampleRun, mem_cons, not_mem_nil, or_false] at he
      rcases he with rfl | rfl | rfl <;> exact toEvent_wf _)
    (by decide)

theorem sampleRows_table : TableRows ([sampleRecord, tornRecord].flatMap StoredRecord.rows) where
  ascending := by decide
  natural := by decide

/-- A packed run and a torn `turn/end` behind it: both backends keep the run. -/
theorem scanRows_agrees_scanLog_sample : ∃ scan kept,
    scanLog (headerRecord { id := "s", createdAt := ⟨0, by decide⟩ } ++ Lines.join Utf8.newline
      ([sampleRecord, tornRecord].map StoredRecord.line)) = .ok scan ∧
    scanRows ([sampleRecord, tornRecord].flatMap StoredRecord.rows) 0 = .ok kept ∧
    kept.preserved = sampleRun ∧ List.Forall₂ ReadAs kept.preserved scan.events ∧
    deleteTorn ([sampleRecord, tornRecord].flatMap StoredRecord.rows) kept.tornFrom = sampleRun.map insertedRow := by
  have hkept : scanRows ([sampleRecord, tornRecord].flatMap StoredRecord.rows) 0
      = .ok { preserved := sampleRun, tornFrom := some 3 } := by decide +kernel
  have hagree := scanRows_agrees_scanLog
    (Utf8.newline_notMem_encode_text (toHeaderLine { id := "s", createdAt := ⟨0, by decide⟩ }))
    (headerRecord_eq _ ▸ parseHeaderRecord_headerRecord _) [sampleRecord, tornRecord]
  rw [headerRecord_eq, append_assoc, singleton_append]
  generalize scanLog _ = scanned at hagree ⊢
  rw [hkept] at hagree ⊢
  cases hagree with
  | @ok scan _ hsame =>
    obtain ⟨-, hevents, -, hdelete⟩ := hsame
    exact ⟨scan, _, rfl, rfl, rfl, hevents, hdelete sampleRows_table⟩

end CocoHarness.Persistence
