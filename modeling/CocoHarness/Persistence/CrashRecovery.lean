/-
# CocoHarness.Persistence.CrashRecovery — what a scan recovers from a cut log.

A crash leaves a byte prefix of the log file.  Whatever byte it ends at, the complete lines of the prefix are the
record lines that lie wholly inside it: the newline byte occurs nowhere else, neither in a record nor inside a
character.
-/
import CocoHarness.Persistence.JsonlFormat
import CocoHarness.SessionLog.ChunkRowsRoundTrip

namespace CocoHarness.Persistence

open Lib Lib.SafeInteger SessionLog List Utf8 Lines SessionLogScanner SessionEvent

/-! ## Records and their lines -/

def recordLine (r : StorageRecord) : List UInt8 := Utf8.encode (JsonText.text r.toJson)

def recordLines (records : List StorageRecord) : List UInt8 := Lines.join Utf8.newline (records.map recordLine)

def logRecords (batches : List (Bool × List SessionEvent)) : List StorageRecord :=
  batches.flatMap fun b => storageRecords b.1 b.2

def loggedEvents (batches : List (Bool × List SessionEvent)) : List SessionEvent := batches.flatMap Prod.snd

/-- What the coordinator hands over: non-empty batches of lossless events, numbered from 0, none of a storage row's
type. -/
structure Logged (batches : List (Bool × List SessionEvent)) : Prop where
  nonempty : ∀ b ∈ batches, b.2 ≠ []
  numbered : ∀ (i : Nat) e, (loggedEvents batches)[i]? = some e → e.seq = i
  wf : ∀ e ∈ loggedEvents batches, e.WF
  untagged : ∀ e ∈ loggedEvents batches, ¬ IsRowTag e.type

theorem newline_notMem_recordLine (records : List StorageRecord) :
    ∀ line ∈ records.map recordLine, newline ∉ line := by
  intro line hline
  obtain ⟨r, -, rfl⟩ := mem_map.mp hline
  exact newline_notMem_encode_text _

variable {packChunks : Bool} {events : List SessionEvent}

theorem encodeEventBatch_eq (h : storageRecords packChunks events ≠ []) :
    encodeEventBatch packChunks events = recordLines (storageRecords packChunks events) := by
  rw [encodeEventBatch, eventLines, intercalate_append_self _ (by simpa using h)]
  generalize storageRecords packChunks events = records
  induction records with
  | nil => rfl
  | cons r rs ih =>
    rw [map_cons, flatMap_cons, encode_append, encode_append, encode_newline, ih]
    simp [recordLines, recordLine]

theorem storageRecords_restores (packChunks : Bool) (h : ∀ e ∈ events, ¬ IsRowTag e.type) :
    Restores (storageRecords packChunks events) events := by
  cases packChunks with
  | true => exact packChunkRuns_restores h
  | false => exact Restores.events h

theorem storageRecords_ne_nil (hne : events ≠ []) (h : ∀ e ∈ events, ¬ IsRowTag e.type) :
    storageRecords packChunks events ≠ [] := by
  intro hnil
  obtain ⟨values, hvalues, hstored⟩ := storageRecords_restores packChunks h
  rw [hnil] at hvalues
  cases hvalues
  exact hne (forall₂_nil_right_iff.mp hstored)

/-! ## Records are well-formed JSON -/

theorem row_toJson_wf (row : ChunkRow) : row.toJson.WF := by
  have harray : ∀ xs : List Int, (intArray xs).WF := fun xs => by
    simp [intArray, intField]
  have hstrings : ∀ xs : List String, (strArray xs).WF := fun xs => by simp [strArray]
  have hdata : row.dataJson.WF := by
    cases hpayload : row.payload with
    | toolCall id name args => cases name <;> simp [ChunkRow.dataJson, hpayload, Json.keys, harray, hstrings]
    | text texts | reasoning texts => simp [ChunkRow.dataJson, hpayload, Json.keys, harray, hstrings]
  simp [ChunkRow.toJson, Json.keys, hdata, intField]

structure ReadOnly (s : PackState) (read : List SessionEvent) : Prop where
  out : ∀ e, .event e ∈ s.out → e ∈ read
  run : ∀ m ∈ s.run, m.1 ∈ read

variable {s : PackState} {read : List SessionEvent}

theorem ReadOnly.flush (h : ReadOnly s read) : ReadOnly s.flush read := by
  refine ⟨fun e he => ?_, by simp [PackState.flush]⟩
  rw [PackState.flush, mem_append] at he
  rcases he with he | he
  · exact h.out e he
  · cases hrun : s.run with
    | nil => simp [hrun] at he
    | cons first rest =>
      simp only [hrun] at he
      split at he
      · simp at he
      · obtain ⟨m, hm, heq⟩ := mem_map.mp he
        exact StorageRecord.event.inj heq ▸ h.run m (hrun ▸ hm)

theorem ReadOnly.step (h : ReadOnly s read) (e : SessionEvent) : ReadOnly (s.step e) (read ++ [e]) := by
  have hflush : ∀ e', .event e' ∈ s.flush.out → e' ∈ read ++ [e] := fun e' he' =>
    mem_append_left _ (h.flush.out e' he')
  have hfresh : ∀ d, ReadOnly { out := s.flush.out, run := [(e, d)] } (read ++ [e]) := fun d => ⟨hflush, by simp⟩
  unfold PackState.step
  split
  · refine ⟨fun e' he' => ?_, by simp⟩
    rcases mem_append.mp he' with he' | he'
    · exact hflush e' he'
    · simpa using .inr (StorageRecord.event.inj (mem_singleton.mp he'))
  · split
    · split
      · refine ⟨fun e' he' => mem_append_left _ (h.out e' he'), fun m hm => ?_⟩
        rcases mem_append.mp hm with hm | hm
        · exact mem_append_left _ (h.run m hm)
        · simp [mem_singleton.mp hm]
      · exact hfresh _
    · exact hfresh _

theorem event_mem_packChunkRuns {e : SessionEvent} (h : .event e ∈ packChunkRuns events) : e ∈ events := by
  have hloop : ReadOnly (events.foldl PackState.step {}) events := by
    clear h
    induction events using List.reverseRecOn with
    | nil => exact ⟨by simp, by simp⟩
    | append_singleton events e ih =>
      rw [foldl_append]
      exact ih.step e
  exact hloop.flush.out e h

theorem storageRecords_wf (h : ∀ e ∈ events, e.WF) : ∀ r ∈ storageRecords packChunks events, r.toJson.WF := by
  intro r hr
  cases r with
  | row row => exact row_toJson_wf row
  | event e =>
    refine toJson_wf (h e ?_)
    cases packChunks with
    | true => exact event_mem_packChunkRuns hr
    | false =>
      obtain ⟨e', he', heq⟩ := mem_map.mp hr
      exact StorageRecord.event.inj heq ▸ he'

/-! ## Numbered values -/

def Numbered (start : Nat) (values : List Json) : Prop :=
  ∀ (i : Nat) v, values[i]? = some v → jsGet (some v) "seq" = .ok (some (SessionEvent.intField (start + i : Nat)))

variable {values : List Json} {start : Nat}

theorem numbered_cons {v : Json} : Numbered start (v :: values) ↔
      jsGet (some v) "seq" = .ok (some (intField start)) ∧ Numbered (start + 1) values := by
  have hshift : ∀ i, start + 1 + i = start + (i + 1) := fun i => by omega
  constructor
  · intro h
    exact ⟨h 0 v rfl, fun i w hw => by rw [hshift]; exact h (i + 1) w hw⟩
  · rintro ⟨hv, hvalues⟩ i w hw
    cases i with
    | zero =>
      cases hw
      exact hv
    | succ i =>
      rw [← hshift]
      exact hvalues i w hw

variable {xs ys : List Json}

theorem numbered_append : Numbered start (xs ++ ys) ↔ Numbered start xs ∧ Numbered (start + xs.length) ys := by
  induction xs generalizing start with
  | nil => simp [Numbered]
  | cons x xs ih =>
    rw [cons_append, numbered_cons, numbered_cons, ih, length_cons, and_assoc,
      show start + 1 + xs.length = start + (xs.length + 1) by omega]

theorem jsGet_toJson (e : SessionEvent) (key : String) : jsGet (some e.toJson) key = .ok (e.toJson.get? key) := rfl

theorem numbered_of_storedAs (h : List.Forall₂ StoredAs events values) :
    ∀ {start : Nat}, (∀ (i : Nat) e, events[i]? = some e → e.seq = (start + i : Nat)) → Numbered start values := by
  induction h with
  | nil => intro start _; simp [Numbered]
  | @cons e v events values hv _ ih =>
    intro start hseq
    obtain ⟨e', rfl, hsame⟩ := hv
    refine numbered_cons.mpr ⟨?_, ih fun i e he => ?_⟩
    · rw [jsGet_toJson, toJson_seq, ← hsame.seq, hseq 0 e rfl]
      rfl
    · rw [show start + 1 + i = start + (i + 1) by omega]
      exact hseq (i + 1) e he

/-! ## The scanner over record lines -/

theorem seqGap_of_numbered :
    ∀ {start : Nat}, Numbered start values → seqGap start values = .ok none := by
  induction values with
  | nil => intro start _; rfl
  | cons v values ih =>
    intro start h
    obtain ⟨hv, hvalues⟩ := numbered_cons.mp h
    simp [seqGap, hv, ih hvalues]

variable {r : StorageRecord}

theorem decodeLine_recordLine (hwf : r.toJson.WF) (h : decodeStorageRecord r.toJson = .ok values) :
    decodeLine (recordLine r) = some values := by
  simp [decodeLine, recordLine, decode_encode, JsonText.parse_text hwf, h, Except.toOption]

theorem consumeEventLine_recordLine {s : SessionLogScanner} (hissue : s.issue = none) (hwf : r.toJson.WF) (h : decodeStorageRecord r.toJson = .ok values)
    (hnumbered : Numbered s.events.length values) (endByte : Nat) :
    s.consumeEventLine (recordLine r) endByte = .ok { s with
      eventLine := s.eventLine + 1, events := s.events ++ values, committedBytes := endByte } := by
  rw [consumeEventLine]
  simp [decodeLine_recordLine hwf h, hissue, seqGap_of_numbered hnumbered]

theorem recordLines_cons (r : StorageRecord) (records : List StorageRecord) :
    (recordLines (r :: records)).length = (recordLine r).length + 1 + (recordLines records).length := by
  rw [recordLines, map_cons, join_cons, length_append, length_cons, recordLines]
  omega

theorem recordLines_append (xs ys : List StorageRecord) :
    recordLines (xs ++ ys) = recordLines xs ++ recordLines ys := by
  rw [recordLines, map_append, join_append]
  rfl

variable {records : List StorageRecord}

/-- **A run of the scanner.** Lines that decode to the next events extend the prefix to the last
line's end. -/
theorem writeLines_recordLines (hwf : ∀ r ∈ records, r.toJson.WF) :
    ∀ (s : SessionLogScanner) {values : List Json}, s.issue = none → s.fragments = [] →
      decodeRecords (records.map StorageRecord.toJson) = .ok values →
      Numbered s.events.length values →
      s.writeLines s.committedBytes (records.map recordLine) = .ok { s with
        eventLine := s.eventLine + records.length, events := s.events ++ values,
        committedBytes := s.committedBytes + (recordLines records).length } := by
  induction records with
  | nil =>
    intro s values _ _ hdecode _
    cases hdecode
    simp [writeLines, recordLines]
  | cons r records ih =>
    intro s values hissue hfragments hdecode hnumbered
    simp only [map_cons, decodeRecords, bind_eq_ok_iff, pure_eq_ok, Except.ok.injEq] at hdecode
    obtain ⟨events, hevents, rest, hrest, rfl⟩ := hdecode
    obtain ⟨hhead, htail⟩ := numbered_append.mp hnumbered
    let next : SessionLogScanner := { s with
      eventLine := s.eventLine + 1, events := s.events ++ events,
      committedBytes := s.committedBytes + (recordLine r).length + 1 }
    have hfresh : { s with fragments := [] } = s := by rw [← hfragments]
    have hstep : s.consumeEventLine (recordLine r) next.committedBytes = .ok next :=
      consumeEventLine_recordLine hissue (hwf r (by simp)) hevents hhead _
    have hrun := ih (fun r' hr' => hwf r' (by simp [hr'])) next hissue hfragments hrest
      (by simpa [next] using htail)
    rw [map_cons, writeLines, hfragments, nil_append, hfresh]
    refine (congrArg (· >>= _) hstep).trans (hrun.trans ?_)
    simp only [next, recordLines_cons, length_cons, append_assoc]
    congr 2 <;> omega

theorem scanLog_recordLines (header : SessionHeader) (hwf : ∀ r ∈ records, r.toJson.WF)
    (hdecode : decodeRecords (records.map StorageRecord.toJson) = .ok values)
    (hnumbered : Numbered 0 values) {rest : List UInt8} (hrest : newline ∉ rest) :
    scanLog (headerRecord header ++ recordLines records ++ rest) = .ok {
      header := header.stored, events := values
      committedBytes := (headerRecord header ++ recordLines records).length } := by
  have hline := newline_notMem_encode_text (toHeaderLine header)
  have hfirst : first? newline (headerRecord header ++ recordLines records ++ rest)
      = some (encode (JsonText.text (toHeaderLine header)), recordLines records ++ rest) := by
    rw [headerRecord_eq, append_assoc, append_assoc]
    exact first?_line hline
  have hcut : Lines.cut newline (recordLines records ++ rest)
      = (records.map recordLine, rest) := cut_join (newline_notMem_recordLine records) hrest
  have hnew : new (headerRecord header) = .ok {
      header := header.stored, inputBytes := (headerRecord header).length
      committedBytes := (headerRecord header).length } := by
    simp [new, parseHeaderRecord_headerRecord]
  have hrun := writeLines_recordLines hwf {
    header := header.stored
    inputBytes := (headerRecord header).length + (recordLines records ++ rest).length
    committedBytes := (headerRecord header).length } rfl rfl hdecode hnumbered
  dsimp only at hrun
  rw [scanLog, hfirst]
  simp only [← headerRecord_eq, hnew, ok_bind, write, hcut, hrun,
    Bool.false_eq_true, if_false, pure_eq_ok, finish, nil_append]
  rw [length_append]

/-! ## A whole log -/

variable {batches : List (Bool × List SessionEvent)}

theorem logFile_eq (header : SessionHeader) (hnonempty : ∀ b ∈ batches, b.2 ≠ [])
    (huntagged : ∀ e ∈ loggedEvents batches, ¬ IsRowTag e.type) :
    logFile header batches = headerRecord header ++ recordLines (logRecords batches) := by
  rw [logFile]
  congr 1
  induction batches with
  | nil => rfl
  | cons b batches ih =>
    have hb : storageRecords b.1 b.2 ≠ [] := storageRecords_ne_nil (hnonempty b (by simp))
      fun e he => huntagged e (mem_flatMap.mpr ⟨b, by simp, he⟩)
    rw [flatMap_cons, encodeEventBatch_eq hb, ih (fun b' hb' => hnonempty b' (by simp [hb']))
      fun e he => huntagged e (by
        obtain ⟨b', hb', hmem⟩ := mem_flatMap.mp he
        exact mem_flatMap.mpr ⟨b', by simp [hb'], hmem⟩)]
    exact (recordLines_append _ _).symm

theorem logRecords_restores (h : ∀ e ∈ loggedEvents batches, ¬ IsRowTag e.type) :
    Restores (logRecords batches) (loggedEvents batches) := by
  induction batches with
  | nil => exact Restores.nil
  | cons b batches ih =>
    rw [logRecords, loggedEvents, flatMap_cons, flatMap_cons]
    refine (storageRecords_restores b.1 fun e he => h e ?_).append (ih fun e he => h e ?_)
    · exact mem_flatMap.mpr ⟨b, by simp, he⟩
    · rw [loggedEvents, flatMap_cons]
      exact mem_append_right _ he

theorem logRecords_wf (h : ∀ e ∈ loggedEvents batches, e.WF) : ∀ r ∈ logRecords batches, r.toJson.WF := by
  intro r hr
  obtain ⟨b, hb, hr⟩ := mem_flatMap.mp hr
  exact storageRecords_wf (fun e he => h e (mem_flatMap.mpr ⟨b, hb, he⟩)) r hr

theorem decodeRecords_append_eq_ok (h : decodeRecords (xs ++ ys) = .ok values) : ∃ as bs,
      decodeRecords xs = .ok as ∧ decodeRecords ys = .ok bs ∧ values = as ++ bs := by
  induction xs generalizing values with
  | nil => exact ⟨[], values, rfl, h, rfl⟩
  | cons x xs ih =>
    simp only [cons_append, decodeRecords, bind_eq_ok_iff, pure_eq_ok, Except.ok.injEq] at h
    obtain ⟨events, hevents, rest, hrest, rfl⟩ := h
    obtain ⟨as, bs, has, hbs, rfl⟩ := ih hrest
    exact ⟨events ++ as, bs, by simp [decodeRecords, hevents, has], hbs, by simp⟩

/-! ## Crash recovery -/

/-- The first `k` record lines are the ones that lie wholly within the first `n` bytes of a log. -/
structure WhollyInside (header : SessionHeader) (records : List StorageRecord) (n k : Nat) : Prop where
  count : k ≤ records.length
  inside : (headerRecord header ++ recordLines (records.take k)).length ≤ n
  next : k < records.length → n < (headerRecord header ++ recordLines (records.take (k + 1))).length

variable {n : Nat}

theorem take_log (header : SessionHeader) (records : List StorageRecord)
    (hn : (headerRecord header).length ≤ n) : ∃ k rest, WhollyInside header records n k ∧ newline ∉ rest ∧
      (headerRecord header ++ recordLines records).take n
        = headerRecord header ++ recordLines (records.take k) ++ rest := by
  let m := n - (headerRecord header).length
  let lines := within m (records.map recordLine)
  have hlines : lines = (records.take lines.length).map recordLine := by
    rw [map_take]
    exact prefix_iff_eq_take.mp (within_isPrefix m _)
  have hwhole : Lines.join newline lines = recordLines (records.take lines.length) := by
    rw [recordLines, ← hlines]
  obtain ⟨rest, htake, hrest⟩ := take_join m (newline_notMem_recordLine records)
  refine ⟨lines.length, rest, ⟨?_, ?_, fun hlt => ?_⟩, hrest, ?_⟩
  · simpa using (within_isPrefix m (records.map recordLine)).length_le
  · have hle : (Lines.join newline lines).length ≤ m := join_within_length_le m _
    rw [length_append, ← hwhole]
    omega
  · have hnext : m < (Lines.join newline ((records.map recordLine).take (lines.length + 1))).length :=
      lt_join_take_succ m (by simpa using hlt)
    rw [length_append, recordLines, map_take]
    omega
  · rw [take_append, take_of_length_le hn, append_assoc, ← hwhole]
    exact congrArg (headerRecord header ++ ·) htake

/-- **Crash recovery.**  Of a log cut at any byte behind its header line, the scan keeps exactly the events of the
record lines wholly inside the prefix and reports the end of the last; and the log truncated there, with the remaining
events written behind it in any batches, scans to all the events. -/
theorem scanLog_recovers (header : SessionHeader)
    (h : Logged batches) (hn : (headerRecord header).length ≤ n) :
    ∃ k scan, WhollyInside header (logRecords batches) n k ∧
      scanLog ((logFile header batches).take n) = .ok scan ∧ scan.header = header.stored ∧
      decodeRecords (((logRecords batches).take k).map StorageRecord.toJson) = .ok scan.events ∧
      List.Forall₂ StoredAs ((loggedEvents batches).take scan.events.length) scan.events ∧
      scan.committedBytes
        = (headerRecord header ++ recordLines ((logRecords batches).take k)).length ∧
      ∀ rest : List (Bool × List SessionEvent), (∀ b ∈ rest, b.2 ≠ []) →
        loggedEvents rest = (loggedEvents batches).drop scan.events.length →
        ∃ scan', scanLog (((logFile header batches).take n).take scan.committedBytes
            ++ rest.flatMap fun b => encodeEventBatch b.1 b.2) = .ok scan' ∧
          scan'.header = header.stored ∧
          List.Forall₂ StoredAs (loggedEvents batches) scan'.events := by
  obtain ⟨k, fragment, hinside, hfragment, htake⟩ := take_log header (logRecords batches) hn
  obtain ⟨values, hdecode, hstored⟩ := logRecords_restores h.untagged
  have hwf := logRecords_wf h.wf
  have hnumbered : ∀ {values}, List.Forall₂ StoredAs (loggedEvents batches) values →
      Numbered 0 values := fun hstored =>
    numbered_of_storedAs hstored fun i e he => by simpa using h.numbered i e he
  -- The records decode to a prefix of what the whole log decodes to.
  rw [← take_append_drop k (logRecords batches), map_append] at hdecode
  obtain ⟨kept, lost, hkept, -, rfl⟩ := decodeRecords_append_eq_ok hdecode
  have hkeptStored : List.Forall₂ StoredAs ((loggedEvents batches).take kept.length) kept := by
    simpa using forall₂_take kept.length hstored
  have hwfKept : ∀ r ∈ (logRecords batches).take k, r.toJson.WF := fun r hr => hwf r (mem_of_mem_take hr)
  refine ⟨k, { header := header.stored, events := kept
               committedBytes :=
                (headerRecord header ++ recordLines ((logRecords batches).take k)).length },
    hinside, ?_, rfl, hkept, hkeptStored, rfl, fun rest hnonempty hrest => ?_⟩
  · rw [logFile_eq header h.nonempty h.untagged, htake]
    exact scanLog_recordLines header hwfKept hkept (numbered_append.mp (hnumbered hstored)).1 hfragment
  · have hmem : ∀ e ∈ loggedEvents rest, e ∈ loggedEvents batches := fun e he => mem_of_mem_drop (hrest ▸ he)
    have huntagged : ∀ e ∈ loggedEvents rest, ¬ IsRowTag e.type := fun e he => h.untagged e (hmem e he)
    obtain ⟨more, hmore, hmoreStored⟩ := logRecords_restores huntagged
    have hall : List.Forall₂ StoredAs (loggedEvents batches) (kept ++ more) := by
      rw [← take_append_drop kept.length (loggedEvents batches), ← hrest]
      exact rel_append hkeptStored hmoreStored
    have hdecodeAll : decodeRecords
        (((logRecords batches).take k ++ logRecords rest).map StorageRecord.toJson)
        = .ok (kept ++ more) := by
      rw [map_append]
      exact decodeRecords_append hkept hmore
    have hfile : ((logFile header batches).take n).take
        (headerRecord header ++ recordLines ((logRecords batches).take k)).length
        ++ rest.flatMap (fun b => encodeEventBatch b.1 b.2)
        = headerRecord header ++ recordLines ((logRecords batches).take k ++ logRecords rest)
          ++ [] := by
      have hbatches := logFile_eq header hnonempty huntagged
      rw [logFile, append_cancel_left_eq] at hbatches
      rw [logFile_eq header h.nonempty h.untagged, htake, take_left' rfl, hbatches,
        recordLines_append, append_nil, append_assoc]
    have hwfAll : ∀ r ∈ (logRecords batches).take k ++ logRecords rest, r.toJson.WF := by
      intro r hr
      rcases mem_append.mp hr with hr | hr
      · exact hwfKept r hr
      · exact logRecords_wf (fun e he => h.wf e (hmem e he)) r hr
    have hscan := scanLog_recordLines header hwfAll hdecodeAll (hnumbered hall) not_mem_nil
    rw [← hfile] at hscan
    exact ⟨_, hscan, rfl, hall⟩

/-- A packed batch and a batch of one event, with a text of two-byte characters. -/
def sampleBatches : List (Bool × List SessionEvent) :=
  [(true, [textChunk 0 5 "é", textChunk 1 5 "é", textChunk 2 4 "é"]), (false, [textChunk 3 9 "é"])]

theorem toEvent_wf (d : DeltaEvent) : d.toEvent.WF := by
  obtain ⟨seq, time, turn, step, index, chunk⟩ := d
  refine ⟨?_, nofun, nofun⟩
  cases chunk with
  | toolCallDelta id name _ => cases name <;> simp [DeltaEvent.toEvent, DeltaChunk.toJson, Json.keys]
  | _ => simp [DeltaEvent.toEvent, DeltaChunk.toJson, Json.keys]

theorem sampleBatches_logged : Logged sampleBatches where
  nonempty := by simp [sampleBatches]
  numbered := by
    intro i e he
    rcases i with _ | _ | _ | _ | i
    all_goals first | (obtain rfl := Option.some.inj he; rfl) | cases he
  wf := by
    intro e he
    simp only [loggedEvents, sampleBatches, flatMap_cons, flatMap_nil, append_nil,
      cons_append, nil_append, mem_cons, not_mem_nil, or_false] at he
    rcases he with rfl | rfl | rfl | rfl
    all_goals exact toEvent_wf _
  untagged := by decide

/-- The log cut forty bytes into its events. -/
theorem scanLog_recovers_sample : ∃ scan,
    scanLog ((logFile { id := "s", createdAt := ⟨0, by decide⟩ } sampleBatches).take
      ((headerRecord { id := "s", createdAt := ⟨0, by decide⟩ }).length + 40)) = .ok scan ∧
    List.Forall₂ StoredAs ((loggedEvents sampleBatches).take scan.events.length) scan.events := by
  obtain ⟨_, scan, -, hscan, -, -, hstored, -⟩ := scanLog_recovers
    { id := "s", createdAt := ⟨0, by decide⟩ } sampleBatches_logged (Nat.le_add_right _ 40)
  exact ⟨scan, hscan, hstored⟩

end CocoHarness.Persistence
