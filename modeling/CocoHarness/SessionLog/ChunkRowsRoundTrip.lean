/-
# CocoHarness.SessionLog.ChunkRowsRoundTrip — packing is lossless.

A classified event is, field order aside, the event its delta reconstructs (`classify_sound`).  A row built from a
run the encoder accepted passes the decoder's own validation and expands to the run's members
(`decodeStorageRecord_buildRow`).
-/
import CocoHarness.Lib.Fallible
import CocoHarness.SessionLog.ChunkRows

namespace CocoHarness.SessionLog

open Lib Lib.SafeInteger List Json RowPayload SessionEvent
open SessionEvent (intField intArray)

/-! ## Exact keys pin an object down up to field order -/

/-- An object with exactly the keys `ks` is a reordering of the fields read at those keys. -/
theorem hasExactKeys_perm {v : Json} {ks : List String} (h : hasExactKeys v ks = true) (hks : ks.Nodup) :
    ∃ fs, v = .obj fs ∧ fs.Perm (ks.map fun k => (k, (v.get? k).getD .null)) := by
  cases v with
  | obj fs =>
    refine ⟨fs, rfl, ?_⟩
    simp only [hasExactKeys, Bool.and_eq_true, beq_iff_eq, all_eq_true, contains_iff_mem] at h
    obtain ⟨hlen, hmem⟩ := h
    have hperm : ks.Perm (Json.keys fs) := (subperm_of_subset hks hmem).perm_of_length_le (by simp [Json.keys, hlen])
    have hnodup : (Json.keys fs).Nodup := hperm.nodup_iff.mp hks
    have hself : fs = (Json.keys fs).map fun k => (k, ((obj fs).get? k).getD .null) := by
      rw [Json.keys, map_map]
      conv_lhs => rw [← map_id fs]
      refine map_congr_left fun f hf => ?_
      simp [lookup_eq_of_mem hnodup hf]
    have hmapped := hperm.symm.map fun k => (k, ((obj fs).get? k).getD .null)
    rwa [← hself] at hmapped
  | null | bool _ | num _ | str _ | arr _ => simp [hasExactKeys] at h

theorem classifyChunk_sound {chunk : Json} {index : Number} {delta : DeltaChunk}
    (h : classifyChunk chunk = some (index, delta)) : chunk.Same (delta.toJson index) := by
  simp only [classifyChunk, Option.bind_eq_bind, Option.bind_eq_some_iff, num?_eq_some_iff] at h
  obtain ⟨_, hindex, i, rfl, h⟩ := h
  split at h
  · next htype =>
    split at h
    · next hkeys =>
      simp only [Option.bind_eq_some_iff, str?_eq_some_iff, pure, Option.some.injEq, Prod.mk.injEq] at h
      obtain ⟨_, htext, t, rfl, rfl, rfl⟩ := h
      obtain ⟨fs, rfl, hperm⟩ := hasExactKeys_perm hkeys (by decide)
      simp only [map_cons, map_nil, htype, hindex, htext, Option.getD_some] at hperm
      exact .of_perm hperm
    · simp at h
  · next htype =>
    split at h
    · next hkeys =>
      simp only [Option.bind_eq_some_iff, str?_eq_some_iff, pure, Option.some.injEq, Prod.mk.injEq] at h
      obtain ⟨_, htext, t, rfl, rfl, rfl⟩ := h
      obtain ⟨fs, rfl, hperm⟩ := hasExactKeys_perm hkeys (by decide)
      simp only [map_cons, map_nil, htype, hindex, htext, Option.getD_some] at hperm
      exact .of_perm hperm
    · simp at h
  · next htype =>
    split at h
    · next hkeys =>
      simp only [Option.bind_eq_some_iff, str?_eq_some_iff, pure, Option.some.injEq, Prod.mk.injEq] at h
      obtain ⟨_, hid, id, rfl, _, hargs, args, rfl, rfl, rfl⟩ := h
      obtain ⟨fs, rfl, hperm⟩ := hasExactKeys_perm hkeys (by decide)
      simp only [map_cons, map_nil, htype, hindex, hid, hargs, Option.getD_some] at hperm
      exact .of_perm hperm
    · split at h
      · next hkeys =>
        simp only [Option.bind_eq_some_iff, str?_eq_some_iff, pure, Option.some.injEq, Prod.mk.injEq] at h
        obtain ⟨_, hid, id, rfl, _, hname, name, rfl, _, hargs, args, rfl, rfl, rfl⟩ := h
        obtain ⟨fs, rfl, hperm⟩ := hasExactKeys_perm hkeys (by decide)
        simp only [map_cons, map_nil, htype, hindex, hid, hname, hargs, Option.getD_some] at hperm
        exact .of_perm hperm
      · simp at h
  · simp at h

variable {e : SessionEvent}

theorem fields_of_hasExactKeys (h : hasExactKeys e.toJson ["type", "seq", "time", "data"] = true) :
    e.sourceEventSeqs = none ∧ e.surfaceOp = none ∧ e.ignorable = false := by
  obtain ⟨type, seq, time, data, sources, op, ignorable⟩ := e
  cases sources <;> cases op <;> cases ignorable <;>
    simp [toJson, SessionEvent.fields, hasExactKeys] at h ⊢

variable {d : DeltaEvent}

/-- A classified event is, field order aside, the event its delta reconstructs. -/
theorem classify_sound (h : classify e = some d) : e.Same d.toEvent ∧ IsSafe d.seq ∧ 0 ≤ d.seq ∧ IsSafe d.time := by
  simp only [classify, Option.bind_eq_bind, Option.bind_eq_some_iff, num?_eq_some_iff,
    Option.guard_eq_some', pure, Option.some.injEq] at h
  obtain ⟨_, htype, _, hkeys, _, ⟨hseq, hpos, htime⟩, _, hdata, _, hturn, turn, rfl, _, hstep, step,
    rfl, chunk, hchunk, ⟨index, delta⟩, hdelta, rfl⟩ := h
  obtain ⟨hsources, hop, hign⟩ := fields_of_hasExactKeys hkeys
  obtain ⟨fs, hfs, hperm⟩ := hasExactKeys_perm hdata (by decide)
  simp only [map_cons, map_nil, hturn, hstep, hchunk, Option.getD_some] at hperm
  have hsame : e.data.Same (DeltaEvent.toEvent ⟨e.seq, e.time, turn, step, index, delta⟩).data := by
    rw [hfs]
    exact .obj hperm (.cons (.refl _) (.cons (.refl _) (.cons (classifyChunk_sound hdelta) .nil)))
  exact ⟨⟨htype, rfl, rfl, hsame, hsources, hop, hign⟩, hseq, hpos, htime⟩

/-! ## Runs -/

structure DeltaEvent.Safe (d : DeltaEvent) : Prop where
  seq : IsSafe d.seq
  nonneg : 0 ≤ d.seq
  time : IsSafe d.time

theorem continues_spec {prev next : DeltaEvent} (hprev : prev.Safe) (h : continues prev next = true) :
    next.seq = prev.seq + 1 ∧ IsSafe (next.time - prev.time) ∧ next.turn = prev.turn ∧
      next.step = prev.step ∧ next.index = prev.index ∧
      sameBlock prev.chunk next.chunk = true := by
  simp only [continues, Bool.and_eq_true, beq_iff_eq, decide_eq_true_eq, isSafe_fsub_iff] at h
  obtain ⟨⟨⟨⟨⟨hseq, hgap⟩, hturn⟩, hstep⟩, hindex⟩, hblock⟩ := h
  rw [fadd_one_of_isSafe hprev.seq] at hseq
  exact ⟨hseq, hgap, hturn, hstep, hindex, hblock⟩

theorem chunk_fragment_of_sameBlock {payload : RowPayload} {a b : DeltaChunk}
    (hblock : sameBlock a b = true) (ha : payload.chunk a.fragment = a) :
    payload.chunk b.fragment = b := by
  cases payload <;> cases a <;> cases b <;>
    simp_all [sameBlock, chunk, DeltaChunk.fragment]

theorem ofRun_chunk_fragment (c : DeltaChunk) (members : List String) :
    (ofRun c members).chunk c.fragment = c := by
  cases c <;> rfl

@[simp] theorem ofRun_members (c : DeltaChunk) (members : List String) :
    (ofRun c members).members = members := by
  cases c <;> rfl

@[simp] theorem timeGaps_length (d : DeltaEvent) (rest : List DeltaEvent) :
    (timeGaps d rest).length = rest.length := by
  induction rest generalizing d with
  | nil => rfl
  | cons next rest ih => simp [timeGaps, ih]

variable {rest : List DeltaEvent}

/-- Expanding from member `k` on rebuilds the members: each gap is exact, and so is each sum. -/
theorem expandMembers_run (row : ChunkRow) : ∀ {d : DeltaEvent} {k : Nat}, (d :: rest).IsChain (continues · ·) →
      (∀ m ∈ d :: rest, m.Safe) → d.seq = row.seq0 + k →
      row.turn = d.turn → row.step = d.step → row.index = d.index →
      row.payload.chunk d.chunk.fragment = d.chunk →
      expandMembers row k d.time ((d :: rest).map (·.chunk.fragment)) (timeGaps d rest) = d :: rest := by
  induction rest with
  | nil =>
    intro d k _ hsafe hseq hturn hstep hindex hchunk
    have hsum : fadd row.seq0 k = d.seq := by rw [fadd_of_isSafe (hseq ▸ (hsafe d (by simp)).seq), hseq]
    simp [expandMembers, timeGaps, hsum, hturn, hstep, hindex, hchunk]
  | cons next rest ih =>
    intro d k hchain hsafe hseq hturn hstep hindex hchunk
    obtain ⟨hcont, hchain⟩ := isChain_cons_cons.mp hchain
    have hd := hsafe d (by simp)
    have hnext := hsafe next (by simp)
    obtain ⟨hseq', hgap, hturn', hstep', hindex', hblock⟩ := continues_spec hd hcont
    have hsum : fadd row.seq0 k = d.seq := by rw [fadd_of_isSafe (hseq ▸ hd.seq), hseq]
    have htime := fadd_fsub_cancel hgap hnext.time
    have htail := ih (d := next) (k := k + 1) hchain (fun m hm => hsafe m (by simp [hm]))
      (by push_cast; omega) (hturn.trans hturn'.symm) (hstep.trans hstep'.symm)
      (hindex.trans hindex'.symm) (chunk_fragment_of_sameBlock hblock hchunk)
    rw [map_cons, timeGaps, expandMembers, htime, htail]
    simp [hsum, hturn, hstep, hindex, hchunk]

variable {first : DeltaEvent}

theorem expandRow_buildRow (hchain : (first :: rest).IsChain (continues · ·)) (hsafe : ∀ m ∈ first :: rest, m.Safe) :
    expandRow (buildRow first rest) = (first :: rest).map DeltaEvent.toEvent := by
  have hmembers := expandMembers_run (buildRow first rest) (k := 0) hchain hsafe
    (by simp [buildRow]) rfl rfl rfl (ofRun_chunk_fragment _ _)
  rw [expandRow, show (buildRow first rest).payload.members
    = (first :: rest).map (·.chunk.fragment) from ofRun_members _ _]
  exact congrArg _ hmembers

/-! ## A built row passes its own validation -/

structure ChunkRow.Valid (row : ChunkRow) : Prop where
  seq0 : IsSafe row.seq0
  nonneg : 0 ≤ row.seq0
  time0 : IsSafe row.time0
  members : row.payload.members ≠ []
  arity : row.dt.length + 1 = row.payload.members.length
  gaps : ∀ gap ∈ row.dt, IsSafe gap
  seqs : IsSafe (fsub (fadd row.seq0 row.payload.members.length) 1)
  times : timesSafe row.time0 row.dt = true

theorem timeGaps_safe : ∀ {d : DeltaEvent}, (d :: rest).IsChain (continues · ·) → (∀ m ∈ d :: rest, m.Safe) →
      (∀ gap ∈ timeGaps d rest, IsSafe gap) ∧ timesSafe d.time (timeGaps d rest) = true := by
  induction rest with
  | nil => intro d _ _; simp [timeGaps, timesSafe]
  | cons next rest ih =>
    intro d hchain hsafe
    obtain ⟨hcont, hchain⟩ := isChain_cons_cons.mp hchain
    have hnext := hsafe next (by simp)
    obtain ⟨-, hgap, -⟩ := continues_spec (hsafe d (by simp)) hcont
    obtain ⟨hgaps, htimes⟩ := ih hchain (fun m hm => hsafe m (by simp [hm]))
    have htime := fadd_fsub_cancel hgap hnext.time
    refine ⟨?_, ?_⟩
    · intro gap hmem
      rcases mem_cons.mp hmem with rfl | hmem
      · rwa [fsub_of_isSafe hgap]
      · exact hgaps gap hmem
    · simp [timeGaps, timesSafe, htime, hnext.time, htimes]

theorem run_last_seq : ∀ {d : DeltaEvent}, (d :: rest).IsChain (continues · ·) → (∀ m ∈ d :: rest, m.Safe) →
      IsSafe (d.seq + rest.length) := by
  induction rest with
  | nil => intro d _ hsafe; simpa using (hsafe d (by simp)).seq
  | cons next rest ih =>
    intro d hchain hsafe
    obtain ⟨hcont, hchain⟩ := isChain_cons_cons.mp hchain
    obtain ⟨hseq, -⟩ := continues_spec (hsafe d (by simp)) hcont
    have htail := ih hchain (fun m hm => hsafe m (by simp [hm]))
    rw [hseq, add_assoc, add_comm 1] at htail
    rwa [length_cons, Nat.cast_succ]

theorem buildRow_valid (hchain : (first :: rest).IsChain (continues · ·))
    (hsafe : ∀ m ∈ first :: rest, m.Safe) : (buildRow first rest).Valid := by
  have hfirst := hsafe first (by simp)
  obtain ⟨hgaps, htimes⟩ := timeGaps_safe hchain hsafe
  have hmembers : (buildRow first rest).payload.members = (first :: rest).map (·.chunk.fragment) := ofRun_members _ _
  have hlast := run_last_seq hchain hsafe
  refine ⟨hfirst.seq, hfirst.nonneg, hfirst.time, ?_, ?_, hgaps, ?_, htimes⟩
  · simp [hmembers]
  · simp [buildRow]
  · have hcount : ((buildRow first rest).payload.members.length : Int) = rest.length + 1 := by simp [hmembers]
    have hend : fadd (buildRow first rest).seq0 (rest.length + 1) = first.seq + rest.length + 1 :=
      fadd_succ_of_isSafe hlast
    rw [hcount, isSafe_fsub_iff, hend]
    simpa using hlast

@[simp] theorem arrayOf?_strArray (xs : List String) :
    arrayOf? str? (strArray xs) = some xs := by
  simp only [arrayOf?, strArray, arr?, Option.bind_some]
  induction xs with
  | nil => rfl
  | cons x xs ih => simp [mapM_cons, str?, ih]

theorem arrayOf?_intArray {xs : List Int} (h : ∀ x ∈ xs, IsSafe x) : arrayOf? safeInt? (intArray xs) = some xs := by
  simp only [arrayOf?, intArray, arr?, Option.bind_some]
  induction xs with
  | nil => rfl
  | cons x xs ih =>
    have hx := h x (by simp)
    have hxs := ih (fun y hy => h y (by simp [hy]))
    simp [mapM_cons, safeInt?, intField, int?, Option.filter_some, hx, hxs]

theorem safeInt?_intField {n : Int} (h : IsSafe n) : safeInt? (intField n) = some n :=
  safeInt?_eq_some_iff.mpr ⟨rfl, h⟩

variable {row : ChunkRow}

theorem validateRunData_dataJson (hvalid : row.Valid) (key : String)
    (hkey : row.dataJson.get? key = some (strArray row.payload.members)) (tag : String) :
    validateRunData tag row.dataJson key = .ok (row.toRunDataBase, row.payload.members) := by
  have hdt := arrayOf?_intArray hvalid.gaps
  have hlen : (row.dt.length : Int) = row.payload.members.length - 1 := by have := hvalid.arity; omega
  have hne : row.payload.members.isEmpty = false := by simpa using hvalid.members
  have hturn : row.dataJson.get? "turn" = some (.num row.turn) := rfl
  have hstep : row.dataJson.get? "step" = some (.num row.step) := rfl
  have hindex : row.dataJson.get? "index" = some (.num row.index) := rfl
  have hgaps : row.dataJson.get? "dt" = some (intArray row.dt) := rfl
  simp [validateRunData, hturn, hstep, hindex, hgaps, hkey, hdt, hne, hlen, num?, Option.filter_some]

theorem validateRowData_dataJson (hvalid : row.Valid) :
    validateRowData row.payload.tag row.dataJson = .ok (row.toRunDataBase, row.payload) := by
  obtain ⟨base, seq0, time0, payload⟩ := row
  cases payload with
  | text texts =>
    have hrun := validateRunData_dataJson hvalid "texts" rfl "text-chunks"
    have hkeys : hasExactKeys (ChunkRow.dataJson ⟨base, seq0, time0, .text texts⟩)
        ["turn", "step", "index", "dt", "texts"] = true := rfl
    simp only [validateRowData, tag, hkeys, hrun]
    rfl
  | reasoning texts =>
    have hrun := validateRunData_dataJson hvalid "texts" rfl "reasoning-chunks"
    have hkeys : hasExactKeys (ChunkRow.dataJson ⟨base, seq0, time0, .reasoning texts⟩)
        ["turn", "step", "index", "dt", "texts"] = true := rfl
    simp only [validateRowData, tag, hkeys, hrun]
    rfl
  | toolCall id name args =>
    cases name with
    | none =>
      have hrun := validateRunData_dataJson hvalid "args" rfl "tool-call-chunks"
      have hkeys : hasExactKeys (ChunkRow.dataJson ⟨base, seq0, time0, .toolCall id none args⟩)
          ["turn", "step", "index", "id", "dt", "args"] = true := rfl
      have hnamed : hasExactKeys (ChunkRow.dataJson ⟨base, seq0, time0, .toolCall id none args⟩)
          ["turn", "step", "index", "id", "name", "dt", "args"] = false := rfl
      simp only [validateRowData, tag, hkeys, hnamed, hrun]
      rfl
    | some name =>
      have hrun := validateRunData_dataJson hvalid "args" rfl "tool-call-chunks"
      have hnamed : hasExactKeys
          (ChunkRow.dataJson ⟨base, seq0, time0, .toolCall id (some name) args⟩)
          ["turn", "step", "index", "id", "name", "dt", "args"] = true := rfl
      simp only [validateRowData, tag, hnamed, hrun]
      rfl

theorem validateRow_toJson (hvalid : row.Valid) : validateRow row.toJson row.payload.tag = .ok row := by
  have hkeys : hasExactKeys row.toJson ["type", "seq0", "time0", "data"] = true := rfl
  have hseq0 : row.toJson.get? "seq0" = some (intField row.seq0) := rfl
  have htime0 : row.toJson.get? "time0" = some (intField row.time0) := rfl
  have hdata : row.toJson.get? "data" = some row.dataJson := rfl
  have hobj : (row.dataJson.obj?.isSome || row.dataJson.arr?.isSome) = true := rfl
  simp [validateRow, hkeys, hseq0, htime0, hdata, hobj, safeInt?_intField hvalid.seq0,
    safeInt?_intField hvalid.time0, hvalid.nonneg, hvalid.seqs, hvalid.times,
    validateRowData_dataJson hvalid, Option.filter_some]

theorem payload_tag_isRowTag (payload : RowPayload) : IsRowTag payload.tag := by
  cases payload <;> simp [IsRowTag, tag]

/-- **A row inverts the run it was built from.** -/
theorem decodeStorageRecord_buildRow (hchain : (first :: rest).IsChain (continues · ·))
    (hsafe : ∀ m ∈ first :: rest, m.Safe) :
    decodeStorageRecord (buildRow first rest).toJson = .ok ((first :: rest).map fun m => m.toEvent.toJson) := by
  have hvalid := buildRow_valid hchain hsafe
  have htag : ((buildRow first rest).toJson.get? "type").bind str? = some (buildRow first rest).payload.tag := rfl
  rw [decodeStorageRecord, htag]
  simp only [if_pos (payload_tag_isRowTag _), validateRow_toJson hvalid]
  change Except.ok ((expandRow (buildRow first rest)).map toJson) = _
  rw [expandRow_buildRow hchain hsafe, map_map]
  rfl

theorem decodeStorageRecord_toJson (htag : ¬ IsRowTag e.type) : decodeStorageRecord e.toJson = .ok [e.toJson] := by
  simp [decodeStorageRecord, str?, htag]

/-! ## Records that restore events -/

def StoredAs (e : SessionEvent) (value : Json) : Prop := ∃ e', value = e'.toJson ∧ e.Same e'

theorem StoredAs.toJson (e : SessionEvent) : StoredAs e e.toJson := ⟨e, rfl, .refl e⟩

/-- The records decode, one for one and in order, to the events. -/
def Restores (records : List StorageRecord) (events : List SessionEvent) : Prop :=
  ∃ values, decodeRecords (records.map StorageRecord.toJson) = .ok values ∧ List.Forall₂ StoredAs events values

theorem decodeRecords_append {xs ys as bs : List Json} (hx : decodeRecords xs = .ok as)
    (hy : decodeRecords ys = .ok bs) : decodeRecords (xs ++ ys) = .ok (as ++ bs) := by
  induction xs generalizing as with
  | nil =>
    simp only [decodeRecords, pure_eq_ok, Except.ok.injEq] at hx
    simpa [← hx] using hy
  | cons x xs ih =>
    simp only [decodeRecords, bind_eq_ok_iff, pure_eq_ok, Except.ok.injEq] at hx
    obtain ⟨events, hevents, rest, hrest, rfl⟩ := hx
    simp [decodeRecords, hevents, ih hrest]

theorem Restores.nil : Restores [] [] := ⟨[], rfl, .nil⟩

variable {es : List SessionEvent}

theorem Restores.append {rs rs' : List StorageRecord} {es' : List SessionEvent}
    (h : Restores rs es) (h' : Restores rs' es') : Restores (rs ++ rs') (es ++ es') := by
  obtain ⟨vs, hvs, hes⟩ := h
  obtain ⟨vs', hvs', hes'⟩ := h'
  refine ⟨vs ++ vs', ?_, rel_append hes hes'⟩
  rw [map_append]
  exact decodeRecords_append hvs hvs'

theorem Restores.events (h : ∀ e ∈ es, ¬ IsRowTag e.type) : Restores (es.map .event) es := by
  induction es with
  | nil => exact .nil
  | cons e es ih =>
    have hhead : Restores [.event e] [e] := by
      refine ⟨[e.toJson], ?_, .cons (.toJson e) .nil⟩
      simp [decodeRecords, StorageRecord.toJson, decodeStorageRecord_toJson (h e (by simp))]
    exact hhead.append (ih fun e' he' => h e' (by simp [he']))

/-! ## The encoder's loop -/

/-- The open run holds classified events, each continuing the one before. -/
structure RunInv (run : List (SessionEvent × DeltaEvent)) : Prop where
  classified : ∀ m ∈ run, classify m.1 = some m.2
  chain : (run.map Prod.snd).IsChain (continues · ·)

theorem RunInv.single (h : classify e = some d) : RunInv [(e, d)] := ⟨by simpa using h, by simp⟩

variable {run : List (SessionEvent × DeltaEvent)}

theorem RunInv.snoc {last : SessionEvent × DeltaEvent} (hrun : RunInv run)
    (hlast : run.getLast? = some last) (hcont : continues last.2 d = true) (h : classify e = some d) :
    RunInv (run ++ [(e, d)]) := by
  refine ⟨?_, ?_⟩
  · intro m hm
    rcases mem_append.mp hm with hm | hm
    · exact hrun.classified m hm
    · rw [mem_singleton.mp hm]; exact h
  · rw [map_append, isChain_append]
    refine ⟨hrun.chain, by simp, ?_⟩
    intro x hx y hy
    rw [List.getLast?_map, hlast, Option.map_some, Option.mem_some_iff] at hx
    simp only [map_cons, map_nil, List.head?_cons, Option.mem_some_iff] at hy
    rwa [← hx, ← hy]

theorem RunInv.safe (hrun : RunInv run) : ∀ d ∈ run.map Prod.snd, d.Safe := by
  intro d hd
  obtain ⟨m, hm, rfl⟩ := mem_map.mp hd
  obtain ⟨-, hseq, hpos, htime⟩ := classify_sound (hrun.classified m hm)
  exact ⟨hseq, hpos, htime⟩

theorem RunInv.row_restores {first : SessionEvent × DeltaEvent}
    {rest : List (SessionEvent × DeltaEvent)} (hrun : RunInv (first :: rest)) :
    Restores [.row (buildRow first.2 (rest.map Prod.snd))] ((first :: rest).map Prod.fst) := by
  refine ⟨(first :: rest).map fun m => m.2.toEvent.toJson, ?_, ?_⟩
  · have hrow := decodeStorageRecord_buildRow (by simpa using hrun.chain)
      (by simpa using hrun.safe)
    simp [decodeRecords, StorageRecord.toJson, hrow]
  · rw [forall₂_map_left_iff, forall₂_map_right_iff, forall₂_same]
    intro m hm
    exact ⟨m.2.toEvent, rfl, (classify_sound (hrun.classified m hm)).1⟩

/-- The run's events stored verbatim restore themselves: a chunk event's type is no row tag. -/
theorem RunInv.events_restore (hrun : RunInv run) : Restores (run.map (.event ·.1)) (run.map Prod.fst) := by
  have hevents : ∀ e ∈ run.map Prod.fst, ¬ IsRowTag e.type := by
    intro e he
    obtain ⟨m, hm, rfl⟩ := mem_map.mp he
    rw [(classify_sound (hrun.classified m hm)).1.type]
    simp [IsRowTag, DeltaEvent.toEvent]
  simpa [Function.comp_def] using Restores.events hevents

/-- What has been read so far is what the records restore, followed by the open run. -/
structure PackInv (s : PackState) (read : List SessionEvent) : Prop where
  run : RunInv s.run
  restores : ∃ before, Restores s.out before ∧ read = before ++ s.run.map Prod.fst

variable {s : PackState} {read : List SessionEvent}

theorem PackInv.flush (h : PackInv s read) : Restores s.flush.out read := by
  obtain ⟨hrun, before, hout, rfl⟩ := h
  refine hout.append ?_
  cases hs : s.run with
  | nil => simpa using Restores.nil
  | cons first rest =>
    rw [hs] at hrun
    dsimp only
    split
    · exact hrun.row_restores
    · exact hrun.events_restore

theorem PackInv.step (h : PackInv s read) (he : ¬ IsRowTag e.type) : PackInv (s.step e) (read ++ [e]) := by
  unfold PackState.step
  cases hclass : classify e with
  | none =>
    refine ⟨⟨by simp, by simp⟩, read ++ [e], h.flush.append ?_, by simp⟩
    simpa using @Restores.events [e] (by simpa using he)
  | some d =>
    have hfresh : PackInv { out := s.flush.out, run := [(e, d)] } (read ++ [e]) :=
      ⟨.single hclass, read, h.flush, by simp⟩
    dsimp only
    split
    · next last hlast =>
      split
      · next hcont =>
        obtain ⟨hrun, before, hout, rfl⟩ := h
        exact ⟨hrun.snoc hlast hcont hclass, before, hout, by simp⟩
      · exact hfresh
    · exact hfresh

theorem packChunkRuns_restores {events : List SessionEvent}
    (h : ∀ e ∈ events, ¬ IsRowTag e.type) : Restores (packChunkRuns events) events := by
  have hloop : ∀ (rest : List SessionEvent) (s : PackState) (read : List SessionEvent),
      PackInv s read → (∀ e ∈ rest, ¬ IsRowTag e.type) → PackInv (rest.foldl PackState.step s) (read ++ rest) := by
    intro rest
    induction rest with
    | nil => intro s read hs _; simpa using hs
    | cons e rest ih =>
      intro s read hs hrest
      have hstep := ih (s.step e) (read ++ [e]) (hs.step (hrest e (by simp)))
        (fun e' he' => hrest e' (by simp [he']))
      simpa using hstep
  have hinit : PackInv {} [] := ⟨⟨by simp, by simp⟩, [], .nil, rfl⟩
  exact (hloop events {} [] hinit h).flush

/-- **Packing is lossless**, however the log is cut into batches. -/
theorem decodeRecords_packChunkRuns (batches : List (List SessionEvent))
    (h : ∀ e ∈ batches.flatten, ¬ IsRowTag e.type) :
    ∃ values, decodeRecords ((batches.flatMap packChunkRuns).map StorageRecord.toJson) = .ok values ∧
      List.Forall₂ StoredAs batches.flatten values := by
  change Restores (batches.flatMap packChunkRuns) batches.flatten
  induction batches with
  | nil => exact .nil
  | cons batch batches ih =>
    rw [flatMap_cons, flatten_cons]
    rw [flatten_cons] at h
    exact (packChunkRuns_restores fun e he => h e (by simp [he])).append
      (ih fun e he => h e (by simp only [mem_append]; exact .inr he))

def textChunk (seq time : Int) (text : String) : SessionEvent :=
  DeltaEvent.toEvent ⟨seq, time, .int 1, .int 1, .int 0, .textDelta text⟩

/-- A run whose clock stands still and then steps back, cut behind its third member. -/
theorem decodeRecords_packChunkRuns_clock_steps_back :
    ∃ values, decodeRecords (([[textChunk 0 7 "a", textChunk 1 7 "b", textChunk 2 5 "c"],
        [textChunk 3 9 "d"]].flatMap packChunkRuns).map StorageRecord.toJson) = .ok values ∧
      List.Forall₂ StoredAs [textChunk 0 7 "a", textChunk 1 7 "b", textChunk 2 5 "c", textChunk 3 9 "d"] values :=
  decodeRecords_packChunkRuns [[textChunk 0 7 "a", textChunk 1 7 "b", textChunk 2 5 "c"],
    [textChunk 3 9 "d"]] (by decide)

end CocoHarness.SessionLog
