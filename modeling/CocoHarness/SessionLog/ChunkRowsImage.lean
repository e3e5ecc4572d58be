/-
# CocoHarness.SessionLog.ChunkRowsImage — what the decoder accepts as a packed row.

Rows on disk are untrusted, so the decoder checks a row before it expands it.  What passes is, field
order aside, the JSON form of a row whose members are a run the encoder would have continued to its
end: their seqs count up, their times are the exact sums of the gaps, and packing them again gives that
row (`decodeStorageRecord_image`).  Two kinds of row are accepted beyond that.  A row of fewer than
`minRun` members decodes like any other, because the minimum is a tunable of the encoder; its members
pack as events.  And the check of the last seq adds the member count before it subtracts one, so that a
row whose last seq is `2 ^ 53` passes it by rounding.
-/
import CocoHarness.SessionLog.ChunkRowsRoundTrip

namespace CocoHarness.SessionLog

open Lib Lib.SafeInteger List Json SessionEvent DeltaEvent
open SessionEvent (intField intArray)

/-! ## What validation establishes -/

variable {v : Json}

theorem arrayOf?_str_eq {xs : List String} (h : arrayOf? str? v = some xs) : v = strArray xs := by
  cases v with
  | arr vs =>
    simp only [arrayOf?, arr?, Option.bind_some] at h
    rw [strArray]
    congr 1
    induction vs generalizing xs with
    | nil =>
      obtain rfl : xs = [] := by simpa using h
      rfl
    | cons v vs ih =>
      simp only [mapM_cons, Option.bind_eq_bind, Option.bind_eq_some_iff, str?_eq_some_iff,
        pure, Option.some.injEq] at h
      obtain ⟨x, rfl, rest, hrest, rfl⟩ := h
      rw [map_cons, ← ih hrest]
  | null | bool _ | num _ | str _ | obj _ => simp [arrayOf?, arr?] at h

theorem arrayOf?_int_eq {xs : List Int} (h : arrayOf? safeInt? v = some xs) :
    v = intArray xs ∧ ∀ x ∈ xs, IsSafe x := by
  cases v with
  | arr vs =>
    simp only [arrayOf?, arr?, Option.bind_some] at h
    rw [intArray, arr.injEq]
    induction vs generalizing xs with
    | nil =>
      obtain rfl : xs = [] := by simpa using h
      simp
    | cons v vs ih =>
      simp only [mapM_cons, Option.bind_eq_bind, Option.bind_eq_some_iff,
        safeInt?_eq_some_iff, pure, Option.some.injEq] at h
      obtain ⟨x, ⟨rfl, hx⟩, rest, hrest, rfl⟩ := h
      obtain ⟨hvs, hall⟩ := ih hrest
      rw [map_cons, ← hvs, forall_mem_cons]
      exact ⟨rfl, hx, hall⟩
  | null | bool _ | num _ | str _ | obj _ => simp [arrayOf?, arr?] at h

variable {tag : String} {data : Json} {base : RunDataBase}

theorem validateRunData_ok {key : String} {payload : List String}
    (h : validateRunData tag data key = .ok (base, payload)) :
    data.get? "turn" = some (.num base.turn) ∧ data.get? "step" = some (.num base.step) ∧
      data.get? "index" = some (.num base.index) ∧ data.get? "dt" = some (intArray base.dt) ∧
      data.get? key = some (strArray payload) ∧ payload ≠ [] ∧ (∀ gap ∈ base.dt, IsSafe gap) ∧
      base.dt.length + 1 = payload.length := by
  unfold validateRunData at h
  split at h
  · next turn hturn =>
    split at h
    · next step hstep =>
      split at h
      · next index hindex =>
        split at h
        · next payload' hpayload =>
          split at h
          · next dt hdt =>
            split at h
            · cases h
            · next hlen =>
              obtain ⟨rfl, rfl⟩ := Prod.mk.inj (Except.ok.inj h)
              simp only [Option.bind_eq_some_iff, num?_eq_some_iff] at hturn hstep hindex
              obtain ⟨_, hturn, rfl⟩ := hturn
              obtain ⟨_, hstep, rfl⟩ := hstep
              obtain ⟨_, hindex, rfl⟩ := hindex
              obtain ⟨harray, hne⟩ := Option.filter_eq_some_iff.mp hpayload
              obtain ⟨v, hv, hread⟩ := Option.bind_eq_some_iff.mp harray
              obtain ⟨w, hw, hgaps⟩ := Option.bind_eq_some_iff.mp hdt
              obtain ⟨rfl, hall⟩ := arrayOf?_int_eq hgaps
              have hne' : payload' ≠ [] := by simpa using hne
              refine ⟨hturn, hstep, hindex, hw, ?_, hne', hall, ?_⟩
              · rw [hv, arrayOf?_str_eq hread]
              · show dt.length + 1 = payload'.length
                omega
          · cases h
        · cases h
      · cases h
    · cases h
  · cases h

/-- What a row's data holds: exactly the fields the row's own data object has, in some order. -/
theorem validateRowData_ok {payload : RowPayload}
    (htag : IsRowTag tag) (h : validateRowData tag data = .ok (base, payload)) (seq0 time0 : Int) :
    payload.tag = tag ∧ data.Same (ChunkRow.dataJson ⟨base, seq0, time0, payload⟩) ∧
      payload.members ≠ [] ∧ (∀ gap ∈ base.dt, IsSafe gap) ∧
      base.dt.length + 1 = payload.members.length := by
  unfold validateRowData at h
  split at h
  · next hcall =>
    subst hcall
    dsimp only at h
    split at h
    · cases h
    · next hkeys =>
      split at h
      · next id hid =>
        split at h
        · cases h
        · next hname =>
          obtain ⟨⟨base', args⟩, hrun, h⟩ := bind_eq_ok_iff.mp h
          cases Except.ok.inj h
          obtain ⟨hturn, hstep, hindex, hdt, hargs, hne, hgaps, hlen⟩ := validateRunData_ok hrun
          obtain ⟨_, hid, hid'⟩ := Option.bind_eq_some_iff.mp hid
          rw [str?_eq_some_iff] at hid'
          subst hid'
          refine ⟨rfl, ?_, hne, hgaps, hlen⟩
          -- the exact-key check says whether there is a name
          by_cases hnamed : hasExactKeys data ["turn", "step", "index", "id", "name", "dt", "args"] = true
          · cases hread : (data.get? "name").bind str? with
            | none => exact absurd ⟨hnamed, by rw [hread]; rfl⟩ hname
            | some name =>
              obtain ⟨_, hfield, hstr⟩ := Option.bind_eq_some_iff.mp hread
              rw [str?_eq_some_iff] at hstr
              subst hstr
              obtain ⟨fs, rfl, hperm⟩ := hasExactKeys_perm hnamed (by decide)
              simp only [map_cons, map_nil, hturn, hstep, hindex, hid, hfield, hdt, hargs, Option.getD_some] at hperm
              apply Same.of_perm
              refine hperm.trans ?_
              simp only [cons_append, nil_append]
              refine .cons _ (.cons _ (.cons _ ?_))
              exact (@List.perm_middle _ _ [_, _] _).trans (.refl _)
          · have hplain : hasExactKeys data ["turn", "step", "index", "id", "dt", "args"] = true := by
              by_contra hplain
              exact hkeys ⟨hnamed, hplain⟩
            obtain ⟨fs, rfl, hperm⟩ := hasExactKeys_perm hplain (by decide)
            have habsent : (obj fs).get? "name" = none := by
              rw [get?_obj, lookup_eq_none_iff]
              intro f hf
              have := hperm.subset hf
              simp only [map_cons, map_nil, mem_cons, not_mem_nil, or_false] at this
              rcases this with rfl | rfl | rfl | rfl | rfl | rfl <;> simp
            rw [habsent]
            simp only [map_cons, map_nil, hturn, hstep, hindex, hid, hdt, hargs, Option.getD_some] at hperm
            apply Same.of_perm
            refine hperm.trans ?_
            simp only [Option.bind_none, cons_append, nil_append]
            exact .cons _ (.cons _ (.cons _ (.swap _ _ _)))
      · cases h
  · next hcall =>
    split at h
    · cases h
    · next hkeys =>
      obtain ⟨⟨base', texts⟩, hrun, h⟩ := bind_eq_ok_iff.mp h
      cases Except.ok.inj h
      obtain ⟨hturn, hstep, hindex, hdt, htexts, hne, hgaps, hlen⟩ := validateRunData_ok hrun
      obtain ⟨fs, rfl, hperm⟩ := hasExactKeys_perm (not_not.mp hkeys) (by decide)
      simp only [map_cons, map_nil, hturn, hstep, hindex, hdt, htexts, Option.getD_some]
        at hperm
      rcases htag with rfl | rfl | rfl
      · exact ⟨rfl, .of_perm hperm, hne, hgaps, hlen⟩
      · exact ⟨rfl, .of_perm hperm, hne, hgaps, hlen⟩
      · exact absurd rfl hcall

variable {row : ChunkRow} {value : Json}

/-- **What an accepted row is**: the JSON form of a valid row, field order aside. -/
theorem validateRow_ok (htag : IsRowTag tag)
    (htype : value.get? "type" = some (.str tag)) (h : validateRow value tag = .ok row) :
    row.Valid ∧ row.payload.tag = tag ∧ value.Same row.toJson := by
  unfold validateRow at h
  split at h
  · cases h
  · next hkeys =>
    split at h
    · next seq0 hseq0 =>
      split at h
      · next time0 htime0 =>
        split at h
        · next data hdata =>
          obtain ⟨⟨base, payload⟩, hrun, h⟩ := bind_eq_ok_iff.mp h
          dsimp only at h
          split at h
          · cases h
          · next hseqs =>
            split at h
            · cases h
            · next htimes =>
              cases h
              obtain ⟨hseq, hpos⟩ := Option.filter_eq_some_iff.mp hseq0
              simp only [Option.bind_eq_some_iff, safeInt?_eq_some_iff] at hseq htime0
              obtain ⟨_, hseq, rfl, hseqsafe⟩ := hseq
              obtain ⟨_, htime, rfl, htimesafe⟩ := htime0
              obtain ⟨hdata, -⟩ := Option.filter_eq_some_iff.mp hdata
              obtain ⟨hpayload, hsame, hne, hgaps, hlen⟩ := validateRowData_ok htag hrun seq0 time0
              refine ⟨⟨hseqsafe, of_decide_eq_true hpos, htimesafe, hne, hlen, hgaps, not_not.mp hseqs,
                by simpa using htimes⟩, hpayload, ?_⟩
              obtain ⟨fs, rfl, hperm⟩ := hasExactKeys_perm (not_not.mp hkeys) (by decide)
              simp only [map_cons, map_nil, htype, hseq, htime, hdata, Option.getD_some]
                at hperm
              subst hpayload
              exact .obj hperm (.cons (.refl _) (.cons (.refl _) (.cons (.refl _) (.cons hsame .nil))))
        · cases h
      · cases h
    · cases h

/-! ## The expansion of a valid row -/

/-- The last member's seq is a safe integer; the decoder means to check this. -/
def ChunkRow.LastSafe (row : ChunkRow) : Prop := IsSafe (row.seq0 + row.payload.members.length - 1)

instance (row : ChunkRow) : Decidable row.LastSafe := inferInstanceAs (Decidable (IsSafe _))

def ChunkRow.member (row : ChunkRow) (k : Nat) (fragment : String) : DeltaEvent where
  seq := row.seq0 + k
  time := row.time0 + (row.dt.take k).sum
  turn := row.turn
  step := row.step
  index := row.index
  chunk := row.payload.chunk fragment

theorem sameBlock_chunk (payload : RowPayload) (a b : String) :
    sameBlock (payload.chunk a) (payload.chunk b) = true := by
  cases payload <;> simp [RowPayload.chunk, sameBlock]

@[simp] theorem fragment_chunk (payload : RowPayload) (a : String) :
    (payload.chunk a).fragment = a := by
  cases payload <;> rfl

theorem ofRun_chunk (payload : RowPayload) (a : String) :
    RowPayload.ofRun (payload.chunk a) payload.members = payload := by
  cases payload <;> rfl

/-- A run as the decoder rebuilds it from a row whose running time is `time`. -/
structure Rebuilt (row : ChunkRow) (k : Nat) (time : Int) (fragments : List String) (gaps : List Int)
    (run : List DeltaEvent) : Prop where
  first : ∀ d, run.head? = some d → d.seq = row.seq0 + k ∧ d.time = time
  fragments : run.map (·.chunk.fragment) = fragments
  fields : ∀ d ∈ run, d.turn = row.turn ∧ d.step = row.step ∧ d.index = row.index ∧
    ∃ fragment, d.chunk = row.payload.chunk fragment
  chain : run.IsChain (continues · ·)
  between : ∀ d rest, run = d :: rest → timeGaps d rest = gaps
  seqs : ∀ (i : Nat) d, run[i]? = some d → d.seq = row.seq0 + k + i
  times : ∀ (i : Nat) d, run[i]? = some d → d.time = time + (gaps.take i).sum ∧ IsSafe d.time

/-- One member after another: each sum is exact, so each member continues the one before. -/
theorem expandMembers_rebuilt (hvalid : row.Valid) {fragments : List String} :
    ∀ {k : Nat} {time : Int} {gaps : List Int}, k + fragments.length = row.payload.members.length →
      gaps.length + 1 = fragments.length → IsSafe time → (∀ gap ∈ gaps, IsSafe gap) →
      timesSafe time gaps = true →
      Rebuilt row k time fragments gaps (expandMembers row k time fragments gaps) := by
  induction fragments with
  | nil => intro k time gaps _ hlen; simp at hlen
  | cons fragment fragments ih =>
    intro k time gaps hcount hlen htime hgaps htimes
    rw [length_cons] at hcount hlen
    have hseq : fadd row.seq0 k = row.seq0 + k := fadd_of_isSafe_last hvalid.nonneg hvalid.seqs (by omega)
    cases gaps with
    | nil =>
      -- the last member has no gap
      have hnil : fragments = [] := length_eq_zero_iff.mp (by simpa using hlen)
      subst hnil
      refine ⟨?_, ?_, ?_, ?_, ?_, ?_, ?_⟩
      · intro d hd
        simp only [expandMembers, List.head?_cons, Option.some.injEq] at hd
        subst hd
        exact ⟨hseq, rfl⟩
      · simp [expandMembers]
      · intro d hd
        simp only [expandMembers, mem_singleton] at hd
        subst hd
        exact ⟨rfl, rfl, rfl, fragment, rfl⟩
      · simp [expandMembers]
      · intro d rest hrun
        obtain ⟨-, rfl⟩ := List.cons.inj hrun
        rfl
      · intro i d hd
        cases i with
        | zero =>
          cases hd
          simpa using hseq
        | succ i => simp [expandMembers] at hd
      · intro i d hd
        cases i with
        | zero =>
          cases hd
          exact ⟨by simp, htime⟩
        | succ i => simp [expandMembers] at hd
    | cons gap gaps =>
      rw [timesSafe, Bool.and_eq_true, decide_eq_true_eq] at htimes
      obtain ⟨hnext, htimes⟩ := htimes
      have hexact : fadd time gap = time + gap := fadd_of_isSafe ((isSafe_fadd_iff time gap).mp hnext)
      have hgap := hgaps gap (by simp)
      have htail := @ih (k + 1) (fadd time gap) gaps (by omega)
        (by simpa using hlen) hnext (fun g hg => hgaps g (by simp [hg])) htimes
      have hback : fsub (fadd time gap) time = gap := by
        have hdiff : time + gap - time = gap := by omega
        rw [hexact, fsub_of_isSafe (by rwa [hdiff]), hdiff]
      rw [expandMembers]
      generalize hrun : expandMembers row (k + 1) (fadd time gap) fragments gaps = run at htail
      refine ⟨?_, ?_, ?_, ?_, ?_, ?_, ?_⟩
      · intro d hd
        simp only [List.head?_cons, Option.some.injEq] at hd
        subst hd
        exact ⟨hseq, rfl⟩
      · simp [htail.fragments]
      · intro d hd
        rcases mem_cons.mp hd with rfl | hd
        · exact ⟨rfl, rfl, rfl, fragment, rfl⟩
        · exact htail.fields d hd
      · cases run with
        | nil => simp
        | cons next rest =>
          obtain ⟨hseq', htime'⟩ := htail.first next rfl
          obtain ⟨hturn, hstep, hindex, fragment', hchunk⟩ := htail.fields next (by simp)
          have hone : fadd (row.seq0 + k) 1 = row.seq0 + k + 1 := by
            have hsum := fadd_of_isSafe_last (k := k + 1) hvalid.nonneg hvalid.seqs
            rw [length_cons] at *
            have hcount' : k + 1 < row.payload.members.length := by
              have := htail.fragments ▸ hcount
              rw [length_map, length_cons] at this
              omega
            have hsum := hsum hcount'
            show roundInt (row.seq0 + k + 1) = _
            rw [fadd] at hsum
            push_cast at hsum
            rw [show row.seq0 + (k : Int) + 1 = row.seq0 + ((k : Int) + 1) by omega]
            exact hsum
          refine isChain_cons_cons.mpr ⟨?_, htail.chain⟩
          simp only [continues, Bool.and_eq_true, beq_iff_eq, decide_eq_true_eq, hseq, hseq', hone, htime',
            hback, hturn, hstep, hindex, hchunk, sameBlock_chunk]
          push_cast
          exact ⟨⟨⟨⟨⟨by omega, hgap⟩, trivial⟩, trivial⟩, trivial⟩, trivial⟩
      · intro d rest heq
        cases heq
        cases run with
        | nil =>
          have hnil := htail.fragments
          rw [map_nil] at hnil
          rw [← hnil] at hlen
          simp at hlen
        | cons next rest =>
          obtain ⟨-, htime'⟩ := htail.first next rfl
          rw [timeGaps, htail.between next rest rfl]
          show fsub next.time time :: gaps = gap :: gaps
          rw [htime', hback]
      · intro i d hd
        cases i with
        | zero =>
          cases hd
          simpa using hseq
        | succ i =>
          have := htail.seqs i d (by simpa using hd)
          push_cast at this ⊢
          omega
      · intro i d hd
        cases i with
        | zero =>
          cases hd
          exact ⟨by simp, htime⟩
        | succ i =>
          obtain ⟨hsum, hsafe⟩ := htail.times i d (by simpa using hd)
          refine ⟨?_, hsafe⟩
          rw [hsum, hexact, take_succ_cons, sum_cons]
          omega

def ChunkRow.rebuilt (row : ChunkRow) : List DeltaEvent := expandMembers row 0 row.time0 row.payload.members row.dt

theorem ChunkRow.Valid.rebuilt (hvalid : row.Valid) : Rebuilt row 0 row.time0 row.payload.members row.dt row.rebuilt :=
  expandMembers_rebuilt hvalid (by simp) hvalid.arity hvalid.time0 hvalid.gaps hvalid.times

variable {first : DeltaEvent}

theorem buildRow_rebuilt (hvalid : row.Valid) {rest : List DeltaEvent}
    (hrun : row.rebuilt = first :: rest) : buildRow first rest = row := by
  have hrebuilt := hvalid.rebuilt
  rw [hrun] at hrebuilt
  obtain ⟨hseq, htime⟩ := hrebuilt.first first rfl
  obtain ⟨hturn, hstep, hindex, fragment, hchunk⟩ := hrebuilt.fields first (by simp)
  have hgaps := hrebuilt.between first rest rfl
  have hpayload := ofRun_chunk row.payload fragment
  rw [← hrebuilt.fragments, ← hchunk] at hpayload
  have hseq' : first.seq = row.seq0 := by simpa using hseq
  rw [buildRow, hseq', htime, hturn, hstep, hindex, hgaps, hpayload]

/-! ## Packing the expansion again -/

theorem classify_toEvent {d : DeltaEvent} (h : d.Safe) : classify d.toEvent = some d := by
  obtain ⟨hseq, hpos, htime⟩ := h
  obtain ⟨seq, time, turn, step, index, chunk⟩ := d
  have hsafe : (guard (IsSafe seq ∧ 0 ≤ seq ∧ IsSafe time) : Option Unit) = some () :=
    (Option.guard_eq_some' _).mpr ⟨hseq, hpos, htime⟩
  have hchunk : classifyChunk (chunk.toJson index) = some (index, chunk) := by
    cases chunk with
    | textDelta text | reasoningDelta text => rfl
    | toolCallDelta id name argumentsDelta => cases name <;> rfl
  have hread : classify (toEvent ⟨seq, time, turn, step, index, chunk⟩)
      = (guard (IsSafe seq ∧ 0 ≤ seq ∧ IsSafe time) : Option Unit).bind fun _ =>
        (classifyChunk (chunk.toJson index)).bind fun read => some ⟨seq, time, turn, step, read.1, read.2⟩ := rfl
  rw [hread, hsafe, hchunk]
  rfl

theorem foldl_step_chain {out : List StorageRecord} {last : SessionEvent × DeltaEvent}
    {rest : List DeltaEvent} : ∀ {run : List (SessionEvent × DeltaEvent)}, run.getLast? = some last →
      (last.2 :: rest).IsChain (continues · ·) → (∀ d ∈ rest, d.Safe) →
      (rest.map toEvent).foldl PackState.step { out, run }
        = { out, run := run ++ rest.map fun d => (d.toEvent, d) } := by
  induction rest generalizing last with
  | nil => intro run _ _ _; simp
  | cons next rest ih =>
    intro run hlast hchain hsafe
    obtain ⟨hcont, hchain⟩ := isChain_cons_cons.mp hchain
    have hstep : PackState.step { out, run } next.toEvent = { out, run := run ++ [(next.toEvent, next)] } := by
      simp only [PackState.step, classify_toEvent (hsafe next (by simp)), hlast, hcont, if_true]
    rw [map_cons, foldl_cons, hstep, @ih (next.toEvent, next) _ (by simp) hchain fun d hd => hsafe d (by simp [hd])]
    simp

/-- **One run packs as a whole**: into its row when it is long enough, verbatim otherwise. -/
theorem packChunkRuns_run {rest : List DeltaEvent}
    (hchain : (first :: rest).IsChain (continues · ·)) (hsafe : ∀ d ∈ first :: rest, d.Safe) :
    packChunkRuns ((first :: rest).map toEvent)
      = if minRun ≤ (first :: rest).length then [.row (buildRow first rest)]
        else ((first :: rest).map toEvent).map .event := by
  have hopen : PackState.step {} first.toEvent = { out := [], run := [(first.toEvent, first)] } := by
    simp [PackState.step, classify_toEvent (hsafe first (by simp)), PackState.flush]
  rw [packChunkRuns, map_cons, foldl_cons, hopen,
    @foldl_step_chain _ (first.toEvent, first) _ _ rfl hchain fun d hd => hsafe d (by simp [hd])]
  simp only [PackState.flush, cons_append, nil_append, length_cons, length_map, map_map, map_cons]
  split <;> simp [Function.comp_def]

/-! ## The decoder's image -/

/-- The events are the row's members: consecutive seqs and exact times, all safe. -/
structure ChunkRow.Expansion (row : ChunkRow) (events : List SessionEvent) : Prop where
  count : events.length = row.payload.members.length
  members : ∀ (k : Nat) fragment, row.payload.members[k]? = some fragment →
    events[k]? = some (row.member k fragment).toEvent
  safe : ∀ e ∈ events, IsSafe e.seq ∧ 0 ≤ e.seq ∧ IsSafe e.time

/-- The decoder gives exactly what the encoder turns back into the stored record. -/
def StoresRun (value : Json) : Prop :=
  ∀ tag events, value.get? "type" = some (.str tag) → IsRowTag tag → decodeStorageRecord value = .ok events →
    ∃ row, value.Same row.toJson ∧ events = (expandRow row).map SessionEvent.toJson ∧
      row.Expansion (expandRow row) ∧ packChunkRuns (expandRow row) = [.row row]

theorem expandRow_expansion (hvalid : row.Valid) (hlast : row.LastSafe) :
    row.Expansion (expandRow row) ∧ packChunkRuns (expandRow row)
      = if minRun ≤ row.payload.members.length then [.row row] else (expandRow row).map .event := by
  have hrebuilt := hvalid.rebuilt
  have hlen : row.rebuilt.length = row.payload.members.length := by rw [← hrebuilt.fragments, length_map]
  have hsafe : ∀ d ∈ row.rebuilt, d.Safe := by
    intro d hd
    obtain ⟨i, hi, rfl⟩ := getElem_of_mem hd
    have hseq := hrebuilt.seqs i _ (List.getElem?_eq_getElem hi)
    obtain ⟨-, htime⟩ := hrebuilt.times i _ (List.getElem?_eq_getElem hi)
    have hnonneg := hvalid.nonneg
    refine ⟨?_, ?_, htime⟩
    · simp only [ChunkRow.LastSafe, IsSafe] at hlast ⊢
      rw [hseq]
      push_cast
      omega
    · rw [hseq]
      push_cast
      omega
  have hevents : expandRow row = row.rebuilt.map toEvent := rfl
  refine ⟨⟨by rw [hevents, length_map, hlen], ?_, ?_⟩, ?_⟩
  · intro k fragment hk
    obtain ⟨hlt, -⟩ := List.getElem?_eq_some_iff.mp hk
    obtain ⟨d, hget⟩ : ∃ d, row.rebuilt[k]? = some d := ⟨_, List.getElem?_eq_getElem (hlen ▸ hlt)⟩
    have hseq := hrebuilt.seqs k d hget
    obtain ⟨htime, -⟩ := hrebuilt.times k d hget
    obtain ⟨hturn, hstep, hindex, fragment', hchunk⟩ := hrebuilt.fields d (mem_of_getElem? hget)
    have hfragment : some d.chunk.fragment = some fragment := by
      rw [← hk, ← hrebuilt.fragments, List.getElem?_map, hget]
      rfl
    rw [hchunk, fragment_chunk] at hfragment
    obtain rfl := Option.some.inj hfragment
    have hd : d = row.member k fragment' := by
      obtain ⟨seq, time, turn, step, index, chunk⟩ := d
      simp only at hseq htime hturn hstep hindex hchunk
      rw [ChunkRow.member, hseq, htime, hturn, hstep, hindex, hchunk]
      simp
    rw [hevents, List.getElem?_map, hget, hd]
    rfl
  · intro e he
    rw [hevents] at he
    obtain ⟨d, hd, rfl⟩ := mem_map.mp he
    obtain ⟨hseq, hpos, htime⟩ := hsafe d hd
    exact ⟨hseq, hpos, htime⟩
  · rw [hevents, ← hlen]
    cases hrun : row.rebuilt with
    | nil =>
      have hnone := hvalid.members
      rw [← length_pos_iff, ← hlen, hrun] at hnone
      exact absurd hnone (by simp)
    | cons first rest =>
      have hchain := hrebuilt.chain
      rw [hrun] at hchain hsafe
      rw [packChunkRuns_run hchain hsafe, buildRow_rebuilt hvalid hrun]

theorem decodeStorageRecord_ok {events : List Json} (htype : value.get? "type" = some (.str tag)) (htag : IsRowTag tag)
    (h : decodeStorageRecord value = .ok events) :
    ∃ row, validateRow value tag = .ok row ∧ events = (expandRow row).map toJson := by
  rw [decodeStorageRecord, htype] at h
  simp only [Option.bind_some, str?, if_pos htag] at h
  obtain ⟨row, hrow, h⟩ := bind_eq_ok_iff.mp h
  exact ⟨row, hrow, (Except.ok.inj h).symm⟩

def BuiltRow (row : ChunkRow) : Prop :=
  ∃ first rest, (first :: rest).IsChain (continues · ·) ∧ (∀ d ∈ first :: rest, d.Safe) ∧
    minRun ≤ (first :: rest).length ∧ row = buildRow first rest

/-- The encoder has written built rows only, and its open run continues. -/
structure BuiltInv (s : PackState) : Prop where
  run : RunInv s.run
  rows : ∀ row, .row row ∈ s.out → BuiltRow row

variable {s : PackState}

theorem BuiltInv.flush (h : BuiltInv s) : ∀ row, .row row ∈ s.flush.out → BuiltRow row := by
  intro row hrow
  rw [PackState.flush, mem_append] at hrow
  rcases hrow with hrow | hrow
  · exact h.rows row hrow
  · cases hrun : s.run with
    | nil => simp [hrun] at hrow
    | cons first rest =>
      have hinv := h.run
      rw [hrun] at hinv
      simp only [hrun] at hrow
      split at hrow
      · next hlong =>
        rw [mem_singleton, StorageRecord.row.injEq] at hrow
        exact ⟨first.2, rest.map Prod.snd, by simpa using hinv.chain, by simpa using hinv.safe,
          by simpa using hlong, hrow⟩
      · simp at hrow

theorem BuiltInv.step (h : BuiltInv s) (e : SessionEvent) : BuiltInv (s.step e) := by
  unfold PackState.step
  cases hclass : classify e with
  | none =>
    refine ⟨⟨by simp, by simp⟩, fun row hrow => h.flush row ?_⟩
    simpa using hrow
  | some d =>
    dsimp only
    split
    · next last hlast =>
      split
      · next hcont => exact ⟨h.run.snoc hlast hcont hclass, h.rows⟩
      · exact ⟨.single hclass, h.flush⟩
    · exact ⟨.single hclass, h.flush⟩

theorem packChunkRuns_rows {events : List SessionEvent} (h : .row row ∈ packChunkRuns events) : BuiltRow row := by
  have hloop : ∀ (rest : List SessionEvent) (s : PackState), BuiltInv s → BuiltInv (rest.foldl PackState.step s) := by
    intro rest
    induction rest with
    | nil => intro s hs; exact hs
    | cons e rest ih => intro s hs; exact ih (s.step e) (hs.step e)
  have hinit : BuiltInv {} := ⟨⟨by simp, by simp⟩, by simp⟩
  exact (hloop events {} hinit).flush row h

/-- **The decoder accepts the encoder's image.**  A record of a row type that is accepted is the JSON form of a row;
its events are the row's members and pack into that row again, or verbatim when they are fewer than the encoder's
minimum. Any other is rejected, and every row the encoder builds is accepted. -/
theorem decodeStorageRecord_image : (∀ value tag events, value.get? "type" = some (.str tag) → IsRowTag tag →
      decodeStorageRecord value = .ok events →
      ∃ row : ChunkRow, value.Same row.toJson ∧ row.payload.tag = tag ∧
        row.payload.members ≠ [] ∧ events = (expandRow row).map SessionEvent.toJson ∧
        (row.LastSafe → row.Expansion (expandRow row) ∧ packChunkRuns (expandRow row)
          = if minRun ≤ row.payload.members.length then [.row row]
            else (expandRow row).map .event)) ∧
    (∀ events (row : ChunkRow), .row row ∈ packChunkRuns events → minRun ≤ row.payload.members.length ∧ row.LastSafe ∧
      decodeStorageRecord row.toJson = .ok ((expandRow row).map SessionEvent.toJson)) := by
  constructor
  · intro value tag events htype htag h
    obtain ⟨row, hrow, rfl⟩ := decodeStorageRecord_ok htype htag h
    obtain ⟨hvalid, hpayload, hsame⟩ := validateRow_ok htag htype hrow
    exact ⟨row, hsame, hpayload, hvalid.members, rfl, expandRow_expansion hvalid⟩
  · intro events row hmem
    obtain ⟨first, rest, hchain, hsafe, hlong, rfl⟩ := packChunkRuns_rows hmem
    have hcount : (buildRow first rest).payload.members.length = rest.length + 1 := by simp [buildRow]
    refine ⟨by simpa [hcount] using hlong, ?_, ?_⟩
    · have hlast := run_last_seq hchain hsafe
      rw [ChunkRow.LastSafe, hcount]
      show IsSafe (first.seq + ((rest.length + 1 : Nat) : Int) - 1)
      push_cast
      rwa [← add_assoc, add_sub_cancel_right]
    · rw [decodeStorageRecord_buildRow hchain hsafe, expandRow_buildRow hchain hsafe, map_map]
      rfl

/-- A row of text members that starts at a given seq, with a still clock. -/
def textRow (seq0 : Int) (texts : List String) : ChunkRow where
  seq0
  time0 := 7
  turn := .int 1
  step := .int 1
  index := .int 0
  dt := List.replicate (texts.length - 1) 0
  payload := .text texts

theorem decodeStorageRecord_valid (h : row.Valid) :
    decodeStorageRecord row.toJson = .ok ((expandRow row).map toJson) := by
  have htype : (row.toJson.get? "type").bind str? = some row.payload.tag := rfl
  rw [decodeStorageRecord, htype]
  simp only [if_pos (payload_tag_isRowTag _), validateRow_toJson h]
  rfl

/-- A row of one member packs as an event; the last member of a row up to `2 ^ 53` is not a safe event. -/
theorem short_and_last_row_accepted :
    ((decodeStorageRecord (textRow 0 ["a"]).toJson).isOk ∧ ¬ StoresRun (textRow 0 ["a"]).toJson) ∧
    ((decodeStorageRecord (textRow 9007199254740990 ["a", "b", "c"]).toJson).isOk ∧
      ¬ StoresRun (textRow 9007199254740990 ["a", "b", "c"]).toJson) := by
  have hshort : (textRow 0 ["a"]).Valid := by refine ⟨?_, ?_, ?_, ?_, ?_, ?_, ?_, ?_⟩ <;> decide +kernel
  have hlast : (textRow 9007199254740990 ["a", "b", "c"]).Valid := by
    refine ⟨?_, ?_, ?_, ?_, ?_, ?_, ?_, ?_⟩ <;> decide +kernel
  refine ⟨⟨by rw [decodeStorageRecord_valid hshort]; rfl, fun h => ?_⟩,
    ⟨by rw [decodeStorageRecord_valid hlast]; rfl, fun h => ?_⟩⟩
  · obtain ⟨row, -, hevents, hexpansion, hpack⟩ := h _ _ rfl (.inl rfl) (decodeStorageRecord_valid hshort)
    -- one event cannot pack into a row
    have hmem : .row row ∈ packChunkRuns (expandRow row) := by rw [hpack]; simp
    obtain ⟨first, rest, -, -, hlong, hrow⟩ := packChunkRuns_rows hmem
    have hlen := congrArg List.length hevents
    rw [length_map, length_map, hexpansion.count, hrow] at hlen
    have hone : (expandRow (textRow 0 ["a"])).length = 1 := rfl
    simp [buildRow, minRun] at hlen hlong
    omega
  · obtain ⟨row, -, hevents, hexpansion, -⟩ := h _ _ rfl (.inl rfl) (decodeStorageRecord_valid hlast)
    -- the last of its events has the seq `2 ^ 53`
    have hthird : ((expandRow row).map SessionEvent.toJson)[2]? = some (textChunk 9007199254740992 7 "c").toJson := by
      rw [← hevents]
      decide +kernel
    rw [List.getElem?_map, Option.map_eq_some_iff] at hthird
    obtain ⟨e, he, heq⟩ := hthird
    obtain ⟨hsafe, -⟩ := hexpansion.safe e (mem_of_getElem? he)
    have hseq := congrArg (Json.get? · "seq") heq
    simp only [SessionEvent.toJson_seq, intField, Option.some.injEq, Json.num.injEq, Number.int.injEq] at hseq
    rw [hseq] at hsafe
    exact absurd hsafe (by decide)

end CocoHarness.SessionLog
