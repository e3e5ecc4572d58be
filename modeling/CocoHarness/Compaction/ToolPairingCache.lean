/-
# CocoHarness.Compaction.ToolPairingCache — the cached balances are the balances.

A cache in order holds the pairing of the surface as it stood after an earlier log of the session (`CacheFor`).
While no replacement comes, that surface is the beginning of the present one, so pairing the rest goes on where the
cache stopped (`pairTail_append`); the generation tells the other case.
-/
import CocoHarness.Compaction.ToolPairing
import CocoHarness.SessionLog.LogGrowth

namespace CocoHarness.Compaction

open Lib SessionLog List

/-! ## Pairing over an append -/

theorem pairTail_append (events : List SessionEvent) (n : Int) (xs ys : List Int) : pairTail events n (xs ++ ys) = do
      let (cuts, last) ← pairTail events n xs
      let (more, last) ← pairTail events last ys
      return (cuts ++ more, last) := by
  induction xs generalizing n with
  | nil =>
    simp only [nil_append, pairTail, ok_bind]
    cases pairTail events n ys <;> rfl
  | cons seq rest ih =>
    simp only [cons_append, pairTail]
    cases eventForSeq events seq with
    | error e => rfl
    | ok event =>
      simp only [ok_bind]
      cases eventDelta event with
      | error e => rfl
      | ok delta =>
        simp only [ok_bind]
        split
        · rfl
        · rw [ih]
          cases pairTail events (n + delta) rest with
          | error e => rfl
          | ok p =>
            simp only [ok_bind, pure_eq_ok]
            cases pairTail events p.2 ys <;> rfl

variable {events : List SessionEvent} {seqs : List Int}

theorem pairTail_length {n last : Int} {cuts : List Bool}
    (h : pairTail events n seqs = .ok (cuts, last)) : cuts.length = seqs.length := by
  induction seqs generalizing n cuts with
  | nil =>
    cases h
    rfl
  | cons seq rest ih =>
    simp only [pairTail, bind_eq_ok_iff] at h
    obtain ⟨_, -, delta, -, h⟩ := h
    split at h
    · cases h
    · simp only [bind_eq_ok_iff, pure_eq_ok, Except.ok.injEq, Prod.mk.injEq] at h
      obtain ⟨⟨more, _⟩, hmore, rfl, rfl⟩ := h
      simp only [length_cons]
      rw [ih hmore]

variable {events' : List SessionEvent}

theorem pairTail_congr (h : ∀ seq ∈ seqs, eventAt events' seq = eventAt events seq) (n : Int) :
    pairTail events' n seqs = pairTail events n seqs := by
  induction seqs generalizing n with
  | nil => rfl
  | cons seq rest ih =>
    have hhead : eventForSeq events' seq = eventForSeq events seq := by
      unfold eventForSeq
      rw [h seq mem_cons_self]
    simp only [pairTail, hhead]
    have hrest := fun m => ih (fun seq hmem => h seq (mem_cons_of_mem _ hmem)) m
    simp only [hrest]

/-! ## Positions -/

theorem lookup_indexFrom (index : InsertionMap Int Nat) (position : Nat) (hnodup : seqs.Nodup) (seq : Int) :
    (indexFrom index position seqs).lookup seq = ((seqs.idxOf? seq).map (position + ·)).or (index.lookup seq) := by
  induction seqs generalizing index position with
  | nil => rfl
  | cons head rest ih =>
    obtain ⟨hhead, hrest⟩ := nodup_cons.mp hnodup
    rw [indexFrom, ih _ _ hrest, InsertionMap.lookup_set, idxOf?_cons]
    by_cases heq : head = seq
    · -- the head is not in the rest, so its own position stands
      subst heq
      have hnone : rest.idxOf? head = none := idxOf?_eq_none_iff.mpr hhead
      simp [hnone]
    · have hbeq : (head == seq) = false := by simpa using heq
      have hne : ¬ seq = head := fun h => heq h.symm
      simp only [hbeq, hne, heq, if_false, Bool.false_eq_true, Option.map_map]
      congr 2
      funext i
      show position + 1 + i = position + (i + 1)
      omega

theorem idxOf?_append (xs ys : List Int) (seq : Int) :
    (xs ++ ys).idxOf? seq = (xs.idxOf? seq).or ((ys.idxOf? seq).map (xs.length + ·)) := by
  induction xs with
  | nil => simp
  | cons head rest ih =>
    rw [cons_append, idxOf?_cons, idxOf?_cons, ih]
    split
    · rfl
    · cases rest.idxOf? seq with
      | some i => rfl
      | none =>
        cases ys.idxOf? seq with
        | none => rfl
        | some j =>
          show some (rest.length + j + 1) = some ((head :: rest).length + j)
          rw [length_cons]
          congr 1
          omega

/-! ## A cache in order -/

structure Paired (cache : BalanceCache) (events : List SessionEvent) (seqs : List Int) : Prop where
  cuts : ∃ cuts, pairTail events 0 seqs = .ok (cuts, cache.inProgressToolCalls) ∧ cache.cutBalanced = true :: cuts
  index : ∀ seq, cache.indexBySeq.lookup seq = seqs.idxOf? seq

theorem paired_empty (generation : Nat) (events : List SessionEvent) :
    Paired { generation } events [] := ⟨⟨[], rfl, rfl⟩, fun _ => rfl⟩

variable {cache : BalanceCache}

theorem Paired.length (h : Paired cache events seqs) : cache.cutBalanced.length - 1 = seqs.length := by
  obtain ⟨⟨cuts, hpair, hcuts⟩, -⟩ := h
  rw [hcuts, length_cons, pairTail_length hpair]
  rfl

theorem Paired.answer (h : Paired cache events seqs) (seq : Int) (side : CutSide) :
    cutBalance cache seq side = pairedFromScratch events seqs seq side := by
  obtain ⟨⟨cuts, hpair, hcuts⟩, hindex⟩ := h
  unfold cutBalance pairedFromScratch pairing
  rw [hindex, hcuts, hpair]
  simp only [ok_bind, pure_eq_ok]
  rfl

theorem Paired.congr (h : Paired cache events seqs)
    (hsame : ∀ seq ∈ seqs, eventAt events' seq = eventAt events seq) : Paired cache events' seqs := by
  obtain ⟨⟨cuts, hpair, hcuts⟩, hindex⟩ := h
  exact ⟨⟨cuts, (pairTail_congr hsame 0).trans hpair, hcuts⟩, hindex⟩

/-- The cache holds the pairing of the surface after an earlier log. -/
def CacheFor (cache : BalanceCache) (log : List SessionEvent) : Prop :=
  ∃ old state rs, old <+: log ∧ surfaceAfter old = .ok (state, rs)
    ∧ cache.generation = state.replaceGeneration ∧ Paired cache log state.nodes

variable {log : List SessionEvent}

theorem eventAt_earlier {state : SurfaceFoldState} {rs : List SurfaceFoldReplacement} {old : List SessionEvent} (h : surfaceAfter old = .ok (state, rs)) (hearlier : old <+: log) :
    ∀ seq ∈ state.nodes, eventAt log seq = eventAt old seq := by
  intro seq hmem
  obtain ⟨more, rfl⟩ := hearlier
  exact eventAt_append (surfaceAfter_below h seq hmem) more

theorem CacheFor.mono {log' : List SessionEvent} (h : CacheFor cache log) (hearlier : log <+: log') :
    CacheFor cache log' := by
  obtain ⟨old, state, rs, hold, hsurface, hgeneration, hpaired⟩ := h
  refine ⟨old, state, rs, hold.trans hearlier, hsurface, hgeneration, hpaired.congr ?_⟩
  intro seq hmem
  rw [eventAt_earlier hsurface (hold.trans hearlier) seq hmem, eventAt_earlier hsurface hold seq hmem]

/-! ## Synchronizing -/

/-- It comes to hold the whole surface, or the whole surface does not pair. -/
theorem extendCache_spec {a : ScratchSession} {s : Session} (h : s.Represents a) {done rest : List Int}
    (hpaired : Paired cache a.log done) (hnodup : (done ++ rest).Nodup) :
    ∃ s', s'.Represents a ∧ ((∃ cache', extendCache s cache (done ++ rest) = (s', .ok cache')
          ∧ cache'.generation = cache.generation ∧ Paired cache' a.log (done ++ rest))
        ∨ ∃ e, extendCache s cache (done ++ rest) = (s', .error e) ∧ pairTail a.log 0 (done ++ rest) = .error e) := by
  obtain ⟨hevents, hs'⟩ := h.events
  have hlength := hpaired.length
  obtain ⟨⟨cuts, hpair, hcuts⟩, hindex⟩ := hpaired
  refine ⟨s.events.1, hs', ?_⟩
  have htail : (done ++ rest).drop (cache.cutBalanced.length - 1) = rest := by rw [hlength, drop_left]
  unfold extendCache
  simp only [htail, hevents]
  have hwhole : pairTail a.log 0 (done ++ rest) = do
      let (more, last) ← pairTail a.log cache.inProgressToolCalls rest
      return (cuts ++ more, last) := by
    rw [pairTail_append, hpair]
    rfl
  cases hrest : pairTail a.log cache.inProgressToolCalls rest with
  | error e =>
    refine .inr ⟨e, rfl, ?_⟩
    rw [hwhole, hrest]
    rfl
  | ok p =>
    obtain ⟨more, last⟩ := p
    refine .inl ⟨_, rfl, rfl, ⟨cuts ++ more, ?_, ?_⟩, fun seq => ?_⟩
    · rw [hwhole, hrest]
      rfl
    · show cache.cutBalanced ++ more = true :: (cuts ++ more)
      rw [hcuts]
      rfl
    · show (indexFrom cache.indexBySeq (cache.cutBalanced.length - 1) rest).lookup seq = _
      have hdisjoint := nodup_append.mp hnodup
      rw [lookup_indexFrom _ _ hdisjoint.2.1, hindex, hlength, idxOf?_append]
      -- a sequence is among those seen or among the new ones
      cases hnew : rest.idxOf? seq with
      | none => simp
      | some i =>
        have hmem : seq ∈ rest := by
          by_contra hnot
          rw [idxOf?_eq_none_iff.mpr hnot] at hnew
          cases hnew
        have hold : done.idxOf? seq = none :=
          idxOf?_eq_none_iff.mpr fun hseen => hdisjoint.2.2 seq hseen seq hmem rfl
        simp [hold]

namespace PairedSession

variable {p : PairedSession} {a : ScratchSession}

/-- The session stands for the log, and what is cached for it is in order. -/
structure Synced (p : PairedSession) (a : ScratchSession) : Prop where
  session : p.session.Represents a
  cache : ∀ cache, p.cache = some cache → CacheFor cache a.log

variable {state : SurfaceFoldState} {rs : List SurfaceFoldReplacement}

theorem extend_spec (h : p.Synced a) (hlog : surfaceAfter a.log = .ok (state, rs)) {done rest : List Int} (hpaired : Paired cache a.log done)
    (hnodes : state.nodes = done ++ rest) (hgeneration : cache.generation = state.replaceGeneration) :
    ∃ p', p'.Synced a ∧ ((∃ cache', p.extend cache state.nodes = (p', .ok cache') ∧ Paired cache' a.log state.nodes)
        ∨ ∃ e, p.extend cache state.nodes = (p', .error e) ∧ pairTail a.log 0 state.nodes = .error e
          ∧ p'.cache = p.cache) := by
  have hnodup : (done ++ rest).Nodup := hnodes ▸ surfaceAfter_nodup hlog
  obtain ⟨s', hs', hextend⟩ := extendCache_spec h.session hpaired hnodup
  rw [← hnodes] at hextend
  unfold extend
  rcases hextend with ⟨cache', hok, hsame, hpaired'⟩ | ⟨e, herror, hpair⟩
  · refine ⟨{ session := s', cache := some cache' }, ⟨hs', ?_⟩, .inl ⟨cache', ?_, hpaired'⟩⟩
    · rintro kept ⟨⟩
      exact ⟨a.log, state, rs, prefix_rfl, hlog, hsame.trans hgeneration, hpaired'⟩
    · rw [hok]
  · refine ⟨{ p with session := s' }, ⟨hs', h.cache⟩, .inr ⟨e, ?_, hpair, rfl⟩⟩
    rw [herror]

/-- **Synchronizing.**  The cache holds the whole surface, or that does not pair and the cache stays. -/
theorem balanceCache_spec (h : p.Synced a) (hlog : surfaceAfter a.log = .ok (state, rs)) : ∃ p', p'.Synced a ∧
      ((∃ cache, p.balanceCache = (p', .ok cache) ∧ Paired cache a.log state.nodes)
        ∨ ∃ e, p.balanceCache = (p', .error e) ∧ pairTail a.log 0 state.nodes = .error e ∧ p'.cache = p.cache) := by
  obtain ⟨state', rs', s', hlog', hsurface, hs'⟩ := h.session.surface_state
  cases hlog.symm.trans hlog'
  have hread : { p with session := s' }.Synced a := ⟨hs', h.cache⟩
  -- pairing from the beginning is extending the empty cache
  have hrebuild := extend_spec hread hlog (paired_empty state.replaceGeneration a.log)
    (nil_append _).symm rfl
  unfold balanceCache
  simp only [hsurface]
  cases hcache : p.cache with
  | none =>
    rw [hcache] at hrebuild
    exact hrebuild
  | some cached =>
    obtain ⟨old, seen, rs₀, hold, hseen, hgeneration, hpaired⟩ := h.cache cached hcache
    have hlength := hpaired.length
    rw [hcache] at hrebuild
    by_cases hsame : cached.generation = state.replaceGeneration
    · -- no replacement came since: the nodes seen are the first of the present ones
      obtain ⟨more, hmore⟩ := hold
      have hlonger : surfaceAfter (old ++ more) = .ok (state, rs) := by
        rw [hmore]
        exact hlog
      have hgrown := (surfaceAfter_grows hseen hlonger).2 (hgeneration.symm.trans hsame)
      obtain ⟨rest, hnodes⟩ := hgrown
      have hle : seen.nodes.length ≤ state.nodes.length := by
        rw [← hnodes, length_append]
        omega
      have hkeep : ¬ (cached.generation ≠ state.replaceGeneration
          ∨ cached.cutBalanced.length - 1 > state.nodes.length) := by
        rintro (hother | hlonger)
        · exact hother hsame
        · omega
      dsimp only
      rw [if_neg hkeep]
      split
      · have hextend := extend_spec hread hlog hpaired hnodes.symm hsame
        rw [hcache] at hextend
        exact hextend
      · refine ⟨{ session := s', cache := some cached }, ?_, .inl ⟨cached, rfl, ?_⟩⟩
        · rw [← hcache]
          exact hread
        · have hrest : rest = [] := by
            apply eq_nil_of_length_eq_zero
            have := congrArg List.length hnodes
            rw [length_append] at this
            omega
          rw [← hnodes, hrest, append_nil]
          exact hpaired
    · dsimp only
      rw [if_pos (.inl hsame)]
      exact hrebuild

theorem toolPairingBalanced_spec (h : p.Synced a) (hlog : surfaceAfter a.log = .ok (state, rs))
    (seq : Int) (side : CutSide) :
    ∃ p', p'.Synced a ∧ p.toolPairingBalanced seq side = (p', pairedFromScratch a.log state.nodes seq side) := by
  obtain ⟨p', hp', hbalance⟩ := balanceCache_spec h hlog
  refine ⟨p', hp', ?_⟩
  unfold toolPairingBalanced
  rcases hbalance with ⟨cache, hok, hpaired⟩ | ⟨e, herror, hpair, -⟩
  · rw [hok]
    dsimp only
    rw [hpaired.answer seq side]
  · rw [herror]
    unfold pairedFromScratch pairing
    rw [hpair]
    rfl

variable {e : JsError}

theorem extend_error (h : (p.extend cache seqs).2 = .error e) : (p.extend cache seqs).1.cache = p.cache := by
  unfold extend at *
  split
  · rfl
  · next hok =>
    rw [hok] at h
    cases h

theorem balanceCache_error (h : p.balanceCache.2 = .error e) : p.balanceCache.1.cache = p.cache := by
  unfold balanceCache at *
  split
  · rfl
  · next hsurface =>
    simp only [hsurface] at h
    dsimp only
    cases hcache : p.cache with
    | none =>
      simp only [hcache] at h ⊢
      exact extend_error h
    | some cached =>
      simp only [hcache] at h ⊢
      split
      · next hother =>
        rw [if_pos hother] at h
        exact extend_error h
      · next hsame =>
        rw [if_neg hsame] at h
        split
        · next hshorter =>
          rw [if_pos hshorter] at h
          exact extend_error h
        · rfl

end PairedSession

/-! ## Runs -/

def Beside (p : PairedSession) (s : Session) : Prop := ∃ a, AtRest a ∧ p.Synced a ∧ s.Represents a

variable {s : Session}

theorem beside_step {p : PairedSession} (h : Beside p s) (op : PairingOp) : (pairingStep p op).2 = (scratchPairingStep s op).2
      ∧ Beside (pairingStep p op).1 (scratchPairingStep s op).1 := by
  obtain ⟨a, hrest, hp, hs⟩ := h
  cases op with
  | session op =>
    obtain ⟨hreply, hnext⟩ := hp.session.step op
    obtain ⟨hreply', hnext'⟩ := hs.step op
    refine ⟨congrArg PairingReply.session (hreply.trans hreply'.symm), ?_⟩
    refine ⟨(scratchSessionStep a op).1, hrest.step op, ⟨hnext, fun cache hcache => ?_⟩, hnext'⟩
    exact (hp.cache cache hcache).mono (ScratchSession.step_log_prefix hrest op)
  | balanced seq side =>
    obtain ⟨state, rs, s', hlog, hsurface, -⟩ := hs.surface_state
    obtain ⟨p', hp', hanswer⟩ := PairedSession.toolPairingBalanced_spec hp hlog seq side
    simp only [pairingStep, scratchPairingStep, hanswer, hsurface, ok_bind]
    refine ⟨?_, a, hrest, hp', hs⟩
    rw [hs.log]

/-- **The cache answers as pairing from scratch does**, over every run; and where pairing throws, it stays. -/
theorem balance_refines_scratch (hs : s.Reachable) (ops : List PairingOp) :
    (Machine.run pairingStep { session := s } ops).2 = (Machine.run scratchPairingStep s ops).2
      ∧ ∀ e, (Machine.run pairingStep { session := s } ops).1.balanceCache.2 = .error e →
        (Machine.run pairingStep { session := s } ops).1.balanceCache.1.cache
          = (Machine.run pairingStep { session := s } ops).1.cache := by
  obtain ⟨a, hrep, hrest⟩ := hs.atRest
  refine ⟨?_, fun e herror => PairedSession.balanceCache_error herror⟩
  have hbeside : Beside { session := s } s := ⟨a, hrest, ⟨hrep, nofun⟩, hrep⟩
  exact (Machine.run_simulates (R := Beside) (fun _ _ op h => beside_step h op) hbeside ops).1

def appendOp (type : String) (data : JsValue) : PairingOp :=
  .session (.append { type, data, opts := { surfaceOp := .str "append" }, now := ⟨0, isSafe_zero⟩ } {})

/-- The data of an assistant message that asks for one tool call. -/
def oneCall : JsValue := .ofJson (.obj [("message", .obj [("content", .arr [.obj [("type", .str "tool-call")]])])])

def corruptingOps : List PairingOp :=
  [appendOp "assistant/message" oneCall, .balanced 0 .after, appendOp "tool/result" (.obj []),
    .balanced 0 .after, .balanced 1 .after, appendOp "tool/result" (.obj []), .balanced 1 .after]

/-- The extra result makes every later query throw, as from scratch. -/
theorem balance_refines_scratch_corrupt :
    let run := Machine.run pairingStep { session := enteredSession } corruptingOps
    run.2 = (Machine.run scratchPairingStep enteredSession corruptingOps).2
      ∧ (run.2.filterMap fun reply => match reply with
          | .balanced answer => some answer.toOption
          | .session _ => none) = [some false, some false, some true, none] := by
  refine ⟨(balance_refines_scratch enteredSession_reachable corruptingOps).1, ?_⟩
  decide +kernel

end CocoHarness.Compaction
