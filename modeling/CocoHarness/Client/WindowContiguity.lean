/-
# CocoHarness.Client.WindowContiguity — when the client's window is one range of the host's log.

The window is read as a range from its first sequence number on (`Range`).  Stitching does where the buffered events
join the page: each is covered by the page, or comes right after it or after another buffered event (`Joins`).
Nothing else can leave a hole, so the window of a run is contiguous as long as every page that is installed joins the
buffer (`window_contiguous`).

Where one does not, the hole stays.
-/
import CocoHarness.Client.SessionWindow

namespace CocoHarness.Client

open Lib List Option Or SessionWindow LogEvent

variable {ε : Type} {log : List ε}

/-! ## Ranges -/

/-- The events of the log from sequence number `first` on, as many as there are. -/
def Range (log : List ε) (first : Nat) : List (LogEvent ε) → Prop
  | [] => True
  | e :: es => e.seq = first ∧ log[first]? = some e.body ∧ Range log (first + 1) es

variable {first : Nat} {es : List (LogEvent ε)}

theorem Range.append {es' : List (LogEvent ε)} :
    Range log first (es ++ es') ↔ Range log first es ∧ Range log (first + es.length) es' := by
  induction es generalizing first with
  | nil => simp [Range]
  | cons e es ih =>
    rw [cons_append, Range, ih, Range, length_cons, show first + 1 + es.length = first + (es.length + 1) by omega]
    constructor
    · rintro ⟨hseq, hbody, hes, hes'⟩
      exact ⟨⟨hseq, hbody, hes⟩, hes'⟩
    · rintro ⟨⟨hseq, hbody, hes⟩, hes'⟩
      exact ⟨hseq, hbody, hes, hes'⟩

variable {e : LogEvent ε}

theorem Range.concat (h : Range log first es) (hseq : e.seq = first + es.length)
    (hbody : log[e.seq]? = some e.body) : Range log first (es ++ [e]) :=
  Range.append.mpr ⟨h, hseq, hseq ▸ hbody, trivial⟩

theorem Range.getLast (h : Range log first es) (hlast : es.getLast? = some e) : e.seq + 1 = first + es.length := by
  obtain ⟨es, rfl⟩ := getLast?_eq_some_iff.mp hlast
  obtain ⟨-, hseq, -⟩ := Range.append.mp h
  rw [hseq, length_append, length_singleton]
  omega

theorem Range.head (h : Range log first es) (hhead : es.head? = some e) : e.seq = first := by
  cases es with
  | nil => cases hhead
  | cons d es =>
    cases hhead
    exact h.1

theorem Range.grow (h : Range log first es) (body : ε) : Range (log ++ [body]) first es := by
  induction es generalizing first with
  | nil => trivial
  | cons e es ih =>
    obtain ⟨hseq, hbody, hes⟩ := h
    refine ⟨hseq, ?_, ih hes⟩
    rw [List.getElem?_append_left (List.getElem?_eq_some_iff.mp hbody).1]
    exact hbody

theorem hostEvents_getElem? (log : List ε) (i : Nat) : (hostEvents log)[i]? = log[i]?.map fun body => ⟨i, body⟩ := by
  rw [hostEvents, getElem?_map, getElem?_zipIdx, Option.map_map]
  simp [Function.comp_def]

/-- **A range of the log** is an infix of its events: no gap, no duplicate. -/
theorem Range.isInfix (h : Range log first es) : es <:+: hostEvents log := by
  have hdrop : ∀ es first, Range log first es → es <+: (hostEvents log).drop first := by
    intro es
    induction es with
    | nil =>
      intro first _
      exact nil_prefix
    | cons e es ih =>
      intro first ⟨hseq, hbody, hes⟩
      have hfirst : (hostEvents log)[first]? = some e := by
        rw [hostEvents_getElem?, hbody, ← hseq]
        rfl
      obtain ⟨hlt, hget⟩ := List.getElem?_eq_some_iff.mp hfirst
      rw [drop_eq_getElem_cons hlt, hget, cons_prefix_cons]
      exact ⟨rfl, ih _ hes⟩
  exact (hdrop es first h).isInfix.trans (drop_suffix _ _).isInfix

theorem pageEvents_range (log : List ε) (before shown cut : Nat) :
    Range log cut (pageEvents log before shown cut) := by
  have hgeneral : ∀ es first, (∀ i (h : i < es.length), (hostEvents log)[first + i]? = some es[i]) →
      Range log first es := by
    intro es
    induction es with
    | nil =>
      intro _ _
      trivial
    | cons e es ih =>
      intro first hes
      have hhead := hes 0 (Nat.succ_pos _)
      rw [Nat.add_zero, hostEvents_getElem?] at hhead
      obtain ⟨body, hbody, heq⟩ := map_eq_some_iff.mp hhead
      obtain rfl : ⟨first, body⟩ = e := heq
      refine ⟨rfl, hbody, ih (first + 1) fun i hi => ?_⟩
      have hnext := hes (i + 1) (Nat.succ_lt_succ hi)
      rw [show first + 1 + i = first + (i + 1) by omega, hnext]
      rfl
  refine hgeneral _ _ fun i hi => ?_
  have hget : (((hostEvents log).take (min before shown)).drop cut)[i]?
      = some (pageEvents log before shown cut)[i] := getElem?_eq_getElem hi
  rw [getElem?_drop] at hget
  exact (getElem?_take_of_lt (by
    by_contra hge
    rw [getElem?_take_eq_none (not_lt.mp hge)] at hget
    cases hget)).symm.trans hget

theorem pageEvents_length (before cut : Nat) {shown : Nat} (hshown : shown ≤ log.length) :
    (pageEvents log before shown cut).length = min before shown - cut := by
  have hlength : (hostEvents log).length = log.length := by rw [hostEvents, length_map, length_zipIdx]
  rw [pageEvents, length_drop, length_take, hlength]
  omega

/-! ## Stitching -/

/-- The buffered events join the page: each is covered by it, or comes right after it or another one. -/
def Joins (tail : Option Nat) (buffer : List (LogEvent ε)) : Prop :=
  ∀ e ∈ buffer, (∃ t ∈ tail, e.seq ≤ t + 1) ∨ (∃ d ∈ buffer, d.seq + 1 = e.seq) ∨ tail = none ∧ buffer.head? = some e

instance [DecidableEq ε] (tail : Option Nat) (buffer : List (LogEvent ε)) : Decidable (Joins tail buffer) :=
  inferInstanceAs (Decidable (∀ e ∈ buffer, (∃ t ∈ tail, e.seq ≤ t + 1) ∨ (∃ d ∈ buffer, d.seq + 1 = e.seq)
    ∨ tail = none ∧ buffer.head? = some e))

structure Ordered (log : List ε) (buffer : List (LogEvent ε)) : Prop where
  logged : ∀ e ∈ buffer, log[e.seq]? = some e.body
  sorted : buffer.Pairwise fun d e => d.seq < e.seq

variable {buffer : List (LogEvent ε)}

theorem Ordered.tail (h : Ordered log (e :: buffer)) : Ordered log buffer :=
  ⟨fun d hd => h.logged d (mem_cons_of_mem _ hd), (pairwise_cons.mp h.sorted).2⟩

theorem Ordered.grow (h : Ordered log buffer) (body : ε) : Ordered (log ++ [body]) buffer := by
  refine ⟨fun e he => ?_, h.sorted⟩
  rw [List.getElem?_append_left (List.getElem?_eq_some_iff.mp (h.logged e he)).1]
  exact h.logged e he

namespace ClientSession

variable {c : ClientSession ε}

theorem appendLive_eq (c : ClientSession ε) (e : LogEvent ε) :
    c.appendLive e = { c with events := (c.appendLive e).events } := by
  unfold appendLive
  split
  · split <;> rfl
  · rfl

theorem foldl_appendLive_eq (c : ClientSession ε) (buffer : List (LogEvent ε)) :
    buffer.foldl appendLive c = { c with events := (buffer.foldl appendLive c).events } := by
  induction buffer generalizing c with
  | nil => rfl
  | cons e buffer ih => rw [foldl_cons, ih, appendLive_eq]

theorem foldl_appendLive_hasPrefix (c : ClientSession ε) (buffer : List (LogEvent ε)) :
    c.events <+: (buffer.foldl appendLive c).events := by
  induction buffer generalizing c with
  | nil => exact prefix_rfl
  | cons e buffer ih =>
    refine IsPrefix.trans ?_ (ih (c.appendLive e))
    unfold appendLive
    split
    · split
      · exact prefix_rfl
      · exact prefix_append _ _
    · exact prefix_append _ _

theorem installWindow_hasPrefix (c : ClientSession ε) (page : List (LogEvent ε)) (hasMore : Bool) :
    page <+: (c.installWindow page hasMore).events :=
  foldl_appendLive_hasPrefix
    { c with events := page, baseSeq := (page.head?.map seq).getD 0, hasMore, liveBuffer := [] } _

/-- Installing sets the base, what the host says of older events, and empties the buffer. -/
theorem installWindow_eq (c : ClientSession ε) (page : List (LogEvent ε)) (hasMore : Bool) :
    c.installWindow page hasMore = { c with
      events := (c.installWindow page hasMore).events
      baseSeq := (page.head?.map seq).getD 0, hasMore, liveBuffer := [] } := by
  rw [installWindow, foldl_appendLive_eq]

theorem stitch_range {tail : Nat} {buffer : List (LogEvent ε)} (hrange : Range log first c.events)
    (htail : c.windowTailSeq = some tail) (hordered : Ordered log buffer)
    (hjoins : Joins (some tail) buffer) :
    Range log first (buffer.foldl appendLive c).events := by
  induction buffer generalizing c tail with
  | nil => exact hrange
  | cons e buffer ih =>
    obtain ⟨hlater, -⟩ := pairwise_cons.mp hordered.sorted
    obtain ⟨last, hlast, rfl⟩ := map_eq_some_iff.mp htail
    have hend := hrange.getLast hlast
    rw [foldl_cons]
    by_cases hcovered : e.seq ≤ last.seq
    · have hsame : c.appendLive e = c := by
        rw [appendLive, htail]
        exact if_pos hcovered
      rw [hsame]
      refine ih hrange htail hordered.tail fun d hd => ?_
      rcases hjoins d (mem_cons_of_mem _ hd) with hpage | ⟨d', hd', hnext⟩ | ⟨hno, -⟩
      · exact inl hpage
      · rcases mem_cons.mp hd' with rfl | hd'
        · exact inl ⟨_, rfl, by omega⟩
        · exact inr (inl ⟨d', hd', hnext⟩)
      · cases hno
    · -- the first event past the window's end is the next one
      have hseq : e.seq = last.seq + 1 := by
        rcases hjoins e mem_cons_self with ⟨t, ht, hle⟩ | ⟨d, hd, hnext⟩ | ⟨hno, -⟩
        · cases ht
          omega
        · rcases mem_cons.mp hd with rfl | hd
          · omega
          · have := hlater d hd
            omega
        · cases hno
      have happended : c.appendLive e = { c with events := c.events ++ [e] } := by
        rw [appendLive, htail]
        exact if_neg hcovered
      rw [happended]
      refine ih (c := { c with events := c.events ++ [e] })
        (hrange.concat (by omega) (hordered.logged e mem_cons_self))
        (show _ = some e.seq from ?_) hordered.tail fun d hd => ?_
      · rw [windowTailSeq, getLast?_concat]
        rfl
      · have hd' := hlater d hd
        rcases hjoins d (mem_cons_of_mem _ hd) with ⟨t, ht, hle⟩ | ⟨d', hmem, hnext⟩ | ⟨hno, -⟩
        · cases ht
          exact inl ⟨_, rfl, by omega⟩
        · rcases mem_cons.mp hmem with rfl | hmem
          · exact inl ⟨_, rfl, by omega⟩
          · exact inr (inl ⟨d', hmem, hnext⟩)
        · cases hno

/-- **Installing a page that joins the buffer** gives a range, from the page's first event on. -/
theorem installWindow_range {cut : Nat} {page : List (LogEvent ε)} (hpage : Range log cut page)
    (hordered : Ordered log c.liveBuffer)
    (hjoins : Joins (page.getLast?.map seq) c.liveBuffer) (hasMore : Bool) :
    ∃ first, Range log first (c.installWindow page hasMore).events ∧ (page ≠ [] → first = cut) := by
  rw [installWindow]
  set installed : ClientSession ε :=
    { c with events := page, baseSeq := (page.head?.map seq).getD 0, hasMore, liveBuffer := [] }
  cases hlast : page.getLast? with
  | some last =>
    rw [hlast] at hjoins
    have htail : installed.windowTailSeq = some last.seq := by
      show page.getLast?.map seq = _
      rw [hlast]
      rfl
    exact ⟨cut, stitch_range hpage htail hordered hjoins, fun _ => rfl⟩
  | none =>
    obtain rfl := getLast?_eq_none_iff.mp hlast
    rw [hlast] at hjoins
    refine ⟨(c.liveBuffer.head?.map seq).getD 0, ?_, fun hne => absurd rfl hne⟩
    cases hbuffer : c.liveBuffer with
    | nil => trivial
    | cons e buffer =>
      -- the first buffered event is appended to nothing
      rw [hbuffer] at hordered hjoins
      have hfirst : installed.appendLive e = { installed with events := [e] } := rfl
      rw [foldl_cons, hfirst]
      refine stitch_range (c := { installed with events := [e] })
        ⟨rfl, hordered.logged e mem_cons_self, trivial⟩ (show _ = some e.seq from rfl)
        hordered.tail fun d hd => ?_
      have hlater := (pairwise_cons.mp hordered.sorted).1 d hd
      rcases hjoins d (mem_cons_of_mem _ hd) with ⟨t, ht, -⟩ | ⟨d', hmem, hnext⟩ | ⟨-, hhead⟩
      · cases ht
      · rcases mem_cons.mp hmem with rfl | hmem
        · exact inl ⟨_, rfl, by omega⟩
        · exact inr (inl ⟨d', hmem, hnext⟩)
      · cases hhead
        exact absurd hlater (Nat.lt_irrefl _)

end ClientSession

/-! ## Runs -/

namespace SessionWindow

open ClientSession

variable {s s' : SessionWindow ε}

def Installs (c : ClientSession ε) : RequestKind → Prop
  | .firstPage generation => generation = c.openGeneration
  | .secondPage generation => generation = c.openGeneration
  | .repair generation => generation = c.openGeneration ∧ c.openState = .«open»
  | .older _ => False

instance (c : ClientSession ε) (kind : RequestKind) : Decidable (Installs c kind) :=
  match kind with
  | .firstPage _ => inferInstanceAs (Decidable (_ = _))
  | .secondPage _ => inferInstanceAs (Decidable (_ = _))
  | .repair _ => inferInstanceAs (Decidable (_ ∧ _))
  | .older _ => inferInstanceAs (Decidable False)

def PageJoins (s : SessionWindow ε) : Action ε → Prop
  | .respond i (.page shown cut) => ∀ request ∈ s.requests[i]?, Installs s.client request.kind →
      Joins ((pageEvents s.host shown shown cut).getLast?.map LogEvent.seq) s.client.liveBuffer
  | _ => True

instance [DecidableEq ε] (s : SessionWindow ε) (a : Action ε) : Decidable (s.PageJoins a) :=
  match a with
  | .respond _ (.page _ _) => inferInstanceAs (Decidable (∀ request ∈ _, Installs _ _ → Joins _ _))
  | .respond _ .refused | .respond _ .thrown | .grow _ | .subscribed _ | .event | .«open» | .loadOlder
  | .resync => inferInstanceAs (Decidable True)

/-- The window is a range that starts with the base; the buffer has events of the log in order. -/
structure Contiguous (s : SessionWindow ε) : Prop where
  window : ∃ first, Range s.host first s.client.events
    ∧ (s.client.baseSeq = 0 ∨ s.client.events ≠ [] ∧ s.client.baseSeq = first)
  buffer : Ordered s.host s.client.liveBuffer
  delivered : ∀ e ∈ s.client.liveBuffer, ∃ n, s.next = some n ∧ e.seq < n

theorem Contiguous.flags (h : s.Contiguous) (hhost : s'.host = s.host) (hnext : s'.next = s.next)
    (hevents : s'.client.events = s.client.events) (hbase : s'.client.baseSeq = s.client.baseSeq)
    (hbuffer : s'.client.liveBuffer = s.client.liveBuffer) : s'.Contiguous where
  window := by rw [hhost, hevents, hbase]; exact h.window
  buffer := by rw [hhost, hbuffer]; exact h.buffer
  delivered := by rw [hnext, hbuffer]; exact h.delivered

/-- **Installing** a page that joins the buffer. -/
theorem Contiguous.install (h : s.Contiguous) {cut shown : Nat}
    (hjoins : Joins ((pageEvents s.host shown shown cut).getLast?.map seq) s.client.liveBuffer)
    (hhost : s'.host = s.host)
    (hevents : s'.client.events
      = (s.client.installWindow (pageEvents s.host shown shown cut) (pageHasMore cut)).events)
    (hbase : s'.client.baseSeq = ((pageEvents s.host shown shown cut).head?.map seq).getD 0)
    (hbuffer : s'.client.liveBuffer = []) : s'.Contiguous := by
  have hpage := pageEvents_range s.host shown shown cut
  obtain ⟨first, hrange, hfirst⟩ := installWindow_range hpage h.buffer hjoins (pageHasMore cut)
  refine ⟨⟨first, by rw [hhost, hevents]; exact hrange, ?_⟩, ?_, ?_⟩
  · rw [hbase, hevents]
    cases hhead : (pageEvents s.host shown shown cut).head? with
    | none => exact inl rfl
    | some e =>
      have hne : pageEvents s.host shown shown cut ≠ [] := by
        intro hnil
        rw [hnil] at hhead
        cases hhead
      refine inr ⟨?_, ?_⟩
      · intro hnil
        have hpre := installWindow_hasPrefix s.client (pageEvents s.host shown shown cut) (pageHasMore cut)
        rw [hnil, prefix_nil] at hpre
        exact hne hpre
      · rw [hfirst hne, map_some, getD_some]
        exact hpage.head hhead
  · rw [hhost, hbuffer]
    exact ⟨forall_mem_nil _, Pairwise.nil⟩
  · rw [hbuffer]
    exact forall_mem_nil _

/-- **A live event.** -/
theorem Contiguous.accept (h : s.Contiguous) (hbody : s.host[e.seq]? = some e.body) (hnext : s.next = some e.seq) :
    (acceptLiveEvent { s with next := some (e.seq + 1) } e).Contiguous := by
  have hlater : ∀ d ∈ s.client.liveBuffer, d.seq < e.seq := by
    intro d hd
    obtain ⟨n, hn, hlt⟩ := h.delivered d hd
    cases hn.symm.trans hnext
    exact hlt
  have hbuffered : ∀ s' : SessionWindow ε, s'.host = s.host → s'.next = some (e.seq + 1) →
      s'.client.events = s.client.events → s'.client.baseSeq = s.client.baseSeq →
      s'.client.liveBuffer = s.client.liveBuffer ++ [e] → s'.Contiguous := by
    intro s' hhost hnext' hevents hbase hbuffer
    refine ⟨by rw [hhost, hevents, hbase]; exact h.window, ?_, ?_⟩
    · rw [hhost, hbuffer]
      refine ⟨fun d hd => ?_, pairwise_append.mpr ⟨h.buffer.sorted, pairwise_singleton _ _, ?_⟩⟩
      · rcases mem_append.mp hd with hd | hd
        · exact h.buffer.logged d hd
        · obtain rfl := mem_singleton.mp hd
          exact hbody
      · intro d hd d' hd'
        obtain rfl := mem_singleton.mp hd'
        exact hlater d hd
    · rw [hbuffer, hnext']
      intro d hd
      refine ⟨_, rfl, ?_⟩
      rcases mem_append.mp hd with hd | hd
      · exact Nat.lt_succ_of_lt (hlater d hd)
      · obtain rfl := mem_singleton.mp hd
        exact Nat.lt_succ_self _
  have hdelivered : ∀ d ∈ s.client.liveBuffer, ∃ n, some (e.seq + 1) = some n ∧ d.seq < n :=
    fun d hd => ⟨_, rfl, Nat.lt_succ_of_lt (hlater d hd)⟩
  unfold acceptLiveEvent
  dsimp only
  split
  · exact hbuffered _ rfl rfl rfl rfl rfl
  · split
    · exact ⟨h.window, h.buffer, hdelivered⟩
    · split
      · exact hbuffered _ rfl rfl rfl rfl rfl
      · -- no gap: the event is covered, or it is the next one
        next hnogap =>
        obtain ⟨first, hrange, hbase⟩ := h.window
        rw [appendLive_eq]
        refine ⟨?_, h.buffer, hdelivered⟩
        dsimp only
        cases htail : s.client.windowTailSeq with
        | none =>
          have hnil : s.client.events = [] := getLast?_eq_none_iff.mp (map_eq_none_iff.mp htail)
          have happend : (s.client.appendLive e).events = [e] := by
            rw [appendLive, htail, hnil]
            rfl
          rw [happend]
          refine ⟨e.seq, ⟨rfl, hbody, trivial⟩, ?_⟩
          rcases hbase with hzero | ⟨hne, -⟩
          · exact inl hzero
          · exact absurd hnil hne
        | some tail =>
          obtain ⟨last, hlast, rfl⟩ := map_eq_some_iff.mp htail
          have hend := hrange.getLast hlast
          rw [htail] at hnogap
          simp only [any_some, decide_eq_true_eq, not_lt] at hnogap
          by_cases hcovered : e.seq ≤ last.seq
          · have hsame : s.client.appendLive e = s.client := by
              rw [appendLive, htail]
              exact if_pos hcovered
            rw [hsame]
            exact ⟨first, hrange, hbase⟩
          · have happend : (s.client.appendLive e).events = s.client.events ++ [e] := by
              rw [appendLive, htail]
              show (if e.seq ≤ last.seq then s.client else _).events = _
              rw [if_neg hcovered]
            rw [happend]
            refine ⟨first, hrange.concat (by omega) hbody, hbase.imp_right fun hfirst => ⟨?_, hfirst.2⟩⟩
            exact append_ne_nil_of_right_ne_nil _ (cons_ne_nil _ _)

/-- **An older page**: it is put in front where it ends right before the window. -/
theorem Contiguous.older (h : s.Contiguous) (beforeSeq : Nat) (answer : Answer) :
    (s.older beforeSeq answer).Contiguous := by
  cases answer with
  | refused | thrown => exact h.flags rfl rfl rfl rfl rfl
  | page shown cut =>
    have hpage := pageEvents_range s.host beforeSeq shown cut
    unfold SessionWindow.older
    dsimp only
    split
    · exact h.flags rfl rfl rfl rfl rfl
    · next tail htail =>
      split
      · exact h.flags rfl rfl rfl rfl rfl
      · next hmeets =>
        rw [not_not] at hmeets
        obtain ⟨first, hrange, hbase⟩ := h.window
        have hend := hpage.getLast htail
        obtain ⟨hne, hfirst⟩ := hbase.resolve_left (by omega)
        refine ⟨⟨cut, ?_, inr ⟨append_ne_nil_of_right_ne_nil _ hne, ?_⟩⟩, h.buffer, h.delivered⟩
        · refine Range.append.mpr ⟨hpage, ?_⟩
          rwa [← hend, hmeets, hfirst]
        · cases hhead : (pageEvents s.host beforeSeq shown cut).head? with
          | none =>
            rw [head?_eq_none_iff] at hhead
            rw [hhead] at htail
            cases htail
          | some e => exact hpage.head hhead

/-- **The step lemma.** -/
theorem Contiguous.step (h : s.Contiguous) {a : Action ε} (hjoins : s.PageJoins a)
    (hstep : s.step a = some s') : s'.Contiguous := by
  cases a with
  | grow body =>
    cases hstep
    obtain ⟨first, hrange, hbase⟩ := h.window
    exact ⟨⟨first, hrange.grow body, hbase⟩, h.buffer.grow body, h.delivered⟩
  | subscribed length =>
    rw [SessionWindow.step] at hstep
    split at hstep
    · next hlength =>
      cases hstep
      refine ⟨h.window, h.buffer, fun e he => ⟨length, rfl, ?_⟩⟩
      obtain ⟨n, hn, hlt⟩ := h.delivered e he
      have hle := hlength.1
      rw [hn, getD_some] at hle
      omega
    · cases hstep
  | event =>
    obtain ⟨seq, hseq, hdeliver⟩ := bind_eq_some_iff.mp hstep
    obtain ⟨body, hbody, rfl⟩ := map_eq_some_iff.mp hdeliver
    exact h.accept (e := ⟨seq, body⟩) hbody hseq
  | «open» =>
    cases hstep
    unfold SessionWindow.«open»
    split
    · exact h
    · exact h.flags rfl rfl rfl rfl rfl
  | loadOlder =>
    cases hstep
    unfold loadOlder
    split
    · exact h
    · exact h.flags rfl rfl rfl rfl rfl
  | resync =>
    cases hstep
    have hempty : ∀ s' : SessionWindow ε, s'.client.events = [] → s'.client.baseSeq = 0 →
        s'.client.liveBuffer = [] → s'.Contiguous := by
      intro s' hevents hbase hbuffer
      refine ⟨⟨0, by rw [hevents]; trivial, inl hbase⟩, ?_, ?_⟩
      · rw [hbuffer]
        exact ⟨forall_mem_nil _, Pairwise.nil⟩
      · rw [hbuffer]
        exact forall_mem_nil _
    unfold resync
    split
    · exact h
    · unfold SessionWindow.«open»
      split <;> exact hempty _ rfl rfl rfl
  | respond i answer =>
    obtain ⟨request, hrequest, hanswer⟩ := bind_eq_some_iff.mp hstep
    split at hanswer
    · cases hanswer
      have hrest : Contiguous { s with requests := s.requests.eraseIdx i } :=
        h.flags rfl rfl rfl rfl rfl
      obtain ⟨kind, since⟩ := request
      have hinstall : ∀ shown cut, answer = .page shown cut → Installs s.client kind →
          Joins ((pageEvents s.host shown shown cut).getLast?.map seq) s.client.liveBuffer := by
        rintro shown cut rfl hinstalls
        exact hjoins _ hrequest hinstalls
      cases kind with
      | firstPage generation =>
        dsimp only [answered]
        split
        · exact hrest
        · next hcurrent =>
          rw [not_not] at hcurrent
          cases answer with
          | refused | thrown => exact h.flags rfl rfl rfl rfl rfl
          | page shown cut =>
            have hpage := hinstall shown cut rfl hcurrent
            have heq := installWindow_eq s.client (pageEvents s.host shown shown cut) (pageHasMore cut)
            dsimp only [firstPage]
            split
            · refine hrest.install hpage rfl rfl ?_ ?_
              · exact congrArg baseSeq heq
              · exact congrArg liveBuffer heq
            · refine hrest.install hpage rfl rfl ?_ ?_
              · exact congrArg baseSeq heq
              · exact congrArg liveBuffer heq
      | secondPage generation =>
        dsimp only [answered]
        split
        · exact hrest
        · next hcurrent =>
          rw [not_not] at hcurrent
          cases answer with
          | refused | thrown => exact h.flags rfl rfl rfl rfl rfl
          | page shown cut =>
            have heq := installWindow_eq s.client (pageEvents s.host shown shown cut) (pageHasMore cut)
            exact hrest.install (hinstall shown cut rfl hcurrent) rfl rfl (congrArg baseSeq heq)
              (congrArg liveBuffer heq)
      | repair generation =>
        cases answer with
        | refused | thrown => exact h.flags rfl rfl rfl rfl rfl
        | page shown cut =>
          have heq := installWindow_eq s.client (pageEvents s.host shown shown cut) (pageHasMore cut)
          dsimp only [answered, repaired]
          split
          · next hcurrent =>
            exact hrest.install (hinstall shown cut rfl hcurrent) rfl rfl (congrArg baseSeq heq)
              (congrArg liveBuffer heq)
          · exact h.flags rfl rfl rfl rfl rfl
      | older beforeSeq => exact hrest.older beforeSeq answer
    · cases hanswer

theorem Contiguous.start : ({} : SessionWindow ε).Contiguous where
  window := ⟨0, trivial, inl rfl⟩
  buffer := ⟨forall_mem_nil _, Pairwise.nil⟩
  delivered := forall_mem_nil _

/-- **The window is contiguous where pages join** the live events buffered when they are installed. -/
theorem window_contiguous {actions : List (Action ε)} (hrun : Machine.exec SessionWindow.step {} actions = some s)
    (hjoins : Machine.Along SessionWindow.step PageJoins {} actions) :
    s.client.events <:+: hostEvents s.host := by
  have hcontiguous := Machine.exec_invariant_along
    (fun s a s' h hpage hstep => Contiguous.step (s := s) h hpage hstep) .start hrun hjoins
  obtain ⟨first, hrange, -⟩ := hcontiguous.window
  exact hrange.isInfix

/-- A second event is logged before the mux subscription, and a third is delivered before the page lands. -/
def overtaken : List (Action Char) :=
  [.grow 'a', .«open», .grow 'b', .subscribed 2, .grow 'c', .event, .respond 0 (.page 1 0)]

/-- The window has the first and the third event: the baseline's event is not past its tail. -/
theorem overtaken_leaves_hole : ¬ ∀ s : SessionWindow Char, Reachable s → s.client.events <:+: hostEvents s.host := by
  intro hall
  obtain ⟨s, hs⟩ := isSome_iff_exists.mp
    (show (Machine.exec SessionWindow.step {} overtaken).isSome = true by decide)
  have hwindow : (Machine.exec SessionWindow.step {} overtaken).map
      (fun s => (s.client.events, hostEvents s.host, s.client.openState))
      = some ([⟨0, 'a'⟩, ⟨2, 'c'⟩], [⟨0, 'a'⟩, ⟨1, 'b'⟩, ⟨2, 'c'⟩], .«open») := by decide
  have hreached : Reachable s := Machine.exec_invariant (fun a _ _ _ hs hstep => .step a hs hstep) .start hs
  have hinfix := hall s hreached
  rw [hs, map_some, Option.some.injEq, Prod.mk.injEq, Prod.mk.injEq] at hwindow
  rw [hwindow.1, hwindow.2.1] at hinfix
  revert hinfix
  decide

/-- An open whose page arrives in time, a live event, and a gap that is repaired. -/
def inTime : List (Action Char) :=
  [.grow 'a', .«open», .respond 0 (.page 1 0), .subscribed 1, .grow 'b', .event, .grow 'c', .subscribed 3,
    .grow 'd', .event, .respond 0 (.page 4 1)]

theorem window_contiguous_inTime : ∃ s, Machine.exec SessionWindow.step {} inTime = some s ∧ s.client.events.length = 3
      ∧ s.client.events <:+: hostEvents s.host := by
  obtain ⟨s, hs⟩ := isSome_iff_exists.mp
    (show (Machine.exec SessionWindow.step {} inTime).isSome = true by decide)
  have hlength : (Machine.exec SessionWindow.step {} inTime).map (fun s => s.client.events.length)
      = some 3 := by decide
  rw [hs] at hlength
  exact ⟨s, hs, Option.some.inj hlength, window_contiguous hs (by decide)⟩

end SessionWindow

end CocoHarness.Client
