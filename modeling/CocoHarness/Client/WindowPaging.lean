/-
# CocoHarness.Client.WindowPaging — when older history stays reachable.

While the window does not start with the log, the session has to know that there is more: paging up is the only way
back.

Two things lose it.  A page of older events may land in a window that has another base than the one it was asked for;
it does not join the window, and the session gives up paging for good.  And an empty window takes any event as its
first.
-/
import CocoHarness.Client.WindowContiguity

namespace CocoHarness.Client

open Lib List Option Nat Or SessionWindow

variable {ε : Type} {log : List ε}

theorem pageEvents_head (before : Nat) {shown cut : Nat} (hshown : shown ≤ log.length)
    (hcut : cut < min before shown) :
    ∃ e, (pageEvents log before shown cut).head? = some e ∧ e.seq = cut := by
  have hlength := pageEvents_length before cut hshown
  cases hhead : (pageEvents log before shown cut).head? with
  | none =>
    rw [head?_eq_none_iff] at hhead
    rw [hhead, length_nil] at hlength
    omega
  | some e => exact ⟨e, rfl, (pageEvents_range log before shown cut).head hhead⟩

theorem pageEvents_nil (log : List ε) (before cut : Nat) : pageEvents log before 0 cut = [] := by
  rw [pageEvents, Nat.min_zero, take_zero, drop_nil]

namespace ClientSession

variable {c : ClientSession ε}

theorem installWindow_head (c : ClientSession ε) (page : List (LogEvent ε)) (hasMore : Bool) :
    (c.installWindow page hasMore).events.head? = page.head?.or c.liveBuffer.head? := by
  cases page with
  | cons e page =>
    obtain ⟨later, hlater⟩ := installWindow_hasPrefix c (e :: page) hasMore
    rw [← hlater]
    rfl
  | nil =>
    rw [installWindow]
    cases c.liveBuffer with
    | nil => rfl
    | cons e buffer =>
      rw [foldl_cons]
      obtain ⟨later, hlater⟩ := foldl_appendLive_hasPrefix
        (appendLive { c with events := [], baseSeq := 0, hasMore, liveBuffer := [] } e) buffer
      rw [show ((([] : List (LogEvent ε)).head?.map LogEvent.seq).getD 0) = 0 from rfl, ← hlater]
      rfl

theorem appendLive_head (e : LogEvent ε) :
    (c.appendLive e).events.head? = c.events.head?.or (some e) ∨ (c.appendLive e).events = c.events := by
  unfold appendLive
  split
  · split
    · exact inr rfl
    · exact inl head?_append
  · exact inl head?_append

end ClientSession

namespace SessionWindow

open ClientSession

variable {s s' : SessionWindow ε}

/-- The action keeps paging: an older page lands in a window with its own base, or in one that starts with the log;
and an empty window takes the first event as its first. -/
def KeepsPaging (s : SessionWindow ε) : Action ε → Prop
  | .event => s.client.openState = .«open» ∧ s.client.stitching = false ∧ s.client.events = [] →
      ∀ seq ∈ s.next, seq = 0
  | .respond i (.page shown _) => ∀ request ∈ s.requests[i]?,
      (∀ beforeSeq, request.kind = .older beforeSeq → s.client.baseSeq ≠ 0 → beforeSeq = s.client.baseSeq)
      ∧ (Installs s.client request.kind → shown = 0 → ∀ e ∈ s.client.liveBuffer.head?, e.seq = 0)
  | _ => True

instance [DecidableEq ε] (s : SessionWindow ε) (a : Action ε) : Decidable (s.KeepsPaging a) :=
  match a with
  | .event => inferInstanceAs (Decidable (_ ∧ _ ∧ _ → ∀ seq ∈ s.next, seq = 0))
  | .respond i (.page shown _) =>
    let asked : ∀ kind : RequestKind, Decidable (∀ beforeSeq, kind = .older beforeSeq →
        s.client.baseSeq ≠ 0 → beforeSeq = s.client.baseSeq)
      | .older beforeSeq => decidable_of_iff (s.client.baseSeq ≠ 0 → beforeSeq = s.client.baseSeq)
          ⟨fun h _ heq => RequestKind.older.inj heq ▸ h, fun h => h beforeSeq rfl⟩
      | .firstPage _ | .secondPage _ | .repair _ => isTrue fun _ hno => by cases hno
    have : ∀ request : Request, Decidable (∀ beforeSeq, request.kind = .older beforeSeq →
        s.client.baseSeq ≠ 0 → beforeSeq = s.client.baseSeq) := fun request => asked request.kind
    inferInstanceAs (Decidable (∀ request ∈ s.requests[i]?,
      (∀ beforeSeq, request.kind = .older beforeSeq → s.client.baseSeq ≠ 0 → beforeSeq = s.client.baseSeq)
      ∧ (Installs s.client request.kind → shown = 0 → ∀ e ∈ s.client.liveBuffer.head?, e.seq = 0)))
  | .respond _ .refused | .respond _ .thrown | .grow _ | .subscribed _ | .«open» | .loadOlder | .resync =>
    inferInstanceAs (Decidable True)

/-- The base is the first sequence number, and past the beginning there is more. -/
structure Paged (s : SessionWindow ε) : Prop where
  base_le : s.client.baseSeq ≤ s.host.length
  head : ∀ e ∈ s.client.events.head?, e.seq = s.client.baseSeq
  empty : s.client.events = [] → s.client.baseSeq = 0
  more : s.client.baseSeq ≠ 0 → s.client.hasMore = true
  asked : ∀ request ∈ s.requests, ∀ beforeSeq, request.kind = .older beforeSeq → beforeSeq ≤ request.since

theorem Paged.flags (h : s.Paged) (hhost : s.host.length ≤ s'.host.length)
    (hevents : s'.client.events = s.client.events) (hbase : s'.client.baseSeq = s.client.baseSeq)
    (hmore : s'.client.hasMore = s.client.hasMore)
    (hrequests : ∀ request ∈ s'.requests, request ∈ s.requests ∨
      ∀ beforeSeq, request.kind = .older beforeSeq → beforeSeq ≤ request.since) : s'.Paged where
  base_le := by
    rw [hbase]
    exact h.base_le.trans hhost
  head := by
    rw [hevents, hbase]
    exact h.head
  empty := by
    rw [hevents, hbase]
    exact h.empty
  more := by
    rw [hbase, hmore]
    exact h.more
  asked := fun request hrequest => (hrequests request hrequest).elim (h.asked request) id

/-- **Installing** a page the host can give; after an empty one the buffer starts with the log. -/
theorem Paged.install (h : s.Paged) {shown cut : Nat} (hshown : shown ≤ s.host.length)
    (hcut : cut < shown ∨ shown = 0 ∧ cut = 0)
    (hempty : shown = 0 → ∀ e ∈ s.client.liveBuffer.head?, e.seq = 0)
    (hhost : s'.host = s.host)
    (hevents : s'.client.events
      = (s.client.installWindow (pageEvents s.host shown shown cut) (pageHasMore cut)).events)
    (hbase : s'.client.baseSeq = ((pageEvents s.host shown shown cut).head?.map LogEvent.seq).getD 0)
    (hmore : s'.client.hasMore = pageHasMore cut)
    (hrequests : ∀ request ∈ s'.requests, request ∈ s.requests ∨
      ∀ beforeSeq, request.kind = .older beforeSeq → beforeSeq ≤ request.since) : s'.Paged := by
  have hhead := installWindow_head s.client (pageEvents s.host shown shown cut) (pageHasMore cut)
  rw [← hevents] at hhead
  have hasked : ∀ request ∈ s'.requests, ∀ beforeSeq, request.kind = .older beforeSeq → beforeSeq ≤ request.since :=
    fun request hrequest => (hrequests request hrequest).elim (h.asked request) id
  rcases hcut with hcut | ⟨rfl, rfl⟩
  · obtain ⟨first, hfirst, hseq⟩ := pageEvents_head shown hshown (by rwa [min_self])
    rw [hfirst, some_or] at hhead
    rw [hfirst, map_some, getD_some, hseq] at hbase
    refine ⟨by rw [hbase, hhost]; omega, ?_, ?_, ?_, hasked⟩
    · intro e he
      cases hhead.symm.trans he
      rw [hseq, hbase]
    · intro hnil
      rw [hnil] at hhead
      cases hhead
    · intro hpast
      rw [hmore]
      exact decide_eq_true (by omega)
  · rw [pageEvents_nil, head?_nil, none_or] at hhead
    rw [pageEvents_nil] at hbase
    refine ⟨by rw [hbase]; exact zero_le _, ?_, fun _ => hbase, fun hpast => absurd hbase hpast, hasked⟩
    intro e he
    rw [hhead] at he
    rw [hempty rfl e he, hbase]
    rfl

variable {e : LogEvent ε}

/-- **A live event.** -/
theorem Paged.accept (h : s.Paged) (next : Option Nat)
    (hfirst : s.client.openState = .«open» ∧ s.client.stitching = false ∧ s.client.events = [] → e.seq = 0) :
    (acceptLiveEvent { s with next } e).Paged := by
  unfold acceptLiveEvent
  dsimp only
  split
  · exact h.flags (le_refl _) rfl rfl rfl fun _ => inl
  · next hnotbuffered =>
    rw [not_or, Bool.not_eq_true] at hnotbuffered
    split
    · exact h.flags (le_refl _) rfl rfl rfl fun _ => inl
    · next hopen =>
      rw [not_not] at hopen
      split
      · refine h.flags (le_refl _) rfl rfl rfl fun request hrequest => ?_
        refine (mem_append.mp hrequest).imp id fun hnew beforeSeq holder => ?_
        obtain rfl := mem_singleton.mp hnew
        cases holder
      · rw [appendLive_eq]
        rcases appendLive_head (c := s.client) e with hhead | hsame
        · refine ⟨h.base_le, ?_, ?_, h.more, h.asked⟩
          · -- the first event stays, or the window was empty
            intro d hd
            change d ∈ (s.client.appendLive e).events.head? at hd
            rw [hhead] at hd
            cases hevents : s.client.events with
            | nil =>
              rw [hevents, head?_nil, none_or] at hd
              cases hd
              rw [hfirst ⟨hopen, hnotbuffered.2, hevents⟩]
              exact (h.empty hevents).symm
            | cons first rest =>
              rw [hevents, head?_cons, some_or] at hd
              exact h.head d (by rw [hevents, head?_cons]; exact hd)
          · intro hnil
            change (s.client.appendLive e).events = [] at hnil
            rw [hnil, head?_nil, eq_comm, or_eq_none_iff] at hhead
            cases hhead.2
        · rw [hsame]
          exact h.flags (le_refl _) rfl rfl rfl fun _ => inl

/-- **An older page** that was asked for before the window's base, or lands in a window without one. -/
theorem Paged.older (h : s.Paged) {beforeSeq since : Nat} {answer : Answer}
    (hanswer : s.Answerable ⟨.older beforeSeq, since⟩ answer) (hasked : beforeSeq ≤ since)
    (hbase : ∀ shown cut, answer = .page shown cut → s.client.baseSeq ≠ 0 → beforeSeq = s.client.baseSeq) :
    (s.older beforeSeq answer).Paged := by
  cases answer with
  | refused | thrown => exact h.flags (le_refl _) rfl rfl rfl fun _ => inl
  | page shown cut =>
    obtain ⟨hsince, hshown, hcut⟩ := hanswer
    have hmin : min beforeSeq shown = beforeSeq := min_eq_left (hasked.trans hsince)
    rw [show RequestKind.before shown (.older beforeSeq) = min beforeSeq shown from rfl, hmin] at hcut
    have hlength := pageEvents_length beforeSeq cut hshown
    rw [hmin] at hlength
    have hbase' := hbase shown cut rfl
    unfold SessionWindow.older
    dsimp only
    split
    · next hlast =>
      -- nothing comes before the base: it is the beginning of the log
      rw [getLast?_eq_none_iff.mp hlast, length_nil] at hlength
      refine ⟨h.base_le, h.head, h.empty, fun hpast => ?_, h.asked⟩
      have hsame := hbase' hpast
      change s.client.baseSeq ≠ 0 at hpast
      omega
    · next tail hlast =>
      have hend := (pageEvents_range s.host beforeSeq shown cut).getLast hlast
      have hcut' : cut < beforeSeq := by
        refine hcut.resolve_right fun hzero => ?_
        have hnil : (pageEvents s.host beforeSeq shown cut).length = 0 := by omega
        rw [length_eq_zero_iff.mp hnil] at hlast
        cases hlast
      split
      · next hmisses =>
        refine ⟨h.base_le, h.head, h.empty, fun hpast => ?_, h.asked⟩
        have hsame := hbase' hpast
        exact absurd (by omega) hmisses
      · obtain ⟨first, hfirst, hseq⟩ := pageEvents_head beforeSeq hshown (by rwa [hmin])
        have hnew : ((pageEvents s.host beforeSeq shown cut).head?.map LogEvent.seq).getD s.client.baseSeq = cut := by
          rw [hfirst, map_some, getD_some, hseq]
        refine ⟨?_, ?_, ?_, ?_, h.asked⟩
        · exact hnew.trans_le (hcut'.le.trans ((hasked.trans hsince).trans hshown))
        · intro e he
          change e ∈ (pageEvents s.host beforeSeq shown cut ++ s.client.events).head? at he
          rw [head?_append, hfirst, some_or] at he
          cases he
          exact hseq.trans hnew.symm
        · intro hnil
          rw [(append_eq_nil_iff.mp hnil).1] at hfirst
          cases hfirst
        · intro hpast
          refine decide_eq_true (Nat.pos_of_ne_zero fun hzero => hpast ?_)
          rw [← hzero]
          exact hnew

/-- **The step lemma.** -/
theorem Paged.step (h : s.Paged) {a : Action ε} (hkeeps : s.KeepsPaging a)
    (hstep : s.step a = some s') : s'.Paged := by
  cases a with
  | grow body =>
    cases hstep
    refine h.flags ?_ rfl rfl rfl fun _ => inl
    rw [length_append]
    exact le_add_right _ _
  | subscribed length =>
    rw [SessionWindow.step] at hstep
    split at hstep
    · cases hstep
      exact h.flags (le_refl _) rfl rfl rfl fun _ => inl
    · cases hstep
  | event =>
    obtain ⟨seq, hseq, hdeliver⟩ := bind_eq_some_iff.mp hstep
    obtain ⟨body, -, rfl⟩ := map_eq_some_iff.mp hdeliver
    exact h.accept _ fun hfirst => hkeeps hfirst seq hseq
  | «open» =>
    cases hstep
    unfold SessionWindow.«open»
    split
    · exact h
    · refine h.flags (le_refl _) rfl rfl rfl fun request hrequest => ?_
      refine (mem_append.mp hrequest).imp id fun hnew beforeSeq holder => ?_
      obtain rfl := mem_singleton.mp hnew
      cases holder
  | loadOlder =>
    cases hstep
    unfold loadOlder
    split
    · exact h
    · refine h.flags (le_refl _) rfl rfl rfl fun request hrequest => ?_
      refine (mem_append.mp hrequest).imp id fun hnew beforeSeq holder => ?_
      obtain rfl := mem_singleton.mp hnew
      obtain rfl := RequestKind.older.inj holder
      exact h.base_le
  | resync =>
    cases hstep
    unfold resync
    split
    · exact h
    · unfold SessionWindow.«open»
      split
      · exact ⟨zero_le _, fun _ hno => (by cases hno), fun _ => rfl, fun hpast => absurd rfl hpast, h.asked⟩
      · refine ⟨zero_le _, fun _ hno => (by cases hno), fun _ => rfl, fun hpast => absurd rfl hpast, ?_⟩
        intro request hrequest beforeSeq holder
        rcases mem_append.mp hrequest with hold | hnew
        · exact h.asked request hold beforeSeq holder
        · obtain rfl := mem_singleton.mp hnew
          cases holder
  | respond i answer =>
    obtain ⟨request, hrequest, hanswer⟩ := bind_eq_some_iff.mp hstep
    split at hanswer
    · next hanswerable =>
      cases hanswer
      have herase : ∀ r ∈ s.requests.eraseIdx i, r ∈ s.requests :=
        fun r hr => (eraseIdx_sublist s.requests i).subset hr
      have hrest : Paged { s with requests := s.requests.eraseIdx i } :=
        h.flags (le_refl _) rfl rfl rfl fun r hr => inl (herase r hr)
      have hsince := h.asked request (mem_of_getElem? hrequest)
      obtain ⟨kind, since⟩ := request
      have hinstall : ∀ shown cut, answer = .page shown cut → Installs s.client kind →
          (∀ beforeSeq, kind ≠ .older beforeSeq) → shown ≤ s.host.length ∧ (cut < shown ∨ shown = 0 ∧ cut = 0)
            ∧ (shown = 0 → ∀ e ∈ s.client.liveBuffer.head?, e.seq = 0) := by
        rintro shown cut rfl hinstalls hkind
        obtain ⟨-, hshown, hcut⟩ := hanswerable
        refine ⟨hshown, ?_, (hkeeps _ hrequest).2 hinstalls⟩
        cases kind with
        | older beforeSeq => exact absurd rfl (hkind beforeSeq)
        | firstPage | secondPage | repair => exact hcut
      have heq := fun page hasMore => installWindow_eq s.client page hasMore
      cases kind with
      | firstPage generation =>
        dsimp only [answered]
        split
        · exact hrest
        · next hcurrent =>
          cases answer with
          | refused | thrown => exact hrest.flags (le_refl _) rfl rfl rfl fun _ => inl
          | page shown cut =>
            obtain ⟨hshown, hcut, hempty⟩ :=
              hinstall shown cut rfl (not_not.mp hcurrent) (fun _ hno => (by cases hno))
            dsimp only [firstPage]
            split
            · refine hrest.install hshown hcut hempty rfl rfl (congrArg baseSeq (heq _ _))
                (congrArg hasMore (heq _ _)) fun r hr => ?_
              refine (mem_append.mp hr).imp id fun hnew beforeSeq holder => ?_
              obtain rfl := mem_singleton.mp hnew
              cases holder
            · exact hrest.install hshown hcut hempty rfl rfl (congrArg baseSeq (heq _ _))
                (congrArg hasMore (heq _ _)) fun _ => inl
      | secondPage generation =>
        dsimp only [answered]
        split
        · exact hrest
        · next hcurrent =>
          cases answer with
          | refused | thrown => exact hrest.flags (le_refl _) rfl rfl rfl fun _ => inl
          | page shown cut =>
            obtain ⟨hshown, hcut, hempty⟩ :=
              hinstall shown cut rfl (not_not.mp hcurrent) (fun _ hno => (by cases hno))
            exact hrest.install hshown hcut hempty rfl rfl (congrArg baseSeq (heq _ _))
              (congrArg hasMore (heq _ _)) fun _ => inl
      | repair generation =>
        cases answer with
        | refused | thrown => exact hrest.flags (le_refl _) rfl rfl rfl fun _ => inl
        | page shown cut =>
          dsimp only [answered, repaired]
          split
          · next hcurrent =>
            obtain ⟨hshown, hcut, hempty⟩ := hinstall shown cut rfl hcurrent (fun _ hno => (by cases hno))
            exact hrest.install hshown hcut hempty rfl rfl (congrArg baseSeq (heq _ _))
              (congrArg hasMore (heq _ _)) fun _ => inl
          · exact hrest.flags (le_refl _) rfl rfl rfl fun _ => inl
      | older beforeSeq =>
        refine hrest.older hanswerable (hsince beforeSeq rfl) ?_
        rintro shown cut rfl hpast
        exact (hkeeps _ hrequest).1 beforeSeq rfl hpast
    · cases hanswer

theorem Paged.start : ({} : SessionWindow ε).Paged where
  base_le := le_refl _
  head := fun _ hno => (by cases hno)
  empty := fun _ => rfl
  more := fun hpast => absurd rfl hpast
  asked := forall_mem_nil _

/-- **Older history stays reachable where paging is kept**: a session whose window starts past the beginning of the
log has more. -/
theorem older_history_reachable {actions : List (Action ε)}
    (hrun : Machine.exec SessionWindow.step {} actions = some s)
    (hkeeps : Machine.Along SessionWindow.step KeepsPaging {} actions) (hfirst : s.client.events.head? = some e) (hpast : e.seq ≠ 0) :
    s.client.hasMore = true := by
  have hpaged := Machine.exec_invariant_along
    (fun s a s' h hkeep hstep => Paged.step (s := s) h hkeep hstep) .start hrun hkeeps
  refine hpaged.more ?_
  rwa [← hpaged.head e hfirst]

/-- A gap is repaired before an older page arrives, and the new window starts later. -/
def replaced : List (Action Char) :=
  [.grow 'a', .grow 'b', .grow 'c', .grow 'd', .«open», .respond 0 (.page 4 2), .loadOlder, .grow 'e',
    .subscribed 5, .grow 'f', .event, .respond 1 (.page 6 4), .respond 0 (.page 6 1)]

/-- The session is open, its window starts with the fifth event, and paging is given up. -/
theorem stale_page_drops_paging : ¬ ∀ s : SessionWindow Char, Reachable s → s.client.openState = .«open» →
      ∀ e ∈ s.client.events.head?, e.seq ≠ 0 → s.client.hasMore = true := by
  intro hall
  obtain ⟨s, hs⟩ := isSome_iff_exists.mp
    (show (Machine.exec SessionWindow.step {} replaced).isSome = true by decide)
  have hstate : (Machine.exec SessionWindow.step {} replaced).map
      (fun s => (s.client.openState, s.client.events.head?, s.client.hasMore))
      = some (.«open», some ⟨4, 'e'⟩, false) := by decide
  have hreached : Reachable s := Machine.exec_invariant (fun a _ _ _ hs hstep => .step a hs hstep) .start hs
  rw [hs, map_some, Option.some.injEq, Prod.mk.injEq, Prod.mk.injEq] at hstate
  obtain ⟨hopen, hhead, hmore⟩ := hstate
  have hpaging := hall s hreached hopen _ hhead (by decide)
  rw [hmore] at hpaging
  cases hpaging

def inTurn : List (Action Char) :=
  [.grow 'a', .grow 'b', .grow 'c', .grow 'd', .«open», .respond 0 (.page 4 2), .loadOlder,
    .respond 0 (.page 4 1), .grow 'e', .subscribed 5, .grow 'f', .event, .respond 0 (.page 6 4)]

theorem older_history_reachable_inTurn :
    ∃ s, Machine.exec SessionWindow.step {} inTurn = some s ∧ s.client.hasMore = true := by
  obtain ⟨s, hs⟩ := isSome_iff_exists.mp
    (show (Machine.exec SessionWindow.step {} inTurn).isSome = true by decide)
  have hhead : (Machine.exec SessionWindow.step {} inTurn).map (fun s => s.client.events.head?)
      = some (some ⟨4, 'e'⟩) := by decide
  rw [hs, map_some, Option.some.injEq] at hhead
  exact ⟨s, hs, older_history_reachable hs (by decide) hhead (by decide)⟩

end SessionWindow

end CocoHarness.Client
