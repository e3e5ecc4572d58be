/-
# CocoHarness.SessionQuery.Lineage — the ancestors and the descendants of a session.

Headers may name parents that are missing, or each other.  The walk up keeps what it has seen and throws at a session
it meets again; the walk down keeps nothing, and ends because the walk up has ended: what is below a session that is on
no cycle and below none has one way up to it.
-/
import Mathlib.Data.List.Nodup
import Mathlib.Data.List.Infix
import CocoHarness.Lib.Loop

namespace CocoHarness.SessionQuery

open Lib List

/-! ## The corpus -/

abbrev SessionId := String

structure SessionRecord where
  id : SessionId
  parentSession : Option SessionId
  createdAt : Int
  live : Bool
  persisted : Bool
  deriving DecidableEq

structure SessionCorpus where
  records : List SessionRecord
  nodup : (records.map SessionRecord.id).Nodup

def SessionCorpus.byId (corpus : SessionCorpus) (id : SessionId) : Option SessionRecord :=
  corpus.records.find? (·.id = id)

variable (localeCompare : SessionId → SessionId → Int)

/-- `a.createdAt - b.createdAt || a.id.localeCompare(b.id)`; what `localeCompare` answers is the engine's. -/
def compareSiblings (a b : SessionRecord) : Int :=
  if a.createdAt - b.createdAt ≠ 0 then a.createdAt - b.createdAt else localeCompare a.id b.id

/-- `childrenByParent.get(id) ?? []`, when the siblings have been sorted. -/
def SessionCorpus.children (corpus : SessionCorpus) (id : SessionId) : List SessionRecord :=
  (corpus.records.filter (·.parentSession = some id)).mergeSort fun a b => compareSiblings localeCompare a b ≤ 0

/-! ## The trace -/

inductive SessionQueryError where
  | sessionNotFound (message : String)
  | invalidLineage (message : String)
  deriving DecidableEq

/-- The variables of the loop over the parents. -/
structure Ascent where
  ancestors : List SessionRecord := []
  ancestrySeen : List SessionId
  parentId : Option SessionId

/-- The ancestors, and the parent that is not in the corpus. -/
abbrev Ancestry := List SessionRecord × Option SessionId

def Ascent.turn (corpus : SessionCorpus) (s : Ascent) : Ascent ⊕ Except SessionQueryError Ancestry :=
  match s.parentId with
  | none => .inr (.ok (s.ancestors, none))
  | some parentId =>
    if parentId ∈ s.ancestrySeen then
      .inr (.error (.invalidLineage s!"session lineage contains a cycle at \"{parentId}\""))
    else match corpus.byId parentId with
      | none => .inr (.ok (s.ancestors, some parentId))
      | some parent => .inl {
          ancestors := s.ancestors ++ [parent]
          ancestrySeen := parentId :: s.ancestrySeen
          parentId := parent.parentSession }

inductive SessionLineageNode where
  | node (session : SessionRecord) (descendants : List SessionLineageNode)

namespace SessionLineageNode

def session : SessionLineageNode → SessionRecord
  | node session _ => session

def descendants : SessionLineageNode → List SessionLineageNode
  | node _ descendants => descendants

/-- Push nodes on the array that a path of indices leads to. -/
def attach (added : List SessionLineageNode) : List Nat → List SessionLineageNode → List SessionLineageNode
  | [], nodes => nodes ++ added
  | index :: path, nodes => nodes.modify index fun n => node n.session (attach added path n.descendants)

/-- The array that a path leads to. -/
def arrayAt : List Nat → List SessionLineageNode → Option (List SessionLineageNode)
  | [], nodes => some nodes
  | index :: path, nodes => nodes[index]?.bind fun n => arrayAt path n.descendants

end SessionLineageNode

open SessionLineageNode

/-- A session, and where the array of its descendants is; nothing has been pushed on it yet. -/
structure Frame where
  sessionId : SessionId
  descendants : List Nat

/-- The stack has its top first. -/
structure Building where
  stack : List Frame
  descendants : List SessionLineageNode := []

def frames (path : List Nat) (start : Nat) (children : List SessionRecord) : List Frame :=
  (children.zipIdx start).map fun (child, index) => { sessionId := child.id, descendants := path ++ [index] }

variable (localeCompare : SessionId → SessionId → Int)

def Building.turn (corpus : SessionCorpus) (s : Building) : Building ⊕ List SessionLineageNode :=
  match s.stack with
  | [] => .inr s.descendants
  | frame :: stack =>
    let children := corpus.children localeCompare frame.sessionId
    .inl {
      descendants := attach (children.map (node · [])) frame.descendants s.descendants
      stack := frames frame.descendants 0 children ++ stack }

def buildDescendants (corpus : SessionCorpus) (sessionId : SessionId)
    (fuel : Nat) : Option (List SessionLineageNode) :=
  Loop.run (Building.turn localeCompare corpus) fuel { stack := [{ sessionId, descendants := [] }] }

inductive LineageEnd where
  | complete (root : SessionRecord)
  | partialAt (unresolvedParentId : SessionId)

def lineageEnd (target : SessionRecord) (ancestors : List SessionRecord) : Option SessionId → LineageEnd
  | some id => .partialAt id
  | none => .complete (ancestors.getLast?.getD target)

structure SessionLineageTrace where
  target : SessionRecord
  ancestors : List SessionRecord
  descendants : List SessionLineageNode
  ending : LineageEnd

def traceSession (corpus : SessionCorpus) (sessionId : SessionId)
    (fuel : Nat) : Option (Except SessionQueryError SessionLineageTrace) :=
  match corpus.byId sessionId with
  | none => some (.error (.sessionNotFound s!"session \"{sessionId}\" not found"))
  | some target =>
    match Loop.run (Ascent.turn corpus) fuel { ancestrySeen := [sessionId], parentId := target.parentSession } with
    | none => none
    | some (.error e) => some (.error e)
    | some (.ok (ancestors, unresolvedParentId)) =>
      (buildDescendants localeCompare corpus sessionId fuel).map fun descendants =>
        .ok { target, ancestors, descendants, ending := lineageEnd target ancestors unresolvedParentId }

/-! ## The way up -/

variable {corpus : SessionCorpus} {id a b : SessionId} {r : SessionRecord}

def parent? (corpus : SessionCorpus) (id : SessionId) : Option SessionId := (corpus.byId id).bind (·.parentSession)

/-- The session that is `n` parents above a session. -/
def up (corpus : SessionCorpus) : Nat → SessionId → Option SessionId
  | 0, id => some id
  | n + 1, id => (parent? corpus id).bind (up corpus n)

theorem up_add (m n : Nat) (id : SessionId) : up corpus (m + n) id = (up corpus m id).bind (up corpus n) := by
  induction m generalizing id with
  | zero => rw [Nat.zero_add]; rfl
  | succ m ih =>
    rw [Nat.add_right_comm, up, up, Option.bind_assoc]
    congr 1
    funext x
    exact ih x

theorem up_succ (n : Nat) (id : SessionId) : up corpus (n + 1) id = (up corpus n id).bind (parent? corpus) := by
  rw [up_add]
  congr 1
  funext x
  show (parent? corpus x).bind some = _
  cases parent? corpus x <;> rfl

theorem up_trans {m n : Nat} {c : SessionId} (h : up corpus m a = some b) (h' : up corpus n b = some c) :
    up corpus (m + n) a = some c := by
  rw [up_add, h]
  exact h'

/-- What is further up than `b` is above `b`. -/
theorem up_sub {m n : Nat} {c : SessionId} (h : up corpus m a = some b) (h' : up corpus (m + n) a = some c) :
    up corpus n b = some c := by
  rw [up_add, h] at h'
  exact h'

/-- On a cycle of parents, or below one. -/
def Cyclic (corpus : SessionCorpus) (id : SessionId) : Prop :=
  ∃ n c m, up corpus n id = some c ∧ up corpus (m + 1) c = some c

theorem up_mul {m : Nat} (h : up corpus m a = some a) (k : Nat) : up corpus (k * m) a = some a := by
  induction k with
  | zero => rw [Nat.zero_mul]; rfl
  | succ k ih =>
    rw [Nat.succ_mul]
    exact up_trans ih h

/-- **What is below a session is on a cycle only if that session is.** -/
theorem not_loop {n m : Nat} (h : up corpus n a = some b) (hb : ¬ Cyclic corpus b) : up corpus (m + 1) a ≠ some a := by
  intro hloop
  have hround := up_mul hloop n
  rw [show n * (m + 1) = n + n * m by rw [Nat.mul_succ, Nat.add_comm]] at hround
  exact hb ⟨n * m, a, m, up_sub h hround, hloop⟩

theorem byId_mem (h : corpus.byId id = some r) : r ∈ corpus.records ∧ r.id = id :=
  ⟨mem_of_find?_eq_some h, by simpa using find?_some h⟩

theorem byId_id (h : r ∈ corpus.records) : corpus.byId r.id = some r := by
  cases hfind : corpus.byId r.id with
  | none => exact absurd rfl (of_decide_eq_false (Bool.eq_false_iff.mpr (find?_eq_none.mp hfind r h)))
  | some r' =>
    obtain ⟨hmem, hid⟩ := byId_mem hfind
    rw [inj_on_of_nodup_map corpus.nodup hmem h hid]

theorem parent?_id (h : r ∈ corpus.records) : parent? corpus r.id = r.parentSession := by
  rw [parent?, byId_id h]
  rfl

/-- **The parent chain**: the records from a parent on, and the parent at its end that is not in the corpus. -/
inductive ParentChain (corpus : SessionCorpus) : Option SessionId → List SessionRecord → Option SessionId → Prop where
  | root : ParentChain corpus none [] none
  | missing {start} (h : corpus.byId start = none) : ParentChain corpus (some start) [] (some start)
  | found {start parent ancestors ending} (h : corpus.byId start = some parent)
      (hrest : ParentChain corpus parent.parentSession ancestors ending) :
      ParentChain corpus (some start) (parent :: ancestors) ending

theorem ParentChain.ends {start ending : Option SessionId} {ancestors : List SessionRecord}
    (h : ParentChain corpus start ancestors ending) : start.bind (up corpus (ancestors.length + 1)) = none := by
  induction h with
  | root => rfl
  | @missing id h =>
    show (parent? corpus id).bind _ = none
    rw [parent?, h]
    rfl
  | @found id parent ancestors ending h hrest ih =>
    show (parent? corpus id).bind (up corpus (ancestors.length + 1)) = none
    rw [parent?, h]
    exact ih

theorem ParentChain.not_cyclic {ending : Option SessionId} {ancestors : List SessionRecord}
    (h : ParentChain corpus (parent? corpus id) ancestors ending) : ¬ Cyclic corpus id := by
  rintro ⟨n, c, m, hc, hloop⟩
  -- far enough up there is nothing, and there is `c`
  have hnone : up corpus (ancestors.length + 2) id = none := h.ends
  have hround := up_trans hc (up_mul hloop (ancestors.length + 2))
  have hle : ancestors.length + 2 ≤ n + (ancestors.length + 2) * (m + 1) := by
    have := Nat.le_mul_of_pos_right (ancestors.length + 2) (show 0 < m + 1 by omega)
    omega
  rw [← Nat.add_sub_of_le hle, up_add, hnone] at hround
  cases hround

theorem countP_lt {p q : SessionRecord → Bool} {rs : List SessionRecord} (hr : r ∈ rs) (hp : p r = false) (hq : q r = true)
    (h : ∀ x, p x = true → q x = true) : rs.countP p < rs.countP q := by
  obtain ⟨before, behind, rfl⟩ := append_of_mem hr
  rw [countP_append, countP_append, countP_cons_of_neg (by simp [hp]), countP_cons_of_pos hq]
  have hbefore : before.countP p ≤ before.countP q := countP_mono_left fun x _ => h x
  have hbehind : behind.countP p ≤ behind.countP q := countP_mono_left fun x _ => h x
  omega

/-- The sessions of the corpus that have not been seen. -/
def unseen (corpus : SessionCorpus) (seen : List SessionId) : Nat := corpus.records.countP fun r => r.id ∉ seen

theorem unseen_lt {seen : List SessionId} (hid : id ∉ seen) (h : corpus.byId id = some r) :
    unseen corpus (id :: seen) < unseen corpus seen := by
  obtain ⟨hmem, rfl⟩ := byId_mem h
  refine countP_lt hmem (by simp) (by simpa using hid) fun x hx => ?_
  simp only [mem_cons, decide_eq_true_eq, not_or] at hx ⊢
  exact hx.2

/-- **The walk up.** It ends with the rest of the parent chain, or at a session it has seen. -/
theorem ascent_ends (target : SessionId) (s : Ascent) (last : SessionId) (hparent : s.parentId = parent? corpus last)
    (hsome : ∃ x, x ∈ s.ancestrySeen)
    (hseen : ∀ x ∈ s.ancestrySeen, (∃ n, up corpus n target = some x) ∧ ∃ n, up corpus n x = some last) :
    (∃ message, Loop.Ends (Ascent.turn corpus) s (.error (.invalidLineage message)) ∧ Cyclic corpus target) ∨
      ∃ more ending, Loop.Ends (Ascent.turn corpus) s (.ok (s.ancestors ++ more, ending)) ∧
        ParentChain corpus s.parentId more ending := by
  induction hsize : unseen corpus s.ancestrySeen using Nat.strongRecOn generalizing s last with
  | ind size ih =>
    subst hsize
    cases hid : s.parentId with
    | none =>
      refine .inr ⟨[], none, .step ?_, .root⟩
      rw [Ascent.turn, hid, append_nil]
    | some parentId =>
      by_cases hold : parentId ∈ s.ancestrySeen
      · refine .inl ⟨_, .step (by rw [Ascent.turn, hid]; exact if_pos hold), ?_⟩
        obtain ⟨⟨n, hup⟩, m, hlast⟩ := hseen parentId hold
        refine ⟨n, parentId, m, hup, ?_⟩
        rw [up_succ, hlast]
        exact hparent.symm.trans hid
      · cases hfound : corpus.byId parentId with
        | none =>
          refine .inr ⟨[], some parentId, .step ?_, .missing hfound⟩
          rw [Ascent.turn, hid, append_nil]
          dsimp only
          rw [if_neg hold, hfound]
        | some parent =>
          have hturn : Ascent.turn corpus s = .inl ⟨s.ancestors ++ [parent], parentId :: s.ancestrySeen, parent.parentSession⟩ := by
            rw [Ascent.turn, hid]
            dsimp only
            rw [if_neg hold, hfound]
          have hstep : ∀ x, (∃ n, up corpus n x = some last) → ∃ n, up corpus n x = some parentId := by
            rintro x ⟨n, hn⟩
            exact ⟨n + 1, by rw [up_succ, hn]; exact hparent.symm.trans hid⟩
          have hnext : ∀ x ∈ parentId :: s.ancestrySeen,
              (∃ n, up corpus n target = some x) ∧ ∃ n, up corpus n x = some parentId := by
            intro x hx
            rcases mem_cons.mp hx with rfl | hx
            · obtain ⟨y, hy⟩ := hsome
              obtain ⟨⟨n, hn⟩, hlast⟩ := hseen y hy
              obtain ⟨m, hm⟩ := hstep y hlast
              exact ⟨⟨n + m, up_trans hn hm⟩, 0, rfl⟩
            · exact ⟨(hseen x hx).1, hstep x (hseen x hx).2⟩
          rcases ih _ (unseen_lt hold hfound) ⟨s.ancestors ++ [parent], parentId :: s.ancestrySeen, parent.parentSession⟩
              parentId (by rw [parent?, hfound]; rfl) ⟨_, mem_cons_self ..⟩ hnext rfl with
            ⟨message, hends, hcyclic⟩ | ⟨more, ending, hends, hchain⟩
          · exact .inl ⟨message, (Loop.Leads.step hturn).ends hends, hcyclic⟩
          · refine .inr ⟨parent :: more, ending, ?_, .found hfound hchain⟩
            rw [append_cons]
            exact (Loop.Leads.step hturn).ends hends

/-! ## The way down -/

/-- `r` is below a session: its parent chain passes through it. -/
def Below (corpus : SessionCorpus) (id : SessionId) (r : SessionRecord) : Prop := ∃ n, up corpus (n + 1) r.id = some id

variable {localeCompare : SessionId → SessionId → Int}

theorem mem_children : r ∈ corpus.children localeCompare id ↔ r ∈ corpus.records ∧ r.parentSession = some id := by
  rw [SessionCorpus.children, mem_mergeSort, mem_filter, decide_eq_true_iff]

theorem up_child (h : r ∈ corpus.children localeCompare id) : up corpus 1 r.id = some id := by
  obtain ⟨hmem, hparent⟩ := mem_children.mp h
  rw [up, parent?_id hmem, hparent]
  rfl

/-- The tree of what is below a session: an array holds its children, and each of them the tree below it. -/
inductive IsTree (localeCompare : SessionId → SessionId → Int) (corpus : SessionCorpus) :
    SessionId → List SessionLineageNode → Prop where
  | mk {id nodes} (hchildren : nodes.map session = corpus.children localeCompare id)
      (hbelow : ∀ n ∈ nodes, IsTree localeCompare corpus n.session.id n.descendants) : IsTree localeCompare corpus id nodes

mutual

def SessionLineageNode.sessions : SessionLineageNode → List SessionRecord
  | node session descendants => session :: forestSessions descendants

def forestSessions : List SessionLineageNode → List SessionRecord
  | [] => []
  | n :: nodes => n.sessions ++ forestSessions nodes

end

theorem forestSessions_eq (nodes : List SessionLineageNode) :
    forestSessions nodes = nodes.flatMap fun n => n.session :: forestSessions n.descendants := by
  induction nodes with
  | nil => rfl
  | cons n nodes ih =>
    obtain ⟨session, descendants⟩ := n
    rw [forestSessions, ih]
    rfl

variable {nodes : List SessionLineageNode}

theorem IsTree.mem_sessions (h : IsTree localeCompare corpus id nodes) :
    r ∈ forestSessions nodes ↔ r ∈ corpus.records ∧ Below corpus id r := by
  induction h with
  | @mk id nodes hchildren hbelow ih =>
    have hchild : ∀ n ∈ nodes, n.session ∈ corpus.children localeCompare id := fun n hn =>
      hchildren ▸ mem_map_of_mem hn
    rw [forestSessions_eq, mem_flatMap]
    constructor
    · rintro ⟨n, hn, hr⟩
      rcases mem_cons.mp hr with rfl | hr
      · exact ⟨(mem_children.mp (hchild n hn)).1, 0, up_child (hchild n hn)⟩
      · obtain ⟨hmem, k, hup⟩ := (ih n hn).mp hr
        exact ⟨hmem, k + 1, up_trans hup (up_child (hchild n hn))⟩
    · rintro ⟨hmem, k, hup⟩
      rw [up_succ, Option.bind_eq_some_iff] at hup
      obtain ⟨x, hx, hparent⟩ := hup
      obtain ⟨child, hfound, hup⟩ := Option.bind_eq_some_iff.mp hparent
      obtain ⟨hrecord, rfl⟩ := byId_mem hfound
      have hnode : child ∈ nodes.map session := hchildren ▸ mem_children.mpr ⟨hrecord, hup⟩
      obtain ⟨n, hn, rfl⟩ := mem_map.mp hnode
      refine ⟨n, hn, ?_⟩
      cases k with
      | zero =>
        -- the session itself is the child
        obtain rfl : r = n.session := inj_on_of_nodup_map corpus.nodup hmem hrecord (Option.some.inj hx)
        exact mem_cons_self ..
      | succ k => exact mem_cons_of_mem _ ((ih n hn).mpr ⟨hmem, k, hx⟩)

/-- **Each session stands in the tree once.** -/
theorem IsTree.nodup {target : SessionId} (htarget : ¬ Cyclic corpus target) {n : Nat} (h : IsTree localeCompare corpus id nodes)
    (hup : up corpus n id = some target) : (forestSessions nodes).Nodup := by
  induction h generalizing n with
  | @mk id nodes hchildren hbelow ih =>
    have hchild : ∀ n ∈ nodes, up corpus 1 n.session.id = some id := fun n hn =>
      up_child (hchildren ▸ mem_map_of_mem hn : n.session ∈ corpus.children localeCompare id)
    have hsiblings : (nodes.map session).Nodup := by
      rw [hchildren, SessionCorpus.children, (mergeSort_perm _ _).nodup_iff]
      exact (Nodup.of_map _ corpus.nodup).filter _
    rw [forestSessions_eq, nodup_flatMap]
    refine ⟨fun x hx => nodup_cons.mpr ⟨fun hmem => ?_, ih x hx (up_trans (hchild x hx) hup)⟩, ?_⟩
    · obtain ⟨-, k, hloop⟩ := (hbelow x hx).mem_sessions.mp hmem
      exact not_loop (up_trans (hchild x hx) hup) htarget hloop
    · refine (pairwise_map.mp hsiblings).imp_of_mem fun {x y} hx hy hne => ?_
      -- a session below two siblings would put one of them below the other
      have hover : ∀ {x y : SessionLineageNode}, x ∈ nodes → y ∈ nodes → ∀ {z a d}, up corpus a z = some x.session.id →
          up corpus (a + d) z = some y.session.id → x.session.id = y.session.id := by
        intro x y hx hy z a d hxz hyz
        cases d with
        | zero => exact Option.some.inj (hxz.symm.trans hyz)
        | succ d =>
          have hxy := up_sub hxz hyz
          rw [Nat.add_comm] at hxy
          have hloop := up_trans (up_sub (hchild x hx) hxy) (hchild y hy)
          exact absurd hloop (not_loop hup htarget)
      have hbelow' : ∀ {x z}, x ∈ nodes → z ∈ x.session :: forestSessions x.descendants →
          ∃ a, up corpus a z.id = some x.session.id := by
        intro x z hx hz
        rcases mem_cons.mp hz with rfl | hz
        · exact ⟨0, rfl⟩
        · obtain ⟨-, k, hk⟩ := (hbelow x hx).mem_sessions.mp hz
          exact ⟨k + 1, hk⟩
      intro z hzx hzy
      obtain ⟨a, ha⟩ := hbelow' hx hzx
      obtain ⟨b, hb⟩ := hbelow' hy hzy
      apply hne
      have hid : x.session.id = y.session.id := by
        rcases Nat.le_total a b with hle | hle
        · exact hover hx hy ha (by rwa [Nat.add_sub_of_le hle])
        · exact (hover hy hx hb (by rwa [Nat.add_sub_of_le hle])).symm
      have hrecord : ∀ n ∈ nodes, n.session ∈ corpus.records := fun n hn =>
        (mem_children.mp (hchildren ▸ mem_map_of_mem hn : n.session ∈ corpus.children localeCompare id)).1
      exact inj_on_of_nodup_map corpus.nodup (hrecord x hx) (hrecord y hy) hid

/-! ## The arrays of the nodes -/

variable {tree added forest : List SessionLineageNode} {path : List Nat} {k : Nat}

theorem arrayAt_attach (h : arrayAt path tree = some []) :
    arrayAt (path ++ [k]) (attach added path tree) = added[k]?.map descendants := by
  induction path generalizing tree with
  | nil =>
    cases h
    show (([] ++ added)[k]?.bind fun n => some n.descendants) = _
    rw [nil_append]
    cases added[k]? <;> rfl
  | cons index path ih =>
    obtain ⟨n, hn, h⟩ := Option.bind_eq_some_iff.mp h
    show ((tree.modify index _)[index]?.bind fun n => arrayAt (path ++ [k]) n.descendants) = _
    rw [getElem?_modify_eq, hn]
    exact ih h

theorem modify_middle (f : SessionLineageNode → SessionLineageNode) (before : List SessionLineageNode)
    (n : SessionLineageNode) (behind : List SessionLineageNode) :
    (before ++ n :: behind).modify before.length f = before ++ f n :: behind := by
  induction before with
  | nil => rfl
  | cons b before ih => exact congrArg (b :: ·) ih

theorem attach_attach (h : arrayAt path tree = some []) :
    attach forest (path ++ [k]) (attach added path tree)
      = attach (added.modify k fun n => node n.session (n.descendants ++ forest)) path tree := by
  induction path generalizing tree with
  | nil =>
    cases h
    rfl
  | cons index path ih =>
    obtain ⟨n, hn, h⟩ := Option.bind_eq_some_iff.mp h
    obtain ⟨hlt, rfl⟩ := List.getElem?_eq_some_iff.mp hn
    show (tree.modify index _).modify index _ = tree.modify index _
    rw [modify_modify_eq, modify_eq_take_cons_drop hlt, modify_eq_take_cons_drop hlt]
    congr 2
    exact congrArg _ (ih h)

/-! ## The walk down ends -/

open Classical in
/-- How many sessions of the corpus are below a session. -/
noncomputable def belowCount (corpus : SessionCorpus) (id : SessionId) : Nat :=
  corpus.records.countP fun r => decide (Below corpus id r)

open Classical in
theorem belowCount_lt {n : Nat} (h : r ∈ corpus.children localeCompare id) (hup : up corpus n id = some a)
    (ha : ¬ Cyclic corpus a) : belowCount corpus r.id < belowCount corpus id := by
  refine countP_lt (mem_children.mp h).1 (decide_eq_false ?_) (decide_eq_true ⟨0, up_child h⟩) fun x hx => ?_
  · rintro ⟨m, hloop⟩
    exact not_loop (up_trans (up_child h) hup) ha hloop
  · obtain ⟨m, hm⟩ := of_decide_eq_true hx
    exact decide_eq_true ⟨m + 1, up_trans hm (up_child h)⟩

/-- The node of a child, with the tree below it. -/
def Built (localeCompare : SessionId → SessionId → Int) (corpus : SessionCorpus) (child : SessionRecord)
    (n : SessionLineageNode) : Prop :=
  n.session = child ∧ IsTree localeCompare corpus child.id n.descendants

theorem isTree_of_built (h : Forall₂ (Built localeCompare corpus) (corpus.children localeCompare id) nodes) :
    IsTree localeCompare corpus id nodes := by
  have hall : ∀ {children nodes}, Forall₂ (Built localeCompare corpus) children nodes →
      nodes.map session = children ∧ ∀ n ∈ nodes, IsTree localeCompare corpus n.session.id n.descendants := by
    intro children nodes h
    induction h with
    | nil => exact ⟨rfl, nofun⟩
    | cons hn _ ih => exact ⟨congrArg₂ _ hn.1 ih.1, forall_mem_cons.mpr ⟨hn.1 ▸ hn.2, ih.2⟩⟩
  exact .mk (hall h).1 (hall h).2

/-- **One frame builds one tree**, in its own array, and leaves the rest of the stack as it was. -/
theorem frame_leads {target : SessionId} (htarget : ¬ Cyclic corpus target) {n : Nat} (hup : up corpus n id = some target)
    (hempty : arrayAt path tree = some []) (stack : List Frame) :
    ∃ forest, IsTree localeCompare corpus id forest ∧
      Loop.Leads (Building.turn localeCompare corpus) ⟨⟨id, path⟩ :: stack, tree⟩ ⟨stack, attach forest path tree⟩ := by
  induction hcount : belowCount corpus id using Nat.strongRecOn generalizing id n path tree stack with
  | ind count ih =>
    subst hcount
    have hchildren : ∀ children : List SessionRecord, (∀ c ∈ children, c ∈ corpus.children localeCompare id) →
        ∀ done : List SessionLineageNode, ∃ built, Forall₂ (Built localeCompare corpus) children built ∧
          Loop.Leads (Building.turn localeCompare corpus)
            ⟨frames path done.length children ++ stack, attach (done ++ children.map (node · [])) path tree⟩
            ⟨stack, attach (done ++ built) path tree⟩ := by
      intro children
      induction children with
      | nil =>
        intro _ done
        exact ⟨[], .nil, 0, fun _ => rfl⟩
      | cons c children ihc =>
        intro hall done
        obtain ⟨hc, hall⟩ := forall_mem_cons.mp hall
        have harray : arrayAt (path ++ [done.length]) (attach (done ++ node c [] :: children.map (node · [])) path tree)
            = some [] := by
          rw [arrayAt_attach hempty, getElem?_append_right (Nat.le_refl _), Nat.sub_self]
          rfl
        obtain ⟨below, hbelow, hleads⟩ := ih _ (belowCount_lt hc hup htarget) (up_trans (up_child hc) hup) harray
          (frames path (done.length + 1) children ++ stack) rfl
        obtain ⟨built, hbuilt, hrest⟩ := ihc hall (done ++ [node c below])
        refine ⟨node c below :: built, .cons ⟨rfl, hbelow⟩ hbuilt, ?_⟩
        rw [attach_attach hempty, modify_middle] at hleads
        rw [length_append, append_assoc, append_assoc] at hrest
        exact hleads.trans hrest
    obtain ⟨built, hbuilt, hleads⟩ := hchildren (corpus.children localeCompare id) (fun _ h => h) []
    have hturn : Building.turn localeCompare corpus ⟨⟨id, path⟩ :: stack, tree⟩ = .inl _ := rfl
    exact ⟨built, isTree_of_built hbuilt, (Loop.Leads.step hturn).trans hleads⟩

/-! ## The trace of a session -/

/-- The ancestors are the parent chain, complete when it ends at a session without a parent; and the descendants are
the tree of the sessions whose parent chain passes through the target, each once. -/
structure Lineage (localeCompare : SessionId → SessionId → Int) (corpus : SessionCorpus) (trace : SessionLineageTrace) :
    Prop where
  chain : ∃ unresolved, ParentChain corpus trace.target.parentSession trace.ancestors unresolved ∧
    trace.ending = lineageEnd trace.target trace.ancestors unresolved
  tree : IsTree localeCompare corpus trace.target.id trace.descendants
  nodup : (forestSessions trace.descendants).Nodup
  below : ∀ r, r ∈ forestSessions trace.descendants ↔ r ∈ corpus.records ∧ Below corpus trace.target.id r

/-- **Tracing a session.**  It always ends; it throws for a session that lies on a cycle of parents or below one, and
answers the lineage of every other. -/
theorem traceSession_spec (localeCompare : SessionId → SessionId → Int) (corpus : SessionCorpus) (sessionId : SessionId) :
    ∃ enough result, (∀ fuel, enough ≤ fuel → traceSession localeCompare corpus sessionId fuel = some result) ∧
      match corpus.byId sessionId with
      | none => result = .error (.sessionNotFound s!"session \"{sessionId}\" not found")
      | some target =>
        (Cyclic corpus sessionId → ∃ message, result = .error (.invalidLineage message)) ∧
        (¬ Cyclic corpus sessionId → ∃ trace, result = .ok trace ∧ trace.target = target ∧
          Lineage localeCompare corpus trace) := by
  unfold traceSession
  cases hfound : corpus.byId sessionId with
  | none => exact ⟨0, _, fun _ _ => rfl, rfl⟩
  | some target =>
    obtain ⟨hmem, rfl⟩ := byId_mem hfound
    have hparent := (parent?_id hmem).symm
    rcases ascent_ends target.id ⟨[], [target.id], target.parentSession⟩ target.id hparent ⟨_, mem_cons_self ..⟩
        (fun x hx => by rw [mem_singleton.mp hx]; exact ⟨⟨0, rfl⟩, 0, rfl⟩) with
      ⟨message, hends, hcyclic⟩ | ⟨ancestors, ending, hends, hchain⟩
    · obtain ⟨enough, hrun⟩ := hends.enough
      refine ⟨enough, _, fun fuel hle => ?_, fun _ => ⟨message, rfl⟩, fun h => absurd hcyclic h⟩
      dsimp only
      rw [hrun fuel hle]
    · have hacyclic : ¬ Cyclic corpus target.id := by
        apply ParentChain.not_cyclic
        rw [← hparent]
        exact hchain
      obtain ⟨forest, htree, hleads⟩ := @frame_leads corpus target.id localeCompare [] [] target.id hacyclic 0 rfl rfl []
      have hbuild : Loop.Ends (Building.turn localeCompare corpus) ⟨[⟨target.id, []⟩], []⟩ forest :=
        hleads.ends (.step rfl)
      obtain ⟨enough, hrun⟩ := hends.enough
      obtain ⟨enough', hrun'⟩ := hbuild.enough
      refine ⟨max enough enough', _, fun fuel hle => ?_, fun h => absurd h hacyclic,
        fun _ => ⟨⟨target, ancestors, forest, lineageEnd target ancestors ending⟩, rfl, rfl, ?_⟩⟩
      · dsimp only
        rw [hrun fuel ((Nat.le_max_left ..).trans hle)]
        dsimp only
        rw [buildDescendants, hrun' fuel ((Nat.le_max_right ..).trans hle)]
        rfl
      · exact ⟨⟨ending, hchain, rfl⟩, htree, htree.nodup hacyclic (n := 0) rfl, fun r => htree.mem_sessions⟩

end CocoHarness.SessionQuery
