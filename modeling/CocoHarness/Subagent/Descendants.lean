/-
# CocoHarness.Subagent.Descendants — the listing of the sessions below a session.

What is listed is read from stored headers: a parent may be missing, and sessions may be each other's parents.  The
walk visits every session below the root once, a parent before its children, and lists those that are subagents.
-/
import Mathlib.Data.List.Nodup
import CocoHarness.Lib.Loop

namespace CocoHarness.Subagent

open List Lib

variable {Id : Type} [DecidableEq Id]

/-! ## The corpus -/

structure CorpusRecord (Id : Type) where
  id : Id
  parentSession : Option Id
  createdAt : Int
  /-- `origin === 'subagent'`. -/
  subagent : Bool

structure Corpus (Id : Type) where
  records : List (CorpusRecord Id)
  nodup : (records.map CorpusRecord.id).Nodup

/-- `compareCorpusRecords`; what `localeCompare` answers is the engine's. -/
def compareCorpusRecords (localeCompare : Id → Id → Int) (a b : CorpusRecord Id) : Int :=
  if a.createdAt - b.createdAt ≠ 0 then a.createdAt - b.createdAt else localeCompare a.id b.id

/-- `children.get(id) ?? []`, when the siblings have been sorted. -/
def Corpus.children (localeCompare : Id → Id → Int) (corpus : Corpus Id) (id : Id) : List (CorpusRecord Id) :=
  (corpus.records.filter (·.parentSession = some id)).mergeSort fun a b => compareCorpusRecords localeCompare a b ≤ 0

/-! ## The walk -/

structure PositionedCandidate (Id : Type) where
  record : CorpusRecord Id
  parentId : Id
  depth : Nat

structure Descent (Id : Type) where
  stack : List (PositionedCandidate Id)
  visited : List Id
  positioned : List (PositionedCandidate Id) := []

variable (localeCompare : Id → Id → Int) (corpus : Corpus Id) (rootSessionId : Id)

def Descent.turn (s : Descent Id) : Descent Id ⊕ List (PositionedCandidate Id) :=
  match s.stack with
  | [] => .inr s.positioned
  | position :: stack =>
    let id := position.record.id
    if id ∈ s.visited then .inl { s with stack }
    else .inl {
      stack := (corpus.children localeCompare id).map (⟨·, id, position.depth + 1⟩) ++ stack
      visited := id :: s.visited
      positioned := if position.record.subagent then s.positioned ++ [position] else s.positioned }

def descendantCandidates (fuel : Nat) : Option (List (PositionedCandidate Id)) :=
  Loop.run (Descent.turn localeCompare corpus) fuel
    ⟨(corpus.children localeCompare rootSessionId).map (⟨·, rootSessionId, 1⟩), [rootSessionId], []⟩

/-! ## What is below the root -/

/-- A session of the corpus, other than the root, that `links` parents lead up to the root. -/
inductive Below (corpus : Corpus Id) (root : Id) : Nat → CorpusRecord Id → Prop where
  | child {record} (hrecord : record ∈ corpus.records) (hparent : record.parentSession = some root)
      (hroot : record.id ≠ root) : Below corpus root 1 record
  | step {links parent record} (hbelow : Below corpus root links parent) (hrecord : record ∈ corpus.records)
      (hparent : record.parentSession = some parent.id) (hroot : record.id ≠ root) : Below corpus root (links + 1) record

/-- The sessions below the root, each once and each behind its parent. -/
structure Walk (walked : List (PositionedCandidate Id)) : Prop where
  nodup : (walked.map (·.record.id)).Nodup
  below : ∀ p ∈ walked, Below corpus rootSessionId p.depth p.record ∧ p.record.parentSession = some p.parentId
  parents : ∀ before p after, walked = before ++ p :: after →
    p.parentId = rootSessionId ∨ ∃ q ∈ before, q.record.id = p.parentId

/-- What holds at each turn, when `walked` are the sessions visited so far. -/
structure Descent.Inv (s : Descent Id) (walked : List (PositionedCandidate Id)) : Prop
    extends Walk corpus rootSessionId walked where
  positioned : s.positioned = walked.filter (·.record.subagent)
  visited : ∀ id, id ∈ s.visited ↔ id = rootSessionId ∨ id ∈ walked.map (·.record.id)
  stack : ∀ p ∈ s.stack, p.record ∈ corpus.records ∧ p.record.parentSession = some p.parentId ∧
    (p.parentId = rootSessionId ∧ p.depth = 1 ∨ ∃ q ∈ walked, q.record.id = p.parentId ∧ p.depth = q.depth + 1)
  -- No child of a visited session is forgotten.
  closed : ∀ record ∈ corpus.records, ∀ id ∈ s.visited, record.parentSession = some id →
    record.id ∈ s.visited ∨ record ∈ s.stack.map (·.record)

variable {corpus rootSessionId} {s : Descent Id} {walked : List (PositionedCandidate Id)} {id : Id}

theorem mem_children {localeCompare : Id → Id → Int} {record : CorpusRecord Id} :
    record ∈ corpus.children localeCompare id ↔ record ∈ corpus.records ∧ record.parentSession = some id := by
  rw [Corpus.children, mem_mergeSort, mem_filter, decide_eq_true_iff]

/-- The sessions whose parent has not been visited: each is pushed once more, at most. -/
def awaited (corpus : Corpus Id) (visited : List Id) : Nat :=
  corpus.records.countP fun record => record.parentSession.all (· ∉ visited)

theorem awaited_visit {visited : List Id} (hid : id ∉ visited) :
    awaited corpus visited = (corpus.children localeCompare id).length + awaited corpus (id :: visited) := by
  rw [Corpus.children, length_mergeSort, ← countP_eq_length_filter]
  rw [awaited, awaited]
  induction corpus.records with
  | nil => rfl
  | cons record records ih =>
    simp only [countP_cons, ih]
    cases hparent : record.parentSession with
    | none => simp; omega
    | some parent =>
      by_cases hsame : parent = id
      · subst hsame
        simp [hid]
        omega
      · simp [hsame]
        omega

variable {position : PositionedCandidate Id} {stack : List (PositionedCandidate Id)}

theorem Descent.Inv.visit (h : s.Inv corpus rootSessionId walked) (hstack : s.stack = position :: stack)
    (hnew : position.record.id ∉ s.visited) :
    Descent.Inv corpus rootSessionId
      ⟨(corpus.children localeCompare position.record.id).map (⟨·, position.record.id, position.depth + 1⟩) ++ stack,
        position.record.id :: s.visited,
        if position.record.subagent then s.positioned ++ [position] else s.positioned⟩ (walked ++ [position]) := by
  obtain ⟨hroot, hfresh⟩ := not_or.mp ((not_congr (h.visited _)).mp hnew)
  obtain ⟨hrecord, hparent, hplace⟩ := h.stack position (hstack ▸ mem_cons_self)
  have hbelow : Below corpus rootSessionId position.depth position.record := by
    rcases hplace with ⟨hid, hdepth⟩ | ⟨q, hq, hid, hdepth⟩
    · rw [hdepth]
      exact .child hrecord (hid ▸ hparent) hroot
    · rw [hdepth]
      exact .step (h.below q hq).1 hrecord (hid ▸ hparent) hroot
  refine { nodup := ?_, below := ?_, parents := ?_, positioned := ?_, visited := ?_, stack := ?_, closed := ?_ }
  · rw [map_append, nodup_append]
    refine ⟨h.nodup, nodup_singleton _, fun a ha b hb hab => hfresh ?_⟩
    rw [← show b = position.record.id from mem_singleton.mp hb, ← hab]
    exact ha
  · intro p hp
    rcases mem_append.mp hp with hp | hp
    · exact h.below p hp
    · rw [mem_singleton.mp hp]
      exact ⟨hbelow, hparent⟩
  · intro before p after hsplit
    rcases eq_nil_or_concat after with rfl | ⟨after, last, rfl⟩
    · obtain ⟨rfl, hlast⟩ := append_inj' hsplit rfl
      cases hlast
      exact hplace.imp And.left fun ⟨q, hq, hid, _⟩ => ⟨q, hq, hid⟩
    · rw [concat_eq_append, ← cons_append, ← append_assoc] at hsplit
      exact h.parents before p after (append_inj' hsplit rfl).1
  · show _ = _
    rw [filter_append, h.positioned]
    split <;> simp_all
  · intro id
    rw [mem_cons, h.visited, map_append, mem_append, or_comm, or_assoc]
    simp
  · intro p hp
    rcases mem_append.mp hp with hp | hp
    · obtain ⟨record, hchild, rfl⟩ := mem_map.mp hp
      obtain ⟨hmem, hup⟩ := mem_children.mp hchild
      exact ⟨hmem, hup, .inr ⟨position, mem_append_right _ mem_cons_self, rfl, rfl⟩⟩
    · obtain ⟨hmem, hup, hplace⟩ := h.stack p (hstack ▸ mem_cons_of_mem _ hp)
      exact ⟨hmem, hup, hplace.imp_right fun ⟨q, hq, hid⟩ => ⟨q, mem_append_left _ hq, hid⟩⟩
  · intro record hmem id hid hup
    rcases mem_cons.mp hid with rfl | hid
    · apply Or.inr
      rw [map_append, map_map]
      exact mem_append_left _ (mem_map.mpr ⟨record, mem_children.mpr ⟨hmem, hup⟩, rfl⟩)
    · rcases h.closed record hmem id hid hup with hold | hold
      · exact .inl (mem_cons_of_mem _ hold)
      · rw [hstack, map_cons, mem_cons] at hold
        rcases hold with rfl | hold
        · exact .inl mem_cons_self
        · rw [map_append]
          exact .inr (mem_append_right _ hold)

theorem Descent.Inv.skip (h : s.Inv corpus rootSessionId walked) (hstack : s.stack = position :: stack)
    (hold : position.record.id ∈ s.visited) : Descent.Inv corpus rootSessionId { s with stack } walked where
  toWalk := h.toWalk
  positioned := h.positioned
  visited := h.visited
  stack p hp := h.stack p (hstack ▸ mem_cons_of_mem _ hp)
  closed record hmem id hid hup := by
    rcases h.closed record hmem id hid hup with hin | hin
    · exact .inl hin
    · rw [hstack, map_cons, mem_cons] at hin
      rcases hin with rfl | hin
      · exact .inl hold
      · exact .inr hin

theorem Descent.Inv.ends (h : s.Inv corpus rootSessionId walked) :
    ∃ walked, Loop.Ends (Descent.turn localeCompare corpus) s (walked.filter (·.record.subagent)) ∧
      Walk corpus rootSessionId walked ∧
      ∀ links record, Below corpus rootSessionId links record → record.id ∈ walked.map (·.record.id) := by
  induction hsize : s.stack.length + awaited corpus s.visited using Nat.strongRecOn generalizing s walked with
  | ind size ih =>
    subst hsize
    cases hstack : s.stack with
    | nil =>
      refine ⟨walked, .step ?_, h.toWalk, fun links record hbelow => ?_⟩
      · rw [turn, hstack, ← h.positioned]
      · have hclosed : ∀ record ∈ corpus.records, ∀ id ∈ s.visited, record.parentSession = some id →
            record.id ≠ rootSessionId → record.id ∈ walked.map (·.record.id) := by
          intro record hmem id hid hup hroot
          rcases h.closed record hmem id hid hup with hin | hin
          · exact ((h.visited _).mp hin).resolve_left hroot
          · rw [hstack] at hin
            cases hin
        induction hbelow with
        | child hrecord hparent hroot => exact hclosed _ hrecord _ ((h.visited _).mpr (.inl rfl)) hparent hroot
        | step _ hrecord hparent hroot ih => exact hclosed _ hrecord _ ((h.visited _).mpr (.inr ih)) hparent hroot
    | cons position stack =>
      by_cases hold : position.record.id ∈ s.visited
      · have hturn : turn localeCompare corpus s = .inl { s with stack } := by rw [turn, hstack]; exact if_pos hold
        obtain ⟨all, hends, hall⟩ := ih _ (by simp [hstack]) (h.skip hstack hold) rfl
        exact ⟨all, (Loop.Leads.step hturn).ends hends, hall⟩
      · have hturn := show turn localeCompare corpus s = .inl _ by rw [turn, hstack]; exact if_neg hold
        obtain ⟨all, hends, hall⟩ := ih _
          (by rw [hstack, awaited_visit localeCompare hold]; simp; omega) (h.visit localeCompare hstack hold) rfl
        exact ⟨all, (Loop.Leads.step hturn).ends hends, hall⟩

variable (corpus rootSessionId)

/-- **The listing of descendants.**  Whatever the headers say, the walk ends; it visits the sessions below the root,
each once, behind its parent and at its depth, and lists the subagents among them in this order. -/
theorem descendantCandidates_spec : ∃ walked : List (PositionedCandidate Id),
      (∃ enough, ∀ fuel, enough ≤ fuel → descendantCandidates localeCompare corpus rootSessionId fuel
        = some (walked.filter (·.record.subagent))) ∧
      (∀ record, record ∈ walked.map (·.record) ↔ ∃ links, Below corpus rootSessionId links record) ∧
      Walk corpus rootSessionId walked := by
  have hstart : Descent.Inv corpus rootSessionId
      ⟨(corpus.children localeCompare rootSessionId).map (⟨·, rootSessionId, 1⟩), [rootSessionId], []⟩ [] := by
    refine { nodup := nodup_nil, below := nofun, parents := ?_, positioned := rfl, visited := ?_, stack := ?_, closed := ?_ }
    · intro before p after h
      cases before <;> cases h
    · simp
    · intro p hp
      obtain ⟨record, hchild, rfl⟩ := mem_map.mp hp
      obtain ⟨hmem, hup⟩ := mem_children.mp hchild
      exact ⟨hmem, hup, .inl ⟨rfl, rfl⟩⟩
    · intro record hmem id hid hup
      rw [mem_singleton.mp hid] at hup
      exact .inr (mem_map.mpr ⟨_, mem_map.mpr ⟨record, mem_children.mpr ⟨hmem, hup⟩, rfl⟩, rfl⟩)
  obtain ⟨walked, hends, hwalk, hall⟩ := hstart.ends localeCompare
  refine ⟨walked, hends.enough, fun record => ⟨fun h => ?_, fun ⟨links, h⟩ => ?_⟩, hwalk⟩
  · obtain ⟨p, hp, rfl⟩ := mem_map.mp h
    exact ⟨_, (hwalk.below p hp).1⟩
  · -- The session found under its id is the session itself.
    obtain ⟨p, hp, hid⟩ := mem_map.mp (hall links record h)
    have hmem : ∀ {links record}, Below corpus rootSessionId links record → record ∈ corpus.records := by
      rintro _ _ (⟨hrecord, -, -⟩ | ⟨-, hrecord, -, -⟩) <;> exact hrecord
    rw [← inj_on_of_nodup_map corpus.nodup (hmem (hwalk.below p hp).1) (hmem h) hid]
    exact mem_map_of_mem hp

/-- A fork of the root is no subagent: it is below the root, and not listed. -/
theorem fork_not_listed :
    let fork : CorpusRecord Nat := ⟨1, some 0, 5, false⟩
    let corpus : Corpus Nat := ⟨[fork], by decide⟩
    Below corpus 0 1 fork ∧ descendantCandidates (fun a b : Nat => (a - b : Int)) corpus 0 3 = some [] := by
  refine ⟨.child (by simp) rfl (by decide), ?_⟩
  simp [descendantCandidates, Corpus.children, Loop.run, Descent.turn]

end CocoHarness.Subagent
