/-
# CocoHarness.Subagent.Ownership — parents are released after their children.

A live Activation owns children that are in the map.  When its disposal begins it takes down which of them to wait
for, and since nothing is added to a set whose owner is closing, what it still owns as it goes on is stuck: a child
whose `Agent.cancel` threw as its own disposal began.
-/
import CocoHarness.Subagent.Evolution

namespace CocoHarness.Subagent

open Lib Option

def Stage.past : Stage → Bool
  | .releasing _ | .released _ | .ended _ => true
  | .resident | .children | .stuck => false

theorem Stage.settled_cases {stage : Stage} (h : stage.settled) :
    (∃ failed, stage = .ended failed) ∨ stage = .stuck := by
  cases stage with
  | ended failed => exact .inl ⟨failed, rfl⟩
  | stuck => exact .inr rfl
  | _ => cases h

namespace Manager

variable {m m' : Manager} {rules : Rules} {e : EpochId} {a : Activation} {r : RequestId} {q : Request}

/-! ## The invariant -/

structure Owning (m : Manager) : Prop where
  owned : ∀ (e : EpochId) a, m.epochs[e]? = some a → a.stage.live → ∀ c ∈ a.owned,
    m.header c = some a.childId ∧ (m.activations c).isSome
  waiting : ∀ (e : EpochId) a, m.epochs[e]? = some a → a.stage = .children → ∀ c ∈ a.owned, ∀ w,
    m.activations c = some w → w ∈ a.waits
  passed : ∀ (e : EpochId) a, m.epochs[e]? = some a → a.stage.past → ∀ w ∈ a.waits,
    ∃ b, m.epochs[w]? = some b ∧ b.stage.settled ∧ (b.stage.rejected → a.stage.doomed)
  freed : ∀ (e : EpochId) a, m.epochs[e]? = some a → a.stage.past → a.stage.live → ∀ c ∈ a.owned,
    ∃ w ∈ a.waits, m.activations c = some w ∧ ∃ b, m.epochs[w]? = some b ∧ b.stage = .stuck

theorem Owning.same (h : Owning m) (hheader : ∀ c p, m.header c = some p → m'.header c = some p)
    (hactivations : m'.activations = m.activations)
    (hepochs : ∀ e : EpochId, m'.epochs[e]?.map (fun a => (a.childId, a.owned, a.stage, a.waits))
      = m.epochs[e]?.map fun a => (a.childId, a.owned, a.stage, a.waits)) : Owning m' := by
  have hback : ∀ (e : EpochId) a', m'.epochs[e]? = some a' → ∃ a, m.epochs[e]? = some a
      ∧ a'.childId = a.childId ∧ a'.owned = a.owned ∧ a'.stage = a.stage ∧ a'.waits = a.waits := by
    intro e a' he'
    have := hepochs e
    rw [he', map_some, eq_comm, map_eq_some_iff] at this
    obtain ⟨a, he, heq⟩ := this
    simp only [Prod.mk.injEq] at heq
    exact ⟨a, he, heq.1.symm, heq.2.1.symm, heq.2.2.1.symm, heq.2.2.2.symm⟩
  have hforth : ∀ (e : EpochId) a, m.epochs[e]? = some a → ∃ a', m'.epochs[e]? = some a' ∧ a'.stage = a.stage := by
    intro e a he
    have := hepochs e
    rw [he, map_some, map_eq_some_iff] at this
    obtain ⟨a', he', heq⟩ := this
    simp only [Prod.mk.injEq] at heq
    exact ⟨a', he', heq.2.2.1⟩
  refine ⟨?_, ?_, ?_, ?_⟩
  · intro e a' he' hlive c hc
    obtain ⟨a, he, hchild, howned, hstage, -⟩ := hback e a' he'
    rw [hstage] at hlive
    rw [howned] at hc
    obtain ⟨hparent, hmapped⟩ := h.owned e a he hlive c hc
    rw [hchild, hactivations]
    exact ⟨hheader _ _ hparent, hmapped⟩
  · intro e a' he' hchildren c hc w hw
    obtain ⟨a, he, -, howned, hstage, hwaits⟩ := hback e a' he'
    rw [hstage] at hchildren
    rw [howned] at hc
    rw [hactivations] at hw
    rw [hwaits]
    exact h.waiting e a he hchildren c hc w hw
  · intro e a' he' hpast w hw
    obtain ⟨a, he, -, -, hstage, hwaits⟩ := hback e a' he'
    rw [hstage] at hpast ⊢
    rw [hwaits] at hw
    obtain ⟨b, hb, hsettled⟩ := h.passed e a he hpast w hw
    obtain ⟨b', hb', hsame⟩ := hforth w b hb
    exact ⟨b', hb', by rw [hsame]; exact hsettled⟩
  · intro e a' he' hpast hlive c hc
    obtain ⟨a, he, -, howned, hstage, hwaits⟩ := hback e a' he'
    rw [hstage] at hpast hlive
    rw [howned] at hc
    obtain ⟨w, hw, hmapped, b, hb, hstuck⟩ := h.freed e a he hpast hlive c hc
    obtain ⟨b', hb', hsame⟩ := hforth w b hb
    refine ⟨w, hwaits ▸ hw, ?_, b', hb', hsame.trans hstuck⟩
    rw [hactivations]
    exact hmapped

theorem Owning.of_epochs (h : Owning m) (hheader : ∀ c p, m.header c = some p → m'.header c = some p)
    (hactivations : m'.activations = m.activations) (hepochs : m'.epochs = m.epochs) : Owning m' :=
  h.same hheader hactivations fun e => by rw [hepochs]

variable {f : Activation → Activation}

theorem Owning.tend (h : Owning m) (hf : ∀ a, (f a).childId = a.childId
    ∧ (f a).owned = a.owned ∧ (f a).stage = a.stage ∧ (f a).waits = a.waits) : Owning (m.modifyEpoch e f) := by
  refine h.same (fun _ _ hc => hc) rfl fun e' => ?_
  rw [getElem?_modifyEpoch, map_map]
  congr 1
  funext a
  show ((ite _ _ _ : Activation).childId, (ite _ _ _ : Activation).owned, (ite _ _ _ : Activation).stage,
    (ite _ _ _ : Activation).waits) = _
  split
  · rw [(hf a).1, (hf a).2.1, (hf a).2.2.1, (hf a).2.2.2]
  · rfl

theorem Owning.leaveInbox (h : Owning m) (agent : AgentId) (gone : List MessageId) :
    Owning (m.leaveInbox agent gone) := by
  refine h.same (fun _ _ hc => hc) rfl fun e' => ?_
  rw [getElem?_leaveInbox, map_map]
  congr 1
  funext a
  show ((ite _ _ _ : Activation).childId, (ite _ _ _ : Activation).owned, (ite _ _ _ : Activation).stage,
    (ite _ _ _ : Activation).waits) = _
  split <;> rfl

theorem Owning.modify (h : Owning m) (he : m.epochs[e]? = some a)
    (hunsettled : a.stage.settled = false) (hchild : (f a).childId = a.childId)
    (howned : (f a).stage.live → ∀ c ∈ (f a).owned, m.header c = some a.childId ∧ (m.activations c).isSome)
    (hwaiting : (f a).stage = .children → ∀ c ∈ (f a).owned, ∀ w, m.activations c = some w → w ∈ (f a).waits)
    (hpassed : (f a).stage.past → ∀ w ∈ (f a).waits,
      ∃ b, m.epochs[w]? = some b ∧ b.stage.settled ∧ (b.stage.rejected → (f a).stage.doomed))
    (hfreed : (f a).stage.past → (f a).stage.live → ∀ c ∈ (f a).owned,
      ∃ w ∈ (f a).waits, m.activations c = some w ∧ ∃ b, m.epochs[w]? = some b ∧ b.stage = .stuck) :
    Owning (m.modifyEpoch e f) := by
  -- a settled Activation is another one, and stays as it is
  have hother : ∀ (w : EpochId) b, m.epochs[w]? = some b → b.stage.settled → (m.modifyEpoch e f).epochs[w]? = some b := by
    intro w b hb hsettled
    rw [getElem?_modifyEpoch, hb, map_some]
    split
    · rename_i heq
      subst heq
      cases he.symm.trans hb
      rw [hunsettled] at hsettled
      cases hsettled
    · rfl
  have hcases : ∀ (e' : EpochId) b', (m.modifyEpoch e f).epochs[e']? = some b' →
      e' = e ∧ b' = f a ∨ m.epochs[e']? = some b' := by
    intro e' b' hb'
    rw [getElem?_modifyEpoch, map_eq_some_iff] at hb'
    obtain ⟨b, hb, rfl⟩ := hb'
    split
    · rename_i heq
      subst heq
      cases he.symm.trans hb
      exact .inl ⟨rfl, rfl⟩
    · exact .inr hb
  refine ⟨?_, ?_, ?_, ?_⟩
  · intro e' b' hb'
    obtain ⟨-, rfl⟩ | hb' := hcases e' b' hb'
    · rw [hchild]
      exact howned
    · exact h.owned e' b' hb'
  · intro e' b' hb'
    obtain ⟨-, rfl⟩ | hb' := hcases e' b' hb'
    · exact hwaiting
    · exact h.waiting e' b' hb'
  · intro e' b' hb' hpast w hw
    obtain ⟨b, hb, hsettled, hrejected⟩ : ∃ b, m.epochs[w]? = some b ∧ b.stage.settled
        ∧ (b.stage.rejected → b'.stage.doomed) := by
      obtain ⟨-, rfl⟩ | hb' := hcases e' b' hb'
      · exact hpassed hpast w hw
      · exact h.passed e' b' hb' hpast w hw
    exact ⟨b, hother w b hb hsettled, hsettled, hrejected⟩
  · intro e' b' hb' hpast hlive c hc
    obtain ⟨w, hw, hmapped, b, hb, hstuck⟩ : ∃ w ∈ b'.waits, m.activations c = some w
        ∧ ∃ b, m.epochs[w]? = some b ∧ b.stage = .stuck := by
      obtain ⟨-, rfl⟩ | hb' := hcases e' b' hb'
      · exact hfreed hpast hlive c hc
      · exact h.freed e' b' hb' hpast hlive c hc
    exact ⟨w, hw, hmapped, b, hother w b hb (by rw [hstuck]; rfl), hstuck⟩

variable {child : SessionId}

theorem insertChild_mem {c : SessionId} {owned : List SessionId} (h : c ∈ insertChild child owned) :
    c ∈ owned ∨ c = child := by
  unfold insertChild at h
  split at h
  · exact .inl h
  · exact (List.mem_append.mp h).imp_right List.mem_singleton.mp

theorem Owning.acquires (h : Owning m) (he : m.epochs[e]? = some a) (hresident : a.stage = .resident)
    (hheader : m.header child = some a.childId) (hchild : (m.activations child).isSome) :
    Owning (m.modifyEpoch e fun a => { a with owned := insertChild child a.owned }) := by
  apply h.modify he
  · rw [hresident]
    rfl
  · rfl
  · intro hlive c hc
    rcases insertChild_mem hc with hc | rfl
    · exact h.owned e a he hlive c hc
    · exact ⟨hheader, hchild⟩
  · intro hstage
    change a.stage = .children at hstage
    rw [hresident] at hstage
    cases hstage
  · intro hpast
    change a.stage.past at hpast
    rw [hresident] at hpast
    cases hpast
  · intro hpast
    change a.stage.past at hpast
    rw [hresident] at hpast
    cases hpast

theorem Owning.begins (h : Owning m) (he : m.epochs[e]? = some a) (hresident : a.stage = .resident) :
    Owning (m.modifyEpoch e fun a =>
      { a with stage := .children, waits := a.owned.filterMap m.activations, poke := a.poke + 1 }) := by
  apply h.modify he
  · rw [hresident]
    rfl
  · rfl
  · exact fun _ => h.owned e a he (by rw [hresident]; rfl)
  · exact fun _ c hc w hw => List.mem_filterMap.mpr ⟨c, hc, hw⟩
  · nofun
  · nofun

theorem Owning.sticks (h : Owning m) (he : m.epochs[e]? = some a) (hresident : a.stage = .resident) :
    Owning (m.modifyEpoch e fun a => { a with stage := .stuck, poke := a.poke + 1 }) := by
  apply h.modify he
  · rw [hresident]
    rfl
  · rfl
  · exact fun _ => h.owned e a he (by rw [hresident]; rfl)
  · nofun
  · nofun
  · nofun

variable {failed : Bool}

theorem Owning.quiets (h : Owning m) (hres : Residency m) {stage : Stage}
    (he : m.epochs[e]? = some a) (hstage : a.stage = .children)
    (hwaits : ∀ w ∈ a.waits, ∃ b, m.epochs[w]? = some b ∧ b.stage.settled ∧ (b.stage.rejected → failed))
    (hnext : stage = .releasing failed ∨ stage = .released true) :
    Owning (m.modifyEpoch e fun a => { a with stage }) := by
  have hlive : a.stage.live := by rw [hstage]; rfl
  apply h.modify he
  · rw [hstage]
    rfl
  · rfl
  · exact fun _ => h.owned e a he hlive
  · rcases hnext with rfl | rfl <;> nofun
  · intro _ w hw
    obtain ⟨b, hb, hsettled, hrejected⟩ := hwaits w hw
    refine ⟨b, hb, hsettled, fun hb' => ?_⟩
    rcases hnext with rfl | rfl
    · exact hrejected hb'
    · rfl
  · intro _ _ c hc
    obtain ⟨w, hmapped⟩ := isSome_iff_exists.mp (h.owned e a he hlive c hc).2
    have hw : w ∈ a.waits := h.waiting e a he hstage c hc w hmapped
    obtain ⟨b, hb, hsettled, -⟩ := hwaits w hw
    refine ⟨w, hw, hmapped, b, hb, ?_⟩
    obtain ⟨b', hb', -, hlive'⟩ := hres.mapped c w hmapped
    cases hb.symm.trans hb'
    obtain ⟨failed', hended⟩ | hstuck := Stage.settled_cases hsettled
    · rw [hended] at hlive'
      cases hlive'
    · exact hstuck

theorem Owning.releases (h : Owning m) {failed' : Bool} (he : m.epochs[e]? = some a)
    (hstage : a.stage = .releasing failed) (hfailed : failed → failed') :
    Owning (m.modifyEpoch e fun a => { a with stage := .released failed' }) := by
  have hpast : a.stage.past := by rw [hstage]; rfl
  have hlive : a.stage.live := by rw [hstage]; rfl
  apply h.modify he
  · rw [hstage]
    rfl
  · rfl
  · exact fun _ => h.owned e a he hlive
  · nofun
  · intro _ w hw
    obtain ⟨b, hb, hsettled, hrejected⟩ := h.passed e a he hpast w hw
    rw [hstage] at hrejected
    exact ⟨b, hb, hsettled, fun hb' => hfailed (hrejected hb')⟩
  · exact fun _ _ => h.freed e a he hpast hlive

theorem Owning.finishes (h : Owning m) (hres : Residency m) (he : m.epochs[e]? = some a)
    (hstage : a.stage = .released failed) : Owning (m.finished e a.childId failed) := by
  have hpast : a.stage.past := by rw [hstage]; rfl
  have hlive : a.stage.live := by rw [hstage]; rfl
  -- what is settled stays, and is another Activation than this one
  have hother : ∀ (w : EpochId) b, m.epochs[w]? = some b → b.stage.settled →
      ∃ b', (m.finished e a.childId failed).epochs[w]? = some b' ∧ b'.stage = b.stage := by
    intro w b hb hsettled
    obtain ⟨b', hb', -, hsame⟩ := finished_some (e := e) hb
    refine ⟨b', hb', hsame ?_⟩
    rintro rfl
    cases he.symm.trans hb
    rw [hstage] at hsettled
    cases hsettled
  -- the others lose the child
  have hcases : ∀ (e' : EpochId) b', (m.finished e a.childId failed).epochs[e']? = some b' →
      ∃ b, m.epochs[e']? = some b ∧ b'.childId = b.childId ∧ b'.waits = b.waits ∧
        (e' = e ∧ b = a ∧ b'.stage = .ended failed
          ∨ b'.stage = b.stage ∧ (b.stage.live → ∀ c ∈ b'.owned, c ∈ b.owned ∧ c ≠ a.childId)) := by
    intro e' b' hb'
    rw [getElem?_finished, map_eq_some_iff] at hb'
    obtain ⟨b, hb, rfl⟩ := hb'
    refine ⟨b, hb, ?_, ?_, ?_⟩
    · dsimp only
      split <;> split <;> rfl
    · dsimp only
      split <;> split <;> rfl
    · by_cases heq : e = e'
      · subst heq
        refine .inl ⟨rfl, Option.some.inj (hb.symm.trans he), ?_⟩
        dsimp only
        rw [if_pos rfl]
      · refine .inr ⟨?_, fun hlive' c hc => ?_⟩
        · dsimp only
          rw [if_neg heq]
          split <;> rfl
        · dsimp only at hc
          rw [if_neg heq] at hc
          split at hc
          · obtain ⟨hc, hne⟩ := List.mem_filter.mp hc
            exact ⟨hc, of_decide_eq_true hne⟩
          · rename_i hnot
            refine ⟨hc, ?_⟩
            rintro rfl
            exact hnot ⟨hc, hlive'⟩
  have hmapped : ∀ c, c ≠ a.childId → (m.finished e a.childId failed).activations c = m.activations c :=
    fun c hne => Function.update_of_ne hne ..
  refine ⟨?_, ?_, ?_, ?_⟩
  · intro e' b' hb' hlive' c hc
    obtain ⟨b, hb, hchild, -, ⟨-, -, hended⟩ | ⟨hsame, howned⟩⟩ := hcases e' b' hb'
    · rw [hended] at hlive'
      cases hlive'
    · rw [hsame] at hlive'
      obtain ⟨hc, hne⟩ := howned hlive' c hc
      rw [hchild, hmapped c hne]
      exact h.owned e' b hb hlive' c hc
  · intro e' b' hb' hchildren c hc w hw
    obtain ⟨b, hb, -, hwaits, ⟨-, -, hended⟩ | ⟨hsame, howned⟩⟩ := hcases e' b' hb'
    · rw [hended] at hchildren
      cases hchildren
    · rw [hsame] at hchildren
      obtain ⟨hc, hne⟩ := howned (by rw [hchildren]; rfl) c hc
      rw [hmapped c hne] at hw
      rw [hwaits]
      exact h.waiting e' b hb hchildren c hc w hw
  · intro e' b' hb' hpast' w hw
    obtain ⟨b, hb, -, hwaits, hstages⟩ := hcases e' b' hb'
    rw [hwaits] at hw
    have hbefore : ∃ v, m.epochs[w]? = some v ∧ v.stage.settled ∧ (v.stage.rejected → b'.stage.doomed) := by
      obtain ⟨-, rfl, hended⟩ | ⟨hsame, -⟩ := hstages
      · obtain ⟨v, hv, hsettled, hrejected⟩ := h.passed e' b hb hpast w hw
        rw [hstage] at hrejected
        rw [hended]
        exact ⟨v, hv, hsettled, hrejected⟩
      · rw [hsame] at hpast' ⊢
        exact h.passed e' b hb hpast' w hw
    obtain ⟨v, hv, hsettled, hrejected⟩ := hbefore
    obtain ⟨v', hv', hsame⟩ := hother w v hv hsettled
    exact ⟨v', hv', by rw [hsame]; exact ⟨hsettled, hrejected⟩⟩
  · intro e' b' hb' hpast' hlive' c hc
    obtain ⟨b, hb, -, hwaits, ⟨-, -, hended⟩ | ⟨hsame, howned⟩⟩ := hcases e' b' hb'
    · rw [hended] at hlive'
      cases hlive'
    · rw [hsame] at hlive' hpast'
      obtain ⟨hc, hne⟩ := howned hlive' c hc
      obtain ⟨w, hw, hc', v, hv, hstuck⟩ := h.freed e' b hb hpast' hlive' c hc
      obtain ⟨v', hv', hsame'⟩ := hother w v hv (by rw [hstuck]; rfl)
      exact ⟨w, hwaits ▸ hw, (hmapped c hne).trans hc', v', hv', hsame'.trans hstuck⟩

theorem Owning.installs (h : Owning m) (hres : Residency m) {info : AgentInfo} {l : List AgentId} {x : AgentId}
    (hr : m.requests[r]? = some q) (hphase : q.phase = .entered l x) : Owning (m.install r q info.session l x) := by
  have habsent : m.activations q.child = none := (hres.requests r q hr).absent (by rw [hphase]; rfl)
  -- nobody owns the child yet
  have hmapped : ∀ (e : EpochId) a, m.epochs[e]? = some a → a.stage.live → ∀ c ∈ a.owned,
      (m.install r q info.session l x).activations c = m.activations c := by
    intro e a he hlive c hc
    refine Function.update_of_ne ?_ ..
    rintro rfl
    have := (h.owned e a he hlive _ hc).2
    rw [habsent] at this
    cases this
  refine ⟨?_, ?_, ?_, ?_⟩
  · intro e a he hlive c hc
    obtain he | ⟨-, rfl⟩ := getElem?_snoc he
    · rw [hmapped e a he hlive c hc]
      exact h.owned e a he hlive c hc
    · cases hc
  · intro e a he hchildren c hc w hw
    obtain he | ⟨-, rfl⟩ := getElem?_snoc he
    · rw [hmapped e a he (by rw [hchildren]; rfl) c hc] at hw
      exact h.waiting e a he hchildren c hc w hw
    · cases hc
  · intro e a he hpast w hw
    obtain he | ⟨-, rfl⟩ := getElem?_snoc he
    · obtain ⟨b, hb, hsettled⟩ := h.passed e a he hpast w hw
      exact ⟨b, getElem?_snoc_of _ hb, hsettled⟩
    · cases hw
  · intro e a he hpast hlive c hc
    obtain he | ⟨-, rfl⟩ := getElem?_snoc he
    · obtain ⟨w, hw, hc', b, hb, hstuck⟩ := h.freed e a he hpast hlive c hc
      exact ⟨w, hw, (hmapped e a he hlive c hc).trans hc', b, getElem?_snoc_of _ hb, hstuck⟩
    · cases hc

/-- **Every move keeps ownership.** -/
theorem Owning.move (h : Owning m) (hres : Residency m) (hmove : Move rules m m') : Owning m' := by
  have hgrows : ∀ c p, m.header c = some p → c ≠ m.sessions := fun c p hc => Nat.ne_of_lt (hres.older c p hc).1
  cases hmove with
  | book | closes | enqueue agent message | detach agent | asks parent child | goesOn r q phase hr hphase
  | enters r q l hr hphase hfree | resumes session hpersisted hfree => exact h.of_epochs (fun _ _ => id) rfl rfl
  | tend e f hf hannounced => exact h.tend fun a => by rw [hf a]; exact ⟨rfl, rfl, rfl, rfl⟩
  | accepts e a message he hadmits =>
    have hadmitted : Owning (m.modifyEpoch e fun a =>
        { a with accepted := a.accepted ++ [message], poke := a.poke + 1 }) := h.tend fun _ => ⟨rfl, rfl, rfl, rfl⟩
    exact hadmitted.of_epochs (fun _ _ => id) rfl rfl
  | clear e a he hclosing => exact h.leaveInbox _ _
  | acquire e a child he hresident hheader hchild => exact h.acquires he hresident hheader hchild
  | opens e a he hresident hopens => exact h.begins he hresident
  | sticks e a he hresident hopens hthrows => exact h.sticks he hresident
  | quiets e a failed stage he hstage hwaits hnext => exact h.quiets hres he hstage hwaits hnext
  | releases e a failed failed' he hstage hfailed => exact h.releases he hstage hfailed
  | finishes e a failed he hstage => exact h.finishes hres he hstage
  | installs r q info l agent hr hparent hphase => exact h.installs hres hr hphase
  | spoils r q l e a stage hr hphase he hresident howned hwaits haccepted hannounced hstage =>
    have hphased : Owning (m.setPhase r (.rollingBack l e)) := h.of_epochs (fun _ _ => id) rfl rfl
    apply hphased.modify he
    · rw [hresident]
      rfl
    · rfl
    · rw [howned]
      nofun
    · rw [howned]
      nofun
    · rw [hwaits]
      nofun
    · rw [howned]
      nofun
  | starts parent info hparent | hosts parent hparent =>
    refine h.of_epochs (fun c p hc => ?_) rfl rfl
    exact (Function.update_of_ne (hgrows c p hc) ..).trans hc

theorem Owning.moves (h : Owning m) (hres : Residency m) (hmoves : Moves rules m m') : Owning m' := by
  induction hmoves with
  | refl => exact h
  | tail hbefore hmove ih => exact ih.move (hres.moves hbefore) hmove

theorem Owning.step (h : Owning m) (hres : Residency m) {act : Act} (hstep : m.step act = some m') : Owning m' := by
  rcases step_moves_any hres hstep with ⟨agent, message, -, -, rfl⟩ | hmoves
  · exact h.leaveInbox agent [message]
  · exact h.moves hres hmoves

end Manager

end CocoHarness.Subagent
