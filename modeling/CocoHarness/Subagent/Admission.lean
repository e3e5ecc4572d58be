/-
# CocoHarness.Subagent.Admission — accepted messages are held by a resident Activation.

A message accepted for a child is put into the set of its Activation and into the inbox of its Agent in one
span, and leaves both together.  While it is in the set, the watcher does not find the Activation settled, so
that only a disposal that someone else begins, which clears the inbox, or its claim takes it away
(`accepted_messages`).

The cutoff of a disposal is checked where a parent writes to its child, but not where a child writes to its
parent: a report, or the notice of a settled child, may be accepted by an Activation whose disposal has begun
(`notice_joins_disposal`).
-/
import CocoHarness.Subagent.Evolution

namespace CocoHarness.Subagent

open Lib Function Option List

namespace Manager

variable {m m' : Manager} {rules : Rules} {e : EpochId} {a : Activation}

/-! ## What is required -/

def OneLive (m : Manager) : Prop :=
  ∀ (e e' : EpochId) a a', m.epochs[e]? = some a → m.epochs[e']? = some a' → a.stage.live → a'.stage.live →
    a.childId = a'.childId → e = e'

def Delivered (m : Manager) : Prop :=
  ∀ (e : EpochId) a, m.epochs[e]? = some a → ∀ message ∈ a.accepted, message ∈ m.pending a.agent

/-- What has been accepted was accepted before, or by a resident Activation. -/
def AdmitsResident (m m' : Manager) : Prop :=
  ∀ (e : EpochId) a', m'.epochs[e]? = some a' → ∀ message ∈ a'.accepted,
    ∃ a, m.epochs[e]? = some a ∧ (message ∈ a.accepted ∨ a.stage = .resident)

/-- A resident Activation keeps what it has accepted, unless it leaves the inbox, or a disposal begins that is no
settlement. -/
def Holds (m : Manager) (act : Act) (m' : Manager) : Prop :=
  ∀ (e : EpochId) a, m.epochs[e]? = some a → a.stage = .resident → ∀ message ∈ a.accepted,
    act = .leaves a.agent message ∨ ∃ a', m'.epochs[e]? = some a' ∧ (a'.stage = .resident ∧ message ∈ a'.accepted
        ∨ a'.stage ≠ .resident ∧ ∀ e' cancels, act ≠ .settles e' cancels)

/-! ## The inbox -/

theorem Delivered.same (h : m.Delivered) (hpending : ∀ x, ∀ message ∈ m.pending x, message ∈ m'.pending x)
    (hepochs : ∀ (e : EpochId) a', m'.epochs[e]? = some a' → ∀ message ∈ a'.accepted,
      ∃ a, m.epochs[e]? = some a ∧ message ∈ a.accepted ∧ a.agent = a'.agent) : m'.Delivered := by
  intro e a' he' message hmem
  obtain ⟨a, he, hmem', hagent⟩ := hepochs e a' he' message hmem
  rw [← hagent]
  exact hpending _ message (h e a he message hmem')

variable {f : Activation → Activation}

theorem Delivered.modifyEpoch (h : m.Delivered)
    (hf : ∀ a, (f a).accepted = a.accepted ∧ (f a).agent = a.agent) : (m.modifyEpoch e f).Delivered := by
  refine h.same (fun _ _ hmem => hmem) ?_
  intro e' a' he' message hmem
  rw [getElem?_modifyEpoch, map_eq_some_iff] at he'
  obtain ⟨a, he, rfl⟩ := he'
  refine ⟨a, he, ?_, ?_⟩
  · split at hmem
    · exact (hf a).1 ▸ hmem
    · exact hmem
  · split
    · exact (hf a).2.symm
    · rfl

theorem Delivered.of_epochs (h : m.Delivered) (hepochs : m'.epochs = m.epochs) (hpending : m'.pending = m.pending) :
    m'.Delivered := by
  rw [Delivered, hepochs, hpending]
  exact h

theorem Delivered.leaveInbox (h : m.Delivered) (agent : AgentId) (gone : List MessageId) :
    (m.leaveInbox agent gone).Delivered := by
  intro e a' he' message hmem
  rw [getElem?_leaveInbox, map_eq_some_iff] at he'
  obtain ⟨a, he, rfl⟩ := he'
  show message ∈ update m.pending agent _ _
  split at hmem
  · rename_i hagent
    obtain ⟨hmem, hstays⟩ := mem_filter.mp hmem
    rw [if_pos hagent]
    show message ∈ update m.pending agent _ a.agent
    rw [hagent, update_self]
    exact mem_filter.mpr ⟨hagent ▸ h e a he message hmem, hstays⟩
  · rename_i hagent
    rw [if_neg hagent, update_of_ne hagent]
    exact h e a he message hmem

/-- **What is accepted stays in the inbox** as long as it is accepted. -/
theorem Delivered.move (h : m.Delivered) (hmove : Move rules m m') : m'.Delivered := by
  cases hmove with
  | book | closes | detach agent | starts parent info hparent | asks parent child | goesOn r q phase hr hphase
  | enters r q l hr hphase hfree | hosts parent hparent | resumes session hpersisted hfree =>
    exact h.of_epochs rfl rfl
  | tend e f hf hannounced => exact h.modifyEpoch fun a => by rw [hf a]; exact ⟨rfl, rfl⟩
  | enqueue agent message =>
    apply h.same
    · intro x message' hmem
      show message' ∈ update m.pending agent _ x
      rw [update_apply]
      split
      · rename_i heq
        exact mem_append_left _ (heq ▸ hmem)
      · exact hmem
    · exact fun e a he message hmem => ⟨a, he, hmem, rfl⟩
  | accepts e a message he hadmits =>
    intro e' b' hb' message' hmem
    change (m.modifyEpoch e _).epochs[e']? = some b' at hb'
    rw [getElem?_modifyEpoch, map_eq_some_iff] at hb'
    obtain ⟨b, hb, rfl⟩ := hb'
    show message' ∈ update m.pending a.agent _ _
    split at hmem
    · rename_i heq
      subst heq
      cases he.symm.trans hb
      rw [if_pos rfl, update_self]
      rcases mem_append.mp hmem with hmem | hmem
      · exact mem_append_left _ (h e a he message' hmem)
      · exact mem_append_right _ hmem
    · rename_i hne
      rw [if_neg hne, update_apply]
      split
      · rename_i heq
        exact mem_append_left _ (heq ▸ h e' b hb message' hmem)
      · exact h e' b hb message' hmem
  | clear e a he hclosing => exact h.leaveInbox _ _
  | acquire e a child he hresident hheader hchild | opens e a he hresident hopens
  | sticks e a he hresident hopens hthrows | quiets e a failed stage he hstage hwaits hnext
  | releases e a failed failed' he hstage hfailed => exact h.modifyEpoch fun _ => ⟨rfl, rfl⟩
  | finishes e a failed he hstage =>
    refine h.same (fun _ _ hmem => hmem) ?_
    intro e' b' hb' message hmem
    rw [getElem?_finished, map_eq_some_iff] at hb'
    obtain ⟨b, hb, rfl⟩ := hb'
    refine ⟨b, hb, ?_, ?_⟩
    · dsimp only at hmem
      split at hmem <;> split at hmem <;> exact hmem
    · dsimp only
      split <;> split <;> rfl
  | installs r q info l agent hr hparent hphase =>
    refine h.same (fun _ _ hmem => hmem) ?_
    intro e a he message hmem
    obtain he | ⟨rfl, rfl⟩ := getElem?_snoc he
    · exact ⟨a, he, hmem, rfl⟩
    · cases hmem
  | spoils r q l e a stage hr hphase he hresident howned hwaits haccepted hannounced hstage =>
    have hphased : (m.setPhase r (.rollingBack l e)).Delivered := h.of_epochs rfl rfl
    exact hphased.modifyEpoch fun _ => ⟨rfl, rfl⟩

variable {act : Act}

theorem Delivered.step (h : m.Delivered) (hres : m.Residency) (hstep : m.step act = some m') : m'.Delivered := by
  rcases step_moves_any hres hstep with ⟨agent, message, -, -, rfl⟩ | hmoves
  · exact h.leaveInbox agent [message]
  · clear hstep
    induction hmoves with
    | refl => exact h
    | tail _ hmove ih => exact ih.move hmove

/-! ## Acceptance -/

def residents (m : Manager) (e : EpochId) (a : Activation) : Prop :=
  (∃ b, m.epochs[e]? = some b) ∧ a.stage = .resident

variable {a' : Activation}

theorem Evolves.resident (h : m.Evolves m') (he : m.epochs[e]? = some a)
    (he' : m'.epochs[e]? = some a') (hresident : a'.stage = .resident) : a.stage = .resident := by
  obtain ⟨b, hb, hev⟩ := h e a he
  cases he'.symm.trans hb
  by_contra hclosing
  exact hev.closing hclosing hresident

theorem Move.accepted (hmove : Move rules m m') (he' : m'.epochs[e]? = some a')
    {message : MessageId} (hmem : message ∈ a'.accepted) :
    ∃ a, m.epochs[e]? = some a ∧ (message ∈ a.accepted ∨ rules.admits e a) := by
  have hmodify : ∀ {e₁ : EpochId} {f : Activation → Activation}, (m.modifyEpoch e₁ f).epochs[e]? = some a' →
      (∀ a, (f a).accepted = a.accepted) → ∃ a, m.epochs[e]? = some a ∧ (message ∈ a.accepted ∨ rules.admits e a) := by
    intro e₁ f he' hf
    rw [getElem?_modifyEpoch, map_eq_some_iff] at he'
    obtain ⟨a, he, rfl⟩ := he'
    refine ⟨a, he, .inl ?_⟩
    split at hmem
    · exact hf a ▸ hmem
    · exact hmem
  cases hmove with
  | book | closes | enqueue agent message | detach agent | starts parent info hparent | asks parent child
  | goesOn r q phase hr hphase | enters r q l hr hphase hfree | hosts parent hparent
  | resumes session hpersisted hfree => exact ⟨a', he', .inl hmem⟩
  | tend e₁ f hf hannounced => exact hmodify he' fun a => by rw [hf a]
  | accepts e₁ a₁ message₁ he₁ hadmits =>
    change (m.modifyEpoch e₁ _).epochs[e]? = some a' at he'
    rw [getElem?_modifyEpoch, map_eq_some_iff] at he'
    obtain ⟨a, he, rfl⟩ := he'
    by_cases heq : e₁ = e
    · subst heq
      obtain rfl := some.inj (he.symm.trans he₁)
      exact ⟨a, he, .inr hadmits⟩
    · rw [if_neg heq] at hmem
      exact ⟨a, he, .inl hmem⟩
  | clear e₁ a₁ he₁ hclosing =>
    rw [clearInbox, getElem?_leaveInbox, map_eq_some_iff] at he'
    obtain ⟨a, he, rfl⟩ := he'
    refine ⟨a, he, .inl ?_⟩
    split at hmem
    · exact (mem_filter.mp hmem).1
    · exact hmem
  | acquire e₁ a₁ child he₁ hresident hheader hchild | opens e₁ a₁ he₁ hresident hopens
  | sticks e₁ a₁ he₁ hresident hopens hthrows | quiets e₁ a₁ failed stage he₁ hstage hwaits hnext
  | releases e₁ a₁ failed failed' he₁ hstage hfailed => exact hmodify he' fun _ => rfl
  | finishes e₁ a₁ failed he₁ hstage =>
    rw [getElem?_finished, map_eq_some_iff] at he'
    obtain ⟨a, he, rfl⟩ := he'
    refine ⟨a, he, .inl ?_⟩
    dsimp only at hmem
    split at hmem <;> split at hmem <;> exact hmem
  | installs r q info l agent hr hparent hphase =>
    obtain he | ⟨rfl, rfl⟩ := getElem?_snoc he'
    · exact ⟨a', he, .inl hmem⟩
    · cases hmem
  | spoils r q l e₁ a₁ stage hr hphase he₁ hresident howned hwaits haccepted hannounced hstage =>
    change (m.modifyEpoch e₁ _).epochs[e]? = some a' at he'
    exact hmodify he' fun _ => rfl

/-- **Moves that admit to residents only.** -/
theorem Moves.admitsResident (hmoves : Moves { admits := m.residents } m m') : m.AdmitsResident m' := by
  induction hmoves with
  | refl => exact fun e a he message hmem => ⟨a, he, .inl hmem⟩
  | tail hbefore hmove ih =>
    intro e a'' he'' message hmem
    obtain ⟨a', he', hmem' | ⟨⟨a, he⟩, hresident⟩⟩ := hmove.accepted he'' hmem
    · exact ih e a' he' message hmem'
    · exact ⟨a, he, .inr ((Moves.evolves hbefore).resident he he' hresident)⟩

theorem AdmitsResident.leaveInbox (agent : AgentId) (gone : List MessageId) :
    m.AdmitsResident (m.leaveInbox agent gone) := by
  intro e a' he' message hmem
  rw [getElem?_leaveInbox, map_eq_some_iff] at he'
  obtain ⟨a, he, rfl⟩ := he'
  refine ⟨a, he, .inl ?_⟩
  split at hmem
  · exact (mem_filter.mp hmem).1
  · exact hmem

/-- **A punctual action accepts into resident Activations only.** -/
theorem step_admitsResident (hres : m.Residency) (hact : m.punctual act) (hstep : m.step act = some m') :
    m.AdmitsResident m' := by
  have hrespects : act.Respects m { admits := m.residents } :=
    ⟨fun e a b he hb => ⟨⟨a, he⟩, hb⟩, .inl hact, fun _ => trivial, fun _ _ => trivial, fun _ => trivial⟩
  rcases step_moves hres hrespects hstep with ⟨agent, message, -, -, rfl⟩ | hmoves
  · exact .leaveInbox agent [message]
  · exact hmoves.admitsResident

/-! ## What is accepted is held -/

/-- A resident Activation keeps what it has accepted as long as it is resident. -/
def Keeps (m m' : Manager) : Prop :=
  ∀ (e : EpochId) a a', m.epochs[e]? = some a → m'.epochs[e]? = some a' → a'.stage = .resident →
    ∀ message ∈ a.accepted, message ∈ a'.accepted

theorem Keeps.modifyEpoch
    (hf : ∀ a, ∀ message ∈ a.accepted, message ∈ (f a).accepted) : m.Keeps (m.modifyEpoch e f) := by
  intro e' a a' he he' _ message hmem
  rw [getElem?_modifyEpoch, he, map_some, some.injEq] at he'
  subst he'
  split
  · exact hf a message hmem
  · exact hmem

theorem Keeps.of_epochs (h : m'.epochs = m.epochs) : m.Keeps m' := by
  intro e a a' he he' _ message hmem
  rw [h, he, some.injEq] at he'
  exact he' ▸ hmem

/-- Only the inbox of an Activation under disposal is cleared. -/
theorem Move.keeps (hres : m.Residency) (hmove : Move rules m m') : m.Keeps m' := by
  cases hmove with
  | book | closes | enqueue agent message | detach agent | starts parent info hparent | asks parent child
  | goesOn r q phase hr hphase | enters r q l hr hphase hfree | hosts parent hparent
  | resumes session hpersisted hfree => exact .of_epochs rfl
  | tend e f hf hannounced => exact .modifyEpoch fun a message hmem => by rw [hf a]; exact hmem
  | accepts e a message he hadmits =>
    have hadmitted : m.Keeps (m.modifyEpoch e fun a =>
        { a with accepted := a.accepted ++ [message], poke := a.poke + 1 }) :=
      .modifyEpoch fun _ _ hmem => mem_append_left _ hmem
    exact hadmitted
  | clear e a he hclosing =>
    intro e' b b' hb hb' hresident message hmem
    rw [clearInbox, getElem?_leaveInbox, hb, map_some, some.injEq] at hb'
    subst hb'
    split at hresident
    · rename_i hagent
      obtain rfl := hres.sole _ _ _ _ hb he hagent
      cases he.symm.trans hb
      exact absurd hresident hclosing
    · rename_i hagent
      rw [if_neg hagent]
      exact hmem
  | acquire e a child he hresident hheader hchild | opens e a he hresident hopens
  | sticks e a he hresident hopens hthrows | quiets e a failed stage he hstage hwaits hnext
  | releases e a failed failed' he hstage hfailed => exact .modifyEpoch fun _ _ => id
  | finishes e a failed he hstage =>
    intro e' b b' hb hb' _ message hmem
    rw [getElem?_finished, hb, map_some, some.injEq] at hb'
    subst hb'
    dsimp only
    split <;> split <;> exact hmem
  | installs r q info l agent hr hparent hphase =>
    intro e' b b' hb hb' _ message hmem
    rw [show (m.install r q info.session l agent).epochs[e']? = some b from getElem?_snoc_of _ hb,
      some.injEq] at hb'
    exact hb' ▸ hmem
  | spoils r q l e a stage hr hphase he hresident howned hwaits haccepted hannounced hstage =>
    exact Keeps.modifyEpoch (m := m.setPhase r (.rollingBack l e)) fun _ _ => id

theorem Moves.keeps (hres : m.Residency) (hmoves : Moves rules m m') : m.Keeps m' := by
  induction hmoves with
  | refl => exact .of_epochs rfl
  | tail hbefore hmove ih =>
    intro e a a'' he he'' hresident message hmem
    obtain ⟨a', he', -⟩ := Moves.evolves hbefore e a he
    have hmid : a'.stage = .resident := hmove.evolves.resident he' he'' hresident
    exact hmove.keeps (hres.moves hbefore) e a' a'' he' he'' hresident message (ih e a a' he he' hmid message hmem)

/-! ## Settlement -/

theorem disposeAll_nil (cancels : EpochId → Bool) (fuel : Nat) (m : Manager) : disposeAll cancels fuel [] m = m := by
  cases fuel <;> rfl

theorem dispose_leaf (he : m.epochs[e]? = some a) (hresident : a.stage = .resident) (howned : a.owned = [])
    (cancels : EpochId → Bool) : m.dispose cancels [e] = m.openDisposal e (cancels e) := by
  unfold dispose
  rw [length_singleton, Nat.add_comm, disposeAll, he]
  dsimp only
  rw [if_neg (by rw [not_closing_iff.mpr hresident]; exact Bool.false_ne_true), howned]
  simp only [filterMap_nil, ite_self, append_nil]
  exact disposeAll_nil cancels _ _

variable {e' : EpochId} {b b' : Activation}

theorem openDisposal_stage (cancels : Bool) (hne : e ≠ e')
    (hb : m.epochs[e']? = some b) (hb' : (m.openDisposal e cancels).epochs[e']? = some b') : b'.stage = b.stage := by
  unfold openDisposal at hb'
  split at hb'
  · exact congrArg Activation.stage (some.inj (hb'.symm.trans hb))
  · cases cancels with
    | false =>
      simp only [Bool.false_eq_true, if_false, getElem?_modifyEpoch, hb, map_some, if_neg hne,
        some.injEq] at hb'
      rw [← hb']
    | true =>
      simp only [if_true, clearInbox, getElem?_leaveInbox, getElem?_modifyEpoch, hb, map_some, if_neg hne,
        some.injEq] at hb'
      rw [← hb']
      split <;> rfl

variable {cancels : EpochId → Bool}

/-- A watcher finds the Activation not settled, or disposes of one that holds and owns nothing. -/
theorem settles_cases (hstep : m.settles e cancels = some m') :
    ∃ a poked, m.epochs[e]? = some a ∧ a.watcher = .locking poked ∧ ((a.stage ≠ .resident ∨ m.settledState a = false)
          ∧ m' = m.modifyEpoch e (fun a => { a with watcher := .undecided poked })
        ∨ a.stage = .resident ∧ m.settledState a
          ∧ m' = (m.openDisposal e (cancels e)).modifyEpoch e fun a => { a with watcher := .done }) := by
  simp only [settles, bind_eq_bind, bind_eq_some_iff] at hstep
  obtain ⟨a, he, hstep⟩ := hstep
  split at hstep
  · rename_i poked hwatcher
    simp only [bind_eq_some_iff] at hstep
    obtain ⟨-, -, hstep⟩ := hstep
    refine ⟨a, poked, he, hwatcher, ?_⟩
    split at hstep
    · rename_i hnot
      rw [Bool.or_eq_true, Bool.not_eq_true', closing_iff] at hnot
      exact .inl ⟨hnot, (some.inj hstep).symm⟩
    · rename_i hsettled
      simp only [Bool.or_eq_true, Bool.not_eq_true', not_or, Bool.not_eq_true, Bool.not_eq_false] at hsettled
      obtain ⟨hopen, hsettled⟩ := hsettled
      have hresident := not_closing_iff.mp hopen
      have howned : a.owned = [] := by
        simp only [settledState, Bool.and_eq_true, List.isEmpty_iff] at hsettled
        exact hsettled.2
      rw [dispose_leaf he hresident howned] at hstep
      exact .inr ⟨hresident, hsettled, (some.inj hstep).symm⟩
  · cases hstep

/-- **A watcher begins no disposal but of an Activation that has accepted nothing.** -/
theorem settles_resident (hstep : m.settles e cancels = some m') (hb : m.epochs[e']? = some b) (hb' : m'.epochs[e']? = some b')
    (hresident : b.stage = .resident) (haccepted : b.accepted ≠ []) : b'.stage = .resident := by
  obtain ⟨a, poked, he, -, ⟨-, rfl⟩ | ⟨-, hsettled, rfl⟩⟩ := settles_cases hstep
  · rw [getElem?_modifyEpoch, hb, map_some, some.injEq] at hb'
    rw [← hb']
    split <;> exact hresident
  · have hne : e ≠ e' := by
      rintro rfl
      cases he.symm.trans hb
      simp only [settledState, Bool.and_eq_true, List.isEmpty_iff] at hsettled
      exact haccepted hsettled.1.2
    rw [getElem?_modifyEpoch, map_eq_some_iff] at hb'
    obtain ⟨b₁, hb₁, rfl⟩ := hb'
    rw [if_neg hne]
    exact (openDisposal_stage _ hne hb hb₁).trans hresident

theorem step_holds (hres : m.Residency) (hstep : m.step act = some m') : m.Holds act m' := by
  intro e a he hresident message hmem
  rcases step_moves_any hres hstep with ⟨agent, gone, rfl, -, rfl⟩ | hmoves
  · by_cases hgone : agent = a.agent ∧ gone = message
    · obtain ⟨rfl, rfl⟩ := hgone
      exact .inl rfl
    · refine .inr ⟨_, by rw [getElem?_leaveInbox, he, map_some], .inl ?_⟩
      split
      · rename_i hagent
        refine ⟨hresident, mem_filter.mpr ⟨hmem, decide_eq_true ?_⟩⟩
        intro hmem'
        exact hgone ⟨hagent.symm, (mem_singleton.mp hmem').symm⟩
      · exact ⟨hresident, hmem⟩
  · obtain ⟨a', he', -⟩ := Moves.evolves hmoves e a he
    refine .inr ⟨a', he', ?_⟩
    by_cases hstays : a'.stage = .resident
    · exact .inl ⟨hstays, Moves.keeps hres hmoves e a a' he he' hstays message hmem⟩
    · refine .inr ⟨hstays, ?_⟩
      rintro e' cancels rfl
      exact hstays (settles_resident hstep he he' hresident (ne_nil_of_mem hmem))

end Manager

/-! ## Over every run -/

def Archive.empty : Archive where
  sessions := 0
  header := fun _ => none
  older := nofun

/-- **Accepted messages.**  In a run of punctual actions, every action accepts into resident Activations only, and
leaves what they hold, unless it claims or discards it or disposes of them; a child has one live Activation at most,
and what is accepted waits in an inbox. -/
theorem accepted_messages {archive : Archive} {acts : List Act} {m : Manager}
    (hrun : Machine.exec Manager.step archive.start acts = some m)
    (hpunctual : Machine.Along Manager.step (fun n act => n.punctual act = true) archive.start acts) :
    Machine.Along Manager.step (fun n act => ∀ n', n.step act = some n' → n.AdmitsResident n' ∧ n.Holds act n')
        archive.start acts
      ∧ m.OneLive ∧ m.Delivered := by
  have hres : m.Residency := residency_run hrun
  have hdelivered : m.Residency ∧ m.Delivered :=
    Machine.exec_invariant (I := fun n => n.Residency ∧ n.Delivered)
      (fun _ _ _ _ h hstep => ⟨h.1.step hstep, h.2.step h.1 hstep⟩)
      ⟨archive.residency, fun _ _ he => by simp [Archive.start] at he⟩ hrun
  refine ⟨?_, fun e e' a a' he he' hlive hlive' => hres.sole_child he he' hlive hlive', hdelivered.2⟩
  apply Machine.Along.of_invariant (I := Manager.Residency) _ _ archive.residency hpunctual
  · exact fun n act n' h _ hstep => h.step hstep
  · exact fun n act h hact n' hstep => ⟨n.step_admitsResident h hact hstep, n.step_holds h hstep⟩

/-- The forest of a parent is drained, and the parent leaves the registry meanwhile; the inner child goes first. -/
def parentLeaves : List Act :=
  [.hostCreates none,
    .startContinuable 0, .prepared 0 true, .enterLock 0 false false, .agentEntered 0, .handedOver 0 false true true,
    .unregistered 0, .submitMaterialized 0 false true fun _ => true,
    .startContinuable 1, .prepared 1 true, .enterLock 1 false false, .agentEntered 1, .handedOver 1 false true true,
    .unregistered 1, .submitMaterialized 1 false true fun _ => true,
    .drainDescendants [0] fun _ => true, .hostDisposes 0, .quiesced 1 true true, .handleDisposed 1 true]

/-- Up to that notice the run keeps to the rules. -/
theorem accepted_messages_parentLeaves : ∃ m, Machine.exec Manager.step Archive.empty.start parentLeaves = some m
    ∧ m.OneLive ∧ m.Delivered := by
  obtain ⟨m, hm⟩ := isSome_iff_exists.mp
    (show (Machine.exec Manager.step Archive.empty.start parentLeaves).isSome by decide +kernel)
  exact ⟨m, hm, (accepted_messages hm (by decide +kernel)).2⟩

/-- **A notice joins a disposal** that has begun. -/
theorem notice_joins_disposal : ∃ m m', Machine.exec Manager.step Archive.empty.start parentLeaves = some m
    ∧ m.step (.finishDisposal 1 true) = some m' ∧ ¬ m.AdmitsResident m' := by
  have hafter : ((Machine.exec Manager.step Archive.empty.start parentLeaves).bind fun m =>
      (m.step (.finishDisposal 1 true)).map fun m' =>
        (m.epochs[0]?.map fun a => (a.stage, a.accepted), m'.epochs[0]?.map fun a => (a.stage, a.accepted)))
      = some (some (.children, []), some (.children, [2])) := by decide +kernel
  simp only [bind_eq_some_iff, map_eq_some_iff, Prod.mk.injEq] at hafter
  obtain ⟨m, hm, m', hm', ⟨a, ha, hstage, hnone⟩, a', ha', -, hsome⟩ := hafter
  refine ⟨m, m', hm, hm', fun h => ?_⟩
  obtain ⟨b, hb, hmem | hresident⟩ := h 0 a' ha' 2 (by rw [hsome]; exact List.mem_singleton_self 2)
  · cases ha.symm.trans hb
    rw [hnone] at hmem
    cases hmem
  · cases ha.symm.trans hb
    rw [hstage] at hresident
    cases hresident

end CocoHarness.Subagent
