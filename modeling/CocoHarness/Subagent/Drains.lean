/-
# CocoHarness.Subagent.Drains — what a teardown waits for covers its forest.

A teardown awaits the roots of its forest only.  That is enough: each other Activation of the forest is waited for by
an older one of it, or an older one has failed for good and the teardown rejects (`Covered`).  Once the roots have
ended well, so has everything (`Covered.ended`).

Since an `Agent.cancel` that throws at the very beginning of a disposal leaves its child in the map for good, the
parent of such a child is released with the child in its set (`parentReleasedFirst`); where none throws, ownership is
released child-first (`child_first`).
-/
import CocoHarness.Subagent.Admission
import CocoHarness.Subagent.Forest

namespace CocoHarness.Subagent

open Lib List

namespace Manager

variable {m m' : Manager} {rules : Rules} {e : EpochId} {a : Activation} {r : RequestId} {q : Request}
  {T : EpochId → Prop} {roots : List EpochId}

/-! ## Forests -/

/-- The disposal of the first waits for the second, or never succeeds. -/
def Awaits (m : Manager) (e' e : EpochId) : Prop :=
  ∃ a', m.epochs[e']? = some a' ∧ a'.stage ≠ .resident ∧ (e ∈ a'.waits ∨ a'.stage.doomed)

/-- The first is an Activation of an older session than the second. -/
def Older (m : Manager) (e' e : EpochId) : Prop :=
  ∃ a' a, m.epochs[e']? = some a' ∧ m.epochs[e]? = some a ∧ a'.childId < a.childId

/-- Every Activation of the forest is a root, or an older one of the forest answers for it. -/
def Covered (m : Manager) (T : EpochId → Prop) (roots : List EpochId) : Prop :=
  ∀ e, T e → e ∈ roots ∨ ∃ e', T e' ∧ m.Older e' e ∧ m.Awaits e' e

variable {e' : EpochId}

theorem Awaits.evolves (h : m.Awaits e' e) (hev : m.Evolves m') : m'.Awaits e' e := by
  obtain ⟨a, ha, hclosing, hawaits⟩ := h
  obtain ⟨a', ha', heva⟩ := hev e' a ha
  refine ⟨a', ha', heva.closing hclosing, hawaits.imp (fun hw => ?_) heva.doomed⟩
  rw [heva.waits hclosing]
  exact hw

theorem Older.evolves (h : m.Older e' e) (hev : m.Evolves m') : m'.Older e' e := by
  obtain ⟨a', a, ha', ha, hlt⟩ := h
  obtain ⟨b', hb', hevb'⟩ := hev e' a' ha'
  obtain ⟨b, hb, hevb⟩ := hev e a ha
  exact ⟨b', b, hb', hb, by rw [hevb'.childId, hevb.childId]; exact hlt⟩

theorem Covered.evolves (h : m.Covered T roots) (hev : m.Evolves m') : m'.Covered T roots :=
  fun e he => (h e he).imp_right fun ⟨e', he', holder, hawaits⟩ => ⟨e', he', holder.evolves hev, hawaits.evolves hev⟩

/-- **When the roots have ended well, so has the forest.** -/
theorem Covered.ended (h : m.Covered T roots) (hown : m.Owning)
    (hroots : ∀ e ∈ roots, ∃ a, m.epochs[e]? = some a ∧ a.stage = .ended false) :
    ∀ (e : EpochId) a, T e → m.epochs[e]? = some a → a.stage = .ended false := by
  -- by induction on the number of the session: what answers for an Activation is older
  suffices hall : ∀ (n : Nat) (e : EpochId) a, a.childId = n → T e → m.epochs[e]? = some a → a.stage = .ended false from
    fun e a => hall a.childId e a rfl
  intro n
  induction n using Nat.strongRecOn with
  | _ n ih =>
    intro e a hn hT he
    obtain hroot | ⟨e', hT', ⟨a', b, ha', hb, hlt⟩, c, hc, -, hawaits⟩ := h e hT
    · obtain ⟨b, hb, hended⟩ := hroots e hroot
      cases he.symm.trans hb
      exact hended
    · cases he.symm.trans hb
      cases ha'.symm.trans hc
      have hended : a'.stage = .ended false := ih a'.childId (hn ▸ hlt) e' a' rfl hT' ha'
      have hw : e ∈ a'.waits := by
        refine hawaits.resolve_right fun hdoomed => ?_
        rw [hended] at hdoomed
        cases hdoomed
      obtain ⟨b, hb, hsettled, hrejected⟩ := hown.passed e' a' ha' (by rw [hended]; rfl) e hw
      cases he.symm.trans hb
      rw [hended] at hrejected
      obtain ⟨failed, hstage⟩ | hstage := Stage.settled_cases hsettled
      · rw [hstage] at hrejected ⊢
        cases failed with
        | false => rfl
        | true => cases hrejected rfl
      · rw [hstage] at hrejected
        cases hrejected rfl

variable {a' : Activation}

theorem awaits_dispose (hres : m.Residency) (hown : m.Owning) (cancels : EpochId → Bool) (targets : List EpochId) {b' : Activation} (he : m.epochs[e]? = some a) (hlive : a.stage.live)
    (he' : m.epochs[e']? = some a') (hlive' : a'.stage.live) (howned : a.childId ∈ a'.owned)
    (hb' : (m.dispose cancels targets).epochs[e']? = some b') (hclosing : b'.stage ≠ .resident) :
    (m.dispose cancels targets).Awaits e' e := by
  have hmapped : m.activations a.childId = some e := (hres.epochs e a he).inMap hlive
  have hev := dispose_evolves cancels targets m
  by_cases hresident : a'.stage = .resident
  · refine ⟨b', hb', hclosing, ?_⟩
    obtain hstuck | ⟨-, hwaits, -⟩ := (dispose_spec cancels targets m).2 e' a' b' he' hresident hb' hclosing
    · rw [hstuck]
      exact .inr rfl
    · rw [hwaits]
      exact .inl (mem_filterMap.mpr ⟨_, howned, hmapped⟩)
  · have hbefore : m.Awaits e' e := by
      refine ⟨a', he', hresident, ?_⟩
      cases hstage : a'.stage with
      | resident => exact absurd hstage hresident
      | children => exact .inl (hown.waiting e' a' he' hstage _ howned e hmapped)
      | stuck => exact .inr rfl
      | ended failed => rw [hstage] at hlive'; cases hlive'
      | releasing failed | released failed =>
        obtain ⟨w, hw, hmapped', -⟩ := hown.freed e' a' he' (by rw [hstage]; rfl) hlive' _ howned
        cases hmapped.symm.trans hmapped'
        exact .inl hw
    exact hbefore.evolves hev

theorem mapped_iff (hres : m.Residency) : e ∈ m.mapped ↔ ∃ a, m.epochs[e]? = some a ∧ a.stage.live := by
  simp only [mapped, mem_filter, mem_range, Option.any_eq_true, decide_eq_true_eq]
  constructor
  · rintro ⟨-, a, he, hmapped⟩
    obtain ⟨b, hb, -, hlive⟩ := hres.mapped _ _ hmapped
    cases he.symm.trans hb
    exact ⟨a, he, hlive⟩
  · rintro ⟨a, he, hlive⟩
    exact ⟨(List.getElem?_eq_some_iff.mp he).1, a, he, (hres.epochs e a he).inMap hlive⟩

theorem rootsOf_cases {targets : List EpochId} (hmem : e ∈ targets) (he : m.epochs[e]? = some a) :
    e ∈ m.rootsOf targets ∨ ∃ e' ∈ targets, ∃ a', m.epochs[e']? = some a' ∧ a.childId ∈ a'.owned := by
  by_cases howned : ∃ e' ∈ targets, ∃ a', m.epochs[e']? = some a' ∧ a.childId ∈ a'.owned
  · exact .inr howned
  · refine .inl (mem_filter.mpr ⟨hmem, ?_⟩)
    rw [he, Option.any_some, all_eq_true]
    intro e' he'
    rw [Bool.not_eq_true', Option.any_eq_false]
    intro a' ha'
    exact decide_eq_false fun hin => howned ⟨e', he', a', ha', hin⟩

theorem Awaits.closing (h : m.Awaits e' e) (hown : m.Owning) (hwaited : m.Waited) :
    (∃ a, m.epochs[e]? = some a ∧ a.stage ≠ .resident) ∨ ∃ a', m.epochs[e']? = some a' ∧ a'.stage.doomed := by
  obtain ⟨a', ha', hclosing, hw | hdoomed⟩ := h
  · cases hstage : a'.stage with
    | resident => exact absurd hstage hclosing
    | children => exact .inl (hwaited e' a' ha' hstage e hw)
    | stuck => exact .inr ⟨a', ha', by rw [hstage]; rfl⟩
    | releasing failed | released failed | ended failed =>
      obtain ⟨b, hb, hsettled, -⟩ := hown.passed e' a' ha' (by rw [hstage]; rfl) e hw
      refine .inl ⟨b, hb, fun hresident => ?_⟩
      rw [hresident] at hsettled
      cases hsettled
  · exact .inr ⟨a', ha', hdoomed⟩

theorem dispose_moves (cancels : EpochId → Bool) (targets : List EpochId) (m : Manager) :
    Moves { closes := False } m (m.dispose cancels targets) := moves_dispose trivial (fun _ _ => trivial) targets

/-- **Disposing of the roots covers everything**, up to an Activation that has failed. -/
theorem covered_dispose_roots (hres : m.Residency) (hown : m.Owning) (hwaited : m.Waited) (cancels : EpochId → Bool) :
    (m.dispose cancels (m.rootsOf m.mapped)).Covered (· ∈ m.mapped) (m.rootsOf m.mapped) := by
  have hev := dispose_evolves cancels (m.rootsOf m.mapped) m
  have hown' := hown.moves hres (dispose_moves cancels (m.rootsOf m.mapped) m)
  have hwaited' := hwaited.dispose hres cancels (m.rootsOf m.mapped)
  have hspec := (dispose_spec cancels (m.rootsOf m.mapped) m).1
  have hawaits : ∀ (e e' : EpochId) (a a' b' : Activation), m.epochs[e]? = some a → a.stage.live →
      m.epochs[e']? = some a' → a'.stage.live → a.childId ∈ a'.owned →
      (m.dispose cancels (m.rootsOf m.mapped)).epochs[e']? = some b' → b'.stage ≠ .resident →
      (m.dispose cancels (m.rootsOf m.mapped)).Awaits e' e :=
    fun _ _ _ _ _ he hlive he' hlive' howned => awaits_dispose hres hown cancels _ he hlive he' hlive' howned
  generalize m.dispose cancels (m.rootsOf m.mapped) = last at hev hown' hwaited' hspec hawaits ⊢
  -- by induction on the session: each is closing, or an older one has failed
  have hall : ∀ (n : Nat) (e : EpochId) a, a.childId = n → m.epochs[e]? = some a → a.stage.live →
      (∃ b, last.epochs[e]? = some b ∧ b.stage ≠ .resident)
        ∨ ∃ e' ∈ m.mapped, m.Older e' e ∧ ∃ b, last.epochs[e']? = some b ∧ b.stage.doomed := by
    intro n
    induction n using Nat.strongRecOn with
    | _ n ih =>
      intro e a hn he halive
      have hmem : e ∈ m.mapped := (mapped_iff hres).mpr ⟨a, he, halive⟩
      obtain hroot | ⟨e', hmem', a', he', howned⟩ := rootsOf_cases hmem he
      · exact .inl (hspec e hroot a he)
      obtain ⟨b, hb, hlive'⟩ := (mapped_iff hres).mp hmem'
      cases he'.symm.trans hb
      have hlt : a'.childId < a.childId := (hres.older _ _ (hown.owned e' a' he' hlive' _ howned).1).2
      obtain ⟨b', hb', hclosing⟩ | ⟨e'', hmem'', ⟨d'', d', hd'', hd', hlt'⟩, hdoomed⟩ :=
        ih a'.childId (hn ▸ hlt) e' a' rfl he' hlive'
      · obtain hclosed | hdoomed := (hawaits e e' a a' b' he halive he' hlive' howned hb' hclosing).closing hown' hwaited'
        · exact .inl hclosed
        · exact .inr ⟨e', hmem', ⟨a', a, he', he, hlt⟩, hdoomed⟩
      · cases he'.symm.trans hd'
        exact .inr ⟨e'', hmem'', ⟨d'', a, hd'', he, Nat.lt_trans hlt' hlt⟩, hdoomed⟩
  -- so that its owner answers for each, or that older one
  have hfailed : ∀ e e', e' ∈ m.mapped → m.Older e' e → (∃ b, last.epochs[e']? = some b ∧ b.stage.doomed) →
      ∃ e', e' ∈ m.mapped ∧ last.Older e' e ∧ last.Awaits e' e := by
    rintro e e' hmem' holder ⟨b, hb, hdoomed⟩
    refine ⟨e', hmem', holder.evolves hev, b, hb, ?_, .inr hdoomed⟩
    intro hresident
    rw [hresident] at hdoomed
    cases hdoomed
  intro e hmem
  obtain ⟨a, he, halive⟩ := (mapped_iff hres).mp hmem
  refine (rootsOf_cases hmem he).imp_right ?_
  rintro ⟨e', hmem', a', he', howned⟩
  obtain ⟨b, hb, hlive'⟩ := (mapped_iff hres).mp hmem'
  cases he'.symm.trans hb
  have hlt : a'.childId < a.childId := (hres.older _ _ (hown.owned e' a' he' hlive' _ howned).1).2
  obtain ⟨b', hb', hclosing⟩ | ⟨e'', hmem'', ⟨d'', d', hd'', hd', hlt'⟩, hdoomed⟩ := hall _ e' a' rfl he' hlive'
  · have holder : m.Older e' e := ⟨a', a, he', he, hlt⟩
    exact ⟨e', hmem', holder.evolves hev, hawaits e e' a a' b' he halive he' hlive' howned hb' hclosing⟩
  · cases he'.symm.trans hd'
    exact hfailed e e'' hmem'' ⟨d'', a, hd'', he, Nat.lt_trans hlt' hlt⟩ hdoomed

/-! ## Teardowns -/

def Quiet (m : Manager) : Prop := ∀ (r : RequestId) q, m.requests[r]? = some q → q.phase.materializing = false

structure DrainOk (m : Manager) (drain : Drain) : Prop where
  resolved : drain.phase = .resolved → ∀ e ∈ drain.roots, ∃ a, m.epochs[e]? = some a ∧ a.stage = .ended false
  draining : drain.below = none → m.draining
  tracked : drain.below = none → drain.phase = .materializations → ∀ (r : RequestId) q, m.requests[r]? = some q →
    q.phase.materializing → r ∈ drain.waits
  quiet : drain.below = none → drain.phase ≠ .materializations → m.Quiet
  covered : drain.below = none → drain.phase ≠ .materializations →
    ∃ T : EpochId → Prop, (∀ (e : EpochId) a, m.epochs[e]? = some a → a.stage.live → T e) ∧ m.Covered T drain.roots

theorem PhaseStep.materializing {phase : Phase} (h : PhaseStep m r q phase) (hm : phase.materializing) :
    q.phase.materializing ∨ m.draining = false := by
  cases h with
  | creates h hopen =>
    right
    rw [closingTeardownFor, Bool.or_eq_false_iff] at hopen
    exact hopen.1
  | _ => cases hm

theorem Move.materializing (hmove : Move rules m m') {q' : Request} (hr' : m'.requests[r]? = some q')
    (hm : q'.phase.materializing) :
    (∃ q, m.requests[r]? = some q ∧ q.phase.materializing) ∨ m.draining = false := by
  cases hmove with
  | installs r₁ q₁ info l agent hr hparent hphase =>
    obtain ⟨rfl, q, hq, rfl⟩ | ⟨-, hq⟩ := install_request hr'
    · cases hr.symm.trans hq
      exact .inl ⟨_, hr, by rw [hphase]; rfl⟩
    · exact .inl ⟨q', hq, hm⟩
  | spoils r₁ q₁ l e₁ a₁ stage hr hphase he₁ hresident howned hwaits haccepted hannounced hnext =>
    change (m.setPhase r₁ (.rollingBack l e₁)).requests[r]? = some q' at hr'
    obtain ⟨rfl, q, hq, rfl⟩ | ⟨-, hq⟩ := setPhase_request hr'
    · cases hr.symm.trans hq
      exact .inl ⟨_, hr, by rw [hphase]; rfl⟩
    · exact .inl ⟨q', hq, hm⟩
  | starts parent info hparent | asks parent child =>
    obtain hr | ⟨-, rfl⟩ := getElem?_snoc hr'
    · exact .inl ⟨q', hr, hm⟩
    · cases hm
  | goesOn r₁ q₁ phase hr hphase =>
    obtain ⟨rfl, q, hq, rfl⟩ | ⟨-, hq⟩ := setPhase_request hr'
    · cases hr.symm.trans hq
      exact (hphase.materializing hm).imp_left fun h => ⟨_, hr, h⟩
    · exact .inl ⟨q', hq, hm⟩
  | enters r₁ q₁ l hr hphase hfree =>
    obtain ⟨rfl, q, hq, rfl⟩ | ⟨-, hq⟩ := setPhase_request hr'
    · cases hr.symm.trans hq
      exact .inl ⟨_, hr, by rw [hphase]; rfl⟩
    · exact .inl ⟨q', hq, hm⟩
  | _ => exact .inl ⟨q', hr', hm⟩

theorem Move.live (hmove : Move rules m m') (he' : m'.epochs[e]? = some a') (hlive : a'.stage.live) :
    (∃ a, m.epochs[e]? = some a ∧ a.stage.live) ∨ ¬ m.Quiet := by
  cases he : m.epochs[e]? with
  | some a =>
    obtain ⟨b, hb, hev⟩ := hmove.evolves e a he
    cases he'.symm.trans hb
    refine .inl ⟨a, rfl, ?_⟩
    cases hstage : a.stage with
    | ended failed =>
      rw [hev.settled (by rw [hstage]; rfl), hstage] at hlive
      cases hlive
    | _ => rfl
  | none =>
    have hnone : m'.epochs.length ≤ m.epochs.length → False := by
      intro hle
      have := (List.getElem?_eq_some_iff.mp he').1
      rw [List.getElem?_eq_none_iff] at he
      omega
    cases hmove with
    | installs r q info l agent hr hparent hphase =>
      refine .inr fun hquiet => ?_
      have := hquiet r q hr
      rw [hphase] at this
      cases this
    | clear e₁ a₁ he₁ hclosing => exact (hnone (Nat.le_of_eq (length_map _))).elim
    | finishes e₁ a₁ failed he₁ hstage =>
      exact (hnone (Nat.le_of_eq ((length_modify _ _ _).trans (length_map _)))).elim
    | book | closes | enqueue | detach | starts | asks | goesOn | enters | hosts | resumes =>
      exact (hnone (Nat.le_refl _)).elim
    | _ => exact (hnone (Nat.le_of_eq (length_modify _ _ _))).elim

theorem Move.drains (hmove : Move { closes := False } m m') : m'.drains = m.drains ∧ m'.draining = m.draining := by
  cases hmove with
  | closes closingScopes draining drains hcloses => exact hcloses.elim
  | _ => exact ⟨rfl, rfl⟩

theorem Moves.drains (hmoves : Moves { closes := False } m m') : m'.drains = m.drains ∧ m'.draining = m.draining := by
  induction hmoves with
  | refl => exact ⟨rfl, rfl⟩
  | tail _ hmove ih => exact ⟨hmove.drains.1.trans ih.1, hmove.drains.2.trans ih.2⟩

theorem Quiet.move (h : m.Quiet) (hdraining : m.draining) (hmove : Move rules m m') : m'.Quiet := by
  intro r q' hr'
  rw [Bool.eq_false_iff]
  intro hm
  obtain ⟨q, hr, hm⟩ | hopen := hmove.materializing hr' hm
  · rw [h r q hr] at hm
    cases hm
  · rw [hdraining] at hopen
    cases hopen

theorem Quiet.moves (h : m.Quiet) (hdraining : m.draining) (hmoves : Moves { closes := False } m m') : m'.Quiet := by
  induction hmoves with
  | refl => exact h
  | tail hbefore hmove ih => exact ih.move ((Moves.drains hbefore).2.trans hdraining) hmove

theorem DrainOk.move {drain : Drain} (h : m.DrainOk drain) (hmove : Move { closes := False } m m') :
    m'.DrainOk drain where
  resolved := by
    intro hphase e hroot
    obtain ⟨a, ha, hended⟩ := h.resolved hphase e hroot
    obtain ⟨a', ha', hev⟩ := hmove.evolves e a ha
    exact ⟨a', ha', (hev.settled (by rw [hended]; rfl)).trans hended⟩
  draining := fun hbelow => by rw [hmove.drains.2]; exact h.draining hbelow
  tracked := by
    intro hbelow hphase r q' hr' hm
    obtain ⟨q, hr, hm⟩ | hopen := hmove.materializing hr' hm
    · exact h.tracked hbelow hphase r q hr hm
    · rw [h.draining hbelow] at hopen
      cases hopen
  quiet := by
    intro hbelow hphase
    exact (h.quiet hbelow hphase).move (h.draining hbelow) hmove
  covered := by
    intro hbelow hphase
    obtain ⟨T, hall, hcovered⟩ := h.covered hbelow hphase
    refine ⟨T, fun e a' he' hlive => ?_, hcovered.evolves hmove.evolves⟩
    obtain ⟨a, he, hlive⟩ | hnot := hmove.live he' hlive
    · exact hall e a he hlive
    · exact absurd (h.quiet hbelow hphase) hnot

def DrainsOk (m : Manager) : Prop := ∀ (d : Nat) drain, m.drains[d]? = some drain → m.DrainOk drain

theorem DrainsOk.moves (h : m.DrainsOk) (hmoves : Moves { closes := False } m m') : m'.DrainsOk := by
  induction hmoves with
  | refl => exact h
  | tail _ hmove ih =>
    intro d drain hd
    rw [hmove.drains.1] at hd
    exact (ih d drain hd).move hmove

theorem DrainOk.of_closes {drain : Drain} (h : m.DrainOk drain) {closingScopes : List (AgentId × List AgentId)}
    {draining : Bool} {drains : List Drain} (hdraining : m.draining → draining) :
    ({ m with closingScopes, draining, drains } : Manager).DrainOk drain :=
  ⟨h.resolved, fun hbelow => hdraining (h.draining hbelow), h.tracked, h.quiet, h.covered⟩

theorem mem_materializations : r ∈ m.materializations ↔ ∃ q, m.requests[r]? = some q ∧ q.phase.materializing := by
  simp only [materializations, mem_filter, mem_range, Option.any_eq_true]
  constructor
  · rintro ⟨-, q, hr, hm⟩
    exact ⟨q, hr, hm⟩
  · rintro ⟨q, hr, hm⟩
    exact ⟨(List.getElem?_eq_some_iff.mp hr).1, q, hr, hm⟩

theorem DrainsOk.drain (h : m.DrainsOk) : m.drain.DrainsOk := by
  intro d drain hd
  obtain hd | ⟨-, rfl⟩ := getElem?_snoc hd
  · exact (h d drain hd).of_closes fun _ => rfl
  · exact ⟨nofun, fun _ => rfl, fun _ _ r q hr hm => mem_materializations.mpr ⟨q, hr, hm⟩, fun _ hne => absurd rfl hne,
      fun _ hne => absurd rfl hne⟩

theorem DrainsOk.drainDescendants (h : m.DrainsOk) (parents : List AgentId) (cancels : EpochId → Bool) :
    (m.drainDescendants parents cancels).DrainsOk := by
  unfold Manager.drainDescendants
  dsimp only
  split
  · exact h
  · refine DrainsOk.moves ?_ (dispose_moves cancels _ _)
    intro d drain hd
    obtain hd | ⟨-, rfl⟩ := getElem?_snoc hd
    · exact (h d drain hd).of_closes id
    · exact ⟨nofun, nofun, nofun, nofun, nofun⟩

theorem getElem?_modify_cases {α : Type} {l : List α} {i j : Nat} {f : α → α} {y : α} (h : (l.modify i f)[j]? = some y) :
    (∃ x, l[j]? = some x ∧ i = j ∧ y = f x) ∨ l[j]? = some y := by
  rw [List.getElem?_modify, Option.map_eq_map, Option.map_eq_some_iff] at h
  obtain ⟨x, hx, rfl⟩ := h
  split
  · rename_i heq
    exact .inl ⟨x, hx, heq, rfl⟩
  · exact .inr hx

/-- The materializations waited for have settled: the manager disposes of everything. -/
theorem DrainOk.disposals {drain : Drain} (h : m.DrainOk drain) (hres : m.Residency) (hown : m.Owning)
    (hwaited : m.Waited) (hbelow : drain.below = none) (hphase : drain.phase = .materializations)
    (hwaits : drain.waits.all fun r => m.requests[r]?.any (!·.phase.materializing)) (cancels : EpochId → Bool) :
    (m.dispose cancels (m.rootsOf m.mapped)).DrainOk
      { below := none, waits := drain.waits, roots := m.rootsOf m.mapped, phase := .disposals } := by
  have hmoves := dispose_moves cancels (m.rootsOf m.mapped) m
  have hdraining := h.draining hbelow
  have hquiet : m.Quiet := by
    intro r q hr
    rw [Bool.eq_false_iff]
    intro hm
    have := all_eq_true.mp hwaits r (h.tracked hbelow hphase r q hr hm)
    rw [hr] at this
    simp only [Option.any_some, hm] at this
    cases this
  have hall : ∀ (e : EpochId) a', (m.dispose cancels (m.rootsOf m.mapped)).epochs[e]? = some a' → a'.stage.live →
      e ∈ m.mapped := by
    intro e a' he' hlive
    obtain ⟨hlt, -⟩ := List.getElem?_eq_some_iff.mp he'
    rw [dispose_length] at hlt
    have he : m.epochs[e]? = some (m.epochs[e]) := List.getElem?_eq_getElem hlt
    obtain ⟨b, hb, hev⟩ := dispose_evolves cancels (m.rootsOf m.mapped) m e _ he
    cases he'.symm.trans hb
    refine (mapped_iff hres).mpr ⟨_, he, ?_⟩
    cases hstage : (m.epochs[e]).stage with
    | ended failed =>
      rw [hev.settled (by rw [hstage]; rfl), hstage] at hlive
      cases hlive
    | _ => rfl
  exact {
    resolved := nofun
    draining := fun _ => (Moves.drains hmoves).2.trans hdraining
    tracked := nofun
    quiet := fun _ _ => hquiet.moves hdraining hmoves
    covered := fun _ _ => ⟨(· ∈ m.mapped), hall, covered_dispose_roots hres hown hwaited cancels⟩ }

variable {d : Nat}

theorem DrainsOk.drainOn (h : m.DrainsOk) (hres : m.Residency) (hown : m.Owning) (hwaited : m.Waited)
    {cancels : EpochId → Bool} (hm' : m.drainOn d cancels = some m') : m'.DrainsOk := by
  simp only [Manager.drainOn, Option.bind_eq_bind, Option.bind_eq_some_iff, Option.guard_eq_some'] at hm'
  obtain ⟨drain, hd, -, hphase, -, hwaits, hm'⟩ := hm'
  cases hm'
  -- the teardown, with the forest of its roots
  generalize hroots : (if drain.below.isSome then drain.roots else m.rootsOf m.mapped) = roots
  have hmoves := dispose_moves cancels roots
    { m with drains := m.drains.modify d fun drain => { drain with phase := .disposals, roots } }
  intro d' drain' hd'
  rw [(Moves.drains hmoves).1] at hd'
  have hstays : ∀ {n n' : Manager}, n.DrainOk drain' → Moves { closes := False } n n' → n'.DrainOk drain' := by
    intro n n' hn hmoves
    induction hmoves with
    | refl => exact hn
    | tail _ hmove ih => exact ih.move hmove
  obtain ⟨drain₀, hd₀, rfl, rfl⟩ | hd' := getElem?_modify_cases hd'
  · cases hd.symm.trans hd₀
    cases hbelow : drain.below with
    | some parents => exact ⟨nofun, nofun, nofun, nofun, nofun⟩
    | none =>
      rw [hbelow] at hroots
      obtain rfl : m.rootsOf m.mapped = roots := hroots
      have hcloses : Move {} m { m with drains := m.drains.modify d fun drain =>
          { drain with phase := .disposals, roots := m.rootsOf m.mapped } } := .closes _ _ _ trivial
      exact ((h d drain hd).of_closes id).disposals (hres.move hcloses) (hown.move hres hcloses) hwaited hbelow hphase
        hwaits cancels
  · exact hstays ((h d' drain' hd').of_closes id) hmoves

theorem DrainsOk.drainEnd (h : m.DrainsOk) (hm' : m.drainEnd d = some m') : m'.DrainsOk := by
  simp only [Manager.drainEnd, Option.bind_eq_bind, Option.bind_eq_some_iff, Option.guard_eq_some'] at hm'
  obtain ⟨drain, hd, -, hphase, -, hsettled, hm'⟩ := hm'
  cases hm'
  intro d' drain' hd'
  obtain ⟨drain₀, hd₀, rfl, rfl⟩ | hd' := getElem?_modify_cases hd'
  · cases hd.symm.trans hd₀
    have hok := h d drain hd
    have hlate : drain.phase ≠ .materializations := by
      rw [hphase]
      nofun
    refine ⟨?_, hok.draining, ?_, fun hbelow _ => hok.quiet hbelow hlate, fun hbelow _ => hok.covered hbelow hlate⟩
    · intro hresolved e hroot
      have hnone : ¬ (drain.roots.any fun e => m.epochs[e]?.any (·.stage.rejected)) := by
        intro hany
        rw [if_pos hany] at hresolved
        cases hresolved
      have hend := all_eq_true.mp hsettled e hroot
      rw [Option.any_eq_true] at hend
      obtain ⟨a, ha, hend⟩ := hend
      refine ⟨a, ha, ?_⟩
      -- it has settled, and it has not been rejected
      have hkept : ¬ a.stage.rejected := fun hrejected => hnone (any_eq_true.mpr
        ⟨e, hroot, by rw [ha, Option.any_some]; exact hrejected⟩)
      obtain ⟨failed, hstage⟩ | hstage := Stage.settled_cases hend
      · cases failed with
        | false => exact hstage
        | true => exact absurd (by rw [hstage]; rfl) hkept
      · exact absurd (by rw [hstage]; rfl) hkept
    · intro _ hmat
      exfalso
      revert hmat
      show (if _ then DrainPhase.rejected else DrainPhase.resolved) = DrainPhase.materializations → False
      split <;> nofun
  · exact (h d' drain' hd').of_closes id

variable {act : Act}

theorem DrainsOk.step (h : m.DrainsOk) (hres : m.Residency) (hown : m.Owning) (hwaited : m.Waited)
    (hstep : m.step act = some m') : m'.DrainsOk := by
  cases hcloses : act.closes with
  | false =>
    have hrules : act.Respects m { closes := False } :=
      ⟨fun _ _ _ _ _ => trivial, .inr fun _ _ _ => trivial, fun _ => trivial, fun _ _ => trivial,
        fun hclose => by rw [hcloses] at hclose; cases hclose⟩
    obtain ⟨agent, message, -, -, rfl⟩ | hmoves := step_moves hres hrules hstep
    · intro d drain hd
      have hok := h d drain hd
      have hev : m.Evolves (m.leaveInbox agent [message]) := .leaveInbox agent [message]
      refine ⟨fun hphase e hroot => ?_, hok.draining, hok.tracked, hok.quiet, fun hbelow hphase => ?_⟩
      · obtain ⟨a, ha, hended⟩ := hok.resolved hphase e hroot
        obtain ⟨a', ha', heva⟩ := hev e a ha
        exact ⟨a', ha', (heva.settled (by rw [hended]; rfl)).trans hended⟩
      · obtain ⟨T, hall, hcovered⟩ := hok.covered hbelow hphase
        refine ⟨T, fun e a' he' hlive => ?_, hcovered.evolves hev⟩
        rw [getElem?_leaveInbox, Option.map_eq_some_iff] at he'
        obtain ⟨a, he, rfl⟩ := he'
        exact hall e a he (by split at hlive <;> exact hlive)
    · exact h.moves hmoves
  | true =>
    cases act with
    | drain =>
      cases hstep
      exact h.drain
    | drainDescendants parents cancels =>
      cases hstep
      exact h.drainDescendants parents cancels
    | drainOn d cancels => exact h.drainOn hres hown hwaited hstep
    | drainEnd d => exact h.drainEnd hstep
    | _ => cases hcloses

/-- **When the manager's own teardown has resolved, the manager is empty.** -/
theorem DrainOk.empty {drain : Drain} (h : m.DrainOk drain) (hres : m.Residency) (hown : m.Owning)
    (hbelow : drain.below = none) (hphase : drain.phase = .resolved) :
    m.materializations = [] ∧ (∀ c, m.activations c = none)
      ∧ ∀ (e : EpochId) a, m.epochs[e]? = some a → a.stage.live = false := by
  have hlate : drain.phase ≠ .materializations := by
    rw [hphase]
    nofun
  have hended : ∀ (e : EpochId) a, m.epochs[e]? = some a → a.stage.live = false := by
    intro e a he
    obtain ⟨T, hall, hcovered⟩ := h.covered hbelow hlate
    rw [Bool.eq_false_iff]
    intro hlive
    have hend := hcovered.ended hown (h.resolved hphase) e a (hall e a he hlive) he
    rw [hend] at hlive
    cases hlive
  refine ⟨?_, ?_, hended⟩
  · rw [eq_nil_iff_forall_not_mem]
    intro r hr
    obtain ⟨q, hq, hm⟩ := mem_materializations.mp hr
    rw [h.quiet hbelow hlate r q hq] at hm
    cases hm
  · intro c
    rw [Option.eq_none_iff_forall_ne_some]
    intro e hc
    obtain ⟨a, ha, -, hlive⟩ := hres.mapped c e hc
    rw [hended e a ha] at hlive
    cases hlive

/-! ## Released after the children -/

def Unstuck (m : Manager) : Prop := ∀ (e : EpochId) a, m.epochs[e]? = some a → a.stage ≠ .stuck

theorem Unstuck.modify (h : m.Unstuck) {f : Activation → Activation}
    (hf : ∀ a, m.epochs[e]? = some a → (f a).stage ≠ .stuck) : (m.modifyEpoch e f).Unstuck := by
  intro e' a' he'
  rw [getElem?_modifyEpoch, Option.map_eq_some_iff] at he'
  obtain ⟨a, he, rfl⟩ := he'
  split
  · rename_i heq
    subst heq
    exact hf a he
  · exact h e' a he

theorem Unstuck.leaveInbox (h : m.Unstuck) (agent : AgentId) (gone : List MessageId) :
    (m.leaveInbox agent gone).Unstuck := by
  intro e a' he
  rw [getElem?_leaveInbox, Option.map_eq_some_iff] at he
  obtain ⟨a, he, rfl⟩ := he
  split <;> exact h e a he

theorem Unstuck.move (h : m.Unstuck) (hrules : ∀ e, ¬ rules.throws e) (hmove : Move rules m m') : m'.Unstuck := by
  cases hmove with
  | tend e f hf hannounced => exact h.modify fun a he => by rw [hf a]; exact h e a he
  | accepts e a message he hadmits | acquire e a child he hresident hheader hchild =>
    exact h.modify fun a he => h e a he
  | clear e a he hclosing => exact h.leaveInbox a.agent (m.pending a.agent)
  | opens e a he hresident hopens | releases e a failed failed' he hstage hfailed => exact h.modify fun _ _ => nofun
  | sticks e a he hresident hopens hthrows => exact absurd hthrows (hrules e)
  | quiets e a failed stage he hstage hwaits hnext =>
    refine h.modify fun _ _ => ?_
    rcases hnext with rfl | rfl <;> nofun
  | finishes e a failed he hstage =>
    apply Unstuck.modify
    · intro e' a' he'
      rw [getElem?_releaseOwnership, Option.map_eq_some_iff] at he'
      obtain ⟨b, hb, rfl⟩ := he'
      split <;> exact h e' b hb
    · exact fun _ _ => nofun
  | installs r q info l agent hr hparent hphase =>
    intro e a he
    obtain he | ⟨-, rfl⟩ := getElem?_snoc he
    · exact h e a he
    · nofun
  | spoils r q l e a stage hr hphase he hresident howned hwaits haccepted hannounced hstage =>
    apply Unstuck.modify
    · exact fun e a he => h e a he
    · rintro _ _
      rcases hstage with rfl | rfl <;> nofun
  | _ => exact fun e a he => h e a he

theorem Unstuck.step (h : m.Unstuck) (hres : m.Residency) (hthrows : ∀ e, ¬ act.throws e)
    (hstep : m.step act = some m') : m'.Unstuck := by
  have hrules : act.Respects m { throws := fun _ => False } :=
    ⟨fun _ _ _ _ _ => trivial, .inr fun _ _ _ => trivial, fun _ => trivial, hthrows, fun _ => trivial⟩
  obtain ⟨agent, message, -, -, rfl⟩ | hmoves := step_moves hres hrules hstep
  · exact h.leaveInbox agent [message]
  · clear hstep
    induction hmoves with
    | refl => exact h
    | tail _ hmove ih => exact ih.move (fun _ => id) hmove

structure ChildFirst (m : Manager) : Prop where
  /-- What is owned is a live Activation, and of a child of the owner. -/
  owned : ∀ (e : EpochId) a, m.epochs[e]? = some a → a.stage.live → ∀ c ∈ a.owned,
    m.header c = some a.childId ∧ ∃ (w : EpochId) (b : Activation), m.activations c = some w ∧ m.epochs[w]? = some b
      ∧ b.childId = c ∧ b.stage.live
  /-- The handle of an Activation is disposed of when nothing is owned any more. -/
  released : ∀ (e : EpochId) a, m.epochs[e]? = some a → a.stage.past → a.stage.live → a.owned = []
  /-- The manager is empty when its own teardown has resolved. -/
  drained : ∀ (d : Nat) drain, m.drains[d]? = some drain → drain.below = none → drain.phase = .resolved →
    m.materializations = [] ∧ (∀ c, m.activations c = none)
      ∧ ∀ (e : EpochId) a, m.epochs[e]? = some a → a.stage.live = false

/-- A watcher begins no disposal but of an Activation that owns nothing. -/
def SettlesLeaves (m : Manager) (act : Act) (m' : Manager) : Prop :=
  ∀ (e e' : EpochId) cancels a a', act = .settles e cancels → m.epochs[e']? = some a → m'.epochs[e']? = some a' →
    a.stage = .resident → a'.stage ≠ .resident → a.owned = []

theorem step_settlesLeaves (hstep : m.step act = some m') : m.SettlesLeaves act m' := by
  rintro e e' cancels b b' rfl hb hb' hresident hcloses
  obtain ⟨a, poked, he, -, ⟨-, rfl⟩ | ⟨-, hsettled, rfl⟩⟩ := settles_cases hstep
  · rw [getElem?_modifyEpoch, hb, Option.map_some, Option.some.injEq] at hb'
    refine absurd ?_ hcloses
    rw [← hb']
    split <;> exact hresident
  · by_cases heq : e = e'
    · subst heq
      cases he.symm.trans hb
      simp only [settledState, Bool.and_eq_true, List.isEmpty_iff] at hsettled
      exact hsettled.2
    · rw [getElem?_modifyEpoch, Option.map_eq_some_iff] at hb'
      obtain ⟨b₁, hb₁, rfl⟩ := hb'
      rw [if_neg heq] at hcloses
      exact absurd ((openDisposal_stage _ heq hb hb₁).trans hresident) hcloses

structure Sound (m : Manager) : Prop where
  residency : m.Residency
  owning : m.Owning
  waited : m.Waited
  drains : m.DrainsOk

theorem Sound.step (h : m.Sound) (hstep : m.step act = some m') : m'.Sound where
  residency := h.residency.step hstep
  owning := h.owning.step h.residency hstep
  waited := h.waited.step h.residency hstep
  drains := h.drains.step h.residency h.owning h.waited hstep

theorem Sound.childFirst (h : m.Sound) (hunstuck : m.Unstuck) : m.ChildFirst where
  owned := by
    intro e a he hlive c hc
    obtain ⟨hheader, hmapped⟩ := h.owning.owned e a he hlive c hc
    obtain ⟨w, hw⟩ := Option.isSome_iff_exists.mp hmapped
    exact ⟨hheader, w, (h.residency.mapped c w hw).imp fun b hb => ⟨hw, hb⟩⟩
  released := by
    intro e a he hpast hlive
    rw [eq_nil_iff_forall_not_mem]
    intro c hc
    obtain ⟨w, -, -, b, hb, hstuck⟩ := h.owning.freed e a he hpast hlive c hc
    exact hunstuck w b hb hstuck
  drained := fun d drain hd hbelow hphase => (h.drains d drain hd).empty h.residency h.owning hbelow hphase

end Manager

/-! ## Over every run -/

theorem Archive.sound (archive : Archive) : archive.start.Sound := by
  have hepochs : ∀ (e : EpochId) a, archive.start.epochs[e]? ≠ some a := fun _ _ => by simp [Archive.start]
  have hdrains : ∀ (d : Nat) drain, archive.start.drains[d]? ≠ some drain := fun _ _ => by simp [Archive.start]
  exact {
    residency := archive.residency
    owning := ⟨fun e a he => absurd he (hepochs e a), fun e a he => absurd he (hepochs e a),
      fun e a he => absurd he (hepochs e a), fun e a he => absurd he (hepochs e a)⟩
    waited := fun e a he => absurd he (hepochs e a)
    drains := fun d drain hd => absurd hd (hdrains d drain) }

/-- **Ownership is released child-first** where no `Agent.cancel` throws as a disposal begins: an Activation releases
its handle when it owns nothing any more, everything owned is live, and the manager is empty when its own teardown has
resolved. -/
theorem child_first {archive : Archive} {acts : List Act} {m : Manager}
    (hrun : Machine.exec Manager.step archive.start acts = some m) (hthrows : ∀ act ∈ acts, ∀ e, ¬ act.throws e) :
    Machine.Along Manager.step (fun n act => ∀ n', n.step act = some n' → n.SettlesLeaves act n') archive.start acts
      ∧ m.ChildFirst := by
  have halong : Machine.Along Manager.step (fun _ act => ∀ e, ¬ act.throws e) archive.start acts :=
    Machine.Along.of_forall hthrows archive.start
  have hsound : m.Sound ∧ m.Unstuck := by
    refine Machine.exec_invariant_along (I := fun n => n.Sound ∧ n.Unstuck) ?_ ⟨archive.sound, ?_⟩ hrun halong
    · exact fun n act n' h hact hstep => ⟨h.1.step hstep, h.2.step h.1.residency hact hstep⟩
    · exact fun e a he => by simp [Archive.start] at he
  refine ⟨?_, hsound.1.childFirst hsound.2⟩
  exact Machine.Along.of_invariant (I := fun _ => True) (fun _ _ _ _ _ _ => trivial)
    (fun n act _ _ n' hstep => Manager.step_settlesLeaves hstep) trivial halong

/-- A child with a child is drained; the argument says whether the inner cancel goes through. -/
def grandchildDrained (cancels : Bool) : List Act :=
  [.hostCreates none,
    .startContinuable 0, .prepared 0 true, .enterLock 0 false false, .agentEntered 0, .handedOver 0 false true true,
    .unregistered 0, .submitMaterialized 0 false true fun _ => true,
    .startContinuable 1, .prepared 1 true, .enterLock 1 false false, .agentEntered 1, .handedOver 1 false true true,
    .unregistered 1, .submitMaterialized 1 false true fun _ => true,
    .drainDescendants [0] fun e => cancels || e = 0]

/-- The outer child owns nothing when its handle is released. -/
theorem child_first_grandchildDrained : ∃ m, Machine.exec Manager.step Archive.empty.start (grandchildDrained true ++
      [.quiesced 1 true true, .handleDisposed 1 true, .finishDisposal 1 true, .quiesced 0 true true]) = some m
      ∧ m.ChildFirst := by
  obtain ⟨m, hm⟩ := Option.isSome_iff_exists.mp
    (show (Machine.exec Manager.step Archive.empty.start (grandchildDrained true ++
      [.quiesced 1 true true, .handleDisposed 1 true, .finishDisposal 1 true, .quiesced 0 true true])).isSome
      by decide +kernel)
  refine ⟨m, hm, (child_first hm fun act hact e => ?_).2⟩
  simp only [grandchildDrained, mem_append, mem_cons, not_mem_nil, or_false] at hact
  rcases hact with hact | hact
  · rcases hact with rfl | rfl | rfl | rfl | rfl | rfl | rfl | rfl | rfl | rfl | rfl | rfl | rfl | rfl | rfl | rfl
    all_goals simp [Act.throws]
  · rcases hact with rfl | rfl | rfl | rfl
    all_goals simp [Act.throws]

/-- **A parent is released first**, while it owns a child whose cancel threw. -/
theorem parentReleasedFirst : ∃ m,
    Machine.exec Manager.step Archive.empty.start (grandchildDrained false ++ [.quiesced 0 true true]) = some m
      ∧ ¬ m.ChildFirst := by
  have hafter : ((Machine.exec Manager.step Archive.empty.start (grandchildDrained false ++ [.quiesced 0 true true])).bind
      fun m => m.epochs[0]?.map fun a => (a.stage, a.owned)) = some (.releasing true, [2]) := by decide +kernel
  simp only [Option.bind_eq_some_iff, Option.map_eq_some_iff, Prod.mk.injEq] at hafter
  obtain ⟨m, hm, a, ha, hstage, howned⟩ := hafter
  refine ⟨m, hm, fun h => ?_⟩
  have hnone := h.released 0 a ha (by rw [hstage]; rfl) (by rw [hstage]; rfl)
  rw [howned] at hnone
  cases hnone

end CocoHarness.Subagent
