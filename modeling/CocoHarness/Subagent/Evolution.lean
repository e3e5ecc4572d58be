/-
# CocoHarness.Subagent.Evolution — how one Activation changes from state to state.

Residency ends once.  A disposal that has begun only goes on, with the children it found at its beginning; a failure
it has met stays; what has ended stays ended.
-/
import CocoHarness.Subagent.Steps

namespace CocoHarness.Subagent

open Lib Nat

def Stage.doomed : Stage → Bool
  | .releasing failed | .released failed | .ended failed => failed
  | .stuck => true
  | .resident | .children => false

structure Activation.Evolves (a a' : Activation) : Prop where
  identity : a'.identity = a.identity
  closing : a.stage ≠ .resident → a'.stage ≠ .resident
  waits : a.stage ≠ .resident → a'.waits = a.waits
  owned : a.stage ≠ .resident → ∀ c ∈ a'.owned, c ∈ a.owned
  doomed : a.stage.doomed → a'.stage.doomed
  settled : a.stage.settled → a'.stage = a.stage
  announced : a.announced → a'.announced
  published : a'.published → a.published
  poke : a.poke ≤ a'.poke
  woken : ∀ message ∈ a'.accepted, message ∉ a.accepted → a.poke < a'.poke

namespace Activation.Evolves

variable {a a' a'' : Activation}

theorem refl (a : Activation) : a.Evolves a where
  identity := rfl
  closing := id
  waits := fun _ => rfl
  owned := fun _ _ => id
  doomed := id
  settled := fun _ => rfl
  announced := id
  published := id
  poke := le_refl _
  woken := fun _ h h' => absurd h h'

theorem trans (h : a.Evolves a') (h' : a'.Evolves a'') : a.Evolves a'' where
  identity := h'.identity.trans h.identity
  closing := fun hc => h'.closing (h.closing hc)
  waits := fun hc => (h'.waits (h.closing hc)).trans (h.waits hc)
  owned := fun hc c hmem => h.owned hc c (h'.owned (h.closing hc) c hmem)
  doomed := fun hd => h'.doomed (h.doomed hd)
  settled := by
    intro hs
    have hmid := h.settled hs
    exact (h'.settled (hmid ▸ hs)).trans hmid
  announced := fun ha => h'.announced (h.announced ha)
  published := fun hp => h.published (h'.published hp)
  poke := le_trans h.poke h'.poke
  woken := by
    intro message hmem hnew
    by_cases hmid : message ∈ a'.accepted
    · exact lt_of_lt_of_le (h.woken message hmid hnew) h'.poke
    · exact lt_of_le_of_lt h.poke (h'.woken message hmem hmid)

theorem childId (h : a.Evolves a') : a'.childId = a.childId := congrArg Prod.fst h.identity

theorem forget (gone : List MessageId) (a : Activation) : a.Evolves (a.forget gone) where
  identity := rfl
  closing := id
  waits := fun _ => rfl
  owned := fun _ _ => id
  doomed := id
  settled := fun _ => rfl
  announced := id
  published := id
  poke := by
    simp only [Activation.forget]
    split
    · exact le_succ _
    · exact le_refl _
  woken := fun _ h h' => absurd (List.mem_filter.mp h).1 h'

theorem stage {stage : Stage} (hstage : stage ≠ .resident) (hdoomed : a.stage.doomed → stage.doomed)
    (hsettled : a.stage.settled = false) : a.Evolves { a with stage } where
  identity := rfl
  closing := fun _ => hstage
  waits := fun _ => rfl
  owned := fun _ _ => id
  doomed := hdoomed
  settled := fun hs => by rw [hsettled] at hs; cases hs
  announced := id
  published := id
  poke := le_refl _
  woken := fun _ h h' => absurd h h'

theorem resident (hresident : a.stage = .resident) (hidentity : a'.identity = a.identity)
    (hannounced : a.announced → a'.announced) (hpublished : a'.published → a.published) (hpoke : a.poke ≤ a'.poke)
    (haccepted : a'.accepted = a.accepted) : a.Evolves a' where
  identity := hidentity
  closing := fun hc => absurd hresident hc
  waits := fun hc => absurd hresident hc
  owned := fun hc => absurd hresident hc
  doomed := fun hd => by rw [hresident] at hd; cases hd
  settled := fun hs => by rw [hresident] at hs; cases hs
  announced := hannounced
  published := hpublished
  poke := hpoke
  woken := fun _ h h' => absurd (haccepted ▸ h) h'

end Activation.Evolves

namespace Manager

variable {m m' : Manager} {rules : Rules} {e : EpochId} {a : Activation}

def Evolves (m m' : Manager) : Prop :=
  ∀ (e : EpochId) a, m.epochs[e]? = some a → ∃ a', m'.epochs[e]? = some a' ∧ a.Evolves a'

theorem Evolves.refl (m : Manager) : m.Evolves m := fun _ a he => ⟨a, he, .refl a⟩

theorem Evolves.trans {m'' : Manager} (h : m.Evolves m') (h' : m'.Evolves m'') : m.Evolves m'' := by
  intro e a he
  obtain ⟨a', he', hev⟩ := h e a he
  obtain ⟨a'', he'', hev'⟩ := h' e a' he'
  exact ⟨a'', he'', hev.trans hev'⟩

theorem Evolves.modifyEpoch {f : Activation → Activation} (hf : ∀ a, m.epochs[e]? = some a → a.Evolves (f a)) :
    m.Evolves (m.modifyEpoch e f) := by
  intro e' a he'
  rw [getElem?_modifyEpoch, he', Option.map_some]
  split
  · rename_i heq
    subst heq
    exact ⟨_, rfl, hf a he'⟩
  · exact ⟨a, rfl, .refl a⟩

theorem Evolves.leaveInbox (agent : AgentId) (gone : List MessageId) : m.Evolves (m.leaveInbox agent gone) := by
  intro e a he
  rw [getElem?_leaveInbox, he, Option.map_some]
  split
  · exact ⟨_, rfl, .forget gone a⟩
  · exact ⟨a, rfl, .refl a⟩

theorem Evolves.finished {child : SessionId} {failed : Bool} (he : m.epochs[e]? = some a)
    (hstage : a.stage = .released failed) : m.Evolves (m.finished e child failed) := by
  intro e' b hb
  rw [getElem?_finished, hb, Option.map_some]
  refine ⟨_, rfl, ?_⟩
  have hrelease : b.Evolves (if child ∈ b.owned ∧ b.stage.live then
      { b with owned := b.owned.filter (· ≠ child), poke := b.poke + 1 } else b) := by
    split
    · exact { Activation.Evolves.refl b with
        owned := fun _ c hc => (List.mem_filter.mp hc).1
        poke := le_succ _
        woken := fun _ h h' => absurd h h' }
    · exact .refl b
  apply hrelease.trans
  dsimp only
  by_cases heq : e = e'
  · subst heq
    cases he.symm.trans hb
    rw [if_pos rfl]
    have hkept : (if child ∈ a.owned ∧ a.stage.live then
        { a with owned := a.owned.filter (· ≠ child), poke := a.poke + 1 } else a).stage = .released failed := by
      split <;> exact hstage
    exact .stage nofun (by rw [hkept]; exact id) (by rw [hkept]; rfl)
  · rw [if_neg heq]
    exact .refl _

theorem Evolves.of_epochs (h : m'.epochs = m.epochs) : m.Evolves m' := by
  intro e a he
  rw [← h] at he
  exact ⟨a, he, .refl a⟩

theorem Move.evolves (hmove : Move rules m m') : m.Evolves m' := by
  cases hmove with
  | book | closes | enqueue agent message | detach agent | starts parent info hparent | asks parent child
  | goesOn r q phase hr hphase | enters r q l hr hphase hfree | hosts parent hparent
  | resumes session hpersisted hfree => exact .of_epochs rfl
  | tend e f hf hannounced =>
    apply Evolves.modifyEpoch
    intro a _
    have hmore := hannounced a
    rw [hf a]
    exact { Activation.Evolves.refl a with announced := hmore }
  | accepts e a message he hadmits =>
    have hadmitted : m.Evolves (m.modifyEpoch e fun a =>
        { a with accepted := a.accepted ++ [message], poke := a.poke + 1 }) :=
      .modifyEpoch fun a _ => { Activation.Evolves.refl a with
        poke := le_succ _
        woken := fun _ _ _ => lt_succ_self _ }
    exact hadmitted.trans (.of_epochs rfl)
  | clear e a he hclosing => exact .leaveInbox _ _
  | acquire e a child he hresident hheader hchild =>
    apply Evolves.modifyEpoch
    intro b hb
    cases he.symm.trans hb
    exact .resident hresident rfl id id (le_refl _) rfl
  | opens e a he hresident hopens | sticks e a he hresident hopens hthrows =>
    apply Evolves.modifyEpoch
    intro b hb
    cases he.symm.trans hb
    exact .resident hresident rfl id id (le_succ _) rfl
  | quiets e a failed stage he hstage hwaits hnext =>
    apply Evolves.modifyEpoch
    intro b hb
    cases he.symm.trans hb
    apply Activation.Evolves.stage
    · rcases hnext with rfl | rfl <;> nofun
    · rw [hstage]
      nofun
    · rw [hstage]
      rfl
  | releases e a failed failed' he hstage hfailed =>
    apply Evolves.modifyEpoch
    intro b hb
    cases he.symm.trans hb
    exact .stage nofun (by rw [hstage]; exact hfailed) (by rw [hstage]; rfl)
  | finishes e a failed he hstage => exact .finished he hstage
  | installs r q info l agent hr hparent hphase => exact fun e a he => ⟨a, getElem?_snoc_of _ he, .refl a⟩
  | spoils r q l e a stage hr hphase he hresident howned hwaits haccepted hannounced hstage =>
    have hphased : m.Evolves (m.setPhase r (.rollingBack l e)) := .of_epochs rfl
    apply hphased.trans
    apply Evolves.modifyEpoch
    intro b hb
    cases he.symm.trans hb
    exact .resident hresident rfl id nofun (le_refl _) rfl

theorem Moves.evolves (hmoves : Moves rules m m') : m.Evolves m' := by
  induction hmoves with
  | refl => exact .refl m
  | tail _ hmove ih => exact ih.trans hmove.evolves

end Manager

end CocoHarness.Subagent
