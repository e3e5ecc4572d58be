/-
# CocoHarness.Subagent.Steps — every action is a run of moves.

`step_moves` takes each action apart once, under the invariant that tells it what an Activation found in the map is.
Only the discard or claim of a message is left out, which is one change of its own.
-/
import Mathlib.Data.Option.Basic
import CocoHarness.Subagent.Residency

namespace CocoHarness.Subagent

open Lib Function Option

def Act.opens : Act → Bool
  | .submitMaterialized .. | .settles .. | .drainDescendants .. | .drainOn .. => true
  | _ => false

def Act.closes : Act → Bool
  | .drain | .drainDescendants .. | .drainOn .. | .drainEnd _ => true
  | _ => false

/-- The action would begin the disposal of an Activation with a cancel that throws. -/
def Act.throws : Act → EpochId → Prop
  | .submitMaterialized _ _ _ cancels, e | .settles _ cancels, e | .drainDescendants _ cancels, e
  | .drainOn _ cancels, e => cancels e = false
  | _, _ => False

namespace Manager

variable {m m' : Manager} {rules : Rules} {e : EpochId} {a : Activation} {r : RequestId} {q : Request}

/-! ## Punctual actions -/

/-- The parent is the Agent of an Activation whose disposal has begun. -/
def tardy (m : Manager) (parent : AgentId) : Bool :=
  (m.activationOf parent).any fun e => m.epochs[e]?.any fun a => a.agent = parent && a.closing

/-- The action gets no message through that may wake a parent whose own disposal has begun. -/
def punctual (m : Manager) : Act → Bool
  | .finishDisposal e true => !m.epochs[e]?.any fun a =>
      a.announced && (m.registry a.parentSession).any fun parent => !m.closingTeardownFor parent && m.tardy parent
  | .reportFrom child true true =>
      !((m.agents[child]?.bind fun info => m.header info.session).bind m.registry).any m.tardy
  | _ => true

/-- Messages may be admitted to the Activations there are, while they are resident. -/
def Admits (m : Manager) (rules : Rules) : Prop :=
  ∀ (e : EpochId) a b, m.epochs[e]? = some a → b.stage = .resident → rules.admits e b

end Manager

structure Act.Respects (act : Act) (m : Manager) (rules : Manager.Rules) : Prop where
  admits : m.Admits rules
  punctual : m.punctual act ∨ ∀ e a, m.epochs[e]? = some a → rules.admits e a
  opens : act.opens → rules.opens
  throws : ∀ e, act.throws e → rules.throws e
  closes : act.closes → rules.closes

namespace Manager

variable {m m' : Manager} {rules : Rules} {e : EpochId} {a : Activation} {r : RequestId} {q : Request}

/-! ## Parts of actions -/

theorem Moves.one (h : Move rules m m') : Moves rules m m' := Relation.ReflTransGen.single h

theorem moves_sendPlain (agent : AgentId) (delivered : Bool) : Moves rules m (m.sendPlain agent delivered) := by
  have hbook : Move rules m { m with nextMessage := m.nextMessage + 1 } :=
    .book m.running (m.nextMessage + 1) m.notices
  cases delivered with
  | false => exact .one hbook
  | true => exact (Moves.one hbook).tail (.enqueue agent m.nextMessage)

theorem moves_admitWaking (he : m.epochs[e]? = some a) (delivered : Bool) (hadmits : delivered → rules.admits e a) :
    Moves rules m (m.admitWaking e a.agent delivered) := by
  have hbook : Move rules m { m with nextMessage := m.nextMessage + 1 } :=
    .book m.running (m.nextMessage + 1) m.notices
  cases delivered with
  | false => exact .one hbook
  | true => exact (Moves.one hbook).tail (.accepts e a m.nextMessage he (hadmits rfl))

theorem closing_iff : a.closing ↔ a.stage ≠ .resident := by rw [Activation.closing, decide_eq_true_iff]

theorem not_closing_iff : a.closing = false ↔ a.stage = .resident := by
  rw [Activation.closing, decide_eq_false_iff_not, not_not]

variable {parent : AgentId}

theorem Admits.of_punctual (h : m.Admits rules)
    (hact : m.tardy parent = false ∨ ∀ e a, m.epochs[e]? = some a → rules.admits e a)
    (hp : m.activationOf parent = some e) (he : m.epochs[e]? = some a) (hagent : a.agent = parent) :
    rules.admits e a := by
  rcases hact with hpunctual | hall
  · apply h e a a he
    simp only [tardy, hp, any_some, he, hagent, decide_true, Bool.true_and] at hpunctual
    exact not_closing_iff.mp hpunctual
  · exact hall e a he

theorem moves_sendWaking (delivered : Bool) (hadmits : delivered → ∀ e a,
    m.activationOf parent = some e → m.epochs[e]? = some a → a.agent = parent → rules.admits e a) :
    Moves rules m (m.sendWaking parent delivered) := by
  unfold sendWaking
  cases hp : m.activationOf parent with
  | none => exact moves_sendPlain parent delivered
  | some e =>
    dsimp only
    split
    · rename_i hagent
      obtain ⟨a, he, hagent⟩ := (any_eq_true _ _).mp hagent
      obtain rfl := of_decide_eq_true hagent
      exact moves_admitWaking he delivered fun hdelivered => hadmits hdelivered e a hp he rfl
    · exact moves_sendPlain parent delivered

variable {info : AgentInfo}

theorem Residency.activationOf (h : Residency m)
    (hparent : m.agents[parent]? = some info) (hp : m.activationOf parent = some e) :
    ∃ a, m.epochs[e]? = some a ∧ a.childId = info.session ∧ a.stage.live := by
  apply h.mapped
  rw [← hp, Manager.activationOf, hparent]
  rfl

variable {child : SessionId}

theorem moves_acquireOwnership (h : Residency m)
    (hparent : m.agents[parent]? = some info) (hheader : m.header child = some info.session)
    (hchild : (m.activations child).isSome) (hm' : m.acquireOwnership parent child = some m') :
    Moves rules m m' := by
  unfold acquireOwnership at hm'
  cases hp : m.activationOf parent with
  | none =>
    rw [hp] at hm'
    cases hm'
    exact .refl
  | some e =>
    obtain ⟨a, he, hs, -⟩ := h.activationOf hparent hp
    rw [hp] at hm'
    simp only [he, any_some] at hm'
    split at hm'
    · cases hm'
    · rename_i hopen
      cases hm'
      exact .one (.acquire e a child he (not_closing_iff.mp (Bool.eq_false_iff.mpr hopen)) (hs ▸ hheader) hchild)

theorem acquireOwnership_frame (hm' : m.acquireOwnership parent child = some m') :
    m'.requests = m.requests ∧ ∀ (e : EpochId) a, m.epochs[e]? = some a →
      ∃ owned, m'.epochs[e]? = some { a with owned } ∧ (m.activationOf parent ≠ some e → owned = a.owned) := by
  unfold acquireOwnership at hm'
  split at hm'
  · cases hm'
    exact ⟨rfl, fun e a he => ⟨a.owned, he, fun _ => rfl⟩⟩
  · rename_i e' hp
    split at hm'
    · cases hm'
    · cases hm'
      refine ⟨rfl, fun e a he => ?_⟩
      rw [getElem?_modifyEpoch, he, map_some]
      split
      · rename_i heq
        exact ⟨_, rfl, fun hne => absurd (heq ▸ hp) hne⟩
      · exact ⟨a.owned, rfl, fun _ => rfl⟩

variable {aborted delivered : Bool}

theorem moves_submitAdmitted (h : Residency m) (he : m.epochs[e]? = some a) (hchild : a.childId = child)
    (hadmits : ∀ a, a.stage = .resident → rules.admits e a) :
    Moves rules m (m.submitAdmitted parent child e aborted delivered).1 := by
  unfold submitAdmitted
  rw [he]
  dsimp only
  split
  · exact .refl
  · rename_i hadmits
    simp only [Bool.or_eq_true, Bool.not_eq_true', not_or, Bool.not_eq_true, Bool.not_eq_false] at hadmits
    obtain ⟨⟨-, hresident⟩, hauth⟩ := hadmits
    rw [not_closing_iff] at hresident
    obtain ⟨info, hparent, hheader, -⟩ := authorizes_spec hauth
    cases hm' : m.acquireOwnership parent child with
    | none => exact .refl
    | some m' =>
      have hmapped : (m.activations child).isSome := by
        rw [← hchild, (h.epochs e a he).inMap (by rw [hresident]; rfl)]
        rfl
      have hacquire : Moves rules m m' := moves_acquireOwnership h hparent hheader hmapped hm'
      obtain ⟨owned, he', -⟩ := (acquireOwnership_frame hm').2 e a he
      have hadmitted : Moves rules m' (m'.admitWaking e a.agent delivered) :=
        moves_admitWaking (a := { a with owned }) he' delivered fun _ => hadmits _ hresident
      cases delivered with
      | false => exact hacquire.trans hadmitted
      | true => exact (hacquire.trans hadmitted).tail (.tend e _ (fun _ => rfl) fun _ _ => rfl)

theorem moves_openDisposal (he : m.epochs[e]? = some a) (hresident : a.stage = .resident) (cancels : Bool)
    (hopens : rules.opens) (hthrows : cancels = false → rules.throws e) :
    Moves rules m (m.openDisposal e cancels) := by
  unfold openDisposal
  rw [he]
  cases cancels with
  | false => exact .one (.sticks e a he hresident hopens (hthrows rfl))
  | true =>
    refine (Moves.one (.opens e a he hresident hopens)).tail (.clear e { a with
      stage := .children, waits := a.owned.filterMap m.activations, poke := a.poke + 1 } ?_ nofun)
    rw [getElem?_modifyEpoch, he, map_some, if_pos rfl]

variable {cancels : EpochId → Bool}

theorem moves_disposeAll (hopens : rules.opens) (hthrows : ∀ e, cancels e = false → rules.throws e)
    (fuel : Nat) (targets : List EpochId) (m : Manager) :
    Moves rules m (disposeAll cancels fuel targets m) := by
  induction fuel generalizing targets m with
  | zero => exact .refl
  | succ fuel ih =>
    cases targets with
    | nil => exact .refl
    | cons e rest =>
      rw [disposeAll]
      cases he : m.epochs[e]? with
      | none => exact ih rest m
      | some a =>
        dsimp only
        split
        · exact ih rest m
        · rename_i hopen
          exact (moves_openDisposal he (not_closing_iff.mp (Bool.eq_false_iff.mpr hopen)) _ hopens (hthrows e)).trans
            (ih _ _)

theorem moves_dispose (hopens : rules.opens) (hthrows : ∀ e, cancels e = false → rules.throws e)
    (targets : List EpochId) : Moves rules m (m.dispose cancels targets) :=
  moves_disposeAll hopens hthrows _ targets m

theorem moves_materialize (hr : m.requests[r]? = some q) (hparent : q.parent = parent)
    (h : q.phase = .waiting ∧ q.fresh ∧ m.unlocked q.child ∨
      q.phase = .inspecting ∧ m.persisted q.child ∧ m.authorizes q.parent q.child) :
    Moves rules m (m.materialize r parent aborted) := by
  subst hparent
  unfold materialize
  split
  · refine .one (.goesOn r q _ hr (.refused ?_ none))
    rcases h with ⟨h, -⟩ | ⟨h, -⟩ <;> rw [h] <;> rfl
  · rename_i hopen
    simp only [Bool.or_eq_true, not_or, Bool.not_eq_true] at hopen
    exact .one (.goesOn r q _ hr (.creates h hopen.1))

theorem moves_rollBack {l : List AgentId} {x : AgentId} (hr : m.requests[r]? = some q) (hphase : q.phase = .handed l e)
    (he : m.epochs[e]? = some a) (hresident : a.stage = .resident) (howned : a.owned = []) (hwaits : a.waits = [])
    (haccepted : a.accepted = []) (hannounced : a.announced = false) (hagent : a.agent = x) (clears : Bool) :
    Moves rules m (m.rollBack r l e x clears) := by
  subst hagent
  cases clears with
  | true =>
    refine (Moves.one (.spoils r q l e a (.releasing false) hr hphase he hresident howned hwaits haccepted hannounced
      (.inl rfl))).tail (.clear e { a with stage := .releasing false, published := false, watcher := .done } ?_ nofun)
    rw [getElem?_modifyEpoch]
    show Option.map _ m.epochs[e]? = _
    rw [he, map_some, if_pos rfl]
  | false =>
    exact (Moves.one (.spoils r q l e a (.released true) hr hphase he hresident howned hwaits haccepted hannounced
      (.inr rfl))).tail (.detach a.agent)

/-! ## Notices -/

theorem liveAncestors_congr (hheader : m'.header = m.header) (hregistry : m'.registry = m.registry)
    (fuel : Nat) (session : SessionId) : m'.liveAncestors fuel session = m.liveAncestors fuel session := by
  induction fuel generalizing session with
  | zero => rfl
  | succ fuel ih => simp only [liveAncestors, hheader, hregistry, ih]

theorem liveLineage_congr (hheader : m'.header = m.header) (hregistry : m'.registry = m.registry)
    (hagents : m'.agents = m.agents) (x : AgentId) : m'.liveLineage x = m.liveLineage x := by
  simp only [liveLineage, hagents, liveAncestors_congr hheader hregistry]

theorem closingTeardownFor_congr (m m' : Manager) (hheader : m'.header = m.header) (hregistry : m'.registry = m.registry)
    (hagents : m'.agents = m.agents) (hscopes : m'.closingScopes = m.closingScopes)
    (hdraining : m'.draining = m.draining) (x : AgentId) : m'.closingTeardownFor x = m.closingTeardownFor x := by
  simp only [closingTeardownFor, hscopes, hdraining, liveLineage_congr hheader hregistry hagents]

theorem moves_notifySettlement (he : m.epochs[e]? = some a) (delivered : Bool)
    (hadmits : delivered → ∀ parent e' b, a.announced → m.registry a.parentSession = some parent →
      m.closingTeardownFor parent = false → m.activationOf parent = some e' → m.epochs[e']? = some b →
      b.agent = parent → rules.admits e' b) :
    Moves rules m (m.notifySettlement e delivered) := by
  unfold notifySettlement
  rw [he]
  dsimp only
  split
  · exact .refl
  · rename_i hannounced
    cases hp : m.registry a.parentSession with
    | none => exact .refl
    | some parent =>
      have hsent : Moves rules m (if m.closingTeardownFor parent then m.sendPlain parent delivered
          else m.sendWaking parent delivered) := by
        split
        · exact moves_sendPlain parent delivered
        · rename_i hopen
          exact moves_sendWaking delivered fun hdelivered e' b =>
            hadmits hdelivered parent e' b (not_not.mp hannounced) hp (Bool.eq_false_iff.mpr hopen)
      exact hsent.tail (.book _ _ (_ ++ _))

/-- The notice goes to another session, so the order makes no difference. -/
theorem notifySettlement_unmapped (h : Residency m) (he : m.epochs[e]? = some a) (delivered : Bool) :
    { m with activations := update m.activations a.childId none }.notifySettlement e delivered
      = { m.notifySettlement e delivered with
          activations := update m.activations a.childId none } := by
  unfold notifySettlement
  simp only [he]
  split
  · rfl
  · cases hp : m.registry a.parentSession with
    | none => rfl
    | some parent =>
      obtain ⟨info, hparent, hs⟩ := h.registered _ _ hp
      have hother : info.session ≠ a.childId := by
        rw [hs]
        exact Nat.ne_of_lt (h.older _ _ (h.epochs e a he).parented).2
      have hsame : { m with activations := update m.activations a.childId none }.activationOf parent
          = m.activationOf parent := by
        simp only [Manager.activationOf, hparent, bind_some, update_of_ne hother]
      have hclosing : { m with activations := update m.activations a.childId none }.closingTeardownFor parent
          = m.closingTeardownFor parent := 
        closingTeardownFor_congr m { m with activations := update m.activations a.childId none }
          rfl rfl rfl rfl rfl parent
      simp only [hclosing]
      cases m.closingTeardownFor parent with
      | true => cases delivered <;> rfl
      | false =>
        simp only [Bool.false_eq_true, if_false, sendWaking, hsame]
        cases m.activationOf parent with
        | none => cases delivered <;> rfl
        | some e' =>
          dsimp only
          split <;> cases delivered <;> rfl

variable {e' : EpochId} {b : Activation}

theorem admitWaking_epoch (hb : m.epochs[e']? = some b) (agent : AgentId)
    (delivered : Bool) : ∃ accepted poke, (m.admitWaking e agent delivered).epochs[e']? = some { b with accepted, poke } := by
  cases delivered with
  | false => exact ⟨_, _, hb⟩
  | true =>
    show ∃ accepted poke, (m.epochs.modify e _)[e']? = some { b with accepted, poke }
    rw [List.getElem?_modify, hb, map_eq_map, map_some]
    split
    · exact ⟨_, _, rfl⟩
    · exact ⟨_, _, rfl⟩

theorem sendWaking_epoch (hb : m.epochs[e']? = some b) (parent : AgentId)
    (delivered : Bool) : ∃ accepted poke, (m.sendWaking parent delivered).epochs[e']? = some { b with accepted, poke } := by
  have hplain : ∃ accepted poke, (m.sendPlain parent delivered).epochs[e']? = some { b with accepted, poke } := by
    cases delivered <;> exact ⟨_, _, hb⟩
  unfold sendWaking
  split
  · exact hplain
  · split
    · exact admitWaking_epoch hb parent delivered
    · exact hplain

theorem notifySettlement_epoch (hb : m.epochs[e']? = some b) (delivered : Bool) :
    ∃ accepted poke, (m.notifySettlement e delivered).epochs[e']? = some { b with accepted, poke } := by
  unfold notifySettlement
  split
  · exact ⟨_, _, hb⟩
  · split
    · exact ⟨_, _, hb⟩
    · split
      · exact ⟨_, _, hb⟩
      · rename_i parent _
        dsimp only
        split
        · cases delivered <;> exact ⟨_, _, hb⟩
        · exact sendWaking_epoch hb parent delivered

theorem notifySettlement_activations (delivered : Bool) :
    (m.notifySettlement e delivered).activations = m.activations := by
  have hplain : ∀ parent, (m.sendPlain parent delivered).activations = m.activations := by
    intro parent
    cases delivered <;> rfl
  unfold notifySettlement
  split
  · rfl
  · split
    · rfl
    · split
      · rfl
      · dsimp only
        split
        · exact hplain _
        · unfold sendWaking
          split
          · exact hplain _
          · split
            · cases delivered <;> rfl
            · exact hplain _

/-! ## What stays in the meantime -/

theorem submitAdmitted_requests (parent : AgentId) (child : SessionId) (e : EpochId) (aborted delivered : Bool) :
    (m.submitAdmitted parent child e aborted delivered).1.requests = m.requests := by
  unfold submitAdmitted
  split
  · rfl
  · split
    · rfl
    · split
      · rfl
      · rename_i m' hm'
        rw [← (acquireOwnership_frame hm').1]
        cases delivered <;> rfl

theorem openDisposal_requests (e : EpochId) (cancels : Bool) : (m.openDisposal e cancels).requests = m.requests := by
  unfold openDisposal
  split
  · rfl
  · cases cancels <;> rfl

theorem dispose_requests (cancels : EpochId → Bool) (targets : List EpochId) :
    (m.dispose cancels targets).requests = m.requests := by
  suffices h : ∀ fuel targets m, (disposeAll cancels fuel targets m).requests = m.requests from h _ _ _
  intro fuel
  induction fuel with
  | zero => exact fun _ _ => rfl
  | succ fuel ih =>
    intro targets m
    cases targets with
    | nil => rfl
    | cons e rest =>
      rw [disposeAll]
      split
      · exact ih _ _
      · split
        · exact ih _ _
        · rw [ih, openDisposal_requests]

/-! ## Actions -/

theorem moves_finishDisposal (h : Residency m) (hadmits : m.Admits rules)
    (hact : m.punctual (.finishDisposal e delivered) ∨ ∀ e a, m.epochs[e]? = some a → rules.admits e a)
    (hm' : m.finishDisposal e delivered = some m') : Moves rules m m' := by
  simp only [finishDisposal, bind_eq_bind, bind_eq_some_iff] at hm'
  obtain ⟨a, he, hm'⟩ := hm'
  split at hm'
  · rename_i failed hstage
    have hnotified : ∃ n, Moves rules m n ∧ (∃ accepted poke, n.epochs[e]? = some { a with accepted, poke })
        ∧ m' = n.finished e a.childId failed := by
      by_cases hpublished : a.published
      · refine ⟨m.notifySettlement e delivered, ?_, notifySettlement_epoch he delivered, ?_⟩
        · apply moves_notifySettlement he
          rintro rfl parent e' b hannounced hp hopen hparent hb hagent
          refine hadmits.of_punctual (hact.imp_left fun hpunctual => ?_) hparent hb hagent
          simp only [punctual, he, any_some, hannounced, hp, hopen, Bool.not_false, Bool.true_and,
            Bool.not_eq_true'] at hpunctual
          exact hpunctual
        · simp only [hpublished, if_true, notifySettlement_unmapped h he] at hm'
          rw [finished, notifySettlement_activations]
          exact (Option.some.inj hm').symm
      · refine ⟨m, .refl, ⟨_, _, he⟩, ?_⟩
        simp only [hpublished, if_false, Bool.false_eq_true] at hm'
        exact (Option.some.inj hm').symm
    obtain ⟨n, hmoves, ⟨accepted, poke, he'⟩, rfl⟩ := hnotified
    exact hmoves.tail (.finishes e { a with accepted, poke } failed he' hstage)
  · cases hm'

variable {clears : Bool}

theorem moves_handedOver (h : Residency m) {registers : Bool}
    (hm' : m.handedOver r aborted registers clears = some m') : Moves rules m m' := by
  simp only [handedOver, bind_eq_bind, bind_eq_some_iff] at hm'
  obtain ⟨q, hr, info, hparent, hm'⟩ := hm'
  split at hm'
  · rename_i l x hphase
    have hinstall : Move rules m (m.install r q info.session l x) := .installs r q info l x hr hparent hphase
    have hinstalled := h.move hinstall
    have hnew : (m.install r q info.session l x).epochs[m.epochs.length]?
        = some { childId := q.child, agent := x, parentSession := info.session, ancestry := x :: l } :=
      List.getElem?_concat_length
    have hhanded : (m.install r q info.session l x).requests[r]?
        = some { q with phase := .handed l m.epochs.length, made := some m.epochs.length } := by
      show (m.requests.modify r _)[r]? = _
      rw [List.getElem?_modify, hr, map_eq_map, map_some, if_pos rfl]
    have hrolled := (Moves.one hinstall).trans
      (moves_rollBack hhanded rfl hnew rfl rfl rfl rfl rfl rfl clears)
    split at hm'
    · cases hm'
      exact hrolled
    · have hheader : m.header q.child = some info.session := by
        obtain ⟨info', hparent', hheader⟩ := (h.requests r q hr).begotten (.inr (by rw [hphase]; rfl))
        cases hparent.symm.trans hparent'
        exact hheader
      split at hm'
      · cases hm'
        exact hrolled
      · rename_i owned howned
        have hacquire : Moves rules (m.install r q info.session l x) owned := by
          apply moves_acquireOwnership hinstalled hparent hheader _ howned
          show (update m.activations q.child _ q.child).isSome
          rw [update_self]
          rfl
        split at hm'
        · cases hm'
          exact (Moves.one hinstall).trans hacquire
        · cases hm'
          obtain ⟨hrequests, hframe⟩ := acquireOwnership_frame howned
          obtain ⟨_, hnew', hsame⟩ := hframe _ _ hnew
          -- the owner is the Activation of an older session
          have hother : (m.install r q info.session l x).activationOf q.parent ≠ some m.epochs.length := by
            intro hp
            obtain ⟨b, hb, hs, -⟩ := hinstalled.activationOf hparent hp
            cases hnew.symm.trans hb
            exact absurd hs (Nat.ne_of_gt (h.older _ _ hheader).2)
          rw [hsame hother] at hnew'
          rw [← hrequests] at hhanded
          exact ((Moves.one hinstall).trans hacquire).trans
            (moves_rollBack hhanded rfl hnew' rfl rfl rfl rfl rfl rfl clears)
  · cases hm'

theorem moves_enterLock (h : Residency m) (hadmits : m.Admits rules)
    (hm' : m.enterLock r aborted delivered = some m') : Moves rules m m' := by
  simp only [enterLock, bind_eq_bind, bind_eq_some_iff, guard_eq_some'] at hm'
  obtain ⟨q, hr, -, ⟨hphase, hlock⟩, hm'⟩ := hm'
  split at hm'
  · rename_i hfresh
    cases hm'
    exact moves_materialize hr rfl (.inl ⟨hphase, hfresh, hlock⟩)
  · rename_i hfresh
    rw [Bool.not_eq_true] at hfresh
    split at hm'
    · rename_i habsent
      cases hm'
      exact .one (.goesOn r q _ hr (.inspects hphase hfresh hlock habsent))
    · rename_i e hmapped
      split at hm'
      · cases hm'
        exact .one (.goesOn r q _ hr (.joins hphase hfresh hlock e))
      · obtain ⟨a, he, hchild, -⟩ := h.mapped _ _ hmapped
        cases hm'
        refine (moves_submitAdmitted h he hchild fun b => hadmits e a b he).tail (.goesOn r q _ ?_ (.refused (by rw [hphase]; rfl) _))
        rw [submitAdmitted_requests]
        exact hr

theorem moves_submitMaterialized (h : Residency m) (hadmits : m.Admits rules) (hopens : rules.opens)
    (hthrows : ∀ e, cancels e = false → rules.throws e)
    (hm' : m.submitMaterialized r aborted delivered cancels = some m') : Moves rules m m' := by
  simp only [submitMaterialized, bind_eq_bind, bind_eq_some_iff] at hm'
  obtain ⟨q, hr, hm'⟩ := hm'
  split at hm'
  · rename_i e hphase
    obtain ⟨a, he, hchild⟩ := (h.requests r q hr).named e (by rw [hphase]; rfl)
    have hsubmit : Moves rules m (m.submitAdmitted q.parent q.child e aborted delivered).1 :=
      moves_submitAdmitted h he hchild fun b => hadmits e a b he
    have hr' : (m.submitAdmitted q.parent q.child e aborted delivered).1.requests[r]? = some q := by
      rw [submitAdmitted_requests]
      exact hr
    split at hm'
    · rename_i n message heq
      rw [heq] at hsubmit hr'
      cases hm'
      exact hsubmit.tail (.goesOn r q _ hr' (.refused (by rw [hphase]; rfl) _))
    · rename_i n heq
      rw [heq] at hsubmit hr'
      cases hm'
      refine (hsubmit.trans (moves_dispose hopens hthrows [e])).tail (.goesOn r q _ ?_ (.rejected e hphase))
      rw [dispose_requests]
      exact hr'
  · cases hm'

theorem moves_reportFrom (hadmits : m.Admits rules) {child : AgentId} {wakeup : Bool}
    (hact : m.punctual (.reportFrom child wakeup delivered) ∨ ∀ e a, m.epochs[e]? = some a → rules.admits e a)
    (hm' : m.reportFrom child wakeup delivered = some m') : Moves rules m m' := by
  simp only [reportFrom, bind_eq_bind, bind_eq_some_iff, guard_eq_some'] at hm'
  obtain ⟨info, hchild, -, -, -, -, -, -, -, -, parent, ⟨s, hheader, hregistry⟩, hm'⟩ := hm'
  cases wakeup with
  | false =>
    cases hm'
    exact moves_sendPlain parent delivered
  | true =>
    cases hm'
    apply moves_sendWaking
    rintro rfl e a hp he hagent
    refine hadmits.of_punctual (hact.imp_left fun hpunctual => ?_) hp he hagent
    simp only [punctual, hchild, bind_some, hheader, hregistry, any_some, Bool.not_eq_true'] at hpunctual
    exact hpunctual

theorem moves_quiesced {captured : Bool} (hm' : m.quiesced e captured clears = some m') : Moves rules m m' := by
  simp only [quiesced, bind_eq_bind, bind_eq_some_iff, guard_eq_some'] at hm'
  obtain ⟨a, he, -, hstage, -, hwaits, hm'⟩ := hm'
  have hsettled : ∀ w ∈ a.waits, ∃ b, m.epochs[w]? = some b ∧ b.stage.settled
      ∧ (b.stage.rejected → (!captured || a.waits.any fun w => m.epochs[w]?.any (·.stage.rejected)) = true) := by
    intro w hw
    obtain ⟨b, hb, hsettled⟩ := (any_eq_true _ _).mp (List.all_eq_true.mp hwaits w hw)
    refine ⟨b, hb, hsettled, fun hrejected => ?_⟩
    rw [Bool.or_eq_true]
    exact .inr (List.any_eq_true.mpr ⟨w, hw, by rw [hb]; exact hrejected⟩)
  generalize (!captured || a.waits.any fun w => m.epochs[w]?.any (·.stage.rejected)) = failed at hsettled hm'
  cases clears with
  | true =>
    cases hm'
    refine (Moves.one (.quiets e a failed _ he hstage hsettled (.inl rfl))).tail
      (.clear e { a with stage := .releasing failed } ?_ (fun h => by cases h))
    rw [getElem?_modifyEpoch, he, map_some, if_pos rfl]
  | false =>
    cases hm'
    exact (Moves.one (.quiets e a _ _ he hstage hsettled (.inr rfl))).tail (.detach a.agent)

theorem moves_handleDisposed {ok : Bool} (hm' : m.handleDisposed e ok = some m') : Moves rules m m' := by
  simp only [handleDisposed, bind_eq_bind, bind_eq_some_iff] at hm'
  obtain ⟨a, he, hm'⟩ := hm'
  split at hm'
  · rename_i failed hstage
    cases hm'
    refine (Moves.one (.releases e a failed _ he hstage ?_)).tail (.detach a.agent)
    rw [Bool.or_eq_true]
    exact .inl
  · cases hm'

theorem moves_settles (hopens : rules.opens) (hthrows : ∀ e, cancels e = false → rules.throws e)
    (hm' : m.settles e cancels = some m') : Moves rules m m' := by
  simp only [settles, bind_eq_bind, bind_eq_some_iff] at hm'
  obtain ⟨a, he, hm'⟩ := hm'
  split at hm'
  · simp only [bind_eq_some_iff, guard_eq_some'] at hm'
    obtain ⟨-, -, hm'⟩ := hm'
    split at hm'
    · cases hm'
      exact .one (.tend e _ (fun _ => rfl) fun _ => id)
    · cases hm'
      exact (moves_dispose hopens hthrows [e]).tail (.tend e _ (fun _ => rfl) fun _ => id)
  · cases hm'

variable {act : Act}

/-- **Every action is a run of moves**, but for the message that leaves an inbox by itself. -/
theorem step_moves (h : Residency m) (hrules : act.Respects m rules) (hm' : m.step act = some m') :
    (∃ agent message, act = .leaves agent message ∧ message ∈ m.pending agent ∧ m' = m.leaveInbox agent [message])
      ∨ Moves rules m m' := by
  cases act with
  | leaves agent message =>
    simp only [step, leaves, bind_eq_bind, bind_eq_some_iff, guard_eq_some'] at hm'
    obtain ⟨-, hmem, hm'⟩ := hm'
    exact .inl ⟨agent, message, rfl, hmem, (Option.some.inj hm').symm⟩
  | hostCreates parent =>
    simp only [step, hostCreates, bind_eq_bind, bind_eq_some_iff, guard_eq_some'] at hm'
    obtain ⟨-, hparent, hm'⟩ := hm'
    cases hm'
    refine .inr (.one (.hosts parent fun p hp => ?_))
    rw [hp] at hparent
    exact of_decide_eq_true hparent
  | hostResumes session =>
    simp only [step, hostResumes, bind_eq_bind, bind_eq_some_iff, guard_eq_some'] at hm'
    obtain ⟨-, ⟨hpersisted, hfree⟩, hm'⟩ := hm'
    cases hm'
    exact .inr (.one (.resumes session hpersisted hfree))
  | hostDisposes agent =>
    simp only [step, hostDisposes, bind_eq_bind, bind_eq_some_iff, guard_eq_some'] at hm'
    obtain ⟨-, -, hm'⟩ := hm'
    cases hm'
    exact .inr (.one (.detach agent))
  | runs agent running =>
    cases hm'
    exact .inr (.one (.book _ m.nextMessage m.notices))
  | startContinuable parent =>
    simp only [step, startContinuable, bind_eq_bind, bind_eq_some_iff] at hm'
    obtain ⟨info, hparent, hm'⟩ := hm'
    split at hm'
    · cases hm'
      exact .inr .refl
    · cases hm'
      exact .inr (.one (.starts parent info hparent))
  | prepared r ok =>
    simp only [step, prepared, bind_eq_bind, bind_eq_some_iff, guard_eq_some'] at hm'
    obtain ⟨q, hr, -, hphase, hm'⟩ := hm'
    cases hm'
    split
    · exact .inr (.one (.goesOn r q _ hr (.queued hphase)))
    · exact .inr (.one (.goesOn r q _ hr (.refused (by rw [hphase]; rfl) none)))
  | followup parent child =>
    simp only [step, followup, bind_eq_bind, bind_eq_some_iff, guard_eq_some'] at hm'
    obtain ⟨-, -, hm'⟩ := hm'
    split at hm'
    · cases hm'
      exact .inr .refl
    · cases hm'
      exact .inr (.one (.asks parent child))
  | enterLock r aborted delivered => exact .inr (moves_enterLock h hrules.admits hm')
  | inspected r ok aborted =>
    simp only [step, inspected, bind_eq_bind, bind_eq_some_iff, guard_eq_some'] at hm'
    obtain ⟨q, hr, -, hphase, hm'⟩ := hm'
    split at hm'
    · rename_i hadmits
      simp only [Bool.and_eq_true] at hadmits
      cases hm'
      exact .inr (moves_materialize hr rfl (.inr ⟨hphase, hadmits.1.2, hadmits.2⟩))
    · cases hm'
      exact .inr (.one (.goesOn r q _ hr (.refused (by rw [hphase]; rfl) none)))
  | agentEntered r =>
    simp only [step, agentEntered, bind_eq_bind, bind_eq_some_iff] at hm'
    obtain ⟨q, hr, hm'⟩ := hm'
    split at hm'
    · rename_i l hphase
      simp only [bind_eq_some_iff, guard_eq_some'] at hm'
      obtain ⟨-, hfree, hm'⟩ := hm'
      cases hm'
      exact .inr (.one (.enters r q l hr hphase hfree))
    · cases hm'
  | creationFailed r =>
    simp only [step, creationFailed, bind_eq_bind, bind_eq_some_iff] at hm'
    obtain ⟨q, hr, hm'⟩ := hm'
    split at hm'
    · rename_i l hphase
      cases hm'
      exact .inr (.one (.goesOn r q _ hr (.failed (.inl ⟨l, hphase⟩))))
    · rename_i l agent hphase
      cases hm'
      exact .inr ((Moves.one (.detach agent)).tail (.goesOn r q _ hr (.failed (.inr ⟨l, agent, hphase⟩))))
    · cases hm'
  | handedOver r aborted registers clears => exact .inr (moves_handedOver h hm')
  | unregistered r =>
    simp only [step, unregistered, bind_eq_bind, bind_eq_some_iff] at hm'
    obtain ⟨q, hr, hm'⟩ := hm'
    split at hm'
    · rename_i l e hphase
      cases hm'
      exact .inr (.one (.goesOn r q _ hr (.published l e hphase)))
    · rename_i l e hphase
      simp only [bind_eq_some_iff, guard_eq_some'] at hm'
      obtain ⟨-, hsettled, hm'⟩ := hm'
      obtain ⟨a, he, hsettled⟩ := (any_eq_true _ _).mp hsettled
      cases hm'
      exact .inr (.one (.goesOn r q _ hr (.rolledBack l e hphase a he hsettled)))
    · cases hm'
  | submitMaterialized r aborted delivered cancels => exact .inr (moves_submitMaterialized h hrules.admits (hrules.opens rfl) hrules.throws hm')
  | disposalSettled r aborted =>
    simp only [step, disposalSettled, bind_eq_bind, bind_eq_some_iff] at hm'
    obtain ⟨q, hr, hm'⟩ := hm'
    split at hm'
    · rename_i e again hphase
      simp only [bind_eq_some_iff] at hm'
      obtain ⟨-, -, hm'⟩ := hm'
      split at hm'
      · rename_i hagain
        simp only [Bool.and_eq_true] at hagain
        cases hm'
        rw [hagain.1.1] at hphase
        exact .inr (.one (.goesOn r q _ hr (.retries e hphase)))
      · cases hm'
        exact .inr (.one (.goesOn r q _ hr (.refused (by rw [hphase]; rfl) none)))
    · cases hm'
  | raced e =>
    simp only [step, raced, bind_eq_bind, bind_eq_some_iff] at hm'
    obtain ⟨a, he, hm'⟩ := hm'
    split at hm'
    · cases hm'
      exact .inr (.one (.tend e _ (fun _ => rfl) fun _ => id))
    · cases hm'
  | settles e cancels => exact .inr (moves_settles (hrules.opens rfl) hrules.throws hm')
  | rechecked e =>
    simp only [step, rechecked, bind_eq_bind, bind_eq_some_iff] at hm'
    obtain ⟨a, he, hm'⟩ := hm'
    split at hm'
    · split at hm'
      · cases hm'
        exact .inr (.one (.tend e _ (fun _ => rfl) fun _ => id))
      · cases hm'
        exact .inr (.one (.tend e _ (fun _ => rfl) fun _ => id))
    · cases hm'
  | unparked e =>
    simp only [step, unparked, bind_eq_bind, bind_eq_some_iff] at hm'
    obtain ⟨a, he, hm'⟩ := hm'
    split at hm'
    · simp only [bind_eq_some_iff] at hm'
      obtain ⟨-, -, hm'⟩ := hm'
      cases hm'
      exact .inr (.one (.tend e _ (fun _ => rfl) fun _ => id))
    · cases hm'
  | quiesced e captured clears => exact .inr (moves_quiesced hm')
  | handleDisposed e ok => exact .inr (moves_handleDisposed hm')
  | finishDisposal e delivered => exact .inr (moves_finishDisposal h hrules.admits hrules.punctual hm')
  | reportFrom child wakeup delivered => exact .inr (moves_reportFrom hrules.admits hrules.punctual hm')
  | drain =>
    cases hm'
    exact .inr (.one (.closes m.closingScopes true (_ ++ _) (hrules.closes rfl)))
  | drainDescendants parents cancels =>
    cases hm'
    unfold drainDescendants
    dsimp only
    split
    · exact .inr .refl
    · exact .inr (.head (.closes _ m.draining (_ ++ _) (hrules.closes rfl)) (moves_dispose (hrules.opens rfl) hrules.throws _))
  | drainOn d cancels =>
    simp only [step, drainOn, bind_eq_bind, bind_eq_some_iff] at hm'
    obtain ⟨drain, hd, -, -, -, -, hm'⟩ := hm'
    cases hm'
    exact .inr (.head (.closes m.closingScopes m.draining _ (hrules.closes rfl))
      (moves_dispose (hrules.opens rfl) hrules.throws _))
  | drainEnd d =>
    simp only [step, drainEnd, bind_eq_bind, bind_eq_some_iff] at hm'
    obtain ⟨drain, hd, -, -, -, -, hm'⟩ := hm'
    cases hm'
    exact .inr (.one (.closes m.closingScopes m.draining _ (hrules.closes rfl)))

theorem step_moves_any (h : Residency m) (hm' : m.step act = some m') :
    (∃ agent message, act = .leaves agent message ∧ message ∈ m.pending agent ∧ m' = m.leaveInbox agent [message])
      ∨ Moves {} m m' :=
  step_moves h ⟨fun _ _ _ _ _ => trivial, .inr fun _ _ _ => trivial, fun _ => trivial, fun _ _ => trivial,
    fun _ => trivial⟩ hm'

theorem Residency.leaves (h : Residency m) (agent : AgentId) (gone : List MessageId) :
    Residency (m.leaveInbox agent gone) := h.same (Same.leaveInbox agent gone)

/-- **Residency is kept by every action.** -/
theorem Residency.step (h : Residency m) (hm' : m.step act = some m') : Residency m' := by
  rcases step_moves_any h hm' with ⟨agent, message, -, -, rfl⟩ | hmoves
  · exact h.leaves agent [message]
  · exact h.moves hmoves

end Manager

theorem Archive.residency (archive : Archive) : archive.start.Residency := by
  have hrequests : ∀ (r : RequestId) q, archive.start.requests[r]? ≠ some q := fun _ _ => by simp [Archive.start]
  have hepochs : ∀ (e : EpochId) a, archive.start.epochs[e]? ≠ some a := fun _ _ => by simp [Archive.start]
  have hagents : ∀ (x : AgentId) info, archive.start.agents[x]? ≠ some info := fun _ _ => by simp [Archive.start]
  exact {
    older := archive.older
    known := fun _ hc => of_decide_eq_true hc
    seated := fun x info hx => absurd hx (hagents x info)
    registered := nofun
    requests := fun r q hr => absurd hr (hrequests r q)
    once := fun r _ q _ hr => absurd hr (hrequests r q)
    locked := fun r _ q _ hr => absurd hr (hrequests r q)
    epochs := fun e a he => absurd he (hepochs e a)
    mapped := nofun
    stored := nofun
    sole := fun e _ a _ he => absurd he (hepochs e a)
    apart := fun r q _ _ _ _ hr => absurd hr (hrequests r q) }

/-- **In every state reached, the map holds exactly the live Activations.** -/
theorem residency_run {archive : Archive} {acts : List Act} {m : Manager}
    (hrun : Machine.exec Manager.step archive.start acts = some m) : m.Residency :=
  Machine.exec_invariant (fun _ _ _ _ h hstep => h.step hstep) archive.residency hrun

end CocoHarness.Subagent
