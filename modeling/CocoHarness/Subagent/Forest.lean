/-
# CocoHarness.Subagent.Forest — a disposal opens the whole forest below it.

The span that begins a disposal goes down through the children that are owned, parent first.  `dispose_spec` says
what it leaves: its targets are closing, and so is every child that one of the Activations it has opened waits for.
-/
import CocoHarness.Subagent.Ownership

namespace CocoHarness.Subagent

open Lib List

namespace Manager

variable {m m' : Manager} {rules : Rules} {e : EpochId} {a : Activation} {r : RequestId} {q : Request}

/-! ## Opening one Activation -/

theorem openDisposal_activations (cancels : Bool) : (m.openDisposal e cancels).activations = m.activations := by
  unfold openDisposal
  split
  · rfl
  · cases cancels <;> rfl

theorem openDisposal_true (he : m.epochs[e]? = some a) : m.openDisposal e true = (m.modifyEpoch e fun a =>
    { a with stage := .children, waits := a.owned.filterMap m.activations, poke := a.poke + 1 }).clearInbox a.agent := by
  rw [openDisposal, he]
  rfl

theorem openDisposal_false (he : m.epochs[e]? = some a) :
    m.openDisposal e false = m.modifyEpoch e fun a => { a with stage := .stuck, poke := a.poke + 1 } := by
  rw [openDisposal, he]
  rfl

theorem openDisposal_epoch (he : m.epochs[e]? = some a) (cancels : Bool) {e' : EpochId} {b : Activation}
    (hb : m.epochs[e']? = some b) : ∃ b', (m.openDisposal e cancels).epochs[e']? = some b' ∧ b'.owned = b.owned
      ∧ (e ≠ e' → b'.stage = b.stage ∧ b'.waits = b.waits)
      ∧ (e = e' → b'.stage = .stuck ∧ cancels = false
          ∨ b'.stage = .children ∧ b'.waits = b.owned.filterMap m.activations ∧ cancels) := by
  cases cancels with
  | false =>
    refine ⟨_, by rw [openDisposal_false he, getElem?_modifyEpoch, hb, Option.map_some], ?_, ?_, ?_⟩
    · split <;> rfl
    · exact fun hne => by rw [if_neg hne]; exact ⟨rfl, rfl⟩
    · exact fun heq => by rw [if_pos heq]; exact .inl ⟨rfl, rfl⟩
  | true =>
    refine ⟨_, by rw [openDisposal_true he, clearInbox, getElem?_leaveInbox, getElem?_modifyEpoch, hb,
      Option.map_some, Option.map_some], ?_, ?_, ?_⟩
    · split <;> split <;> rfl
    · intro hne
      rw [if_neg hne]
      constructor <;> split <;> rfl
    · intro heq
      rw [if_pos heq]
      refine .inr ⟨?_, ?_, rfl⟩ <;> split <;> rfl

def load (m : Manager) : Nat := (m.epochs.map fun a => if a.closing then 0 else a.owned.length).sum

theorem sum_map_modify {α : Type} (f : α → α) (g : α → Nat) {l : List α} {i : Nat} {x : α} (h : l[i]? = some x) :
    ((l.modify i f).map g).sum + g x = (l.map g).sum + g (f x) := by
  induction l generalizing i with
  | nil => cases h
  | cons y l ih =>
    cases i with
    | zero =>
      cases h
      simp only [modify_zero_cons, map_cons, sum_cons]
      omega
    | succ i =>
      have := ih (i := i) h
      simp only [modify_succ_cons, map_cons, sum_cons]
      omega

theorem load_leaveInbox (agent : AgentId) (gone : List MessageId) : (m.leaveInbox agent gone).load = m.load := by
  show ((m.epochs.map _).map _).sum = _
  rw [map_map]
  congr 2
  funext a
  show (if (ite _ _ _ : Activation).closing then 0 else (ite _ _ _ : Activation).owned.length) = _
  split <;> rfl

theorem load_openDisposal (he : m.epochs[e]? = some a) (hresident : a.stage = .resident) (cancels : Bool) :
    (m.openDisposal e cancels).load + a.owned.length = m.load := by
  have hload : ∀ f : Activation → Activation, (f a).closing → (m.modifyEpoch e f).load + a.owned.length = m.load := by
    intro f hf
    have := sum_map_modify f (fun a => if a.closing then 0 else a.owned.length) he
    rw [if_pos hf, if_neg (by rw [not_closing_iff.mpr hresident]; exact Bool.false_ne_true)] at this
    exact this
  cases cancels with
  | false =>
    rw [openDisposal_false he]
    exact hload _ rfl
  | true =>
    rw [openDisposal_true he, clearInbox, load_leaveInbox]
    exact hload _ rfl

/-! ## The whole span -/

theorem evolves_disposeAll (cancels : EpochId → Bool) (fuel : Nat) (targets : List EpochId) (m : Manager) :
    m.Evolves (disposeAll cancels fuel targets m) := by
  have hmoves : Moves {} m (disposeAll cancels fuel targets m) := moves_disposeAll trivial (fun _ _ => trivial) _ _ _
  exact Moves.evolves hmoves

theorem disposeAll_closing (cancels : EpochId → Bool) (fuel : Nat) (targets : List EpochId) (m : Manager)
    {e' : EpochId} {b : Activation} (hb : m.epochs[e']? = some b) (hclosing : b.stage ≠ .resident) :
    ∃ b', (disposeAll cancels fuel targets m).epochs[e']? = some b' ∧ b'.stage = b.stage := by
  induction fuel generalizing targets m b with
  | zero => exact ⟨b, hb, rfl⟩
  | succ fuel ih =>
    cases targets with
    | nil => exact ⟨b, hb, rfl⟩
    | cons e rest =>
      rw [disposeAll]
      cases he : m.epochs[e]? with
      | none => exact ih rest m hb hclosing
      | some a =>
        dsimp only
        split
        · exact ih rest m hb hclosing
        · rename_i hopen
          have hne : e ≠ e' := by
            rintro rfl
            cases he.symm.trans hb
            exact hopen (closing_iff.mpr hclosing)
          obtain ⟨b₁, hb₁, -, hsame, -⟩ := openDisposal_epoch he (cancels e) hb
          obtain ⟨b', hb', hstage⟩ := ih _ _ hb₁ (by rw [(hsame hne).1]; exact hclosing)
          exact ⟨b', hb', hstage.trans (hsame hne).1⟩

/-- What `dispose` leaves, if there is fuel for what there is to open. -/
theorem disposeAll_spec (cancels : EpochId → Bool) (fuel : Nat) (targets : List EpochId) (m : Manager)
    (hfuel : targets.length + m.load ≤ fuel) :
    (∀ e ∈ targets, ∀ a, m.epochs[e]? = some a →
      ∃ a', (disposeAll cancels fuel targets m).epochs[e]? = some a' ∧ a'.stage ≠ .resident) ∧
    ∀ (e : EpochId) a a', m.epochs[e]? = some a → a.stage = .resident →
      (disposeAll cancels fuel targets m).epochs[e]? = some a' → a'.stage ≠ .resident →
      a'.stage = .stuck ∨ a'.stage = .children ∧ a'.waits = a.owned.filterMap m.activations ∧
        ∀ w ∈ a'.waits, ∀ b, m.epochs[w]? = some b →
          ∃ b', (disposeAll cancels fuel targets m).epochs[w]? = some b' ∧ b'.stage ≠ .resident := by
  induction fuel generalizing targets m with
  | zero =>
    have hnil : targets = [] := eq_nil_of_length_eq_zero (by omega)
    subst hnil
    refine ⟨(fun _ h => by cases h), fun e a a' he hresident he' hclosing => ?_⟩
    cases he.symm.trans he'
    exact absurd hresident hclosing
  | succ fuel ih =>
    cases targets with
    | nil =>
      refine ⟨(fun _ h => by cases h), fun e a a' he hresident he' hclosing => ?_⟩
      cases he.symm.trans he'
      exact absurd hresident hclosing
    | cons e₀ rest =>
      rw [length_cons] at hfuel
      rw [disposeAll]
      cases he₀ : m.epochs[e₀]? with
      | none =>
        obtain ⟨hrest, hopened⟩ := ih rest m (by omega)
        refine ⟨fun e he a ha => ?_, hopened⟩
        rcases mem_cons.mp he with rfl | he
        · rw [he₀] at ha
          cases ha
        · exact hrest e he a ha
      | some a₀ =>
        dsimp only
        by_cases hclosing₀ : a₀.closing
        · rw [if_pos hclosing₀]
          obtain ⟨hrest, hopened⟩ := ih rest m (by omega)
          refine ⟨fun e he a ha => ?_, hopened⟩
          rcases mem_cons.mp he with rfl | he
          · obtain ⟨a', ha', hstage⟩ := disposeAll_closing cancels fuel rest m he₀ (closing_iff.mp hclosing₀)
            exact ⟨a', ha', by rw [hstage]; exact closing_iff.mp hclosing₀⟩
          · exact hrest e he a ha
        · rw [if_neg hclosing₀]
          rw [Bool.not_eq_true, not_closing_iff] at hclosing₀
          have hload := load_openDisposal he₀ hclosing₀ (cancels e₀)
          generalize hchildren : (if cancels e₀ then a₀.owned.filterMap m.activations else []) = children
          have hlength : children.length ≤ a₀.owned.length := by
            rw [← hchildren]
            split
            · exact length_filterMap_le _ _
            · exact Nat.zero_le _
          obtain ⟨hrest, hopened⟩ := ih (children ++ rest) (m.openDisposal e₀ (cancels e₀))
            (by rw [length_append]; omega)
          generalize hlast : disposeAll cancels fuel (children ++ rest) (m.openDisposal e₀ (cancels e₀)) = last
            at hrest hopened ⊢
          -- the Activation that is opened first, and what becomes of it
          obtain ⟨a₁, ha₁, -, -, hfirst⟩ := openDisposal_epoch he₀ (cancels e₀) he₀
          have hclosed : a₁.stage ≠ .resident := by
            rcases hfirst rfl with ⟨hstage, -⟩ | ⟨hstage, -⟩ <;> rw [hstage] <;> rintro ⟨⟩
          obtain ⟨a₂, ha₂, hstage₂⟩ := disposeAll_closing cancels fuel (children ++ rest) _ ha₁ hclosed
          have hwaits₂ : a₂.waits = a₁.waits := by
            obtain ⟨b, hb, hev⟩ := evolves_disposeAll cancels fuel (children ++ rest) _ _ _ ha₁
            cases ha₂.symm.trans hb
            exact hev.waits hclosed
          rw [hlast] at ha₂
          refine ⟨fun e he a ha => ?_, fun e a a' ha hresident ha' hclosing => ?_⟩
          · rcases mem_cons.mp he with rfl | he
            · exact ⟨a₂, ha₂, by rw [hstage₂]; exact hclosed⟩
            · obtain ⟨b, hb, -⟩ := openDisposal_epoch he₀ (cancels e₀) ha
              exact hrest e (mem_append_right _ he) b hb
          · by_cases heq : e₀ = e
            · subst heq
              cases he₀.symm.trans ha
              cases ha₂.symm.trans ha'
              rcases hfirst rfl with ⟨hstage, -⟩ | ⟨hstage, hwaits, hcancels⟩
              · exact .inl (hstage₂.trans hstage)
              · refine .inr ⟨hstage₂.trans hstage, hwaits₂.trans hwaits, fun w hw b hb => ?_⟩
                obtain ⟨b₁, hb₁, -⟩ := openDisposal_epoch he₀ (cancels e₀) hb
                refine hrest w (mem_append_left _ ?_) b₁ hb₁
                rw [← hchildren, if_pos hcancels, ← hwaits, ← hwaits₂]
                exact hw
            · obtain ⟨b₁, hb₁, howned, hsame, -⟩ := openDisposal_epoch he₀ (cancels e₀) ha
              rcases hopened e b₁ a' hb₁ ((hsame heq).1.trans hresident) ha' hclosing with hstuck | ⟨hstage, hwaits, hall⟩
              · exact .inl hstuck
              · rw [howned, openDisposal_activations] at hwaits
                refine .inr ⟨hstage, hwaits, fun w hw b hb => ?_⟩
                obtain ⟨b₂, hb₂, -⟩ := openDisposal_epoch he₀ (cancels e₀) hb
                exact hall w hw b₂ hb₂

theorem load_le : m.load ≤ (m.epochs.map (·.owned.length)).sum := by
  unfold load
  induction m.epochs with
  | nil => exact Nat.le_refl _
  | cons a l ih =>
    simp only [map_cons, sum_cons]
    split <;> omega

/-- **A disposal opens its targets, and all that they wait for.** -/
theorem dispose_spec (cancels : EpochId → Bool) (targets : List EpochId) (m : Manager) :
    (∀ e ∈ targets, ∀ a, m.epochs[e]? = some a →
      ∃ a', (m.dispose cancels targets).epochs[e]? = some a' ∧ a'.stage ≠ .resident) ∧
    ∀ (e : EpochId) a a', m.epochs[e]? = some a → a.stage = .resident →
      (m.dispose cancels targets).epochs[e]? = some a' → a'.stage ≠ .resident →
      a'.stage = .stuck ∨ a'.stage = .children ∧ a'.waits = a.owned.filterMap m.activations ∧
        ∀ w ∈ a'.waits, ∀ b, m.epochs[w]? = some b →
          ∃ b', (m.dispose cancels targets).epochs[w]? = some b' ∧ b'.stage ≠ .resident :=
  disposeAll_spec cancels _ targets m (Nat.add_le_add_left load_le _)

/-! ## Actions that dispose -/

def Rules.steady : Rules := { opens := False }

def Span (m m' : Manager) : Prop :=
  ∃ n n', Moves .steady m n ∧ (n' = n ∨ ∃ cancels targets, n' = n.dispose cancels targets) ∧ Moves .steady n' m'

theorem Span.of_moves (h : Moves .steady m m') : m.Span m' := ⟨m, m, .refl, .inl rfl, h⟩

variable {cancels : EpochId → Bool}

theorem submitMaterialized_span (h : Residency m) {aborted delivered : Bool}
    (hm' : m.submitMaterialized r aborted delivered cancels = some m') : m.Span m' := by
  simp only [submitMaterialized, Option.bind_eq_bind, Option.bind_eq_some_iff] at hm'
  obtain ⟨q, hr, hm'⟩ := hm'
  split at hm'
  · rename_i e hphase
    obtain ⟨a, he, hchild⟩ := (h.requests r q hr).named e (by rw [hphase]; rfl)
    have hsubmit : Moves .steady m (m.submitAdmitted q.parent q.child e aborted delivered).1 :=
      moves_submitAdmitted h he hchild fun _ _ => trivial
    have hr' : (m.submitAdmitted q.parent q.child e aborted delivered).1.requests[r]? = some q := by
      rw [submitAdmitted_requests]
      exact hr
    split at hm'
    · rename_i n message heq
      rw [heq] at hsubmit hr'
      cases hm'
      exact .of_moves (hsubmit.tail (.goesOn r q _ hr' (.refused (by rw [hphase]; rfl) _)))
    · rename_i n heq
      rw [heq] at hsubmit hr'
      cases hm'
      refine ⟨n, n.dispose cancels [e], hsubmit, .inr ⟨cancels, [e], rfl⟩, .one (.goesOn r q _ ?_ (.rejected e hphase))⟩
      rw [dispose_requests]
      exact hr'
  · cases hm'

theorem settles_span (hm' : m.settles e cancels = some m') : m.Span m' := by
  simp only [settles, Option.bind_eq_bind, Option.bind_eq_some_iff] at hm'
  obtain ⟨a, he, hm'⟩ := hm'
  split at hm'
  · simp only [Option.bind_eq_some_iff, Option.guard_eq_some'] at hm'
    obtain ⟨-, -, hm'⟩ := hm'
    split at hm'
    · cases hm'
      exact .of_moves (.one (.tend e _ (fun _ => rfl) fun _ => id))
    · cases hm'
      exact ⟨m, m.dispose cancels [e], .refl, .inr ⟨cancels, [e], rfl⟩, .one (.tend e _ (fun _ => rfl) fun _ => id)⟩
  · cases hm'

theorem drainDescendants_span (parents : List AgentId) (cancels : EpochId → Bool) :
    m.Span (m.drainDescendants parents cancels) := by
  unfold drainDescendants
  dsimp only
  split
  · exact .of_moves .refl
  · exact ⟨_, _, .one (.closes _ m.draining (_ ++ _) trivial), .inr ⟨cancels, _, rfl⟩, .refl⟩

theorem drainOn_span {d : Nat} (hm' : m.drainOn d cancels = some m') : m.Span m' := by
  simp only [drainOn, Option.bind_eq_bind, Option.bind_eq_some_iff] at hm'
  obtain ⟨drain, hd, -, -, -, -, hm'⟩ := hm'
  cases hm'
  exact ⟨_, _, .one (.closes m.closingScopes m.draining _ trivial), .inr ⟨cancels, _, rfl⟩, .refl⟩

theorem step_span (h : Residency m) {act : Act} (hm' : m.step act = some m') :
    (∃ agent message, act = .leaves agent message ∧ message ∈ m.pending agent ∧ m' = m.leaveInbox agent [message])
      ∨ m.Span m' := by
  by_cases hopens : act.opens
  · refine .inr ?_
    cases act with
    | submitMaterialized r aborted delivered cancels => exact submitMaterialized_span h hm'
    | settles e cancels => exact settles_span hm'
    | drainDescendants parents cancels =>
      cases hm'
      exact drainDescendants_span parents cancels
    | drainOn d cancels => exact drainOn_span hm'
    | _ => cases hopens
  · have hrespects : act.Respects m .steady :=
      ⟨fun _ _ _ _ _ => trivial, .inr fun _ _ _ => trivial, fun hact => hopens hact, fun _ _ => trivial, fun _ => trivial⟩
    exact (step_moves h hrespects hm').imp_right .of_moves

/-! ## Children that are waited for -/

def Waited (m : Manager) : Prop :=
  ∀ (e : EpochId) a, m.epochs[e]? = some a → a.stage = .children → ∀ w ∈ a.waits,
    ∃ b, m.epochs[w]? = some b ∧ b.stage ≠ .resident

theorem Move.children (hmove : Move .steady m m') {a' : Activation} (he' : m'.epochs[e]? = some a')
    (hstage : a'.stage = .children) : ∃ a, m.epochs[e]? = some a ∧ a.stage = .children ∧ a'.waits = a.waits := by
  have hmodify : ∀ {e₁ : EpochId} {f : Activation → Activation}, (m.modifyEpoch e₁ f).epochs[e]? = some a' →
      (∀ a, m.epochs[e₁]? = some a → (f a).stage ≠ .children ∨ (f a).stage = a.stage ∧ (f a).waits = a.waits) →
      ∃ a, m.epochs[e]? = some a ∧ a.stage = .children ∧ a'.waits = a.waits := by
    intro e₁ f he' hf
    rw [getElem?_modifyEpoch, Option.map_eq_some_iff] at he'
    obtain ⟨a, he, rfl⟩ := he'
    by_cases heq : e₁ = e
    · subst heq
      rw [if_pos rfl] at hstage ⊢
      rcases hf a he with hne | ⟨hsame, hwaits⟩
      · exact absurd hstage hne
      · exact ⟨a, he, hsame ▸ hstage, hwaits⟩
    · rw [if_neg heq] at hstage ⊢
      exact ⟨a, he, hstage, rfl⟩
  cases hmove with
  | book | closes | enqueue agent message | detach agent | starts parent info hparent | asks parent child
  | goesOn r q phase hr hphase | enters r q l hr hphase hfree | hosts parent hparent
  | resumes session hpersisted hfree => exact ⟨a', he', hstage, rfl⟩
  | tend e₁ f hf hannounced => exact hmodify he' fun a _ => by rw [hf a]; exact .inr ⟨rfl, rfl⟩
  | accepts e₁ a₁ message he₁ hadmits =>
    change (m.modifyEpoch e₁ _).epochs[e]? = some a' at he'
    exact hmodify he' fun _ _ => .inr ⟨rfl, rfl⟩
  | clear e₁ a₁ he₁ hclosing =>
    rw [clearInbox, getElem?_leaveInbox, Option.map_eq_some_iff] at he'
    obtain ⟨a, he, rfl⟩ := he'
    refine ⟨a, he, ?_, ?_⟩
    · split at hstage <;> exact hstage
    · split <;> rfl
  | acquire e₁ a₁ child he₁ hresident hheader hchild => exact hmodify he' fun _ _ => .inr ⟨rfl, rfl⟩
  | opens e₁ a₁ he₁ hresident hopens | sticks e₁ a₁ he₁ hresident hopens hthrows => exact hopens.elim
  | quiets e₁ a₁ failed stage he₁ hstage₁ hwaits hnext =>
    refine hmodify he' fun _ _ => .inl ?_
    rcases hnext with rfl | rfl <;> nofun
  | releases e₁ a₁ failed failed' he₁ hstage₁ hfailed => exact hmodify he' fun _ _ => .inl nofun
  | finishes e₁ a₁ failed he₁ hstage₁ =>
    rw [getElem?_finished, Option.map_eq_some_iff] at he'
    obtain ⟨a, he, rfl⟩ := he'
    dsimp only at hstage ⊢
    refine ⟨a, he, ?_, ?_⟩
    · split at hstage
      · cases hstage
      · split at hstage <;> exact hstage
    · split <;> split <;> rfl
  | installs r q info l agent hr hparent hphase =>
    obtain he | ⟨-, rfl⟩ := getElem?_snoc he'
    · exact ⟨a', he, hstage, rfl⟩
    · cases hstage
  | spoils r q l e₁ a₁ stage hr hphase he₁ hresident howned hwaits haccepted hannounced hnext =>
    change (m.modifyEpoch e₁ _).epochs[e]? = some a' at he'
    refine hmodify he' fun _ _ => .inl ?_
    rcases hnext with rfl | rfl <;> nofun

theorem Waited.evolves (h : m.Waited) (hev : m.Evolves m') (hchildren : ∀ (e : EpochId) a', m'.epochs[e]? = some a' →
    a'.stage = .children → ∃ a, m.epochs[e]? = some a ∧ a.stage = .children ∧ a'.waits = a.waits) : m'.Waited := by
  intro e a' he' hstage w hw
  obtain ⟨a, he, hstage, hwaits⟩ := hchildren e a' he' hstage
  obtain ⟨b, hb, hclosing⟩ := h e a he hstage w (hwaits ▸ hw)
  obtain ⟨b', hb', hevb⟩ := hev w b hb
  exact ⟨b', hb', hevb.closing hclosing⟩

theorem Waited.moves (h : m.Waited) (hmoves : Moves .steady m m') : m'.Waited := by
  induction hmoves with
  | refl => exact h
  | tail _ hmove ih => exact ih.evolves hmove.evolves fun _ _ he hstage => hmove.children he hstage

theorem openDisposal_length (e : EpochId) (cancels : Bool) :
    (m.openDisposal e cancels).epochs.length = m.epochs.length := by
  cases he : m.epochs[e]? with
  | none => rw [openDisposal, he]
  | some a =>
    cases cancels with
    | false =>
      rw [openDisposal_false he]
      exact length_modify _ _ _
    | true =>
      rw [openDisposal_true he]
      exact (length_map _).trans (length_modify _ _ _)

theorem dispose_length (cancels : EpochId → Bool) (targets : List EpochId) (m : Manager) :
    (m.dispose cancels targets).epochs.length = m.epochs.length := by
  suffices h : ∀ fuel targets m, (disposeAll cancels fuel targets m).epochs.length = m.epochs.length from h _ _ _
  intro fuel
  induction fuel with
  | zero => exact fun _ _ => rfl
  | succ fuel ih =>
    intro targets m
    cases targets with
    | nil => rfl
    | cons e rest =>
      rw [disposeAll]
      split
      · exact ih _ _
      · split
        · exact ih _ _
        · rw [ih, openDisposal_length]

theorem dispose_evolves (cancels : EpochId → Bool) (targets : List EpochId) (m : Manager) :
    m.Evolves (m.dispose cancels targets) := evolves_disposeAll cancels _ targets m

/-- **A disposal opens all that it will wait for.** -/
theorem Waited.dispose (h : m.Waited) (hres : m.Residency) (cancels : EpochId → Bool) (targets : List EpochId) :
    (m.dispose cancels targets).Waited := by
  have hev := dispose_evolves cancels targets m
  intro e a' he' hstage w hw
  have hsome : ∃ a, m.epochs[e]? = some a := by
    have hlength := dispose_length cancels targets m
    obtain ⟨hlt, -⟩ := List.getElem?_eq_some_iff.mp he'
    exact ⟨_, List.getElem?_eq_getElem (hlength ▸ hlt)⟩
  obtain ⟨a, he⟩ := hsome
  by_cases hresident : a.stage = .resident
  · obtain hstuck | ⟨-, hwaits, hall⟩ := (dispose_spec cancels targets m).2 e a a' he hresident he' (by rw [hstage]; nofun)
    · rw [hstage] at hstuck
      cases hstuck
    · have hmem := hw
      rw [hwaits] at hmem
      obtain ⟨c, -, hmapped⟩ := mem_filterMap.mp hmem
      obtain ⟨b, hb, -⟩ := hres.mapped c w hmapped
      exact hall w hw b hb
  · obtain ⟨b, hb, hsame⟩ := disposeAll_closing cancels _ targets m he hresident
    cases he'.symm.trans hb
    obtain ⟨b, hb, hevb⟩ := hev e a he
    cases he'.symm.trans hb
    rw [hevb.waits hresident] at hw
    obtain ⟨b, hb, hclosing⟩ := h e a he (hsame ▸ hstage) w hw
    obtain ⟨b', hb', hevw⟩ := hev w b hb
    exact ⟨b', hb', hevw.closing hclosing⟩

theorem Waited.step (h : m.Waited) (hres : m.Residency) {act : Act} (hstep : m.step act = some m') : m'.Waited := by
  rcases step_span hres hstep with ⟨agent, message, -, -, rfl⟩ | ⟨n, n', hbefore, hmid, hafter⟩
  · refine h.evolves (.leaveInbox agent [message]) fun e a' he' hstage => ?_
    rw [getElem?_leaveInbox, Option.map_eq_some_iff] at he'
    obtain ⟨a, he, rfl⟩ := he'
    refine ⟨a, he, ?_, ?_⟩
    · split at hstage <;> exact hstage
    · split <;> rfl
  · have hn : n.Waited := h.moves hbefore
    obtain rfl | ⟨cancels, targets, rfl⟩ := hmid
    · exact hn.moves hafter
    · exact (hn.dispose (hres.moves hbefore) cancels targets).moves hafter

end Manager

end CocoHarness.Subagent
