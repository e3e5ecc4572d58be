/-
# CocoHarness.Scope.LayersLookup — what a scope sees, over any run of binds, registrations and disposals.

A disposer is live from its registration until it first runs.  What a scope sees under a name is the
contribution of a live disposer of the nearest scope on its chain that has one (`nearest`), with the
global registrations behind all of them: whichever operations came before, and in whichever order
disposers ran.
-/
import CocoHarness.Lib.Machine
import CocoHarness.Scope.LayersInvariant

namespace CocoHarness.Scope

open Lib Option List Disposer

variable {α V W : Type} [DecidableEq α]

/-! ## The specification -/

def Disposer.holds (d : Disposer α V W) (scope : Option α) (name : String) : Option V :=
  if d.active ∧ d.scope = scope then
    match d.contribution with
    | .named own value => if own = name then some value else none
    | .anonymous _ => none
  else none

def Scopes.held (s : Scopes α V W) (scope : Option α) (name : String) : Option V :=
  s.disposers.findSome? fun d => d.holds scope name

/-- The entry of the nearest scope on a chain that holds one, the global scope last. -/
def Scopes.nearest (s : Scopes α V W) (chain : List α) (name : String) : Option V :=
  (chain.map some ++ [none]).findSome? fun scope => s.held scope name

/-! ## Registries meet it -/

theorem Disposer.holds_eq_some_iff {d : Disposer α V W} {scope : Option α} {name : String} {v : V} :
    d.holds scope name = some v ↔ d.active = true ∧ d.scope = scope ∧ d.contribution = .named name v := by
  obtain ⟨own, layer, undo, contribution, active⟩ := d
  cases contribution with
  | named name' value =>
    simp only [holds]
    split
    · next hboth =>
      simp only [hboth, true_and, Contribution.named.injEq]
      split
      · next heq => simp [heq]
      · next hne => simp [hne]
    · next hnot => refine ⟨fun h => (by cases h), fun h => absurd ⟨h.1, h.2.1⟩ hnot⟩
  | anonymous value => simp [holds]

namespace ScopedLayers

variable {r : ScopedLayers α V W} {ds : List (Disposer α V W)}

def own (r : ScopedLayers α V W) (scope : Option α) (name : String) : Option V :=
  (r.place scope).bind fun l => (r.layers l).named.data.lookup name

/-- **A layer holds what is registered for its scope.** -/
theorem Registered.own_eq (h : Registered r ds) (scope : Option α) (name : String) :
    r.own scope name = ds.findSome? fun d => d.holds scope name := by
  have hholds : ∀ d ∈ ds, ∀ v, d.holds scope name = some v → r.own scope name = some v := by
    intro d hd v hv
    obtain ⟨hactive, rfl, hcontribution⟩ := holds_eq_some_iff.mp hv
    obtain ⟨i, hi⟩ := getElem?_of_mem hd
    obtain ⟨hat, -, n, hslot⟩ := h.held i d ⟨hi, hactive⟩
    rw [hslot, hcontribution] at hat
    obtain ⟨value, hvalue, hsame⟩ := map_eq_some_iff.mp hat
    rw [own, h.placed i d ⟨hi, hactive⟩, bind_some, hvalue, (Contribution.named.inj hsame).2]
  cases hfind : ds.findSome? fun d => d.holds scope name with
  | some v =>
    obtain ⟨d, hd, hv⟩ := exists_of_findSome?_eq_some hfind
    exact hholds d hd v hv
  | none =>
    -- what the layer holds would have a live disposer
    rw [findSome?_eq_none_iff] at hfind
    cases hown : r.own scope name with
    | none => rfl
    | some v =>
      exfalso
      obtain ⟨l, hplace, hvalue⟩ := bind_eq_some_iff.mp hown
      have hat : (r.layers l).at (.inl name) = some (.named name v) := by
        rw [ScopeLayer.at, hvalue]
        rfl
      obtain ⟨i, d, hd, rfl, hslot⟩ := h.owned l (.inl name) _ hat
      have hheld := (h.held i d hd).1
      rw [hslot, hat] at hheld
      have hscope := h.place_inj (h.placed i d hd) hplace
      have hv := holds_eq_some_iff.mpr ⟨hd.2, hscope, (some.inj hheld).symm⟩
      rw [hfind d (mem_of_getElem? hd.1)] at hv
      cases hv

/-- The merged entries: those of the overlays from the nearest on, then the global ones. -/
theorem merge_lookup (r : ScopedLayers α V W) (chain : List α) (name : String) :
    (r.merge chain).lookup name = (chain.map some ++ [none]).findSome? fun scope => r.own scope name := by
  induction chain with
  | nil =>
    have hglobal : (r.merge []).lookup name = r.own none name := rfl
    rw [hglobal, map_nil, nil_append, findSome?_cons]
    cases r.own none name <;> rfl
  | cons key chain ih =>
    rw [map_cons, cons_append, findSome?_cons, ← ih]
    have hsplit : r.chainLayers (key :: chain)
        = r.chainLayers chain ++ ((r.overlays.lookup key).map r.layers).toList := by
      rw [chainLayers, reverse_cons, filterMap_append]
      congr 1
    rw [merge, hsplit, foldl_append]
    cases hkey : r.overlays.lookup key with
    | none =>
      have hnone : r.own (some key) name = none := by
        rw [own, place, hkey]
        rfl
      rw [hnone]
      rfl
    | some l =>
      have hown : r.own (some key) name = (r.layers l).named.data.lookup name := by
        rw [own, place, hkey]
        rfl
      rw [hown, map_some, toList_some, foldl_cons, foldl_nil, InsertionMap.lookup_foldl_set]
      cases (r.layers l).named.data.lookup name <;> rfl

end ScopedLayers

/-! ## Runs -/

namespace Scopes

open ScopedLayers

variable {s s' : Scopes α V W}

/-- The relation is acyclic, and the registry holds what its live disposers keep. -/
structure Inv (s : Scopes α V W) : Prop where
  acyclic : Acyclic s.parents
  registered : Registered s.registry s.disposers

theorem Inv.start : Inv ({} : Scopes α V W) := ⟨.empty, .empty⟩

variable {result : Except String (ScopeParents α)}

theorem Inv.written (h : s.Inv) {key parent : α}
    (hlink : linkScopeParent s.parents key parent = some result) : (s.written result).1.Inv := by
  obtain ⟨keys, -, ⟨-, herror⟩ | ⟨-, hok, hacyclic⟩⟩ := h.acyclic.link key parent
  · cases hlink.symm.trans herror
    exact h
  · cases hlink.symm.trans hok
    exact ⟨hacyclic, h.registered⟩

/-- **A disposer run** keeps the invariant, and the second run of one changes nothing. -/
theorem Inv.run (h : s.Inv) (i : Nat) : (s.run i).Inv := by
  rw [Scopes.run]
  split
  · exact h
  · next d hd =>
    split
    · next hactive => exact ⟨h.acyclic, h.registered.release ⟨hd, hactive⟩⟩
    · exact h

variable {accepted : Bool}

/-- **The step lemma.** -/
theorem Inv.step (h : s.Inv) {op : Op α V W} (hstep : s.step op = some (s', accepted)) : s'.Inv := by
  cases op with
  | bind key parent =>
    obtain ⟨result, hresult, hs⟩ := map_eq_some_iff.mp hstep
    rw [bindScopeParent] at hresult
    split at hresult
    · cases hresult
      cases hs
      exact h
    · have hwritten := h.written hresult
      rw [hs] at hwritten
      exact hwritten
  | rebind key parent =>
    rw [Scopes.step] at hstep
    split at hstep
    · obtain ⟨result, hresult, hs⟩ := map_eq_some_iff.mp hstep
      have hwritten := h.written hresult
      rw [hs] at hwritten
      exact hwritten
    · cases hstep
  | register scope contribution notifies =>
    rw [Scopes.step] at hstep
    split at hstep
    · next registry heffect =>
      cases some.inj hstep
      obtain ⟨hregistered, -⟩ := h.registered.effect heffect
      rw [toList_none, append_nil] at hregistered
      exact ⟨h.acyclic, hregistered⟩
    · next registry d heffect =>
      obtain ⟨hregistered, -⟩ := h.registered.effect heffect
      have hinv : Inv { s with registry, disposers := s.disposers ++ [d] } := ⟨h.acyclic, hregistered⟩
      dsimp only at hstep
      split at hstep
      · cases some.inj hstep
        exact hinv
      · -- a notification that throws disposes the registration at once
        cases some.inj hstep
        exact hinv.run _
  | dispose i =>
    rw [Scopes.step] at hstep
    split at hstep
    · cases some.inj hstep
      exact h.run i
    · cases hstep

/-- **The run lemma.** -/
theorem Reachable.inv (h : Reachable s) : s.Inv := by
  induction h with
  | start => exact .start
  | step op _ hstep ih => exact ih.step hstep

variable {name : String} {v : V}

theorem Inv.unique (h : s.Inv) {i j : Nat} {d d' : Disposer α V W} {v' : V}
    (hd : Live s.disposers i d) (hd' : Live s.disposers j d') (hscope : d.scope = d'.scope)
    (hnamed : d.contribution = .named name v) (hnamed' : d'.contribution = .named name v') : i = j := by
  have hlayer : d.layer = d'.layer := by
    have hplace := h.registered.placed i d hd
    rw [hscope, h.registered.placed j d' hd'] at hplace
    exact (some.inj hplace).symm
  have hslot : d.undo.slot = d'.undo.slot := by
    obtain ⟨-, -, n, hn⟩ := h.registered.held i d hd
    obtain ⟨-, -, n', hn'⟩ := h.registered.held j d' hd'
    rw [hn, hn', hnamed, hnamed']
    rfl
  exact h.registered.distinct i j d d' hd hd' hlayer hslot

variable {scope : Option α}

theorem Inv.held_iff (h : s.Inv) : s.held scope name = some v
      ↔ ∃ i d, Live s.disposers i d ∧ d.scope = scope ∧ d.contribution = .named name v := by
  constructor
  · intro hv
    obtain ⟨d, hd, hholds⟩ := exists_of_findSome?_eq_some hv
    obtain ⟨hactive, hscope, hnamed⟩ := holds_eq_some_iff.mp hholds
    obtain ⟨i, hi⟩ := getElem?_of_mem hd
    exact ⟨i, d, ⟨hi, hactive⟩, hscope, hnamed⟩
  · rintro ⟨i, d, hd, hscope, hnamed⟩
    have hholds := holds_eq_some_iff.mpr ⟨hd.2, hscope, hnamed⟩
    cases hheld : s.held scope name with
    | none =>
      rw [held, findSome?_eq_none_iff] at hheld
      cases (hheld d (mem_of_getElem? hd.1)).symm.trans hholds
    | some v' =>
      obtain ⟨d', hd', hholds'⟩ := exists_of_findSome?_eq_some hheld
      obtain ⟨hactive', hscope', hnamed'⟩ := holds_eq_some_iff.mp hholds'
      obtain ⟨j, hj⟩ := getElem?_of_mem hd'
      obtain rfl := h.unique hd ⟨hj, hactive'⟩ (hscope.trans hscope'.symm) hnamed hnamed'
      cases hd.1.symm.trans hj
      rw [hnamed] at hnamed'
      rw [(Contribution.named.inj hnamed').2]

/-- **What a scope sees.** -/
theorem Inv.view (h : s.Inv) (scope : Option α) : ∃ chain merged, Chain s.parents scope chain
    ∧ s.view scope = some merged ∧ ∀ name, merged.lookup name = s.nearest chain name := by
  obtain ⟨chain, hchain⟩ := h.acyclic.chain scope
  refine ⟨chain, s.registry.merge chain, hchain, ?_, fun name => ?_⟩
  · rw [Scopes.view, h.acyclic.scopeChainOf_eq hchain]
    rfl
  · rw [merge_lookup, nearest]
    congr 1
    funext other
    exact h.registered.own_eq other name

theorem live_run (s : Scopes α V W) (i j : Nat) (d' : Disposer α V W) :
    Live (s.run i).disposers j d' ↔ j ≠ i ∧ Live s.disposers j d' := by
  rw [Scopes.run]
  split
  · next hnone =>
    refine ⟨fun hd => ⟨?_, hd⟩, fun hd => hd.2⟩
    rintro rfl
    cases hnone.symm.trans hd.1
  · next d hd =>
    split
    · exact live_set rfl
    · next hinactive =>
      refine ⟨fun hd' => ⟨?_, hd'⟩, fun hd' => hd'.2⟩
      rintro rfl
      cases hd.symm.trans hd'.1
      exact hinactive hd'.2

theorem disposers_run (s : Scopes α V W) (i : Nat) : (s.run i).disposers.length = s.disposers.length := by
  rw [Scopes.run]
  split
  · rfl
  · split
    · exact length_set
    · rfl

theorem run_run (s : Scopes α V W) (i : Nat) : (s.run i).run i = s.run i := by
  rw [Scopes.run.eq_def (s.run i)]
  split
  · rfl
  · next d hd =>
    split
    · next hactive => exact absurd rfl ((live_run s i i d).mp ⟨hd, hactive⟩).1
    · rfl

/-- The entry that the disposer `i` keeps is the scope's under the name. -/
def Keeps (s : Scopes α V W) (i : Nat) (scope : Option α) (name : String) : Prop :=
  ∃ d v, Live s.disposers i d ∧ d.scope = scope ∧ d.contribution = .named name v

/-- **Running a disposer takes out its own entry and no other**, and nothing the second time. -/
theorem Inv.held_run (h : s.Inv) (i : Nat) (scope : Option α) (name : String) :
    (Keeps s i scope name → (s.run i).held scope name = none)
      ∧ (¬ Keeps s i scope name → (s.run i).held scope name = s.held scope name) := by
  constructor
  · rintro ⟨d, v, hd, hscope, hnamed⟩
    cases hheld : (s.run i).held scope name with
    | none => rfl
    | some v' =>
      obtain ⟨j, d', hd', hscope', hnamed'⟩ := (h.run i).held_iff.mp hheld
      obtain ⟨hne, hd'⟩ := (live_run s i j d').mp hd'
      exact absurd (h.unique hd' hd (hscope'.trans hscope.symm) hnamed' hnamed) hne
  · intro hother
    refine ext fun v => ?_
    rw [(h.run i).held_iff, h.held_iff]
    constructor
    · rintro ⟨j, d', hd', hrest⟩
      exact ⟨j, d', ((live_run s i j d').mp hd').2, hrest⟩
    · rintro ⟨j, d', hd', hscope, hnamed⟩
      refine ⟨j, d', (live_run s i j d').mpr ⟨?_, hd'⟩, hscope, hnamed⟩
      rintro rfl
      exact hother ⟨d', v, hd', hscope, hnamed⟩

/-- **Registrations**: one that succeeds adds its own entry, one that does not adds nothing. -/
theorem Inv.held_register (h : s.Inv) {contribution : Contribution V W}
    {notifies : Bool} (hstep : s.step (.register scope contribution notifies) = some (s', accepted))
    (other : Option α) (name : String) (v : V) :
    s'.held other name = some v ↔ s.held other name = some v
      ∨ accepted = true ∧ other = scope ∧ contribution = .named name v := by
  have hinv' := h.step hstep
  rw [Scopes.step] at hstep
  split at hstep
  · cases some.inj hstep
    exact ⟨Or.inl, fun hor => hor.resolve_right fun hno => by cases hno.1⟩
  · next registry d heffect =>
    obtain ⟨hactive, rfl, rfl⟩ := (h.registered.effect heffect).2 d rfl
    have hlive : ∀ i d', Live (s.disposers ++ [d]) i d' ↔ Live s.disposers i d' ∨ i = s.disposers.length ∧ d' = d :=
      fun i d' => live_concat hactive
    dsimp only at hstep
    split at hstep
    · cases some.inj hstep
      rw [hinv'.held_iff, h.held_iff]
      constructor
      · rintro ⟨i, d', hd', hscope, hnamed⟩
        rcases (hlive i d').mp hd' with hd' | ⟨-, rfl⟩
        · exact Or.inl ⟨i, d', hd', hscope, hnamed⟩
        · exact Or.inr ⟨rfl, hscope.symm, hnamed⟩
      · rintro (⟨i, d', hd', hrest⟩ | ⟨-, rfl, hnamed⟩)
        · exact ⟨i, d', (hlive i d').mpr (Or.inl hd'), hrest⟩
        · exact ⟨_, d, (hlive _ d).mpr (Or.inr ⟨rfl, rfl⟩), rfl, hnamed⟩
    · cases some.inj hstep
      rw [hinv'.held_iff, h.held_iff]
      constructor
      · rintro ⟨i, d', hd', hrest⟩
        obtain ⟨hne, hd'⟩ := (live_run _ _ i d').mp hd'
        rcases (hlive i d').mp hd' with hd' | ⟨hlast, -⟩
        · exact Or.inl ⟨i, d', hd', hrest⟩
        · exact absurd hlast hne
      · rintro (⟨i, d', hd', hrest⟩ | ⟨hno, -⟩)
        · refine ⟨i, d', (live_run _ _ i d').mpr ⟨?_, (hlive i d').mpr (Or.inl hd')⟩, hrest⟩
          exact Nat.ne_of_lt (List.getElem?_eq_some_iff.mp hd'.1).1
        · cases hno

/-- **The scope tree and its layered lookup.**  After any operations: the parent relation is acyclic and every walk
ends; a rejected bind or rebind changes nothing; a scope sees under each name the entry of the nearest scope of its
chain that holds one; a registration adds its own entry or nothing; and a disposer, in whatever order and however
often it runs, takes out its own entry only. -/
theorem scope_tree_and_lookup (h : Reachable s) :
    (Acyclic s.parents ∧ ∀ key, ∃ chain, scopeChainOf s.parents key = some chain ∧ Chain s.parents key chain)
    ∧ (∀ key parent, (∃ s' accepted, s.step (.bind key parent) = some (s', accepted) ∧ (accepted = false → s' = s))
      ∧ ((s.parents.lookup key).isSome → ∃ s' accepted, s.step (.rebind key parent) = some (s', accepted)
        ∧ (accepted = false → s' = s)))
    ∧ (∀ scope, ∃ chain merged, Chain s.parents scope chain ∧ s.view scope = some merged
      ∧ ∀ name, merged.lookup name = s.nearest chain name)
    ∧ (∀ scope contribution notifies s' accepted,
      s.step (.register scope contribution notifies) = some (s', accepted) →
      ∀ other name v, s'.held other name = some v ↔ s.held other name = some v
        ∨ accepted = true ∧ other = scope ∧ contribution = .named name v)
    ∧ ∀ i s' accepted, s.step (.dispose i) = some (s', accepted) →
      s'.parents = s.parents ∧ s'.step (.dispose i) = some (s', accepted)
      ∧ ∀ scope name, (Keeps s i scope name → s'.held scope name = none)
        ∧ (¬ Keeps s i scope name → s'.held scope name = s.held scope name) := by
  have hinv := h.inv
  refine ⟨⟨hinv.acyclic, fun key => ?_⟩, fun key parent => ?_, hinv.view, ?_, ?_⟩
  · obtain ⟨chain, hchain⟩ := hinv.acyclic.chain key
    exact ⟨chain, hinv.acyclic.scopeChainOf_eq hchain, hchain⟩
  · have hlink : ∃ s' accepted, (linkScopeParent s.parents key parent).map s.written = some (s', accepted)
        ∧ (accepted = false → s' = s) := by
      obtain ⟨keys, -, ⟨-, hresult⟩ | ⟨-, hresult, -⟩⟩ := hinv.acyclic.link key parent
      · exact ⟨_, _, by rw [hresult]; rfl, fun _ => rfl⟩
      · exact ⟨_, _, by rw [hresult]; rfl, fun hno => by cases hno⟩
    refine ⟨?_, fun hbound => ?_⟩
    · rw [Scopes.step, bindScopeParent]
      split
      · exact ⟨_, _, rfl, fun _ => rfl⟩
      · exact hlink
    · rw [Scopes.step, if_pos hbound]
      exact hlink
  · intro scope contribution notifies s' accepted hstep other name v
    exact hinv.held_register hstep other name v
  · intro i s' accepted hstep
    rw [Scopes.step] at hstep
    split at hstep
    · next hlt =>
      cases Option.some.inj hstep
      refine ⟨?_, ?_, fun scope name => hinv.held_run i scope name⟩
      · rw [Scopes.run]
        split
        · rfl
        · split <;> rfl
      · rw [Scopes.step, if_pos (by rw [disposers_run]; exact hlt), run_run]
    · cases hstep

def scopesAfter (ops : List (Op Nat String Unit)) : Option (Scopes Nat String Unit) :=
  Machine.exec (fun s op => (s.step op).map Prod.fst) {} ops

theorem reachable_scopesAfter {ops : List (Op Nat String Unit)} {s : Scopes Nat String Unit}
    (h : scopesAfter ops = some s) : Reachable s := by
  refine Machine.exec_invariant (fun op _ s s' hs htaken => ?_) .start h
  obtain ⟨⟨s', accepted⟩, hstep, rfl⟩ := map_eq_some_iff.mp htaken
  exact .step op hs hstep

/-- An agent under a preset: both register a tool of one name, and the agent takes its own back. -/
def shadowedOnce : List (Op Nat String Unit) :=
  [.bind 1 0, .register none (.named "read" "global") true, .register (some 0) (.named "read" "preset") true,
    .register (some 1) (.named "read" "agent") true, .dispose 2, .dispose 2]

theorem scope_tree_and_lookup_restored :
    ∃ s, scopesAfter shadowedOnce = some s ∧ (∃ chain, scopeChainOf s.parents (some 1) = some chain)
      ∧ (s.view (some 1)).map (·.lookup "read") = some (some "preset") := by
  obtain ⟨s, hs⟩ := isSome_iff_exists.mp
    (show (scopesAfter shadowedOnce).isSome = true by decide +kernel)
  have hview : (scopesAfter shadowedOnce).map (fun s => (s.view (some 1)).map (·.lookup "read"))
      = some (some (some "preset")) := by decide +kernel
  obtain ⟨chain, hchain, -⟩ := (scope_tree_and_lookup (reachable_scopesAfter hs)).1.2 (some 1)
  rw [hs] at hview
  exact ⟨s, hs, ⟨chain, hchain⟩, Option.some.inj hview⟩

end Scopes

end CocoHarness.Scope
