/-
# CocoHarness.Scope.Overlays — no overlay outlives its registrations.

A registration makes the overlay of its scope, and a disposer that empties it drops it.  So no overlay is empty
(`Full`), what it holds belongs to a live disposer of its scope, and nothing is left when all disposers have run.
-/
import CocoHarness.Scope.LayersLookup

namespace CocoHarness.Scope

open Lib Option Function InsertionMap

variable {α V W : Type} [DecidableEq α]

namespace ScopedLayers

variable {r r' : ScopedLayers α V W} {ds : List (Disposer α V W)} {scope : Option α} {k i : Nat} {d : Disposer α V W}

def FullBut (r : ScopedLayers α V W) (scope : Option α) : Prop :=
  ∀ key l, some key ≠ scope → r.overlays.lookup key = some l → (r.layers l).isEmpty = false

/-- No overlay is empty. -/
def Full (r : ScopedLayers α V W) : Prop := r.FullBut none

theorem FullBut.full (h : r.FullBut scope) (hplace : r.place scope = some k) (hheld : (r.layers k).isEmpty = false) :
    r.Full := by
  intro key l _ hl
  by_cases hkey : some key = scope
  · subst hkey
    cases (show r.place (some key) = some l from hl).symm.trans hplace
    exact hheld
  · exact h key l hkey hl

theorem FullBut.drop (h : r.FullBut scope) : (r.drop scope).Full := by
  cases scope with
  | none => exact h
  | some own =>
    intro key l _ hl
    rw [show (r.drop (some own)).overlays = r.overlays.erase own from rfl, lookup_erase] at hl
    split at hl
    · cases hl
    · next hkey => exact h key l (fun heq => hkey (some.inj heq)) hl

theorem Full.layerFor (hfull : r.Full) (h : Registered r ds) {made : Bool} (hfor : r.layerFor scope = (r', k, made)) :
    r'.FullBut scope ∧ (made = false → r' = r) := by
  cases scope with
  | none =>
    cases hfor
    exact ⟨hfull, fun _ => rfl⟩
  | some own =>
    rw [ScopedLayers.layerFor] at hfor
    split at hfor
    · cases hfor
      exact ⟨fun key l _ hl => hfull key l (some_ne_none key) hl, fun _ => rfl⟩
    · cases hfor
      refine ⟨fun key l hkey hl => ?_, fun hmade => by cases hmade⟩
      rw [lookup_set, if_neg fun heq => hkey (congrArg some heq)] at hl
      show (update r.layers r.created {} l).isEmpty = false
      rw [update_of_ne (Nat.ne_of_lt (h.overlay key l hl).2)]
      exact hfull key l (some_ne_none key) hl

theorem Registered.holder (h : Registered r ds) (hplace : r.place scope = some k) (hheld : (r.layers k).isEmpty = false) :
    ∃ i d, Live ds i d ∧ d.scope = scope := by
  by_contra hnone
  have hempty : (r.layers k).isEmpty = true := by
    refine ScopeLayer.isEmpty_iff.mpr fun slot => ?_
    cases hslot : (r.layers k).at slot with
    | none => rfl
    | some c =>
      obtain ⟨i, d, hd, hlayer, -⟩ := h.owned k slot c hslot
      exact absurd ⟨i, d, hd, h.place_inj (hlayer ▸ h.placed i d hd) hplace⟩ hnone
  cases hheld.symm.trans hempty

theorem Full.effect (hfull : r.Full) (h : Registered r ds) {contribution : Contribution V W}
    {result : Option (Disposer α V W)} (heffect : r.effect scope contribution = (r', result)) : r'.Full := by
  rw [ScopedLayers.effect] at heffect
  rcases hfor : r.layerFor scope with ⟨placed, k, made⟩
  rw [hfor] at heffect
  dsimp only at heffect
  obtain ⟨hplaced, hplace, hidle, -⟩ := h.layerFor hfor
  obtain ⟨hbut, hsame⟩ := hfull.layerFor h hfor
  split at heffect
  · cases heffect
    split
    · exact hbut.drop
    · next hkept =>
      cases made with
      | false =>
        rw [hsame rfl]
        exact hfull
      | true =>
        refine hbut.full hplace (Bool.eq_false_iff.mpr fun hempty => hkept ?_)
        rw [hempty]
        rfl
  · next acted undo hact =>
    cases heffect
    obtain ⟨-, -, -, hat, -⟩ := ScopeLayer.act_spec (hplaced.fresh k) (hplaced.symbols k _ (Nat.le_refl _)) hact
    have hacted : acted.isEmpty = false := by
      rw [Bool.eq_false_iff]
      intro hempty
      have hslot := hat undo.slot
      rw [ScopeLayer.isEmpty_iff.mp hempty, if_pos rfl] at hslot
      cases hslot
    have hheld : (update placed.layers k acted k).isEmpty = false := by rwa [update_self]
    refine FullBut.full (show FullBut _ scope from fun key l hkey hl => ?_) hplace hheld
    show (update placed.layers k acted l).isEmpty = false
    rw [update_of_ne]
    · exact hbut key l hkey hl
    · rintro rfl
      exact hkey (hplaced.place_inj (show placed.place (some key) = _ from hl) hplace)

theorem Full.release (hfull : r.Full) (h : Registered r ds) (hd : Live ds i d) : (r.release d).Full := by
  have hplace := h.placed i d hd
  have hbut : FullBut { r with layers := update r.layers d.layer ((r.layers d.layer).undo d.undo) } d.scope := by
    intro key l hkey hl
    show (update r.layers d.layer _ l).isEmpty = false
    rw [update_of_ne]
    · exact hfull key l (some_ne_none key) hl
    · rintro rfl
      exact hkey (h.place_inj (show r.place (some key) = _ from hl) hplace)
  rw [ScopedLayers.release]
  split
  · exact hbut.drop
  · next hheld =>
    refine hbut.full hplace ?_
    show (update r.layers d.layer _ d.layer).isEmpty = false
    rw [update_self]
    exact Bool.eq_false_iff.mpr hheld

end ScopedLayers

namespace Scopes

open ScopedLayers

variable {s s' : Scopes α V W} {accepted : Bool}

theorem Inv.full_run (h : s.Inv) (hfull : s.registry.Full) (i : Nat) : (s.run i).registry.Full := by
  rw [Scopes.run]
  split
  · exact hfull
  · next d hd =>
    split
    · next hactive => exact hfull.release h.registered ⟨hd, hactive⟩
    · exact hfull

omit [DecidableEq α] in
theorem registry_written (result : Except String (ScopeParents α)) : (s.written result).1.registry = s.registry := by
  cases result <;> rfl

theorem Inv.full_step (h : s.Inv) (hfull : s.registry.Full) {op : Op α V W} (hstep : s.step op = some (s', accepted)) :
    s'.registry.Full := by
  cases op with
  | bind key parent =>
    obtain ⟨result, -, hs⟩ := map_eq_some_iff.mp hstep
    rwa [← congrArg (·.1.registry) hs, registry_written]
  | rebind key parent =>
    rw [Scopes.step] at hstep
    split at hstep
    · obtain ⟨result, -, hs⟩ := map_eq_some_iff.mp hstep
      rwa [← congrArg (·.1.registry) hs, registry_written]
    · cases hstep
  | register scope contribution notifies =>
    rw [Scopes.step] at hstep
    split at hstep
    · next registry heffect =>
      cases some.inj hstep
      exact hfull.effect h.registered heffect
    · next registry d heffect =>
      have hinv : Inv { s with registry, disposers := s.disposers ++ [d] } :=
        ⟨h.acyclic, (h.registered.effect heffect).1⟩
      have hnow := hfull.effect h.registered heffect
      dsimp only at hstep
      split at hstep
      · cases some.inj hstep
        exact hnow
      · cases some.inj hstep
        exact hinv.full_run hnow _
  | dispose i =>
    rw [Scopes.step] at hstep
    split at hstep
    · cases some.inj hstep
      exact h.full_run hfull i
    · cases hstep

/-- **No overlay outlives its registrations.**  A scope has an overlay exactly while one of its registrations has not
been disposed of; and when all have been, in whatever order, nothing is left in the registry. -/
theorem overlay_iff_live (h : Reachable s) :
    (∀ key, (s.registry.peek (some key)).isSome = true ↔ ∃ i d, Live s.disposers i d ∧ d.scope = some key) ∧
    ((∀ d ∈ s.disposers, d.active = false) → s.registry.overlays = ∅ ∧ s.registry.global.isEmpty = true) := by
  have hfull : s.registry.Full := by
    induction h with
    | start => exact fun key l _ hl => by cases hl
    | step op hs hstep ih => exact hs.inv.full_step ih hstep
  have hreg := h.inv.registered
  have hiff : ∀ key, (s.registry.peek (some key)).isSome = true ↔ ∃ i d, Live s.disposers i d ∧ d.scope = some key := by
    intro key
    rw [peek, Option.bind_some, Option.isSome_map]
    constructor
    · intro hsome
      obtain ⟨l, hl⟩ := isSome_iff_exists.mp hsome
      exact hreg.holder (show s.registry.place (some key) = some l from hl) (hfull key l (some_ne_none key) hl)
    · rintro ⟨i, d, hd, hscope⟩
      have hplace := hreg.placed i d hd
      rw [hscope] at hplace
      exact isSome_iff_exists.mpr ⟨_, hplace⟩
  refine ⟨hiff, fun hall => ⟨eq_empty_of_keys fun key hkey => ?_, ?_⟩⟩
  · have hpeek : (s.registry.peek (some key)).isSome = true := by
      rw [peek, Option.bind_some, Option.isSome_map]
      exact lookup_isSome_iff.mpr hkey
    obtain ⟨i, d, hd, -⟩ := (hiff key).mp hpeek
    cases hd.2.symm.trans (hall d (List.mem_of_getElem? hd.1))
  · by_contra hheld
    obtain ⟨i, d, hd, -⟩ := hreg.holder (show s.registry.place none = some 0 from rfl) (Bool.eq_false_iff.mpr hheld)
    cases hd.2.symm.trans (hall d (List.mem_of_getElem? hd.1))

theorem overlay_iff_live_restored : ∃ s, scopesAfter shadowedOnce = some s ∧
    ((s.registry.peek (some 1)).isSome = true ↔ ∃ i d, Live s.disposers i d ∧ d.scope = some 1) := by
  obtain ⟨s, hs⟩ := isSome_iff_exists.mp (show (scopesAfter shadowedOnce).isSome = true by decide +kernel)
  exact ⟨s, hs, (overlay_iff_live (reachable_scopesAfter hs)).1 1⟩

end Scopes

end CocoHarness.Scope
