/-
# CocoHarness.Scope.LayersInvariant — what a registry holds is what its live registrations inserted.

A layer is read slot by slot: a name or a symbol (`ScopeLayer.at`).  An insertion fills one free slot
and an undo frees its own (`ScopeLayer.act_spec`, `ScopeLayer.undo_spec`), whatever ran before it.
`Registered` relates the layers of a registry to the disposers it has returned: each active one holds
its slot in the layer of its scope, and nothing else is held.
-/
import CocoHarness.Scope.Layers

namespace CocoHarness.Lib.InsertionMap

open List Nat

universe u v

variable {α : Type u} {β : Type v} [DecidableEq α]

theorem lookup_foldl_set (m m' : InsertionMap α β) (k : α) :
    (m'.entries.foldl (fun m e => m.set e.1 e.2) m).lookup k = (m'.lookup k).or (m.lookup k) := by
  obtain ⟨es, hnodup⟩ := m'
  change (es.foldl (fun m e => m.set e.1 e.2) m).lookup k = (es.lookup k).or (m.lookup k)
  induction es generalizing m with
  | nil => rfl
  | cons e es ih =>
    obtain ⟨l, v⟩ := e
    obtain ⟨hl, hes⟩ := nodup_cons.mp hnodup
    rw [foldl_cons, ih _ hes, lookup_set, lookup_cons]
    by_cases hk : k = l
    · have hnone : es.lookup k = none := by
        rw [lookup_eq_none_iff]
        intro e he
        rw [bne_iff_ne]
        rintro rfl
        have hmem : e.1 ∈ es.map Prod.fst := mem_map_of_mem he
        exact hl (hk ▸ hmem)
      rw [if_pos hk, hnone, beq_iff_eq.mpr hk]
      rfl
    · rw [if_neg hk, beq_eq_false_iff_ne.mpr hk]

theorem entries_isEmpty_iff {m : InsertionMap α β} : m.entries.isEmpty = true ↔ ∀ k, m.lookup k = none := by
  rw [List.isEmpty_iff]
  constructor
  · intro h k
    rw [lookup, h]
    rfl
  · intro h
    cases hes : m.entries with
    | nil => rfl
    | cons e es =>
      have hmem : (e.1, e.2) ∈ m.entries := by rw [hes]; exact mem_cons_self
      cases (h e.1).symm.trans (lookup_eq_some_iff.mpr hmem)

end CocoHarness.Lib.InsertionMap

namespace CocoHarness.Scope

open Lib

variable {α κ V W : Type} [DecidableEq α] [DecidableEq κ]

/-! ## Tables -/

namespace Entries

variable {e : Entries κ V}

def Fresh (e : Entries κ V) : Prop := ∀ g, e.current < g → e.maps g = ∅

omit [DecidableEq κ] in
theorem Fresh.empty : Fresh ({} : Entries κ V) := fun _ _ => rfl

theorem isEmpty_iff : e.isEmpty = true ↔ ∀ key, e.data.lookup key = none := InsertionMap.entries_isEmpty_iff

theorem put_spec (h : e.Fresh) (key : κ) (value : V) : (e.put key value).1.Fresh
      ∧ ∀ l, (e.put key value).1.data.lookup l = if l = key then some value else e.data.lookup l := by
  refine ⟨fun g hg => ?_, fun l => ?_⟩
  · have hne : g ≠ e.current := ne_of_gt hg
    show Function.update e.maps e.current _ g = ∅
    rw [Function.update_of_ne hne]
    exact h g hg
  · show (Function.update e.maps e.current (e.data.set key value) e.current).lookup l = _
    rw [Function.update_self]
    exact InsertionMap.lookup_set _ _ _ _

/-- **An undo of the current data frees its key**, and the others stay undos of it. -/
theorem take_spec (h : e.Fresh) {undo : EntryUndo κ} (hcurrent : undo.map = e.current) : (e.take undo).Fresh
      ∧ (∀ l, (e.take undo).data.lookup l = if l = undo.key then none else e.data.lookup l)
      ∧ ∀ l v, l ≠ undo.key → e.data.lookup l = some v → (e.take undo).current = e.current := by
  have hmaps : (e.take undo).maps = Function.update e.maps e.current (e.data.erase undo.key) := by
    rw [take, hcurrent]
    rfl
  by_cases hdrained : (e.data.erase undo.key).entries.isEmpty = true
  · have hnext : (e.take undo).current = e.current + 1 := by
      show (if _ ∧ e.current = undo.map then _ else _) = _
      rw [hcurrent]
      exact if_pos ⟨hdrained, rfl⟩
    have hnone := InsertionMap.entries_isEmpty_iff.mp hdrained
    have hdata : (e.take undo).data = ∅ := by
      rw [data, hnext, hmaps, Function.update_of_ne (Nat.succ_ne_self _)]
      exact h _ (Nat.lt_succ_self _)
    refine ⟨fun g hg => ?_, fun l => ?_, fun l v hl hv => ?_⟩
    · rw [hnext] at hg
      rw [hmaps, Function.update_of_ne (by omega)]
      exact h g (by omega)
    · rw [hdata, InsertionMap.lookup_empty, ← InsertionMap.lookup_erase, hnone]
    · have := hnone l
      rw [InsertionMap.lookup_erase, if_neg hl, hv] at this
      cases this
  · have hsame : (e.take undo).current = e.current := by
      show (if _ ∧ e.current = undo.map then _ else _) = _
      rw [hcurrent]
      exact if_neg fun hboth => hdrained hboth.1
    refine ⟨fun g hg => ?_, fun l => ?_, fun _ _ _ _ => hsame⟩
    · rw [hsame] at hg
      rw [hmaps, Function.update_of_ne (ne_of_gt hg)]
      exact h g hg
    · rw [data, hsame, hmaps, Function.update_self, InsertionMap.lookup_erase]

end Entries

/-! ## Layers, slot by slot -/

abbrev Slot := String ⊕ Nat

def ScopeLayer.at (layer : ScopeLayer V W) : Slot → Option (Contribution V W)
  | .inl name => (layer.named.data.lookup name).map (Contribution.named name)
  | .inr symbol => (layer.anonymous.data.lookup symbol).map Contribution.anonymous

def LayerUndo.slot : LayerUndo → Slot
  | .named undo => .inl undo.key
  | .anonymous undo => .inr undo.key

/-- The slot a contribution goes to, under a symbol that is its own. -/
def Contribution.slot (symbol : Nat) : Contribution V W → Slot
  | .named name _ => .inl name
  | .anonymous _ => .inr symbol

def LayerUndo.Current (layer : ScopeLayer V W) : LayerUndo → Prop
  | .named undo => undo.map = layer.named.current
  | .anonymous undo => undo.map = layer.anonymous.current

structure ScopeLayer.Fresh (layer : ScopeLayer V W) : Prop where
  named : layer.named.Fresh
  anonymous : layer.anonymous.Fresh

namespace ScopeLayer

variable {layer layer' : ScopeLayer V W}

theorem isEmpty_iff : layer.isEmpty = true ↔ ∀ slot, layer.at slot = none := by
  rw [isEmpty, Bool.and_eq_true, Entries.isEmpty_iff, Entries.isEmpty_iff]
  constructor
  · rintro ⟨hnamed, hanonymous⟩ (name | symbol)
    · rw [ScopeLayer.at, hnamed]
      rfl
    · rw [ScopeLayer.at, hanonymous]
      rfl
  · intro h
    exact ⟨fun name => Option.map_eq_none_iff.mp (h (.inl name)),
      fun symbol => Option.map_eq_none_iff.mp (h (.inr symbol))⟩

variable {undo : LayerUndo}

/-- **An insertion fills one free slot**, and leaves the undos of others as they are. -/
theorem act_spec {contribution : Contribution V W} (h : layer.Fresh) {symbol : Nat} (hfree : layer.at (.inr symbol) = none)
    (hact : layer.act symbol contribution = some (layer', undo)) :
    layer'.Fresh ∧ undo.slot = contribution.slot symbol ∧ layer.at undo.slot = none
      ∧ (∀ slot, layer'.at slot = if slot = undo.slot then some contribution else layer.at slot)
      ∧ undo.Current layer' ∧ ∀ other : LayerUndo, other.Current layer → other.Current layer' := by
  cases contribution with
  | named name value =>
    rw [act, NamedEntries.insert] at hact
    split at hact
    · cases hact
    · next hnew =>
      cases Option.some.inj hact
      obtain ⟨hfresh, hlookup⟩ := Entries.put_spec h.named name value
      have hnone : layer.at (.inl name) = none := Option.map_eq_none_iff.mpr (Option.not_isSome_iff_eq_none.mp hnew)
      refine ⟨⟨hfresh, h.anonymous⟩, rfl, hnone, ?_, rfl, fun other hother => by cases other <;> exact hother⟩
      rintro (other | other)
      · show ((layer.named.put name value).1.data.lookup other).map _ = _
        rw [hlookup]
        by_cases hother : other = name
        · subst hother
          rw [if_pos rfl]
          exact (if_pos rfl).symm
        · rw [if_neg hother]
          exact (if_neg fun heq => hother (Sum.inl.inj heq)).symm
      · exact (if_neg fun heq => by cases heq).symm
  | anonymous value =>
    cases Option.some.inj hact
    obtain ⟨hfresh, hlookup⟩ := Entries.put_spec h.anonymous symbol value
    refine ⟨⟨h.named, hfresh⟩, rfl, hfree, ?_, rfl, fun other hother => by cases other <;> exact hother⟩
    rintro (other | other)
    · exact (if_neg fun heq => by cases heq).symm
    · show ((layer.anonymous.put symbol value).1.data.lookup other).map _ = _
      rw [hlookup]
      by_cases hother : other = symbol
      · subst hother
        rw [if_pos rfl]
        exact (if_pos rfl).symm
      · rw [if_neg hother]
        exact (if_neg fun heq => hother (Sum.inr.inj heq)).symm

/-- **An undo frees its slot**, and the others stay undos of the current data. -/
theorem undo_spec (h : layer.Fresh) (hcurrent : undo.Current layer) : (layer.undo undo).Fresh
      ∧ (∀ slot, (layer.undo undo).at slot = if slot = undo.slot then none else layer.at slot)
      ∧ ∀ other : LayerUndo, other.Current layer → other.slot ≠ undo.slot →
        layer.at other.slot ≠ none → other.Current (layer.undo undo) := by
  cases undo with
  | named undo =>
    obtain ⟨hfresh, hlookup, hsame⟩ := Entries.take_spec h.named hcurrent
    refine ⟨⟨hfresh, h.anonymous⟩, ?_, ?_⟩
    · rintro (other | other)
      · show ((layer.named.take undo).data.lookup other).map _ = _
        rw [hlookup]
        by_cases hother : other = undo.key
        · subst hother
          rw [if_pos rfl]
          exact (if_pos rfl).symm
        · rw [if_neg hother]
          exact (if_neg fun heq => hother (Sum.inl.inj heq)).symm
      · exact (if_neg fun heq => by cases heq).symm
    · rintro (other | other) hother hslot hheld
      · obtain ⟨c, hc⟩ := Option.ne_none_iff_exists'.mp hheld
        obtain ⟨v, hv, -⟩ := Option.map_eq_some_iff.mp hc
        exact hother.trans (hsame _ v (fun heq => hslot (congrArg Sum.inl heq)) hv).symm
      · exact hother
  | anonymous undo =>
    obtain ⟨hfresh, hlookup, hsame⟩ := Entries.take_spec h.anonymous hcurrent
    refine ⟨⟨h.named, hfresh⟩, ?_, ?_⟩
    · rintro (other | other)
      · exact (if_neg fun heq => by cases heq).symm
      · show ((layer.anonymous.take undo).data.lookup other).map _ = _
        rw [hlookup]
        by_cases hother : other = undo.key
        · subst hother
          rw [if_pos rfl]
          exact (if_pos rfl).symm
        · rw [if_neg hother]
          exact (if_neg fun heq => hother (Sum.inr.inj heq)).symm
    · rintro (other | other) hother hslot hheld
      · exact hother
      · obtain ⟨c, hc⟩ := Option.ne_none_iff_exists'.mp hheld
        obtain ⟨v, hv, -⟩ := Option.map_eq_some_iff.mp hc
        exact hother.trans (hsame _ v (fun heq => hslot (congrArg Sum.inr heq)) hv).symm

end ScopeLayer

/-! ## Registries -/

namespace ScopedLayers

def Live (ds : List (Disposer α V W)) (i : Nat) (d : Disposer α V W) : Prop := ds[i]? = some d ∧ d.active = true

def place (r : ScopedLayers α V W) : Option α → Option Nat
  | none => some 0
  | some key => r.overlays.lookup key

/-- The active disposers hold their slots in the layers of their scopes, and nothing else is held. -/
structure Registered (r : ScopedLayers α V W) (ds : List (Disposer α V W)) : Prop where
  fresh : ∀ l, (r.layers l).Fresh
  uncreated : ∀ l, r.created ≤ l → ∀ slot, (r.layers l).at slot = none
  positive : 0 < r.created
  overlay : ∀ key l, r.overlays.lookup key = some l → 0 < l ∧ l < r.created
  apart : ∀ key key' l, r.overlays.lookup key = some l → r.overlays.lookup key' = some l → key = key'
  symbols : ∀ l n, r.symbols ≤ n → (r.layers l).at (.inr n) = none
  placed : ∀ i d, Live ds i d → r.place d.scope = some d.layer
  held : ∀ i d, Live ds i d → (r.layers d.layer).at d.undo.slot = some d.contribution
    ∧ d.undo.Current (r.layers d.layer) ∧ ∃ n, d.undo.slot = d.contribution.slot n
  owned : ∀ l slot c, (r.layers l).at slot = some c → ∃ i d, Live ds i d ∧ d.layer = l ∧ d.undo.slot = slot
  distinct : ∀ i j d d', Live ds i d → Live ds j d' → d.layer = d'.layer → d.undo.slot = d'.undo.slot → i = j

variable {r r' : ScopedLayers α V W} {ds : List (Disposer α V W)} {scope : Option α} {l : Nat}

theorem Registered.place_lt (h : Registered r ds) (hplace : r.place scope = some l) : l < r.created := by
  cases scope with
  | none =>
    cases hplace
    exact h.positive
  | some key => exact (h.overlay key l hplace).2

theorem Registered.place_inj (h : Registered r ds) {scope' : Option α}
    (hplace : r.place scope = some l) (hplace' : r.place scope' = some l) : scope = scope' := by
  cases scope with
  | none =>
    cases hplace
    cases scope' with
    | none => rfl
    | some key => exact absurd (h.overlay key 0 hplace').1 (lt_irrefl 0)
  | some key =>
    cases scope' with
    | none =>
      cases hplace'
      exact absurd (h.overlay key 0 hplace).1 (lt_irrefl 0)
    | some key' => rw [h.apart key key' l hplace hplace']

theorem Registered.empty : Registered ({} : ScopedLayers α V W) [] where
  fresh _ := ⟨Entries.Fresh.empty, Entries.Fresh.empty⟩
  uncreated _ _ slot := by cases slot <;> rfl
  positive := Nat.one_pos
  overlay _ _ h := by cases h
  apart _ _ _ h := by cases h
  symbols _ _ _ := rfl
  placed _ _ h := by cases h.1
  held _ _ h := by cases h.1
  owned _ slot _ h := by cases slot <;> cases h
  distinct _ _ _ _ h := by cases h.1

theorem Registered.drop (h : Registered r ds) (hidle : ∀ i d, Live ds i d → d.scope ≠ scope) :
    Registered (r.drop scope) ds := by
  cases scope with
  | none => exact h
  | some key =>
    have hlookup : ∀ k, (r.drop (some key)).overlays.lookup k
        = if k = key then none else r.overlays.lookup k := fun k => InsertionMap.lookup_erase _ _ _
    have hold : ∀ k l, (r.drop (some key)).overlays.lookup k = some l → r.overlays.lookup k = some l := by
      intro k l hk
      rw [hlookup] at hk
      split at hk
      · cases hk
      · exact hk
    exact { h with
      overlay := fun k l hk => h.overlay k l (hold k l hk)
      apart := fun k k' l hk hk' => h.apart k k' l (hold k l hk) (hold k' l hk')
      placed := by
        intro i d hd
        have hplace := h.placed i d hd
        have hne := hidle i d hd
        cases hscope : d.scope with
        | none => rw [hscope] at hplace; exact hplace
        | some k =>
          rw [hscope] at hplace hne
          show (r.drop (some key)).overlays.lookup k = _
          rw [hlookup, if_neg fun heq => hne (congrArg some heq)]
          exact hplace }

/-- The layer a registration goes to is that of its scope; it is there already, or it is new. -/
theorem Registered.layerFor (h : Registered r ds) {made : Bool} (hfor : r.layerFor scope = (r', l, made)) :
    Registered r' ds ∧ r'.place scope = some l ∧ (made → ∀ i d, Live ds i d → d.scope ≠ scope)
      ∧ ∀ other k, r.place other = some k → r'.place other = some k ∧ r'.layers k = r.layers k := by
  cases scope with
  | none =>
    obtain ⟨rfl, hrest⟩ := Prod.mk.inj hfor
    cases hrest
    exact ⟨h, rfl, fun hmade => (by cases hmade), fun other k hk => ⟨hk, rfl⟩⟩
  | some key =>
    rw [ScopedLayers.layerFor] at hfor
    split at hfor
    · next layer hlayer =>
      obtain ⟨rfl, hrest⟩ := Prod.mk.inj hfor
      cases hrest
      exact ⟨h, hlayer, fun hmade => (by cases hmade), fun other k hk => ⟨hk, rfl⟩⟩
    · next hnew =>
      obtain ⟨rfl, hrest⟩ := Prod.mk.inj hfor
      cases hrest
      have hlayers : ∀ l, l < r.created → Function.update r.layers r.created {} l = r.layers l :=
        fun l hl => Function.update_of_ne (ne_of_lt hl) _ _
      have hat : ∀ l slot, (Function.update r.layers r.created {} l).at slot = (r.layers l).at slot := by
        intro l slot
        by_cases hl : l = r.created
        · subst hl
          rw [Function.update_self, h.uncreated _ (le_refl _)]
          cases slot <;> rfl
        · rw [Function.update_of_ne hl]
      have hlookup : ∀ k, (r.overlays.set key r.created).lookup k
          = if k = key then some r.created else r.overlays.lookup k :=
        fun k => InsertionMap.lookup_set _ _ _ _
      have hidle : ∀ i d, Live ds i d → d.scope ≠ some key := by
        intro i d hd hscope
        have hplace := h.placed i d hd
        rw [hscope] at hplace
        cases hnew.symm.trans hplace
      have hplaces : ∀ other k, r.place other = some k → ScopedLayers.place { r with
            layers := Function.update r.layers r.created {}, created := r.created + 1
            overlays := r.overlays.set key r.created } other = some k := by
        intro other k hk
        cases other with
        | none => exact hk
        | some other =>
          show (r.overlays.set key r.created).lookup other = _
          rw [hlookup, if_neg]
          · exact hk
          · rintro rfl
            cases hnew.symm.trans hk
      refine ⟨?_, ?_, fun _ => hidle, fun other k hk => ⟨hplaces other k hk, hlayers k (h.place_lt hk)⟩⟩
      · exact {
          fresh := by
            intro l
            by_cases hl : l = r.created
            · subst hl
              show (Function.update r.layers r.created {} r.created).Fresh
              rw [Function.update_self]
              exact ⟨Entries.Fresh.empty, Entries.Fresh.empty⟩
            · show (Function.update r.layers r.created {} l).Fresh
              rw [Function.update_of_ne hl]
              exact h.fresh l
          uncreated := fun l hl slot => (hat l slot).trans (h.uncreated l (Nat.le_of_succ_le hl) slot)
          positive := Nat.succ_pos _
          overlay := by
            intro k l hk
            rw [hlookup] at hk
            split at hk
            · cases hk
              exact ⟨h.positive, Nat.lt_succ_self _⟩
            · exact ⟨(h.overlay k l hk).1, Nat.lt_succ_of_lt (h.overlay k l hk).2⟩
          apart := by
            intro k k' l hk hk'
            rw [hlookup] at hk hk'
            split at hk
            · next heq =>
              cases hk
              split at hk'
              · next heq' => rw [heq, heq']
              · exact absurd (h.overlay k' _ hk').2 (lt_irrefl _)
            · split at hk'
              · cases hk'
                exact absurd (h.overlay k _ hk).2 (lt_irrefl _)
              · exact h.apart k k' l hk hk'
          symbols := fun l n hn => (hat l _).trans (h.symbols l n hn)
          placed := fun i d hd => hplaces d.scope d.layer (h.placed i d hd)
          held := by
            intro i d hd
            have hlt := h.place_lt (h.placed i d hd)
            show (Function.update r.layers r.created {} d.layer).at _ = _
              ∧ d.undo.Current (Function.update r.layers r.created {} d.layer) ∧ _
            rw [hlayers d.layer hlt]
            exact h.held i d hd
          owned := fun l slot c hc => h.owned l slot c ((hat l slot).symm.trans hc)
          distinct := h.distinct }
      · show (r.overlays.set key r.created).lookup key = _
        rw [hlookup, if_pos rfl]

variable {d d₀ : Disposer α V W} {i : Nat}

theorem live_concat (hactive : d₀.active = true) : Live (ds ++ [d₀]) i d ↔ Live ds i d ∨ i = ds.length ∧ d = d₀ := by
  rw [Live, Live, List.getElem?_append]
  split
  · next hlt =>
    refine ⟨Or.inl, fun h => h.resolve_right fun hlast => ?_⟩
    omega
  · next hge =>
    have hnone : ds[i]? = none := List.getElem?_eq_none (not_lt.mp hge)
    rw [hnone]
    constructor
    · rintro ⟨hd, -⟩
      obtain ⟨hlt, hd⟩ := List.getElem?_eq_some_iff.mp hd
      rw [List.length_singleton] at hlt
      have hi : i = ds.length := by omega
      subst hi
      refine Or.inr ⟨rfl, ?_⟩
      rw [← hd]
      simp
    · rintro (⟨hd, -⟩ | ⟨rfl, rfl⟩)
      · cases hd
      · rw [Nat.sub_self]
        exact ⟨rfl, hactive⟩

theorem live_set (hactive : d₀.active = false) {j : Nat} : Live (ds.set i d₀) j d ↔ j ≠ i ∧ Live ds j d := by
  rw [Live, Live, List.getElem?_set]
  split
  · next heq =>
    subst heq
    refine ⟨fun h => ?_, fun h => absurd rfl h.1⟩
    obtain ⟨hd, hd'⟩ := h
    split at hd
    · cases hd
      rw [hactive] at hd'
      cases hd'
    · cases hd
  · next hne => exact ⟨fun h => ⟨Ne.symm hne, h⟩, fun h => h.2⟩

variable {contribution : Contribution V W}

/-- **An insertion is registered under its disposer.** -/
theorem Registered.act {undo : LayerUndo} (h : Registered r ds) (hplace : r.place scope = some l) {acted : ScopeLayer V W}
    (hact : (r.layers l).act r.symbols contribution = some (acted, undo)) :
    Registered { r with layers := Function.update r.layers l acted, symbols := r.symbols + 1 }
      (ds ++ [{ scope, layer := l, undo, contribution }]) := by
  obtain ⟨hfresh, hslot, hfree, hfill, hcurrent, hothers⟩ :=
    ScopeLayer.act_spec (h.fresh l) (h.symbols l _ (le_refl _)) hact
  have hat : ∀ k slot, (Function.update r.layers l acted k).at slot
      = if k = l ∧ slot = undo.slot then some contribution else (r.layers k).at slot := by
    intro k slot
    by_cases hk : k = l
    · subst hk
      rw [Function.update_self, hfill]
      by_cases hs : slot = undo.slot
      · rw [if_pos hs, if_pos ⟨rfl, hs⟩]
      · rw [if_neg hs, if_neg fun hboth => hs hboth.2]
    · rw [Function.update_of_ne hk, if_neg fun hboth => hk hboth.1]
  -- what is held already is in other slots
  have hheld : ∀ i d, Live ds i d → ¬ (d.layer = l ∧ d.undo.slot = undo.slot) := by
    rintro i d hd ⟨rfl, heq⟩
    rw [← heq, (h.held i d hd).1] at hfree
    cases hfree
  have hlive : ∀ i (d : Disposer α V W), Live (ds ++ [{ scope, layer := l, undo, contribution }]) i d ↔
      Live ds i d ∨ i = ds.length ∧ d = { scope, layer := l, undo, contribution } :=
    fun i d => live_concat rfl
  exact { h with
    fresh := by
      intro k
      show (Function.update r.layers l acted k).Fresh
      by_cases hk : k = l
      · subst hk
        rw [Function.update_self]
        exact hfresh
      · rw [Function.update_of_ne hk]
        exact h.fresh k
    uncreated := by
      intro k hk slot
      rw [hat, if_neg]
      · exact h.uncreated k hk slot
      · rintro ⟨rfl, -⟩
        exact absurd (h.place_lt hplace) (not_lt.mpr hk)
    symbols := by
      intro k n hn
      rw [hat, if_neg]
      · exact h.symbols k n (Nat.le_of_succ_le hn)
      · rintro ⟨-, heq⟩
        rw [hslot] at heq
        cases contribution with
        | named name value => cases heq
        | anonymous value =>
          have hnew : n = r.symbols := Sum.inr.inj heq
          have hlater : r.symbols + 1 ≤ n := hn
          omega
    placed := by
      intro i d hd
      rcases (hlive i d).mp hd with hd | ⟨-, rfl⟩
      · exact h.placed i d hd
      · exact hplace
    held := by
      intro i d hd
      rw [hat]
      rcases (hlive i d).mp hd with hd | ⟨-, rfl⟩
      · rw [if_neg (hheld i d hd)]
        obtain ⟨hholds, hnow, hkind⟩ := h.held i d hd
        refine ⟨hholds, ?_, hkind⟩
        show d.undo.Current (Function.update r.layers l acted d.layer)
        by_cases hl : d.layer = l
        · rw [hl, Function.update_self]
          exact hothers _ (hl ▸ hnow)
        · rw [Function.update_of_ne hl]
          exact hnow
      · refine ⟨if_pos ⟨rfl, rfl⟩, ?_, r.symbols, hslot⟩
        show undo.Current (Function.update r.layers l acted l)
        rw [Function.update_self]
        exact hcurrent
    owned := by
      intro k slot c hc
      rw [hat] at hc
      split at hc
      · next hnew => exact ⟨ds.length, _, (hlive _ _).mpr (Or.inr ⟨rfl, rfl⟩), hnew.1.symm, hnew.2.symm⟩
      · obtain ⟨i, d, hd, hrest⟩ := h.owned k slot c hc
        exact ⟨i, d, (hlive i d).mpr (Or.inl hd), hrest⟩
    distinct := by
      intro i j d d' hd hd' hlayer hsame
      rcases (hlive i d).mp hd with hd | ⟨rfl, rfl⟩
      · rcases (hlive j d').mp hd' with hd' | ⟨rfl, rfl⟩
        · exact h.distinct i j d d' hd hd' hlayer hsame
        · exact absurd ⟨hlayer, hsame⟩ (hheld i d hd)
      · rcases (hlive j d').mp hd' with hd' | ⟨rfl, -⟩
        · exact absurd ⟨hlayer.symm, hsame.symm⟩ (hheld j d' hd')
        · rfl }

/-- **A registration** is under the disposer it returns, and a failed one leaves nothing. -/
theorem Registered.effect (h : Registered r ds)
    {result : Option (Disposer α V W)} (heffect : r.effect scope contribution = (r', result)) :
    Registered r' (ds ++ result.toList)
      ∧ ∀ d ∈ result, d.active = true ∧ d.scope = scope ∧ d.contribution = contribution := by
  rw [ScopedLayers.effect] at heffect
  rcases hfor : r.layerFor scope with ⟨placed, l, made⟩
  rw [hfor] at heffect
  dsimp only at heffect
  obtain ⟨hplaced, hplace, hidle, -⟩ := h.layerFor hfor
  split at heffect
  · cases heffect
    rw [Option.toList_none, List.append_nil]
    refine ⟨?_, fun d hd => by cases hd⟩
    split
    · next hmade => exact hplaced.drop (hidle (Bool.and_eq_true_iff.mp hmade).1)
    · exact hplaced
  · next acted undo hact =>
    cases heffect
    refine ⟨hplaced.act hplace hact, fun d hd => ?_⟩
    cases hd
    exact ⟨rfl, rfl, rfl⟩

/-- **A disposer takes out its own insertion**, and the layer with it once it is empty. -/
theorem Registered.release (h : Registered r ds) (hd : Live ds i d) :
    Registered (r.release d) (ds.set i { d with active := false }) := by
  obtain ⟨hholds, hcurrent, -⟩ := h.held i d hd
  obtain ⟨hfresh, hfreed, hothers⟩ := ScopeLayer.undo_spec (h.fresh d.layer) hcurrent
  have hat : ∀ k slot, (Function.update r.layers d.layer ((r.layers d.layer).undo d.undo) k).at slot
      = if k = d.layer ∧ slot = d.undo.slot then none else (r.layers k).at slot := by
    intro k slot
    by_cases hk : k = d.layer
    · subst hk
      rw [Function.update_self, hfreed]
      by_cases hs : slot = d.undo.slot
      · rw [if_pos hs, if_pos ⟨rfl, hs⟩]
      · rw [if_neg hs, if_neg fun hboth => hs hboth.2]
    · rw [Function.update_of_ne hk, if_neg fun hboth => hk hboth.1]
  have hlive : ∀ j (d' : Disposer α V W), Live (ds.set i { d with active := false }) j d' ↔
      j ≠ i ∧ Live ds j d' := fun j d' => live_set rfl
  have hapart : ∀ j d', j ≠ i → Live ds j d' → ¬ (d'.layer = d.layer ∧ d'.undo.slot = d.undo.slot) :=
    fun j d' hne hd' hboth => hne (h.distinct j i d' d hd' hd hboth.1 hboth.2)
  have hfreedInv : Registered
      { r with layers := Function.update r.layers d.layer ((r.layers d.layer).undo d.undo) }
      (ds.set i { d with active := false }) := { h with
    fresh := by
      intro k
      show (Function.update r.layers d.layer _ k).Fresh
      by_cases hk : k = d.layer
      · subst hk
        rw [Function.update_self]
        exact hfresh
      · rw [Function.update_of_ne hk]
        exact h.fresh k
    uncreated := by
      intro k hk slot
      rw [hat]
      split
      · rfl
      · exact h.uncreated k hk slot
    symbols := by
      intro k n hn
      rw [hat]
      split
      · rfl
      · exact h.symbols k n hn
    placed := fun j d' hd' => h.placed j d' ((hlive j d').mp hd').2
    held := by
      intro j d' hd'
      obtain ⟨hne, hd'⟩ := (hlive j d').mp hd'
      obtain ⟨hholds', hnow, hkind⟩ := h.held j d' hd'
      rw [hat, if_neg (hapart j d' hne hd')]
      refine ⟨hholds', ?_, hkind⟩
      show d'.undo.Current (Function.update r.layers d.layer _ d'.layer)
      by_cases hl : d'.layer = d.layer
      · rw [hl, Function.update_self]
        refine hothers _ (hl ▸ hnow) (fun heq => hapart j d' hne hd' ⟨hl, heq⟩) ?_
        rw [← hl, hholds']
        exact Option.some_ne_none _
      · rw [Function.update_of_ne hl]
        exact hnow
    owned := by
      intro k slot c hc
      rw [hat] at hc
      split at hc
      · cases hc
      · next hother =>
        obtain ⟨j, d', hd', hlayer, hslot⟩ := h.owned k slot c hc
        refine ⟨j, d', (hlive j d').mpr ⟨?_, hd'⟩, hlayer, hslot⟩
        rintro rfl
        cases hd.1.symm.trans hd'.1
        exact hother ⟨hlayer.symm, hslot.symm⟩
    distinct := fun j k d' d'' hd' hd'' => h.distinct j k d' d'' ((hlive j d').mp hd').2 ((hlive k d'').mp hd'').2 }
  rw [ScopedLayers.release]
  split
  · next hempty =>
    refine hfreedInv.drop fun j d' hd' hscope => ?_
    -- another holder of the scope would hold something in the emptied layer
    have hplace := hfreedInv.placed j d' hd'
    rw [hscope] at hplace
    have hlayer : d.layer = d'.layer := by
      have hown := h.placed i d hd
      exact Option.some.inj (hown.symm.trans hplace)
    have hheld := (hfreedInv.held j d' hd').1
    rw [← hlayer] at hheld
    dsimp only at hheld
    rw [Function.update_self, ScopeLayer.isEmpty_iff.mp hempty] at hheld
    cases hheld
  · exact hfreedInv

end ScopedLayers

end CocoHarness.Scope
