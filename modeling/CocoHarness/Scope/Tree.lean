/-
# CocoHarness.Scope.Tree — the enclosing scope of each scope key.

One relation gives each scope key its parent.  It is written by a bind, once a key, and by the rebinds of the binding
that the bind returned; each write first walks from the new parent to its root and is refused where the walk meets
the key.

A walk is given as many steps as the relation has keys, and one more: a walk that needs more has come back to a key
it has seen and never ends, which is the value `none` here.  `Acyclic` is the invariant: the relation is well
founded, every walk ends, and a write that is not refused keeps it (`Acyclic.link`).
-/
import CocoHarness.Lib.InsertionMap
import Mathlib.Order.WellFounded
import Mathlib.Data.List.Perm.Subperm

namespace CocoHarness.Scope

open Lib List

variable {α : Type} [DecidableEq α]

/-! ## The relation -/

abbrev ScopeParents (α : Type) := InsertionMap α α

/-- The keys from a cursor to the root; `none` when the steps run out. -/
def walkUp (parents : ScopeParents α) : Nat → Option α → Option (List α)
  | _, none => some []
  | 0, some _ => none
  | steps + 1, some cursor => (walkUp parents steps (parents.lookup cursor)).map (cursor :: ·)

def scopeChainOf (parents : ScopeParents α) (key : Option α) : Option (List α) :=
  walkUp parents (parents.entries.length + 1) key

def meets (parents : ScopeParents α) (key : α) : Nat → Option α → Option Bool
  | _, none => some false
  | 0, some _ => none
  | steps + 1, some cursor => if cursor = key then some true else meets parents key steps (parents.lookup cursor)

def cycleMessage : String := "cch-scope: scope parent link would form a cycle"

def boundMessage : String :=
  "cch-scope: scope key is already bound to a parent; re-linking requires the binding returned by the "
    ++ "original bind"

def linkScopeParent (parents : ScopeParents α) (key parent : α) : Option (Except String (ScopeParents α)) :=
  (meets parents key (parents.entries.length + 1) (some parent)).map fun cycle =>
    if cycle then .error cycleMessage else .ok (parents.set key parent)

def bindScopeParent (parents : ScopeParents α) (key parent : α) : Option (Except String (ScopeParents α)) :=
  if (parents.lookup key).isSome then some (.error boundMessage)
  else linkScopeParent parents key parent

/-! ## Chains -/

variable {parents : ScopeParents α}

def IsParent (parents : ScopeParents α) (p k : α) : Prop := parents.lookup k = some p

def Acyclic (parents : ScopeParents α) : Prop := WellFounded (IsParent parents)

inductive Chain (parents : ScopeParents α) : Option α → List α → Prop
  | root : Chain parents none []
  | up {key : α} {keys : List α} : Chain parents (parents.lookup key) keys → Chain parents (some key) (key :: keys)

theorem Acyclic.chain (h : Acyclic parents) (cursor : Option α) : ∃ keys, Chain parents cursor keys := by
  have hfrom : ∀ key, ∃ keys, Chain parents (some key) keys := by
    intro key
    apply h.induction key
    intro key ih
    cases hparent : parents.lookup key with
    | none => exact ⟨[key], .up (by rw [hparent]; exact .root)⟩
    | some parent =>
      obtain ⟨keys, hkeys⟩ := ih parent hparent
      exact ⟨key :: keys, .up (by rw [hparent]; exact hkeys)⟩
  cases cursor with
  | none => exact ⟨[], .root⟩
  | some key => exact hfrom key

variable {cursor : Option α} {keys : List α}

theorem Chain.ancestor (h : Chain parents cursor keys) {key x : α} (hkey : parents.lookup key = cursor)
    (hx : x ∈ keys) : Relation.TransGen (IsParent parents) x key := by
  induction h generalizing key with
  | root => exact absurd hx not_mem_nil
  | @up parent keys _ ih =>
    rcases mem_cons.mp hx with rfl | hx
    · exact .single hkey
    · exact (ih rfl hx).tail hkey

theorem Chain.nodup (hacyclic : Acyclic parents) (h : Chain parents cursor keys) : keys.Nodup := by
  induction h with
  | root => exact nodup_nil
  | @up key keys hrest ih =>
    refine nodup_cons.mpr ⟨fun hmem => ?_, ih⟩
    exact hacyclic.transGen.irrefl.irrefl key (hrest.ancestor rfl hmem)

theorem Chain.dropLast_subset (h : Chain parents cursor keys) : keys.dropLast ⊆ parents.keys := by
  induction h with
  | root => exact nil_subset _
  | @up key keys hrest ih =>
    cases keys with
    | nil => exact nil_subset _
    | cons next keys =>
      rw [dropLast_cons_cons]
      refine cons_subset.mpr ⟨?_, ih⟩
      rw [← InsertionMap.lookup_isSome_iff]
      cases hparent : parents.lookup key with
      | none =>
        rw [hparent] at hrest
        cases hrest
      | some _ => rfl

theorem Chain.length_le (hacyclic : Acyclic parents) (h : Chain parents cursor keys) :
    keys.length ≤ parents.entries.length + 1 := by
  have hnodup : keys.dropLast.Nodup := (h.nodup hacyclic).sublist (dropLast_sublist keys)
  have hlength := (subperm_of_subset hnodup h.dropLast_subset).length_le
  rw [length_dropLast, InsertionMap.keys, length_map] at hlength
  omega

theorem walkUp_eq (h : Chain parents cursor keys) {steps : Nat} (hsteps : keys.length ≤ steps) :
    walkUp parents steps cursor = some keys := by
  induction h generalizing steps with
  | root => cases steps <;> rfl
  | @up key keys _ ih =>
    rw [length_cons] at hsteps
    obtain ⟨steps, rfl⟩ : ∃ n, steps = n + 1 := ⟨steps - 1, by omega⟩
    rw [walkUp, ih (by omega)]
    rfl

theorem meets_eq (h : Chain parents cursor keys) (key : α) {steps : Nat} (hsteps : keys.length ≤ steps) :
    meets parents key steps cursor = some (decide (key ∈ keys)) := by
  induction h generalizing steps with
  | root => cases steps <;> rfl
  | @up cursor keys _ ih =>
    rw [length_cons] at hsteps
    obtain ⟨steps, rfl⟩ : ∃ n, steps = n + 1 := ⟨steps - 1, by omega⟩
    rw [meets]
    split
    · next heq => rw [heq, decide_eq_true (mem_cons_self)]
    · next hne =>
      rw [ih (by omega)]
      congr 1
      refine decide_eq_decide.mpr ?_
      rw [mem_cons]
      exact ⟨Or.inr, fun hmem => hmem.resolve_left (Ne.symm hne)⟩

/-- **The chain of a scope**, where the relation is acyclic. -/
theorem Acyclic.scopeChainOf_eq (h : Acyclic parents) {key : Option α} (hkeys : Chain parents key keys) :
    scopeChainOf parents key = some keys :=
  walkUp_eq hkeys (hkeys.length_le h)

/-! ## Writes -/

theorem Acyclic.set (h : Acyclic parents) {key parent : α} (hkeys : Chain parents (some parent) keys)
    (hfree : key ∉ keys) : Acyclic (parents.set key parent) := by
  have hlookup : ∀ x, (parents.set key parent).lookup x
      = if x = key then some parent else parents.lookup x := fun x => InsertionMap.lookup_set parents key x parent
  -- the walk from the new parent is the old one
  have hwalk : ∀ {cursor : Option α} {keys : List α}, Chain parents cursor keys → key ∉ keys →
      ∀ x ∈ cursor, Acc (IsParent (parents.set key parent)) x := by
    intro cursor keys hchain
    induction hchain with
    | root =>
      intro _ x hx
      cases hx
    | @up y keys hrest ih =>
      intro hkey x hx
      cases hx
      rw [mem_cons, not_or] at hkey
      refine ⟨y, fun p hp => ?_⟩
      rw [IsParent, hlookup, if_neg (Ne.symm hkey.1)] at hp
      exact ih hkey.2 p hp
  have hkeyAcc : Acc (IsParent (parents.set key parent)) key := by
    refine ⟨key, fun p hp => ?_⟩
    rw [IsParent, hlookup, if_pos rfl] at hp
    cases hp
    exact hwalk hkeys hfree parent rfl
  refine ⟨fun x => ?_⟩
  apply h.induction x
  intro x ih
  by_cases hx : x = key
  · exact hx ▸ hkeyAcc
  · refine ⟨x, fun p hp => ?_⟩
    rw [IsParent, hlookup, if_neg hx] at hp
    exact ih p hp

/-- **A write is refused exactly when the key is on the way up from the new parent.** -/
theorem Acyclic.link (h : Acyclic parents) (key parent : α) : ∃ keys, Chain parents (some parent) keys
      ∧ (key ∈ keys ∧ linkScopeParent parents key parent = some (.error cycleMessage)
        ∨ key ∉ keys ∧ linkScopeParent parents key parent = some (.ok (parents.set key parent))
          ∧ Acyclic (parents.set key parent)) := by
  obtain ⟨keys, hkeys⟩ := h.chain (some parent)
  refine ⟨keys, hkeys, ?_⟩
  have hmeets := meets_eq hkeys key (hkeys.length_le h)
  by_cases hmem : key ∈ keys
  · refine Or.inl ⟨hmem, ?_⟩
    rw [linkScopeParent, hmeets, decide_eq_true hmem]
    rfl
  · refine Or.inr ⟨hmem, ?_, h.set hkeys hmem⟩
    rw [linkScopeParent, hmeets, decide_eq_false hmem]
    rfl

theorem Acyclic.empty : Acyclic (∅ : ScopeParents α) := ⟨fun _ => ⟨_, fun _ hp => by cases hp⟩⟩

end CocoHarness.Scope
