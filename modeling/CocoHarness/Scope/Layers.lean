/-
# CocoHarness.Scope.Layers — the layers of a registry, one for each scope that contributes.

A layer is an aggregate of entry tables: here one of named entries and one of anonymous ones.  A table holds its
entries in a map that it replaces once the map has drained, and an undo belongs to the map it was made for.  The
layers of a registry are objects: the global one, and one for each scope that holds something, created by its first
registration and reclaimed by the disposal that empties it.

Its disposer is single shot, so the bodies of a disposer and of the undo in it run at most once, whoever calls them
and however often.
-/
import CocoHarness.Scope.Tree

namespace CocoHarness.Scope

open Lib

variable {α κ V W : Type} [DecidableEq α] [DecidableEq κ]

/-! ## Entry tables -/

/-- An entry table: the maps it has had, by generation, and which of them is its data now. -/
structure Entries (κ V : Type) where
  current : Nat := 0
  maps : Nat → InsertionMap κ V := fun _ => ∅

structure EntryUndo (κ : Type) where
  map : Nat
  key : κ
  deriving DecidableEq

namespace Entries

variable (e : Entries κ V)

def data : InsertionMap κ V := e.maps e.current

def isEmpty : Bool := e.data.entries.isEmpty

def put (key : κ) (value : V) : Entries κ V × EntryUndo κ :=
  ({ e with maps := Function.update e.maps e.current (e.data.set key value) }, ⟨e.current, key⟩)

/-- The body of an undo: delete from its own map, and replace drained data. -/
def take (undo : EntryUndo κ) : Entries κ V :=
  let data := (e.maps undo.map).erase undo.key
  { current := if data.entries.isEmpty ∧ e.current = undo.map then e.current + 1 else e.current
    maps := Function.update e.maps undo.map data }

end Entries

abbrev NamedEntries (V : Type) := Entries String V

/-- Insert one unique name; `none` when the caller's duplicate error is thrown. -/
def NamedEntries.insert (e : NamedEntries V) (name : String) (value : V) :
    Option (NamedEntries V × EntryUndo String) :=
  if (e.data.lookup name).isSome then none else some (e.put name value)

/-- Anonymous entries, keyed by symbols; symbols are numbered as they are made. -/
abbrev AnonymousEntries (W : Type) := Entries Nat W

def AnonymousEntries.append (e : AnonymousEntries W) (symbol : Nat) (value : W) : AnonymousEntries W × EntryUndo Nat :=
  e.put symbol value

/-! ## Layers -/

structure ScopeLayer (V W : Type) where
  named : NamedEntries V := {}
  anonymous : AnonymousEntries W := {}

variable (layer : ScopeLayer V W)

def ScopeLayer.isEmpty : Bool := layer.named.isEmpty && layer.anonymous.isEmpty

inductive Contribution (V W : Type) where
  | named (name : String) (value : V)
  | anonymous (value : W)

inductive LayerUndo where
  | named (undo : EntryUndo String)
  | anonymous (undo : EntryUndo Nat)

def ScopeLayer.act (symbol : Nat) : Contribution V W → Option (ScopeLayer V W × LayerUndo)
  | .named name value => (layer.named.insert name value).map fun (named, undo) => ({ layer with named }, .named undo)
  | .anonymous value =>
    let (anonymous, undo) := AnonymousEntries.append layer.anonymous symbol value
    some ({ layer with anonymous }, .anonymous undo)

def ScopeLayer.undo : LayerUndo → ScopeLayer V W
  | .named undo => { layer with named := layer.named.take undo }
  | .anonymous undo => { layer with anonymous := layer.anonymous.take undo }

/-- The layer objects, the global one first, and which scope has which. -/
structure ScopedLayers (α V W : Type) where
  layers : Nat → ScopeLayer V W := fun _ => {}
  created : Nat := 1
  overlays : InsertionMap α Nat := ∅
  symbols : Nat := 0

/-- What the closure of a disposer holds, whether it may still run, and its contribution. -/
structure Disposer (α V W : Type) where
  scope : Option α
  layer : Nat
  undo : LayerUndo
  contribution : Contribution V W
  active : Bool := true

namespace ScopedLayers

variable (s : ScopedLayers α V W)

def global : ScopeLayer V W := s.layers 0

def peek (scope : Option α) : Option (ScopeLayer V W) :=
  scope.bind fun key => (s.overlays.lookup key).map s.layers

/-- The layer a registration goes to, created for its scope when there is none. -/
def layerFor (scope : Option α) : ScopedLayers α V W × Nat × Bool :=
  match scope with
  | none => (s, 0, false)
  | some key =>
    match s.overlays.lookup key with
    | some layer => (s, layer, false)
    | none =>
      ({ s with layers := Function.update s.layers s.created {}, created := s.created + 1
                overlays := s.overlays.set key s.created }, s.created, true)

def drop (scope : Option α) : ScopedLayers α V W :=
  match scope with
  | none => s
  | some key => { s with overlays := s.overlays.erase key }

/-- The setup of a registration; a failed mutation takes back a layer made for it. -/
def effect (scope : Option α) (contribution : Contribution V W) : ScopedLayers α V W × Option (Disposer α V W) :=
  let (s, layer, made) := s.layerFor scope
  match (s.layers layer).act s.symbols contribution with
  | none => (if made && (s.layers layer).isEmpty then s.drop scope else s, none)
  | some (acted, undo) =>
    ({ s with layers := Function.update s.layers layer acted, symbols := s.symbols + 1 },
      some { scope, layer, undo, contribution })

def release (d : Disposer α V W) : ScopedLayers α V W :=
  let layer := (s.layers d.layer).undo d.undo
  let s := { s with layers := Function.update s.layers d.layer layer }
  if layer.isEmpty then s.drop d.scope else s

def chainLayers (chain : List α) : List (ScopeLayer V W) :=
  chain.reverse.filterMap fun key => (s.overlays.lookup key).map s.layers

/-- The global named entries, shadowed by those of the chain's overlays in turn. -/
def merge (chain : List α) : InsertionMap String V :=
  (s.chainLayers chain).foldl
    (fun merged layer => layer.named.data.entries.foldl (fun merged e => merged.set e.1 e.2) merged)
    s.global.named.data

end ScopedLayers

/-! ## Scopes with a registry -/

/-- The scope relation, one registry over it, and every disposer a registration has returned. -/
structure Scopes (α V W : Type) where
  parents : ScopeParents α := ∅
  registry : ScopedLayers α V W := {}
  disposers : List (Disposer α V W) := []

inductive Op (α V W : Type) where
  | bind (key parent : α)
  /-- Through the binding that the bind of the key returned. -/
  | rebind (key parent : α)
  /-- A registration; `notifies` when the notification of the change returns. -/
  | register (scope : Option α) (contribution : Contribution V W) (notifies : Bool)
  /-- Run a disposer. -/
  | dispose (i : Nat)

namespace Scopes

variable (s : Scopes α V W)

def written : Except String (ScopeParents α) → Scopes α V W × Bool
  | .error _ => (s, false)
  | .ok parents => ({ s with parents }, true)

def run (i : Nat) : Scopes α V W :=
  match s.disposers[i]? with
  | none => s
  | some d =>
    if d.active then
      { s with registry := s.registry.release d
               disposers := s.disposers.set i { d with active := false } }
    else s

/-- One operation, and whether it succeeds; `none` when it does not end, or has no handle. -/
def step : Op α V W → Option (Scopes α V W × Bool)
  | .bind key parent => (bindScopeParent s.parents key parent).map s.written
  | .rebind key parent =>
    if (s.parents.lookup key).isSome then (linkScopeParent s.parents key parent).map s.written
    else none
  | .register scope contribution notifies =>
    match s.registry.effect scope contribution with
    | (registry, none) => some ({ s with registry }, false)
    | (registry, some d) =>
      let registered := { s with registry, disposers := s.disposers ++ [d] }
      if notifies then some (registered, true) else some (registered.run s.disposers.length, false)
  | .dispose i => if i < s.disposers.length then some (s.run i, true) else none

def view (scope : Option α) : Option (InsertionMap String V) :=
  (scopeChainOf s.parents scope).map s.registry.merge

inductive Reachable : Scopes α V W → Prop
  | start : Reachable {}
  | step {s s' : Scopes α V W} (op : Op α V W) {accepted : Bool} : Reachable s →
      s.step op = some (s', accepted) → Reachable s'

end Scopes

end CocoHarness.Scope
