/-
# CocoHarness.Settings.Redact — a redacted section says nothing about its secrets.

Two values that differ only in what their secret fields hold are redacted to the same value, with the same positions
and flags.  It is a law about two runs of the walk: at each node of the schema the two values agree on all that the
walk looks at.
-/
import Mathlib.Data.List.Basic

namespace CocoHarness.Settings

open List

/-! ## Values and schemas -/

/-- A value as the walk sees it: in an array, too, an entry may be `undefined`. -/
inductive SettingsValue (S : Type) where
  | undefined
  | scalar (scalar : S)
  | array (items : List (SettingsValue S))
  | record (entries : List (String × SettingsValue S))

inductive NodeType where
  | object
  | dict
  | array
  /-- A leaf, a union, an intersection or a transform. -/
  | other
  deriving DecidableEq

inductive SchemaNode where
  | node (type : NodeType) (secret : Bool) (dict : List (String × SchemaNode)) (inner : Option SchemaNode)

structure RedactedSecret where
  path : List String
  set : Bool
  deriving DecidableEq

variable {S : Type}

namespace SettingsValue

def get (key : String) : SettingsValue S → SettingsValue S
  | record entries => (entries.lookup key).getD undefined
  | _ => undefined

def isUndefined : SettingsValue S → Bool
  | undefined => true
  | _ => false

def isRecord : SettingsValue S → Bool
  | record _ => true
  | _ => false

end SettingsValue

open SettingsValue

/-! ## The walk -/

def prototypeKeys : List String :=
  ["constructor", "hasOwnProperty", "isPrototypeOf", "propertyIsEnumerable", "toLocaleString", "toString", "valueOf",
    "__proto__", "__defineGetter__", "__defineSetter__", "__lookupGetter__", "__lookupSetter__"]

def declared (properties : List (String × SchemaNode)) (key : String) : Bool :=
  (properties.map (·.1)).contains key || prototypeKeys.contains key

/-- A part of the result that the walk has stripped, unless nothing is left of it. -/
def keep (key : String) (stripped : SettingsValue S) : List (String × SettingsValue S) :=
  if stripped.isUndefined then [] else [(key, stripped)]

mutual

def walk : SchemaNode → SettingsValue S → List String → SettingsValue S × List RedactedSecret
  | .node type secret dict inner, value, path =>
    if secret then (undefined, [⟨path, !value.isUndefined⟩])
    else
      match type, value with
      | .object, value =>
        let kept := match value with
          | record entries => entries.filter fun entry => !declared dict entry.1
          | _ => []
        let (stripped, secrets) := walkProperties dict value path
        let rebuilt := kept ++ stripped
        (if !value.isRecord && rebuilt.isEmpty then value else record rebuilt, secrets)
      | .dict, record entries =>
        let walked := entries.map fun entry => (entry.1, walkInner inner entry.2 (path ++ [entry.1]))
        (record (walked.flatMap fun entry => keep entry.1 entry.2.1), walked.flatMap (·.2.2))
      | .array, array items =>
        let walked := items.zipIdx.map fun item => walkInner inner item.1 (path ++ [toString item.2])
        (array (walked.map (·.1)), walked.flatMap (·.2))
      | _, value => (value, [])

def walkProperties : List (String × SchemaNode) → SettingsValue S → List String →
    List (String × SettingsValue S) × List RedactedSecret
  | [], _, _ => ([], [])
  | (key, child) :: properties, source, path =>
    let (stripped, secrets) := walk child (source.get key) (path ++ [key])
    let (rebuilt, more) := walkProperties properties source path
    (keep key stripped ++ rebuilt, secrets ++ more)

/-- The element schema; where there is none, the value stays as it is. -/
def walkInner : Option SchemaNode → SettingsValue S → List String → SettingsValue S × List RedactedSecret
  | none, value, _ => (value, [])
  | some node, value, path => walk node value path

end

mutual

/-- The values have the same shape, and differ only in what their secret fields hold. -/
def SameButSecrets : SchemaNode → SettingsValue S → SettingsValue S → Prop
  | .node type secret dict inner, v, w =>
    if secret then v.isUndefined = w.isUndefined
    else
      match type, v, w with
      | .object, record a, record b =>
        List.Forall₂ (fun x y => x.1 = y.1 ∧ (declared dict x.1 = false → x.2 = y.2)) a b ∧
          SameProperties dict (record a) (record b)
      | .dict, record a, record b => List.Forall₂ (fun x y => x.1 = y.1 ∧ SameInner inner x.2 y.2) a b
      | .array, array a, array b => List.Forall₂ (SameInner inner) a b
      | _, v, w => v = w

def SameProperties : List (String × SchemaNode) → SettingsValue S → SettingsValue S → Prop
  | [], _, _ => True
  | (key, child) :: properties, v, w => SameButSecrets child (v.get key) (w.get key) ∧ SameProperties properties v w

def SameInner : Option SchemaNode → SettingsValue S → SettingsValue S → Prop
  | none, v, w => v = w
  | some node, v, w => SameButSecrets node v w

end

/-! ## The two walks -/

variable {a b : List (String × SettingsValue S)}

theorem filter_own {declared : String → Bool}
    (h : Forall₂ (fun x y => x.1 = y.1 ∧ (declared x.1 = false → x.2 = y.2)) a b) :
    a.filter (fun entry => !declared entry.1) = b.filter fun entry => !declared entry.1 := by
  induction h with
  | nil => rfl
  | @cons x y a b hfirst _ ih =>
    rw [filter_cons, filter_cons, ← hfirst.1, ih]
    cases hkey : declared x.1 with
    | true => rfl
    | false => rw [Prod.ext hfirst.1 (hfirst.2 hkey)]

variable {same : SettingsValue S → SettingsValue S → Prop}
  {walked : SettingsValue S → List String → SettingsValue S × List RedactedSecret}

theorem walked_entries
    (hwalked : ∀ v w path, same v w → walked v path = walked w path) (path : List String) (h : Forall₂ (fun x y => x.1 = y.1 ∧ same x.2 y.2) a b) :
    a.map (fun entry => (entry.1, walked entry.2 (path ++ [entry.1])))
      = b.map fun entry => (entry.1, walked entry.2 (path ++ [entry.1])) := by
  induction h with
  | nil => rfl
  | cons hfirst _ ih => rw [map_cons, map_cons, ih, hfirst.1, hwalked _ _ _ hfirst.2]

theorem walked_items (hwalked : ∀ v w path, same v w → walked v path = walked w path) (path : List String)
    {a b : List (SettingsValue S)} (h : Forall₂ same a b) (start : Nat) :
    (a.zipIdx start).map (fun item => walked item.1 (path ++ [toString item.2]))
      = (b.zipIdx start).map fun item => walked item.1 (path ++ [toString item.2]) := by
  induction h generalizing start with
  | nil => rfl
  | cons hfirst _ ih => simp only [zipIdx_cons, map_cons, ih, hwalked _ _ _ hfirst]

mutual

/-- The walk is the same at every node: the induction is on the schema, as the walk is. -/
theorem walk_same : ∀ (node : SchemaNode) (v w : SettingsValue S) (path : List String),
    SameButSecrets node v w → walk node v path = walk node w path
  | .node type true dict inner, v, w, path, h => by
    have hset : v.isUndefined = w.isUndefined := by simpa [SameButSecrets] using h
    simp only [walk, if_true, hset]
  | .node type false dict inner, v, w, path, h => by
    simp only [SameButSecrets, Bool.false_eq_true, if_false] at h
    split at h
    · next a b =>
      simp only [walk, Bool.false_eq_true, if_false, isRecord, Bool.not_true, Bool.false_and,
        walkProperties_same dict _ _ path h.2, filter_own h.1]
    · next a b => simp only [walk, Bool.false_eq_true, if_false, walked_entries (walkInner_same inner) path h]
    · next a b => simp only [walk, Bool.false_eq_true, if_false, walked_items (walkInner_same inner) path h]
    · rw [h]

theorem walkProperties_same : ∀ (properties : List (String × SchemaNode)) (v w : SettingsValue S) (path : List String),
    SameProperties properties v w → walkProperties properties v path = walkProperties properties w path
  | [], _, _, _, _ => rfl
  | (key, child) :: properties, v, w, path, h => by
    rw [SameProperties] at h
    rw [walkProperties, walkProperties, walk_same child _ _ _ h.1, walkProperties_same properties _ _ path h.2]

theorem walkInner_same : ∀ (inner : Option SchemaNode) (v w : SettingsValue S) (path : List String),
    SameInner inner v w → walkInner inner v path = walkInner inner w path
  | none, v, w, path, h => by
    rw [SameInner] at h
    rw [h]
  | some node, v, w, path, h => by
    rw [SameInner] at h
    exact walk_same node v w path h

end

end CocoHarness.Settings
