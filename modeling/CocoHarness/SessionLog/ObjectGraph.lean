/-
# CocoHarness.SessionLog.ObjectGraph — the object graphs `walkJsonValue` is run on, and the walk.

A graph is a list of objects that refer to each other by their place in the list, so that two properties may share an
object and an object may contain itself.  What JSON cannot carry is kept: array holes and extra keys, symbol and
non-enumerable keys, getters that throw, prototypes of any shape and the primitives `JSON.stringify` drops.

`walkJsonValue` is the loop of the source, one task of the explicit stack at a time; the snapshot's objects are
appended to the same heap, so that sharing with the input is something a run could do.
-/
import CocoHarness.SessionLog.JsonValue

namespace CocoHarness.SessionLog

open Lib

/-! ## Objects -/

inductive RuntimeValue where
  | undefined
  | null
  | bool (b : Bool)
  | num (n : Number)
  /-- `NaN`, an infinity or negative zero. -/
  | unserializableNumber
  | str (s : String)
  /-- A bigint, a symbol or a function. -/
  | other
  | ref (place : Nat)
  deriving DecidableEq

inductive PropertyKey where
  | string (key : String)
  | symbol (number : Nat)
  deriving DecidableEq

/-- Whether it is enumerable, and the value it answers, or its getter throws. -/
structure Property where
  enumerable : Bool
  value : Except RuntimeValue RuntimeValue
  deriving DecidableEq

/-- A property that holds a value and is enumerable, configurable and writable. -/
def Property.data (v : RuntimeValue) : Property := { enumerable := true, value := .ok v }

/-- The function an object's own `constructor` data property holds. -/
structure NativeConstructor where
  /-- `constructor.name`; `none` when it is not a string or reading it throws. -/
  name : Option String
  /-- `constructor.prototype === prototype`. -/
  ownsPrototype : Bool
  /-- What `Function.prototype.toString` prints for it; `none` when that throws. -/
  source : Option String
  deriving DecidableEq

structure PrototypeObject where
  isArray : Bool
  /-- `typeof` answers `function`, not `object`. -/
  callable : Bool
  /-- The function under its own `constructor` data property, when there is one. -/
  nativeConstructor : Option NativeConstructor
  deriving DecidableEq

inductive HeapObject where
  /-- Its elements, a hole being `none`, and its own keys besides these and `length`. -/
  | array (chain : List PrototypeObject) (elements : List (Option Property))
      (extra : List (PropertyKey × Property))
  | object (chain : List PrototypeObject) (properties : List (PropertyKey × Property))
  deriving DecidableEq

/-! ## Prototypes and keys -/

/-- Whether a realm-owned intrinsic prototype is backed by its native constructor. -/
def PrototypeObject.hasIntrinsicConstructor (prototype : PrototypeObject) (name : String) : Bool :=
  match prototype.nativeConstructor with
  | none => false
  | some c =>
    c.name == some name && c.ownsPrototype
      && c.source == some ("function " ++ name ++ "() \x7b [native code] \x7d")

/-- Whether a candidate is one realm's intrinsic `Object.prototype`; `above` is its own chain. -/
def isIntrinsicObjectPrototype (value : PrototypeObject) (above : List PrototypeObject) : Bool :=
  above.isEmpty && value.hasIntrinsicConstructor "Object"

/-- Whether an array uses the intrinsic `Array.prototype` of one realm. -/
def hasPlainArrayPrototype : List PrototypeObject → Bool
  | [] => false
  | prototype :: above =>
    if !prototype.isArray || !prototype.hasIntrinsicConstructor "Array" then false
    else
      match above with
      | [] => false
      | objectPrototype :: above => !objectPrototype.callable && isIntrinsicObjectPrototype objectPrototype above

/-- Whether an object is a plain or null-prototype record from any realm. -/
def hasPlainObjectPrototype : List PrototypeObject → Bool
  | [] => true
  | prototype :: above => !prototype.callable && isIntrinsicObjectPrototype prototype above

/-- Every JSON-visible key, or `none` where an own property is one JSON would discard. -/
def enumerableStringKeys : List (PropertyKey × Property) → Option (List String)
  | [] => some []
  | (.string key, p) :: properties => if p.enumerable then (enumerableStringKeys properties).map (key :: ·) else none
  | (.symbol _, _) :: _ => none

variable (elements : List (Option Property))

/-- `Reflect.ownKeys(array).length`: its elements, its other keys, and `length`. -/
def ownKeysLength (extra : List (PropertyKey × Property)) : Nat :=
  elements.countP (·.isSome) + extra.length + 1

/-! ## The walk -/

/-- `Array.prototype` of the walk's own realm, and `Object.prototype` above it. -/
def arrayChain : List PrototypeObject :=
  [{ isArray := true, callable := false
     nativeConstructor := some ⟨some "Array", true, some "function Array() \x7b [native code] \x7d"⟩ },
   { isArray := false, callable := false
     nativeConstructor := some ⟨some "Object", true, some "function Object() \x7b [native code] \x7d"⟩ }]

def objectChain : List PrototypeObject :=
  [{ isArray := false, callable := false
     nativeConstructor := some ⟨some "Object", true, some "function Object() \x7b [native code] \x7d"⟩ }]

inductive SnapshotDestination where
  | root
  | array (target index : Nat)
  | object (target : Nat) (key : String)
  deriving DecidableEq

inductive JsonWalkTask where
  | visit (value : RuntimeValue) (destination : Option SnapshotDestination)
  | arrayItem (source index : Nat) (target : Option Nat)
  | objectProperty (source : Nat) (key : String) (target : Option Nat)
  | leave (source : Nat)
  deriving DecidableEq

structure JsonWalk where
  heap : List HeapObject
  ancestors : List Nat := []
  root : RuntimeValue := .undefined
  tasks : List JsonWalkTask
  deriving DecidableEq

inductive WalkOutcome where
  | returned (value : RuntimeValue) (heap : List HeapObject)
  | threw (error : RuntimeValue)
  deriving DecidableEq

/-- `target[index] = item`: an index behind the end leaves holes. -/
def setElement (index : Nat) (p : Property) : List (Option Property) :=
  if index < elements.length then elements.set index (some p)
  else elements ++ List.replicate (index - elements.length) none ++ [some p]

/-- `Object.defineProperty(target, key, …)`: a key that is there keeps its place. -/
def defineProperty (properties : List (PropertyKey × Property)) (key : String) (p : Property) :
    List (PropertyKey × Property) :=
  if (PropertyKey.string key) ∈ properties.map (·.1) then
    properties.map fun q => if q.1 = .string key then (q.1, p) else q
  else properties ++ [(.string key, p)]

def HeapObject.store (item : RuntimeValue) (destination : SnapshotDestination) : HeapObject → HeapObject
  | .array chain elements extra =>
    match destination with
    | .array _ index => .array chain (setElement elements index (.data item)) extra
    | _ => .array chain elements extra
  | .object chain properties =>
    match destination with
    | .object _ key => .object chain (defineProperty properties key (.data item))
    | _ => .object chain properties

namespace JsonWalk

variable (w : JsonWalk)

def assign (destination : Option SnapshotDestination) (item : RuntimeValue) : JsonWalk :=
  match destination with
  | none => w
  | some .root => { w with root := item }
  | some (.array target index) =>
    { w with heap := w.heap.modify target (HeapObject.store item (.array target index)) }
  | some (.object target key) => { w with heap := w.heap.modify target (HeapObject.store item (.object target key)) }

/-- Create an object of the snapshot and store it at its destination. -/
def create (destination : Option SnapshotDestination) (object : HeapObject) : JsonWalk :=
  assign { w with heap := w.heap ++ [object] } destination (.ref w.heap.length)

/-- The value an object's element or property read answers: `source[index]` or `source[key]`. -/
def readElement (source index : Nat) : Option Property :=
  match w.heap[source]? with
  | some (.array _ elements _) => (elements[index]?).join
  | _ => none

def readProperty (source : Nat) (key : String) : Option Property :=
  match w.heap[source]? with
  | some (.object _ properties) => properties.lookup (.string key)
  | _ => none

/-- Visit an object: the checks, the snapshot's object, and one task for each item. -/
def enter (detach : Bool) (current : Nat) (destination : Option SnapshotDestination) : JsonWalk ⊕ WalkOutcome :=
  if current ∈ w.ancestors then .inr (.returned .undefined w.heap)
  else
    match w.heap[current]? with
    | none => .inr (.returned .undefined w.heap)
    | some (.array chain elements extra) =>
      if !hasPlainArrayPrototype chain then .inr (.returned .undefined w.heap)
      else if ownKeysLength elements extra ≠ elements.length + 1 then
        .inr (.returned .undefined w.heap)
      else
        let target := if detach then some w.heap.length else none
        let w := if detach then w.create destination (.array arrayChain [] []) else w
        .inl { w with
          ancestors := current :: w.ancestors
          tasks := (List.range elements.length).map (fun index => .arrayItem current index target)
            ++ .leave current :: w.tasks }
    | some (.object chain properties) =>
      if !hasPlainObjectPrototype chain then .inr (.returned .undefined w.heap)
      else
        match enumerableStringKeys properties with
        | none => .inr (.returned .undefined w.heap)
        | some keys =>
          let target := if detach then some w.heap.length else none
          let w := if detach then w.create destination (.object objectChain []) else w
          .inl { w with
            ancestors := current :: w.ancestors
            tasks := keys.map (fun key => .objectProperty current key target) ++ .leave current :: w.tasks }

def step (detach : Bool) : JsonWalk ⊕ WalkOutcome :=
  match w.tasks with
  | [] => .inr (.returned (if detach then w.root else .bool true) w.heap)
  | task :: tasks =>
    let w := { w with tasks }
    match task with
    | .leave source => .inl { w with ancestors := w.ancestors.filter (· ≠ source) }
    | .arrayItem source index target =>
      match w.readElement source index with
      | none => .inr (.returned .undefined w.heap)
      | some ⟨_, .error thrown⟩ => .inr (.threw thrown)
      | some ⟨_, .ok value⟩ => .inl { w with tasks := .visit value (target.map fun t => .array t index) :: tasks }
    | .objectProperty source key target =>
      match w.readProperty source key with
      | none => .inl { w with tasks := .visit .undefined (target.map fun t => .object t key) :: tasks }
      | some ⟨_, .error thrown⟩ => .inr (.threw thrown)
      | some ⟨_, .ok value⟩ => .inl { w with tasks := .visit value (target.map fun t => .object t key) :: tasks }
    | .visit value destination =>
      match value with
      | .null => .inl (w.assign destination .null)
      | .bool b => .inl (w.assign destination (.bool b))
      | .str s => .inl (w.assign destination (.str s))
      | .num n => .inl (w.assign destination (.num n))
      | .unserializableNumber | .undefined | .other => .inr (.returned .undefined w.heap)
      | .ref current => w.enter detach current destination

/-- The loop, for at most `fuel` turns; `none` while it still runs. -/
def run (detach : Bool) : Nat → JsonWalk → Option WalkOutcome
  | 0, _ => none
  | fuel + 1, w =>
    match w.step detach with
    | .inl w => run detach fuel w
    | .inr outcome => some outcome

end JsonWalk

/-- Every reference leads to an object of the graph, and no object has a key twice. -/
structure ObjectGraph where
  objects : List HeapObject
  root : RuntimeValue
  rooted : ∀ place, root = .ref place → place < objects.length
  closedArrays : ∀ chain elements extra, .array chain elements extra ∈ objects →
    ∀ p, some p ∈ elements → ∀ place, p.value = .ok (.ref place) → place < objects.length
  closedObjects : ∀ chain properties, .object chain properties ∈ objects →
    ∀ q ∈ properties, ∀ place, q.2.value = .ok (.ref place) → place < objects.length
  keysDistinct : ∀ chain properties, .object chain properties ∈ objects → (properties.map (·.1)).Nodup

/-- Whether what the value refers to, if anything, is one of the first `size` objects. -/
def RuntimeValue.placed (size : Nat) : RuntimeValue → Bool
  | .ref place => place < size
  | _ => true

def Property.placed (size : Nat) (p : Property) : Bool := p.value.toOption.all (·.placed size)

def HeapObject.placed (size : Nat) : HeapObject → Bool
  | .array _ elements _ => elements.all (·.all (·.placed size))
  | .object _ properties => properties.all (·.2.placed size) && decide (properties.map (·.1)).Nodup

theorem Property.placed_ref {size place : Nat} {p : Property} (h : p.placed size = true)
    (hvalue : p.value = .ok (.ref place)) : place < size := by
  unfold Property.placed at h
  rw [hvalue] at h
  exact of_decide_eq_true h

def ObjectGraph.ofObjects (objects : List HeapObject) (root : RuntimeValue) (hroot : root.placed objects.length = true)
    (hobjects : objects.all (·.placed objects.length) = true) : ObjectGraph where
  objects := objects
  root := root
  rooted := by
    rintro place rfl
    exact of_decide_eq_true hroot
  closedArrays := by
    intro chain elements extra hmem p hp place hvalue
    have hobject := List.all_eq_true.mp hobjects _ hmem
    exact Property.placed_ref (List.all_eq_true.mp hobject (some p) hp) hvalue
  closedObjects := by
    intro chain properties hmem q hq place hvalue
    have hobject := List.all_eq_true.mp hobjects _ hmem
    unfold HeapObject.placed at hobject
    rw [Bool.and_eq_true] at hobject
    exact Property.placed_ref (List.all_eq_true.mp hobject.1 q hq) hvalue
  keysDistinct := by
    intro chain properties hmem
    have hobject := List.all_eq_true.mp hobjects _ hmem
    unfold HeapObject.placed at hobject
    rw [Bool.and_eq_true] at hobject
    exact of_decide_eq_true hobject.2

/-- Validate lossless JSON iteratively, optionally materializing a detached snapshot. -/
def ObjectGraph.walkJsonValue (g : ObjectGraph) (detach : Bool) (fuel : Nat) : Option WalkOutcome :=
  JsonWalk.run detach fuel
    { heap := g.objects, tasks := [.visit g.root (if detach then some .root else none)] }

/-- What a caller sees of the outcome: whether the value was accepted, or what was thrown. -/
def WalkOutcome.verdict : WalkOutcome → Except RuntimeValue Bool
  | returned value _ => .ok (value ≠ .undefined)
  | threw error => .error error

/-! ## The recursive definition of lossless JSON -/

mutual

/-- `v` is the lossless value `j`, made of objects at `base` or behind. -/
inductive Lossless (heap : List HeapObject) (base : Nat) : RuntimeValue → Json → Prop where
  | null : Lossless heap base .null .null
  | bool (b : Bool) : Lossless heap base (.bool b) (.bool b)
  | num (n : Number) : Lossless heap base (.num n) (.num n)
  | str (s : String) : Lossless heap base (.str s) (.str s)
  | array {place : Nat} {chain : List PrototypeObject} {elements : List (Option Property)}
      {js : List Json} (hplace : base ≤ place) (hobject : heap[place]? = some (.array chain elements []))
      (hplain : hasPlainArrayPrototype chain = true)
      (hitems : LosslessElements heap base elements js) : Lossless heap base (.ref place) (.arr js)
  | object {place : Nat} {chain : List PrototypeObject} {properties : List (PropertyKey × Property)}
      {fs : List (String × Json)} (hplace : base ≤ place)
      (hobject : heap[place]? = some (.object chain properties))
      (hplain : hasPlainObjectPrototype chain = true)
      (hitems : LosslessFields heap base properties fs) : Lossless heap base (.ref place) (.obj fs)

inductive LosslessElements (heap : List HeapObject) (base : Nat) :
    List (Option Property) → List Json → Prop where
  | nil : LosslessElements heap base [] []
  | cons {p : Property} {v : RuntimeValue} {j : Json} {elements : List (Option Property)}
      {js : List Json} (hvalue : p.value = .ok v) (hhead : Lossless heap base v j)
      (htail : LosslessElements heap base elements js) :
      LosslessElements heap base (some p :: elements) (j :: js)

/-- Every property is enumerable, has a string key and holds a lossless value. -/
inductive LosslessFields (heap : List HeapObject) (base : Nat) :
    List (PropertyKey × Property) → List (String × Json) → Prop where
  | nil : LosslessFields heap base [] []
  | cons {key : String} {p : Property} {v : RuntimeValue} {j : Json}
      {properties : List (PropertyKey × Property)} {fs : List (String × Json)}
      (henumerable : p.enumerable = true) (hvalue : p.value = .ok v) (hhead : Lossless heap base v j)
      (htail : LosslessFields heap base properties fs) :
      LosslessFields heap base ((.string key, p) :: properties) ((key, j) :: fs)

end

/-! ## The graph's own terms -/

def HeapObject.values : HeapObject → List RuntimeValue
  | .array _ elements _ => elements.filterMap fun p => p.bind fun p => p.value.toOption
  | .object _ properties => properties.filterMap fun q => q.2.value.toOption

variable (heap : List HeapObject)

def RefersTo (v w : RuntimeValue) : Prop :=
  ∃ place object, v = .ref place ∧ heap[place]? = some object ∧ w ∈ object.values

/-- JSON carries the node: a primitive, a dense array of readable elements, or a plain record of them. -/
def LosslessNode : RuntimeValue → Prop
  | .null | .bool _ | .num _ | .str _ => True
  | .undefined | .unserializableNumber | .other => False
  | .ref place =>
    (∃ chain elements, heap[place]? = some (.array chain elements []) ∧
      hasPlainArrayPrototype chain = true ∧ ∀ p ∈ elements, ∃ q v, p = some q ∧ q.value = .ok v) ∨
    ∃ chain properties, heap[place]? = some (.object chain properties) ∧ hasPlainObjectPrototype chain = true ∧
      ∀ q ∈ properties, (∃ key, q.1 = .string key) ∧ q.2.enumerable = true ∧ ∃ v, q.2.value = .ok v

def Reaches : RuntimeValue → RuntimeValue → Prop := Relation.ReflTransGen (RefersTo heap)

def Acyclic (v : RuntimeValue) : Prop :=
  ∀ w, Reaches heap v w → ¬ Relation.TransGen (RefersTo heap) w w

end CocoHarness.SessionLog
