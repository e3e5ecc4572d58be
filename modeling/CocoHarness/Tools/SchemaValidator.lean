/-
# CocoHarness.Tools.SchemaValidator — the explicit-stack validator of values.

`checkValue` evaluates a schema on a value with a stack of frames.  A frame starts by reading its node and value, and
either finishes or gets children; it pushes a frame for each child in turn and takes the results in, a union by
counting the children that match, a container by collecting their violations in front of its own last ones.
-/
import CocoHarness.Tools.SchemaReading

namespace CocoHarness.Tools

open Lib SessionLog

/-! ## Diagnostics -/

/-- Root-aware diagnostic path for the parameter validator's empty sentinel. -/
def diagnosticPath (path : String) : String := if path = "" then "arguments" else path

/-- Append one object property without a leading dot at an implicit root. -/
def propertyPath (path key : String) : String := if path = "" then key else s!"{path}.{key}"

def diagnostic (path message : String) : String := s!"\"{diagnosticPath path}\" {message}"

/-- The generic exception-containment diagnostic owned by one valid schema node. -/
def losslessValueViolation (path : String) : List String := [diagnostic path "must be a lossless JSON value"]

def literalJson : RuntimeValue → Json
  | .bool b => .bool b
  | .num n => .num n
  | .str s => .str s
  | _ => .null

def stringify (value : Json) : String := String.ofList (JsonText.text value)

/-! ## Frames -/

/-- One child evaluation deferred by a container or exact-one union frame. -/
structure ValueChild where
  node : RuntimeValue
  value : RuntimeValue
  path : String

inductive FramePhase where
  | start
  | children
  deriving DecidableEq

inductive FrameKind where
  | oneOf
  | object
  | array
  deriving DecidableEq

structure ValueFrame where
  node : RuntimeValue
  value : RuntimeValue
  path : String
  catches : Bool := false
  phase : FramePhase := .start
  kind : Option FrameKind := none
  children : List ValueChild := []
  childIndex : Nat := 0
  violations : List String := []
  tailViolations : List String := []
  matched : Nat := 0

/-- Initialize one validation frame with empty aggregation state. -/
def valueFrame (child : ValueChild) : ValueFrame := { node := child.node, value := child.value, path := child.path }

def ValueFrame.receive (parent : ValueFrame) (result : List String) : ValueFrame :=
  if parent.kind = some .oneOf then
    if result.isEmpty then { parent with matched := parent.matched + 1 } else parent
  else { parent with violations := parent.violations ++ result }

structure ValueWalk where
  frames : List ValueFrame
  rootResult : Option (List String) := none

/-- The result of a frame goes to the frame below it, or is the result of the root. -/
def ValueWalk.receive (w : ValueWalk) (result : List String) : ValueWalk :=
  match w.frames with
  | [] => { w with rootResult := some result }
  | parent :: frames => { w with frames := parent.receive result :: frames }

/-! ## Starting a frame -/

inductive Started where
  | finish (result : List String)
  | children (frame : ValueFrame)

def scalarMismatch : JsonSchemaScalarType → RuntimeValue → Option String
  | .string, .str _ => none
  | .string, _ => some "must be a string"
  | .number, .num _ => none
  | .number, .unserializableNumber => some "must be a finite JSON number"
  | .number, _ => some "must be a number"
  | .integer, .num (.int _) => none
  | .integer, _ => some "must be an integer"
  | .boolean, .bool _ => none
  | .boolean, _ => some "must be a boolean"
  | .null, .null => none
  | .null, _ => some "must be null"

variable (heap : List HeapObject)

def checkScalarValue (node : Properties) (value : RuntimeValue) (path : String) :
    Except RuntimeValue (List String) := do
  let allowed ← readOwn node "enum"
  let entries ← elementsOf heap allowed
  if allowed ≠ .undefined ∧ !entries.contains value then
    let text := stringify (.arr (entries.map literalJson))
    return [diagnostic path s!"must be one of {text}"]
  else if hasOwn node "const" then do
    let literal ← readOwn node "const"
    if value ≠ literal then
      let text := stringify (literalJson literal)
      return [diagnostic path s!"must be {text}"]
    else return []
  else return []

def missingRequired (value : Properties) (path : String) : List RuntimeValue → Except RuntimeValue (List String)
  | [] => .ok []
  | .str key :: names => do
    let found ← readOwn value key
    let missing ← missingRequired value path names
    return violationIf (found = .undefined)
      (let property := propertyPath path key; s!"missing required property \"{property}\"") ++ missing
  | _ :: names => missingRequired value path names

def presentProperties (value : Properties) (path : String) :
    List (String × RuntimeValue) → Except RuntimeValue (List ValueChild)
  | [] => .ok []
  | (key, node) :: entries => do
    let found ← readOwn value key
    let children ← presentProperties value path entries
    return if found = .undefined then children else ⟨node, found, propertyPath path key⟩ :: children

def undeclaredKeys (value declared : Properties) (path : String) : List String :=
  (objectKeys value).flatMap fun key =>
    violationIf (!hasOwn declared key)
      (let property := propertyPath path key
       s!"\"{property}\" is not a declared property (additionalProperties: false)")

/-- The elements of an array that are there, as children of one item schema. -/
def presentElements (items : RuntimeValue) (path : String) :
    Nat → List (Option Property) → Except RuntimeValue (List ValueChild)
  | _, [] => .ok []
  | index, none :: elements => presentElements items path (index + 1) elements
  | index, some element :: elements => do
    let found ← element.value
    let children ← presentElements items path (index + 1) elements
    return ⟨items, found, s!"{path}[{index}]"⟩ :: children

def slotsOf : RuntimeValue → List (Option Property)
  | .ref place =>
    match heap[place]? with
    | some (.array _ elements _) => elements
    | _ => []
  | _ => []

def startObject (frame : ValueFrame) (node : Properties) : Except RuntimeValue Started :=
  match plainJsonRecord heap frame.value with
  | none => .ok (.finish [diagnostic frame.path "must be an object"])
  | some value => do
    let properties ← readOwn node "properties"
    let declared := propertiesOf heap properties
    let required ← readOwn node "required"
    let names ← elementsOf heap required
    let violations ← missingRequired value frame.path names
    let entries ← objectEntries declared
    let children ← presentProperties value frame.path entries
    let additional ← readOwn node "additionalProperties"
    let tailViolations := if additional = .bool false then undeclaredKeys value declared frame.path else []
    return .children
      { frame with kind := some .object, children, childIndex := 0, violations, tailViolations, phase := .children }

def startArray (frame : ValueFrame) (node : Properties) : Except RuntimeValue Started :=
  if !isArray heap frame.value then .ok (.finish [diagnostic frame.path "must be an array"])
  else do
    let items ← readOwn node "items"
    let children ← if items = .undefined then .ok []
      else presentElements items frame.path 0 (slotsOf heap frame.value)
    return .children
      { frame with kind := some .array, children, childIndex := 0, violations := [], phase := .children }

def declaredType : RuntimeValue → Option JsonSchemaType
  | .str name => schemaTypeOf name
  | _ => none

def startTyped (frame : ValueFrame) (node : Properties) (nodeType : RuntimeValue) : Except RuntimeValue Started := do
  let oneOf ← readOwn node "oneOf"
  if oneOf ≠ .undefined then do
    let branches ← elementsOf heap oneOf
    let children := branches.map fun branch => (⟨branch, frame.value, frame.path⟩ : ValueChild)
    return .children
      { frame with kind := some .oneOf, children, childIndex := 0, matched := 0, phase := .children }
  else if nodeType = .undefined then
    return .finish (if safelyIsJsonValue heap frame.value then [] else losslessValueViolation frame.path)
  else
    match declaredType nodeType with
    | some .object => startObject heap frame node
    | some .array => startArray heap frame node
    | some (.scalar type) =>
      match scalarMismatch type frame.value with
      | some message => return .finish [diagnostic frame.path message]
      | none => return .finish (← checkScalarValue heap node frame.value frame.path)
    -- `assertNever`
    | none => throw .other

/-- Start a frame.  Whether it catches is known once its type is read. -/
def startFrame (frame : ValueFrame) : ValueFrame × Except RuntimeValue Started :=
  let node := propertiesOf heap frame.node
  match readOwn node "type" with
  | .error error => (frame, .error error)
  | .ok nodeType =>
    let frame := { frame with catches := nodeType = .undefined || (declaredType nodeType).isSome }
    (frame, startTyped heap frame node nodeType)

/-! ## The loop -/

def ValueFrame.finish (frame : ValueFrame) : List String :=
  if frame.kind = some .oneOf then
    if frame.matched = 1 then []
    else [diagnostic frame.path s!"must match exactly one oneOf branch (matched {frame.matched})"]
  else
    let violations := frame.violations ++ frame.tailViolations
    if violations.isEmpty then
      if safelyIsJsonValue heap frame.value then []
      else if frame.kind = some .object then [diagnostic frame.path "must be a lossless JSON object"]
      else [diagnostic frame.path "must be a dense lossless JSON array"]
    else violations

def ValueWalk.contain (w : ValueWalk) (error : RuntimeValue) : ValueWalk ⊕ Except RuntimeValue (List String) :=
  match w.frames.dropWhile fun frame => !frame.catches with
  | [] => .inr (.error error)
  | failed :: frames => .inl (ValueWalk.receive { w with frames } (losslessValueViolation failed.path))

/-- One turn of the loop: the next state, or how the validation ends. -/
def ValueWalk.turn (rootPath : String) (w : ValueWalk) : ValueWalk ⊕ Except RuntimeValue (List String) :=
  match w.frames with
  | [] => .inr (.ok (w.rootResult.getD (losslessValueViolation rootPath)))
  | frame :: frames =>
    match frame.phase with
    | .children =>
      match frame.children[frame.childIndex]? with
      | some child =>
        .inl { w with frames := valueFrame child :: { frame with childIndex := frame.childIndex + 1 } :: frames }
      | none => .inl (ValueWalk.receive { w with frames } (frame.finish heap))
    | .start =>
      match startFrame heap frame with
      | (_, .ok (.finish result)) => .inl (ValueWalk.receive { w with frames } result)
      | (_, .ok (.children frame)) => .inl { w with frames := frame :: frames }
      | (frame, .error error) => ValueWalk.contain { w with frames := frame :: frames } error

/-- Validate one trusted schema/value pair with explicit frames rather than recursive calls. -/
def checkValue (schema value : RuntimeValue) (path : String) (fuel : Nat) :
    Option (Except RuntimeValue (List String)) :=
  Loop.run (ValueWalk.turn heap path) fuel { frames := [valueFrame ⟨schema, value, path⟩] }

def validateJsonSchemaValue (schema value : RuntimeValue) (fuel : Nat)
    (path : String := "value") : Option (Except RuntimeValue (List String)) :=
  checkValue heap schema value path fuel

end CocoHarness.Tools
