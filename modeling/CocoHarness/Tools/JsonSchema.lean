/-
# CocoHarness.Tools.JsonSchema — which raw schemas the enforced subset accepts.

A raw schema is any runtime value.  `checkSchemaNode` walks it with an explicit stack, and collects a violation for
everything outside the subset: unsupported or misplaced keywords, values of the wrong kind, required names that are
not declared, nodes inside themselves.
-/
import CocoHarness.Lib.Loop
import CocoHarness.SessionLog.LosslessGraph
import CocoHarness.Tools.Schema

namespace CocoHarness.Tools

open Lib SessionLog

/-! ## Vocabulary -/

inductive JsonSchemaType where
  | object
  | array
  | scalar (type : JsonSchemaScalarType)
  deriving DecidableEq

def JsonSchemaScalarType.name : JsonSchemaScalarType → String
  | string => "string"
  | number => "number"
  | integer => "integer"
  | boolean => "boolean"
  | null => "null"

def JsonSchemaType.name : JsonSchemaType → String
  | object => "object"
  | array => "array"
  | scalar type => type.name

def schemaTypes : List JsonSchemaType :=
  [.object, .array, .scalar .string, .scalar .number, .scalar .integer, .scalar .boolean, .scalar .null]

def schemaTypeOf (name : String) : Option JsonSchemaType := schemaTypes.find? (·.name = name)

def constraintKeywords : List String :=
  ["type", "oneOf", "properties", "required", "additionalProperties", "items", "enum", "const"]

def annotationKeywords : List String := ["description", "title", "default", "examples"]

def oneOfSiblingKeywords : List String :=
  ["properties", "required", "additionalProperties", "items", "enum", "const"]

def supportedOn (keyword : String) : JsonSchemaType → Bool
  | .object => keyword ∈ ["properties", "required", "additionalProperties"]
  | .array => keyword = "items"
  | .scalar _ => keyword ∈ ["enum", "const"]

/-- What `assertSupportedJsonSchema` throws: its own error, or what a getter threw. -/
inductive SchemaFailure where
  | jsonSchemaError (violations : List String)
  | threw (error : RuntimeValue)
  deriving DecidableEq

def jsonSchemaErrorText (violations : List String) : String × String :=
  ("unsupported JSON schema: " ++ "; ".intercalate violations, "UNSUPPORTED_SCHEMA")

/-! ## Reading raw values -/

abbrev Properties := List (PropertyKey × Property)

variable (heap : List HeapObject)

/-- A plain record, by its own properties: an object with a plain prototype chain, no array. -/
def plainJsonRecord : RuntimeValue → Option Properties
  | .ref place =>
    match heap[place]? with
    | some (.object chain properties) => if hasPlainObjectPrototype chain then some properties else none
    | _ => none
  | _ => none

/-- An ordinary schema record: a plain record with enumerable string keys only. -/
def jsonSchemaRecord (value : RuntimeValue) : Option Properties :=
  (plainJsonRecord heap value).filter fun properties => (enumerableStringKeys properties).isSome

/-- A dense ordinary array with no JSON-invisible decorations, by its elements. -/
def plainJsonArray : RuntimeValue → Option (List Property)
  | .ref place =>
    match heap[place]? with
    | some (.array chain elements extra) =>
      if hasPlainArrayPrototype chain && ownKeysLength elements extra = elements.length + 1 then
        elements.mapM id
      else none
    | _ => none
  | _ => none

def isArray : RuntimeValue → Bool
  | .ref place =>
    match heap[place]? with
    | some (.array _ _ _) => true
    | _ => false
  | _ => false

variable (properties : Properties)

def hasOwn (key : String) : Bool := (properties.lookup (.string key)).isSome

def readOwn (key : String) : Except RuntimeValue RuntimeValue :=
  match properties.lookup (.string key) with
  | none => .ok .undefined
  | some p => p.value

def objectKeys : List String :=
  properties.filterMap fun
    | (.string key, p) => if p.enumerable then some key else none
    | (.symbol _, _) => none

/-- `Object.entries` of a record: its enumerable own string keys and what they read. -/
def objectEntries : Properties → Except RuntimeValue (List (String × RuntimeValue))
  | [] => .ok []
  | (.symbol _, _) :: properties => objectEntries properties
  | (.string key, p) :: properties =>
    if p.enumerable then do
      let value ← p.value
      let entries ← objectEntries properties
      return (key, value) :: entries
    else objectEntries properties

/-- `isJsonValue`: what the walk of `cch-session` returns (`ObjectGraph.walk_ends`). -/
def isJsonValue (value : RuntimeValue) : Except RuntimeValue Bool :=
  match readJson heap (heap.length + 1) [] value with
  | .ok _ => .ok true
  | .error stop => stop.verdict

/-- Whether the value is lossless JSON; a getter that throws makes it none. -/
def safelyIsJsonValue (value : RuntimeValue) : Bool :=
  match isJsonValue heap value with
  | .ok accepted => accepted
  | .error _ => false

def scalarMatches : JsonSchemaScalarType → RuntimeValue → Bool
  | .string, .str _ => true
  | .number, .num _ => true
  | .integer, .num (.int _) => true
  | .boolean, .bool _ => true
  | .null, .null => true
  | _, _ => false

/-- `array.every(entry => …)`, which reads no further than the first entry that fails. -/
def everyElement (p : RuntimeValue → Bool) : List Property → Except RuntimeValue Bool
  | [] => .ok true
  | element :: elements => do
    let value ← element.value
    if p value then everyElement p elements else return false

def readElements (elements : List Property) : Except RuntimeValue (List RuntimeValue) := elements.mapM (·.value)

/-! ## The walk -/

/-- Deferred work of the schema walk.  A tail keeps the record of its node. -/
inductive SchemaWalkTask where
  | enter (node : RuntimeValue) (path : String)
  | leave (place : Nat)
  | oneOfTail (node : Properties) (path : String)
  | objectTail (node : Properties) (path : String) (properties : RuntimeValue)

structure SchemaWalk where
  tasks : List SchemaWalkTask
  violations : List String := []
  seen : List Nat := []

namespace SchemaWalk

def report (w : SchemaWalk) (violations : List String) : SchemaWalk :=
  { w with violations := w.violations ++ violations }

def push (w : SchemaWalk) (tasks : List SchemaWalkTask) : SchemaWalk := { w with tasks := tasks ++ w.tasks }

end SchemaWalk

def violationIf (c : Bool) (violation : String) : List String := if c then [violation] else []

variable (heap : List HeapObject)

/-- Unsupported keywords of a node, and annotations JSON cannot carry. -/
def keywordViolations (properties : Properties) (path : String) : List String :=
  (objectKeys properties).flatMap fun key =>
    if key ∈ constraintKeywords then []
    else if key ∈ annotationKeywords then
      violationIf (match readOwn properties key with
        | .ok value => !safelyIsJsonValue heap value
        | .error _ => true) s!"{path}.{key} annotation must be lossless JSON data"
    else
      [s!"{path}.{key} is not a supported keyword (subset: " ++
        "type/oneOf/properties/required/additionalProperties/items/enum/const + annotations)"]

def textViolation (properties : Properties) (path key : String) : Except RuntimeValue (List String) :=
  if hasOwn properties key then do
    match ← readOwn properties key with
    | .str _ => return []
    | _ => return [s!"{path}.{key} must be a string"]
  else return []

def misplaced (properties : Properties) (keywords : List String) (violation : String → String) : List String :=
  (keywords.filter (hasOwn properties)).map violation

/-- Validate the required names against the declared properties. -/
def requiredViolations (node : Properties) (path : String)
    (properties : RuntimeValue) : Except RuntimeValue (List String) :=
  if hasOwn node "required" then do
    let required ← readOwn node "required"
    match plainJsonArray heap required with
    | none => return [s!"{path}.required must be an array of strings"]
    | some elements =>
      if ← everyElement (· matches .str _) elements then do
        let declared := (jsonSchemaRecord heap properties).getD []
        let names ← readElements elements
        return names.flatMap fun
          | .str key =>
            violationIf (!hasOwn declared key) s!"{path}.required names \"{key}\" which is not in properties"
          | _ => []
      else return [s!"{path}.required must be an array of strings"]
  else return []

/-- Validate object-only fields after its property schemas have been visited. -/
def checkObjectSchemaTail (node : Properties) (path : String)
    (properties : RuntimeValue) : Except RuntimeValue (List String) := do
  let required ← requiredViolations heap node path properties
  let additional ← readOwn node "additionalProperties"
  return required ++ violationIf (hasOwn node "additionalProperties" && !(additional matches .bool _))
    s!"{path}.additionalProperties must be a boolean"

def literalViolations (node : Properties) (path : String)
    (type : JsonSchemaScalarType) : Except RuntimeValue (List String) := do
  let allowed ← readOwn node "enum"
  let entries := (plainJsonArray heap allowed).getD []
  let enumValid := (plainJsonArray heap allowed).isSome && !entries.isEmpty
    && (← everyElement (scalarMatches type) entries)
  let invalidEnum := violationIf (hasOwn node "enum" && !enumValid)
    s!"{path}.enum must be a non-empty array of {type.name} values"
  if hasOwn node "const" then do
    let declaredConst ← readOwn node "const"
    if !scalarMatches type declaredConst then
      return invalidEnum ++ [s!"{path}.const must be a {type.name} value"]
    else if enumValid then do
      let values ← readElements entries
      return invalidEnum ++ violationIf (!values.contains declaredConst)
        s!"{path}.const must be one of {path}.enum when both are declared"
    else return invalidEnum
  else return invalidEnum

def enterOneOf (w : SchemaWalk) (node : Properties) (path : String) : Except RuntimeValue SchemaWalk := do
  let oneOf ← readOwn node "oneOf"
  let w := w.push [.oneOfTail node path]
  match plainJsonArray heap oneOf with
  | none => return w.report [s!"{path}.oneOf must be an array of at least two schemas"]
  | some elements =>
    if elements.length < 2 then
      return w.report [s!"{path}.oneOf must be an array of at least two schemas"]
    else do
      -- the loop reads the branches from the last to the first
      let branches ← readElements elements.reverse
      return w.push (branches.reverse.mapIdx fun index branch => .enter branch s!"{path}.oneOf[{index}]")

/-- The property schemas of an object node, behind its own tail. -/
def enterObject (w : SchemaWalk) (node : Properties) (path : String) : Except RuntimeValue SchemaWalk := do
  let properties ← readOwn node "properties"
  let w := w.push [.objectTail node path properties]
  if hasOwn node "properties" then
    match jsonSchemaRecord heap properties with
    | none => return w.report [s!"{path}.properties must be an object of schemas"]
    | some declared => do
      let entries ← objectEntries declared
      return w.push (entries.map fun entry => .enter entry.2 s!"{path}.properties.{entry.1}")
  else return w

def enterTyped (w : SchemaWalk) (node : Properties) (path : String) : Except RuntimeValue SchemaWalk := do
  let type ← readOwn node "type"
  match (match type with
    | .str name => schemaTypeOf name
    | _ => none) with
  | none =>
    if isArray heap type then
      return w.report [s!"{path}.type must be a single type string (type arrays are not supported)"]
    else
      let names := "/".intercalate (schemaTypes.map (·.name))
      return w.report [s!"{path}.type must be one of {names}"]
  | some schemaType =>
    let w := w.report (misplaced node (oneOfSiblingKeywords.filter fun key => !supportedOn key schemaType)
      fun key => s!"{path}.{key} is not supported on type \"{schemaType.name}\"")
    match schemaType with
    | .object => enterObject heap w node path
    | .array =>
      if hasOwn node "items" then do
        let items ← readOwn node "items"
        return w.push [.enter items s!"{path}.items"]
      else return w
    | .scalar type => return w.report (← literalViolations heap node path type)

def enterSchemaNode (w : SchemaWalk) (node : RuntimeValue) (path : String) : Except RuntimeValue SchemaWalk :=
  match jsonSchemaRecord heap node, node with
  | some properties, .ref place =>
    if place ∈ w.seen then .ok (w.report [s!"{path} is circular"])
    else do
      let w := { w with seen := place :: w.seen }.push [.leave place]
      let w := w.report (keywordViolations heap properties path)
      let w := w.report (← textViolation properties path "description")
      let w := w.report (← textViolation properties path "title")
      match hasOwn properties "type", hasOwn properties "oneOf" with
      | true, true => return w.report [s!"{path} cannot declare both type and oneOf"]
      | false, false =>
        return w.report (misplaced properties oneOfSiblingKeywords fun key =>
          s!"{path}.{key} requires type or oneOf")
      | false, true => enterOneOf heap w properties path
      | true, false => enterTyped heap w properties path
  | _, _ => .ok (w.report [s!"{path} must be a schema object"])

def SchemaWalk.turn (w : SchemaWalk) : SchemaWalk ⊕ Except RuntimeValue (List String) :=
  match w.tasks with
  | [] => .inr (.ok w.violations)
  | task :: tasks =>
    let w := { w with tasks }
    match task with
    | .leave place => .inl { w with seen := w.seen.filter (· ≠ place) }
    | .oneOfTail node path =>
      .inl (w.report (misplaced node oneOfSiblingKeywords fun key => s!"{path}.{key} is not supported beside oneOf"))
    | .objectTail node path properties =>
      match checkObjectSchemaTail heap node path properties with
      | .error error => .inr (.error error)
      | .ok violations => .inl (w.report violations)
    | .enter node path =>
      match enterSchemaNode heap w node path with
      | .error error => .inr (.error error)
      | .ok w => .inl w

def checkSchemaNode (root : RuntimeValue) (rootPath : String) (fuel : Nat) :
    Option (Except RuntimeValue (List String)) :=
  Loop.run (SchemaWalk.turn heap) fuel { tasks := [.enter root rootPath] }

/-- Assert that an arbitrary raw schema uses only the enforced subset. -/
def assertSupportedJsonSchema (schema : RuntimeValue) (fuel : Nat) : Option (Except SchemaFailure Unit) :=
  (checkSchemaNode heap schema "schema" fuel).map fun
    | .error error => .error (.threw error)
    | .ok violations => if violations.isEmpty then .ok () else .error (.jsonSchemaError violations)

end CocoHarness.Tools
