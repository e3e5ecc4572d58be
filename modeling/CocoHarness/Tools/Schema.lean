/-
# CocoHarness.Tools.Schema — what a schema of the enforced subset means.

A schema is a tree, and `accepts` is the standard reading of it by recursion: a value of the right type, among the
listed literals, with every required key, each declared property and each item valid, no other key where the object
is closed, and exactly one valid branch of a union.
-/
import CocoHarness.Lib.Json

namespace CocoHarness.Tools

open Lib

/-! ## Literals -/

inductive JsonSchemaScalar where
  | string (s : String)
  | number (n : Number)
  | boolean (b : Bool)
  | null
  deriving DecidableEq

def JsonSchemaScalar.toJson : JsonSchemaScalar → Json
  | string s => .str s
  | number n => .num n
  | boolean b => .bool b
  | null => .null

inductive JsonSchemaScalarType where
  | string
  | number
  | integer
  | boolean
  | null
  deriving DecidableEq

def JsonSchemaScalarType.accepts : JsonSchemaScalarType → Json → Bool
  | .string, .str _ => true
  | .number, .num _ => true
  | .integer, .num (.int _) => true
  | .boolean, .bool _ => true
  | .null, .null => true
  | _, _ => false

/-! ## Schemas -/

/-- A schema; `additional` lets an object have keys that are not declared. -/
inductive Schema where
  | any
  | oneOf (branches : List Schema)
  | object (properties : List (String × Schema)) (required : List String) (additional : Bool)
  | array (items : Option Schema)
  | scalar (type : JsonSchemaScalarType) (allowed : Option (List JsonSchemaScalar))
      (literal : Option JsonSchemaScalar)

namespace Schema

mutual

def accepts : Schema → Json → Bool
  | .any, _ => true
  | .oneOf branches, value => acceptingBranches branches value = 1
  | .object properties required additional, .obj fields =>
    required.all (Json.keys fields).contains && acceptsProperties properties fields
      && (additional || (Json.keys fields).all (properties.map (·.1)).contains)
  | .array items, .arr values => acceptsItems items values
  | .scalar type allowed literal, value =>
    type.accepts value && allowed.all (·.any (·.toJson = value)) && literal.all (·.toJson = value)
  | _, _ => false

def acceptingBranches : List Schema → Json → Nat
  | [], _ => 0
  | branch :: branches, value => (if branch.accepts value then 1 else 0) + acceptingBranches branches value

/-- Whether every declared property that is there satisfies its schema. -/
def acceptsProperties : List (String × Schema) → List (String × Json) → Bool
  | [], _ => true
  | (key, schema) :: properties, fields =>
    (fields.lookup key).all schema.accepts && acceptsProperties properties fields

def acceptsItems : Option Schema → List Json → Bool
  | none, _ => true
  | some items, values => values.all items.accepts

end

/-! ## Each kind of schema -/

@[simp] theorem accepts_any (value : Json) : Schema.any.accepts value = true := by rw [accepts]

theorem acceptingBranches_eq (branches : List Schema) (value : Json) :
    acceptingBranches branches value = branches.countP (·.accepts value) := by
  induction branches with
  | nil => rfl
  | cons branch branches ih =>
    rw [acceptingBranches, ih, List.countP_cons]
    omega

theorem accepts_oneOf (branches : List Schema) (value : Json) :
    (Schema.oneOf branches).accepts value = true ↔ branches.countP (·.accepts value) = 1 := by
  rw [accepts, acceptingBranches_eq, decide_eq_true_iff]

theorem acceptsProperties_iff (properties : List (String × Schema)) (fields : List (String × Json)) :
    acceptsProperties properties fields = true ↔
      ∀ p ∈ properties, ∀ v, fields.lookup p.1 = some v → p.2.accepts v = true := by
  induction properties with
  | nil => exact ⟨fun _ => List.forall_mem_nil _, fun _ => rfl⟩
  | cons p properties ih =>
    rw [acceptsProperties, Bool.and_eq_true, ih, List.forall_mem_cons]
    refine and_congr_left fun _ => ?_
    cases fields.lookup p.1 with
    | none => exact ⟨fun _ => nofun, fun _ => rfl⟩
    | some v => exact ⟨fun h _ hv => Option.some.inj hv ▸ h, fun h => h v rfl⟩

/-- An object has its required keys, valid properties and, where it is closed, no other keys. -/
theorem accepts_object (properties : List (String × Schema)) (required : List String) (additional : Bool)
    (fields : List (String × Json)) :
    (Schema.object properties required additional).accepts (.obj fields) = true ↔
      (∀ key ∈ required, key ∈ Json.keys fields) ∧
      (∀ p ∈ properties, ∀ v, fields.lookup p.1 = some v → p.2.accepts v = true) ∧
      (additional = false → ∀ key ∈ Json.keys fields, key ∈ properties.map (·.1)) := by
  rw [accepts, Bool.and_eq_true, Bool.and_eq_true, acceptsProperties_iff, List.all_eq_true, Bool.or_eq_true,
    List.all_eq_true, and_assoc]
  simp only [List.contains_iff_mem]
  refine and_congr_right fun _ => and_congr_right fun _ => ?_
  cases additional <;> simp

theorem accepts_array (items : Option Schema) (values : List Json) :
    (Schema.array items).accepts (.arr values) = true ↔
      ∀ schema, items = some schema → ∀ value ∈ values, schema.accepts value = true := by
  rw [accepts]
  cases items with
  | none => exact ⟨fun _ => nofun, fun _ => by rw [acceptsItems]⟩
  | some schema =>
    rw [acceptsItems, List.all_eq_true]
    exact ⟨fun h _ hs => Option.some.inj hs ▸ h, fun h => h schema rfl⟩

theorem accepts_scalar (type : JsonSchemaScalarType) (allowed : Option (List JsonSchemaScalar))
    (literal : Option JsonSchemaScalar) (value : Json) :
    (Schema.scalar type allowed literal).accepts value = true ↔ type.accepts value = true ∧
      (∀ ls, allowed = some ls → ∃ l ∈ ls, l.toJson = value) ∧ ∀ l, literal = some l → l.toJson = value := by
  rw [accepts, Bool.and_eq_true, Bool.and_eq_true, and_assoc]
  refine and_congr_right fun _ => and_congr ?_ ?_
  · cases allowed <;> simp
  · cases literal <;> simp

end Schema

end CocoHarness.Tools
