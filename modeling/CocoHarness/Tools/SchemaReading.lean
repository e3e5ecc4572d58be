/-
# CocoHarness.Tools.SchemaReading — an accepted raw schema is a finite tree.

`Reads` says which `Schema` a raw value stands for, in the terms in which the validator reads it.  A walk that ends
without a violation has met no node that is none, has run the tail of each node behind its children, and so leaves a
reading behind for everything it entered (`reads_of_run`).
-/
import CocoHarness.Lib.Fallible
import CocoHarness.Tools.JsonSchema

namespace CocoHarness.Tools

open Lib SessionLog List SchemaWalk Except

variable {heap : List HeapObject}

/-! ## Readings -/

def JsonSchemaScalar.toRuntime : JsonSchemaScalar → RuntimeValue
  | string s => .str s
  | number n => .num n
  | boolean b => .bool b
  | null => .null

/-- Own properties of an object; a value of another kind has none. -/
def propertiesOf (heap : List HeapObject) : RuntimeValue → Properties
  | .ref place =>
    match heap[place]? with
    | some (.object _ properties) => properties
    | _ => []
  | _ => []

/-- The elements of an array, a hole reading as `undefined`; another value has none. -/
def elementsOf (heap : List HeapObject) : RuntimeValue → Except RuntimeValue (List RuntimeValue)
  | .ref place =>
    match heap[place]? with
    | some (.array _ elements _) => elements.mapM fun
      | none => .ok .undefined
      | some element => element.value
    | _ => .ok []
  | _ => .ok []

def ReadsAllowed (heap : List HeapObject) (node : Properties) (allowed : Option (List JsonSchemaScalar)) : Prop :=
  match allowed with
  | none => readOwn node "enum" = .ok .undefined
  | some literals => ∃ array, readOwn node "enum" = .ok array ∧ array ≠ .undefined ∧
      elementsOf heap array = .ok (literals.map (·.toRuntime))

def ReadsLiteral (node : Properties) (literal : Option JsonSchemaScalar) : Prop :=
  match literal with
  | none => hasOwn node "const" = false
  | some literal => hasOwn node "const" = true ∧ readOwn node "const" = .ok literal.toRuntime

mutual

inductive Reads (heap : List HeapObject) : RuntimeValue → Schema → Prop where
  | any {place : Nat} {node : Properties} (hnode : propertiesOf heap (.ref place) = node)
      (htype : readOwn node "type" = .ok .undefined) (honeOf : readOwn node "oneOf" = .ok .undefined) :
      Reads heap (.ref place) .any
  | oneOf {place : Nat} {node : Properties} {array : RuntimeValue} {values : List RuntimeValue}
      {branches : List Schema} (hnode : propertiesOf heap (.ref place) = node)
      (htype : readOwn node "type" = .ok .undefined) (honeOf : readOwn node "oneOf" = .ok array)
      (harray : array ≠ .undefined) (hvalues : elementsOf heap array = .ok values)
      (hbranches : ReadsAll heap values branches) : Reads heap (.ref place) (.oneOf branches)
  | object {place : Nat} {node : Properties} {declared required additional : RuntimeValue}
      {entries : List (String × RuntimeValue)} {schemas : List Schema} {names : List String}
      (hnode : propertiesOf heap (.ref place) = node)
      (htype : readOwn node "type" = .ok (.str "object")) (honeOf : readOwn node "oneOf" = .ok .undefined)
      (hdeclared : readOwn node "properties" = .ok declared)
      (hentries : objectEntries (propertiesOf heap declared) = .ok entries)
      (hkeys : ∀ key, hasOwn (propertiesOf heap declared) key = true ↔ key ∈ entries.map (·.1))
      (hschemas : ReadsAll heap (entries.map (·.2)) schemas)
      (hrequired : readOwn node "required" = .ok required)
      (hnames : elementsOf heap required = .ok (names.map .str))
      (hadditional : readOwn node "additionalProperties" = .ok additional) :
      Reads heap (.ref place)
        (.object ((entries.map (·.1)).zip schemas) names (additional ≠ .bool false))
  | arrayAny {place : Nat} {node : Properties} (hnode : propertiesOf heap (.ref place) = node)
      (htype : readOwn node "type" = .ok (.str "array")) (honeOf : readOwn node "oneOf" = .ok .undefined)
      (hitems : readOwn node "items" = .ok .undefined) : Reads heap (.ref place) (.array none)
  | array {place : Nat} {node : Properties} {items : RuntimeValue} {schema : Schema}
      (hnode : propertiesOf heap (.ref place) = node) (htype : readOwn node "type" = .ok (.str "array"))
      (honeOf : readOwn node "oneOf" = .ok .undefined) (hitems : readOwn node "items" = .ok items)
      (hschema : Reads heap items schema) : Reads heap (.ref place) (.array (some schema))
  | scalar {place : Nat} {node : Properties} {type : JsonSchemaScalarType}
      {allowed : Option (List JsonSchemaScalar)} {literal : Option JsonSchemaScalar}
      (hnode : propertiesOf heap (.ref place) = node) (htype : readOwn node "type" = .ok (.str type.name))
      (honeOf : readOwn node "oneOf" = .ok .undefined) (hallowed : ReadsAllowed heap node allowed)
      (hliteral : ReadsLiteral node literal) : Reads heap (.ref place) (.scalar type allowed literal)

inductive ReadsAll (heap : List HeapObject) : List RuntimeValue → List Schema → Prop where
  | nil : ReadsAll heap [] []
  | cons {value : RuntimeValue} {schema : Schema} {values : List RuntimeValue} {schemas : List Schema}
      (hhead : Reads heap value schema) (htail : ReadsAll heap values schemas) :
      ReadsAll heap (value :: values) (schema :: schemas)

end

variable {value : RuntimeValue}

theorem Reads.ne_undefined {schema : Schema} (h : Reads heap value schema) : value ≠ .undefined := by
  cases h <;> exact nofun

/-! ## Records and arrays -/

variable {properties : Properties}

theorem propertiesOf_record {node : RuntimeValue} (h : jsonSchemaRecord heap node = some properties) :
    (∃ place, node = .ref place) ∧
      propertiesOf heap node = properties ∧ (enumerableStringKeys properties).isSome = true := by
  obtain ⟨hrecord, hkeys⟩ := Option.filter_eq_some_iff.mp h
  unfold plainJsonRecord at hrecord
  split at hrecord
  · next place =>
    split at hrecord
    · next chain properties' hobject =>
      split at hrecord
      · cases hrecord
        refine ⟨⟨place, rfl⟩, ?_, hkeys⟩
        unfold propertiesOf
        dsimp only
        rw [hobject]
      · cases hrecord
    · cases hrecord
  · cases hrecord

theorem readOwn_of_absent {key : String} (h : hasOwn properties key = false) :
    readOwn properties key = .ok .undefined := by
  unfold readOwn
  unfold hasOwn at h
  rw [Option.isSome_eq_false_iff, Option.isNone_iff_eq_none] at h
  rw [h]

variable {α : Type}

theorem map_some_of_mapM {slots : List (Option α)} {elements : List α}
    (h : slots.mapM id = some elements) : slots = elements.map some := by
  induction slots generalizing elements with
  | nil =>
    cases h
    rfl
  | cons slot slots ih =>
    rw [mapM_cons] at h
    obtain ⟨element, hslot, h⟩ := Option.bind_eq_some_iff.mp h
    obtain ⟨more, hmore, h⟩ := Option.bind_eq_some_iff.mp h
    cases h
    rw [map_cons, ← ih hmore, show slot = some element from hslot]

variable {elements : List Property} {array : RuntimeValue}

theorem elementsOf_plain (h : plainJsonArray heap array = some elements) :
    elementsOf heap array = readElements elements ∧ array ≠ .undefined := by
  unfold plainJsonArray at h
  split at h
  · next place =>
    split at h
    · next chain slots extra hobject =>
      split at h
      · refine ⟨?_, nofun⟩
        have hslots := map_some_of_mapM h
        unfold elementsOf readElements
        dsimp only
        rw [hobject]
        dsimp only
        rw [hslots, mapM_map]
        rfl
      · cases h
    · cases h
  · cases h

theorem keys_of_objectEntries {entries : List (String × RuntimeValue)}
    (henumerable : (enumerableStringKeys properties).isSome = true)
    (h : objectEntries properties = .ok entries) (key : String) :
    hasOwn properties key = true ↔ key ∈ entries.map (·.1) := by
  induction properties generalizing entries with
  | nil =>
    cases h
    constructor
    · intro hown
      cases hown
    · intro hkey
      cases hkey
  | cons q properties ih =>
    obtain ⟨name | number, p⟩ := q
    · rw [enumerableStringKeys] at henumerable
      split at henumerable
      · next hp =>
        rw [objectEntries, if_pos hp] at h
        obtain ⟨value, -, h⟩ := bind_eq_ok_iff.mp h
        obtain ⟨more, hmore, h⟩ := bind_eq_ok_iff.mp h
        cases h
        rw [Option.isSome_map] at henumerable
        have ih' := ih henumerable hmore
        rw [map_cons, mem_cons, ← ih']
        unfold hasOwn
        rw [lookup_cons]
        by_cases heq : key = name
        · simp [heq]
        · have hne : (PropertyKey.string key == PropertyKey.string name) = false := by simpa using heq
          rw [hne]
          simp [heq]
      · cases henumerable
    · cases henumerable

/-! ## Scalars -/

variable {type : JsonSchemaScalarType}

theorem exists_literal (h : scalarMatches type value = true) :
    ∃ literal : JsonSchemaScalar, literal.toRuntime = value := by
  cases value with
  | null => exact ⟨.null, rfl⟩
  | bool b => exact ⟨.boolean b, rfl⟩
  | num n => exact ⟨.number n, rfl⟩
  | str s => exact ⟨.string s, rfl⟩
  | undefined | unserializableNumber | other | ref _ => cases type <;> cases h

theorem exists_literals (h : everyElement (scalarMatches type) elements = .ok true) :
    ∃ literals : List JsonSchemaScalar, readElements elements = .ok (literals.map (·.toRuntime)) := by
  induction elements with
  | nil => exact ⟨[], rfl⟩
  | cons element elements ih =>
    obtain ⟨value, hvalue, h⟩ := bind_eq_ok_iff.mp h
    split at h
    · next hmatches =>
      obtain ⟨literal, rfl⟩ := exists_literal hmatches
      obtain ⟨literals, hliterals⟩ := ih h
      refine ⟨literal :: literals, ?_⟩
      unfold readElements at hliterals ⊢
      rw [mapM_cons, hvalue, ok_bind, hliterals]
      rfl
    · cases h

theorem violationIf_eq_nil_iff {c : Bool} {violation : String} : violationIf c violation = [] ↔ c = false := by
  cases c <;> simp [violationIf]

theorem allowed_of_clean {node : Properties} {valid : Bool} (harray : readOwn node "enum" = .ok array)
    (hvalid : everyElement (scalarMatches type) ((plainJsonArray heap array).getD []) = .ok valid)
    (hclean : (hasOwn node "enum" && !((plainJsonArray heap array).isSome &&
      !((plainJsonArray heap array).getD []).isEmpty && valid)) = false) :
    ∃ allowed, ReadsAllowed heap node allowed := by
  cases hown : hasOwn node "enum" with
  | false => exact ⟨none, readOwn_of_absent hown⟩
  | true =>
    rw [hown] at hclean
    cases hplain : plainJsonArray heap array with
    | none =>
      rw [hplain] at hclean
      cases hclean
    | some elements =>
      rw [hplain] at hclean hvalid
      have hall : valid = true := by
        cases valid with
        | false => simp at hclean
        | true => rfl
      subst hall
      obtain ⟨literals, hliterals⟩ := exists_literals hvalid
      obtain ⟨helements, hdefined⟩ := elementsOf_plain hplain
      exact ⟨some literals, array, harray, hdefined, helements.trans hliterals⟩

theorem literals_of_clean {node : Properties} {path : String} (h : literalViolations heap node path type = .ok []) :
    ∃ allowed literal, ReadsAllowed heap node allowed ∧ ReadsLiteral node literal := by
  unfold literalViolations at h
  obtain ⟨array, harray, h⟩ := bind_eq_ok_iff.mp h
  dsimp only at h
  obtain ⟨valid, hvalid, h⟩ := bind_eq_ok_iff.mp h
  cases hconst : hasOwn node "const" with
  | false =>
    rw [hconst, if_neg Bool.false_ne_true] at h
    have hclean := violationIf_eq_nil_iff.mp (ok.inj h)
    obtain ⟨allowed, hallowed⟩ := allowed_of_clean harray hvalid hclean
    exact ⟨allowed, none, hallowed, hconst⟩
  | true =>
    rw [hconst, if_pos rfl] at h
    obtain ⟨declared, hdeclared, h⟩ := bind_eq_ok_iff.mp h
    split at h
    · have hnil := ok.inj h
      simp at hnil
    · next hmatches =>
      have hfits : scalarMatches type declared = true := by simpa using hmatches
      obtain ⟨literal, hliteral⟩ := exists_literal hfits
      have hreads : ReadsLiteral node (some literal) := ⟨hconst, hliteral ▸ hdeclared⟩
      have hclean : (hasOwn node "enum" && !((plainJsonArray heap array).isSome &&
          !((plainJsonArray heap array).getD []).isEmpty && valid)) = false := by
        split at h
        · obtain ⟨values, -, h⟩ := bind_eq_ok_iff.mp h
          exact violationIf_eq_nil_iff.mp (append_eq_nil_iff.mp (ok.inj h)).1
        · exact violationIf_eq_nil_iff.mp (ok.inj h)
      obtain ⟨allowed, hallowed⟩ := allowed_of_clean harray hvalid hclean
      exact ⟨allowed, some literal, hallowed, hreads⟩

/-! ## Object nodes -/

theorem exists_names (h : everyElement (· matches .str _) elements = .ok true) :
    ∃ names : List String, readElements elements = .ok (names.map .str) := by
  induction elements with
  | nil => exact ⟨[], rfl⟩
  | cons element elements ih =>
    obtain ⟨value, hvalue, h⟩ := bind_eq_ok_iff.mp h
    split at h
    · next hmatches =>
      obtain ⟨names, hnames⟩ := ih h
      cases value with
      | str name =>
        refine ⟨name :: names, ?_⟩
        unfold readElements at hnames ⊢
        rw [mapM_cons, hvalue, ok_bind, hnames]
        rfl
      | undefined | null | bool _ | num _ | unserializableNumber | other | ref _ => cases hmatches
    · cases h

theorem required_of_clean {node : Properties} {path : String} {properties : RuntimeValue} (h : checkObjectSchemaTail heap node path properties = .ok []) :
    (∃ (required : RuntimeValue) (names : List String), readOwn node "required" = .ok required ∧
      elementsOf heap required = .ok (names.map .str)) ∧
    ∃ additional, readOwn node "additionalProperties" = .ok additional := by
  unfold checkObjectSchemaTail at h
  obtain ⟨violations, hrequired, h⟩ := bind_eq_ok_iff.mp h
  obtain ⟨additional, hadditional, h⟩ := bind_eq_ok_iff.mp h
  obtain ⟨rfl, -⟩ := append_eq_nil_iff.mp (ok.inj h)
  refine ⟨?_, additional, hadditional⟩
  unfold requiredViolations at hrequired
  cases hown : hasOwn node "required" with
  | false => exact ⟨.undefined, [], readOwn_of_absent hown, rfl⟩
  | true =>
    rw [hown, if_pos rfl] at hrequired
    obtain ⟨required, hread, hrequired⟩ := bind_eq_ok_iff.mp hrequired
    refine ⟨required, ?_⟩
    split at hrequired
    · have hnil := ok.inj hrequired
      simp at hnil
    · next elements hplain =>
      obtain ⟨valid, hvalid, hrequired⟩ := bind_eq_ok_iff.mp hrequired
      split at hrequired
      · next htrue =>
        subst htrue
        obtain ⟨names, hnames⟩ := exists_names hvalid
        exact ⟨names, hread, (elementsOf_plain hplain).1.trans hnames⟩
      · have hnil := ok.inj hrequired
        simp at hnil

/-! ## Entering a node -/

def SchemaWalkTask.Clean (heap : List HeapObject) : SchemaWalkTask → Prop
  | .enter _ _ => False
  | .leave _ | .oneOfTail _ _ => True
  | .objectTail node path properties => checkObjectSchemaTail heap node path properties = .ok []

def childTask (child : RuntimeValue × String) : SchemaWalkTask := .enter child.1 child.2

theorem map_mapIdx {β γ : Type} (l : List α) (f : Nat → α → β) (g : β → γ) :
    (l.mapIdx f).map g = l.mapIdx fun i a => g (f i a) := by
  apply ext_getElem?
  intro i
  rw [List.getElem?_map, List.getElem?_mapIdx, List.getElem?_mapIdx, Option.map_map]
  rfl

theorem readElements_reverse {values : List RuntimeValue}
    (h : readElements elements.reverse = .ok values) : readElements elements = .ok values.reverse := by
  unfold readElements at h ⊢
  rw [mapM_eq_ok_iff] at h ⊢
  rwa [← forall₂_reverse_iff, reverse_reverse]

variable {w w' : SchemaWalk} {node : Properties} {path : String}

theorem enterOneOf_clean (h : enterOneOf heap w node path = .ok w') (hclean : w'.violations = []) :
    ∃ (children : List (RuntimeValue × String)) (array : RuntimeValue),
      w'.tasks = children.map childTask ++ (.oneOfTail node path :: w.tasks) ∧
      readOwn node "oneOf" = .ok array ∧ array ≠ .undefined ∧
      elementsOf heap array = .ok (children.map (·.1)) := by
  unfold enterOneOf at h
  obtain ⟨array, harray, h⟩ := bind_eq_ok_iff.mp h
  dsimp only at h
  split at h
  · cases h
    simp [report] at hclean
  · next elements hplain =>
    split at h
    · cases h
      simp [report] at hclean
    · obtain ⟨branches, hbranches, h⟩ := bind_eq_ok_iff.mp h
      cases h
      obtain ⟨helements, hdefined⟩ := elementsOf_plain hplain
      refine ⟨branches.reverse.mapIdx fun index branch => (branch, s!"{path}.oneOf[{index}]"), array, ?_,
        harray, hdefined, ?_⟩
      · show _ = List.map childTask _ ++ _
        rw [map_mapIdx]
        rfl
      · rw [helements, readElements_reverse hbranches, map_mapIdx]
        refine congrArg _ (ext_getElem? fun i => ?_)
        rw [List.getElem?_mapIdx]
        cases branches.reverse[i]? <;> rfl

theorem enterObject_clean (h : enterObject heap w node path = .ok w') (hclean : w'.violations = []) :
    ∃ (children : List (RuntimeValue × String)) (declared : RuntimeValue)
      (entries : List (String × RuntimeValue)),
      w'.tasks = children.map childTask ++ (.objectTail node path declared :: w.tasks) ∧
      children.map (·.1) = entries.map (·.2) ∧ readOwn node "properties" = .ok declared ∧
      objectEntries (propertiesOf heap declared) = .ok entries ∧
      ∀ key, hasOwn (propertiesOf heap declared) key = true ↔ key ∈ entries.map (·.1) := by
  unfold enterObject at h
  obtain ⟨declared, hdeclared, h⟩ := bind_eq_ok_iff.mp h
  dsimp only at h
  cases hown : hasOwn node "properties" with
  | false =>
    rw [hown, if_neg Bool.false_ne_true] at h
    cases h
    cases (readOwn_of_absent hown).symm.trans hdeclared
    refine ⟨[], .undefined, [], rfl, rfl, hdeclared, rfl, fun key => ⟨fun hkey => ?_, fun hkey => ?_⟩⟩
    · cases hkey
    · cases hkey
  | true =>
    rw [hown, if_pos rfl] at h
    split at h
    · cases h
      simp [report] at hclean
    · next properties hrecord =>
      obtain ⟨entries, hentries, h⟩ := bind_eq_ok_iff.mp h
      cases h
      obtain ⟨-, hproperties, henumerable⟩ := propertiesOf_record hrecord
      subst hproperties
      refine ⟨entries.map fun entry => (entry.2, s!"{path}.properties.{entry.1}"), declared, entries, ?_, ?_,
        hdeclared, hentries, keys_of_objectEntries henumerable hentries⟩
      · rw [map_map]
        rfl
      · rw [map_map]
        rfl

theorem schemaTypeOf_name {name : String} {type : JsonSchemaType} (h : schemaTypeOf name = some type) :
    type.name = name := by simpa using List.find?_some h

/-- **Entering a node without a violation**: when its children read as schemas and the work that closes it is clean,
so does it. -/
theorem enterTyped_clean {place : Nat} (hnode : propertiesOf heap (.ref place) = node)
    (honeOf : readOwn node "oneOf" = .ok .undefined) (h : enterTyped heap w node path = .ok w')
    (hclean : w'.violations = []) :
    ∃ (children : List (RuntimeValue × String)) (tail : List SchemaWalkTask),
      w'.tasks = children.map childTask ++ (tail ++ w.tasks) ∧
      (∀ task ∈ tail, ∀ value p, task ≠ .enter value p) ∧
      ∀ schemas, ReadsAll heap (children.map (·.1)) schemas → (∀ task ∈ tail, task.Clean heap) →
        ∃ schema, Reads heap (.ref place) schema := by
  unfold enterTyped at h
  obtain ⟨typeValue, htype, h⟩ := bind_eq_ok_iff.mp h
  dsimp only at h
  split at h
  · split at h
    · cases h
      simp [report] at hclean
    · cases h
      simp [report] at hclean
  · next type hname =>
    have hvalue : typeValue = .str type.name := by
      cases typeValue with
      | str name => rw [schemaTypeOf_name hname]
      | undefined | null | bool _ | num _ | unserializableNumber | other | ref _ => cases hname
    subst hvalue
    cases type with
    | object =>
      obtain ⟨children, declared, entries, htasks, hvalues, hdeclared, hentries, hkeys⟩ := enterObject_clean h hclean
      refine ⟨children, [.objectTail node path declared], htasks, ?_, fun schemas hschemas htail => ?_⟩
      · intro task htask value p
        rw [mem_singleton.mp htask]
        exact nofun
      · have hobject : checkObjectSchemaTail heap node path declared = .ok [] := by
          apply htail (.objectTail node path declared)
          simp
        obtain ⟨⟨required, names, hrequired, hnames⟩, additional, hadditional⟩ := required_of_clean hobject
        rw [hvalues] at hschemas
        exact ⟨_, .object hnode htype honeOf hdeclared hentries hkeys hschemas hrequired hnames hadditional⟩
    | array =>
      dsimp only at h
      cases hown : hasOwn node "items" with
      | false =>
        rw [hown, if_neg Bool.false_ne_true] at h
        cases h
        refine ⟨[], [], rfl, forall_mem_nil _, fun schemas _ _ => ?_⟩
        exact ⟨_, .arrayAny hnode htype honeOf (readOwn_of_absent hown)⟩
      | true =>
        rw [hown, if_pos rfl] at h
        obtain ⟨items, hitems, h⟩ := bind_eq_ok_iff.mp h
        cases h
        refine ⟨[(items, s!"{path}.items")], [], rfl, forall_mem_nil _, fun schemas hschemas _ => ?_⟩
        cases hschemas with
        | cons hhead htail => exact ⟨_, .array hnode htype honeOf hitems hhead⟩
    | scalar type =>
      obtain ⟨violations, hliterals, h⟩ := bind_eq_ok_iff.mp h
      cases h
      obtain ⟨-, rfl⟩ := append_eq_nil_iff.mp hclean
      obtain ⟨allowed, literal, hallowed, hliteral⟩ := literals_of_clean hliterals
      refine ⟨[], [], rfl, forall_mem_nil _, fun schemas _ _ => ?_⟩
      exact ⟨_, .scalar hnode htype honeOf hallowed hliteral⟩

theorem enterSchemaNode_clean (h : enterSchemaNode heap w value path = .ok w') (hclean : w'.violations = []) :
    ∃ (children : List (RuntimeValue × String)) (tail : List SchemaWalkTask),
      w'.tasks = children.map childTask ++ (tail ++ w.tasks) ∧
      (∀ task ∈ tail, ∀ value p, task ≠ .enter value p) ∧
      ∀ schemas, ReadsAll heap (children.map (·.1)) schemas → (∀ task ∈ tail, task.Clean heap) →
        ∃ schema, Reads heap value schema := by
  unfold enterSchemaNode at h
  split at h
  · next properties place hrecord =>
    obtain ⟨-, hproperties, -⟩ := propertiesOf_record hrecord
    split at h
    · cases h
      simp [report] at hclean
    · obtain ⟨description, -, h⟩ := bind_eq_ok_iff.mp h
      obtain ⟨title, -, h⟩ := bind_eq_ok_iff.mp h
      dsimp only at h
      split at h
      · cases h
        simp [report] at hclean
      · next htype honeOf =>
        cases h
        refine ⟨[], [.leave place], rfl, ?_, fun schemas _ _ => ?_⟩
        · intro task htask v p
          rw [mem_singleton.mp htask]
          exact nofun
        · exact ⟨_, .any hproperties (readOwn_of_absent htype) (readOwn_of_absent honeOf)⟩
      · next htype honeOf =>
        obtain ⟨children, array, htasks, harray, hdefined, helements⟩ := enterOneOf_clean h hclean
        refine ⟨children, [.oneOfTail properties path, .leave place], htasks, ?_, fun schemas hschemas _ => ?_⟩
        · intro task htask v p
          rcases mem_cons.mp htask with rfl | htask
          · exact nofun
          · rw [mem_singleton.mp htask]
            exact nofun
        · exact ⟨_, .oneOf hproperties (readOwn_of_absent htype) harray hdefined helements hschemas⟩
      · next htype honeOf =>
        obtain ⟨children, tail, htasks, htail, hreads⟩ :=
          enterTyped_clean hproperties (readOwn_of_absent honeOf) h hclean
        refine ⟨children, tail ++ [.leave place], ?_, ?_, fun schemas hschemas hcleans => ?_⟩
        · rw [htasks, append_assoc]
          rfl
        · intro task htask v p
          rcases mem_append.mp htask with htask | htask
          · exact htail task htask v p
          · rw [mem_singleton.mp htask]
            exact nofun
        · refine hreads schemas hschemas fun task htask => ?_
          exact hcleans task (mem_append_left _ htask)
  · cases h
    simp [report] at hclean

/-! ## Runs -/

theorem grows_of_report {more violations : List String} (h : (w.report more).violations <+: violations) :
    w.violations <+: violations :=
  (prefix_append w.violations more).trans h

theorem enterOneOf_grows (h : enterOneOf heap w node path = .ok w') : w.violations <+: w'.violations := by
  unfold enterOneOf at h
  obtain ⟨array, -, h⟩ := bind_eq_ok_iff.mp h
  dsimp only at h
  split at h
  · cases h
    exact prefix_append _ _
  · split at h
    · cases h
      exact prefix_append _ _
    · obtain ⟨branches, -, h⟩ := bind_eq_ok_iff.mp h
      cases h
      exact prefix_rfl

theorem enterObject_grows (h : enterObject heap w node path = .ok w') : w.violations <+: w'.violations := by
  unfold enterObject at h
  obtain ⟨declared, -, h⟩ := bind_eq_ok_iff.mp h
  dsimp only at h
  split at h
  · split at h
    · cases h
      exact prefix_append _ _
    · obtain ⟨entries, -, h⟩ := bind_eq_ok_iff.mp h
      cases h
      exact prefix_rfl
  · cases h
    exact prefix_rfl

theorem enterTyped_grows (h : enterTyped heap w node path = .ok w') : w.violations <+: w'.violations := by
  unfold enterTyped at h
  obtain ⟨type, -, h⟩ := bind_eq_ok_iff.mp h
  dsimp only at h
  split at h
  · split at h <;> obtain rfl := ok.inj h <;> exact prefix_append _ _
  · split at h
    · exact grows_of_report (enterObject_grows h)
    · split at h
      · obtain ⟨items, -, h⟩ := bind_eq_ok_iff.mp h
        cases h
        exact prefix_append _ _
      · cases h
        exact prefix_append _ _
    · obtain ⟨violations, -, h⟩ := bind_eq_ok_iff.mp h
      cases h
      exact grows_of_report (prefix_append _ _)

theorem enterSchemaNode_grows (h : enterSchemaNode heap w value path = .ok w') : w.violations <+: w'.violations := by
  unfold enterSchemaNode at h
  split at h
  · next properties place hrecord =>
    split at h
    · cases h
      exact prefix_append _ _
    · obtain ⟨description, -, h⟩ := bind_eq_ok_iff.mp h
      obtain ⟨title, -, h⟩ := bind_eq_ok_iff.mp h
      dsimp only at h
      have hlast : ∀ {violations : List String},
          w.violations ++ keywordViolations heap properties path ++ description ++ title <+: violations →
            w.violations <+: violations := by
        intro violations hgrows
        rw [append_assoc, append_assoc] at hgrows
        exact (prefix_append _ _).trans hgrows
      split at h
      · cases h
        exact hlast (prefix_append _ _)
      · cases h
        exact hlast (prefix_append _ _)
      · exact hlast (enterOneOf_grows h)
      · exact hlast (enterTyped_grows h)
  · cases h
    exact prefix_append _ _

theorem turn_grows (h : w.turn heap = .inl w') : w.violations <+: w'.violations := by
  unfold turn at h
  split at h
  · cases h
  · next task tasks htasks =>
    dsimp only at h
    split at h
    · cases h
      exact prefix_rfl
    · cases h
      exact prefix_append _ _
    · split at h
      · cases h
      · cases h
        exact prefix_append _ _
    · split at h
      · cases h
      · next hentered =>
        cases h
        have hgrows := enterSchemaNode_grows hentered
        exact hgrows

def Accepts (heap : List HeapObject) (n : Nat) (w : SchemaWalk) : Prop :=
  Loop.run (SchemaWalk.turn heap) n w = some (.ok [])

variable {n : Nat}

theorem Accepts.clean (h : Accepts heap n w) : w.violations = [] := by
  induction n generalizing w with
  | zero => cases h
  | succ n ih =>
    rcases Loop.run_cases h with ⟨w', m, hturn, hm, hrun⟩ | hend
    · obtain rfl : n = m := by omega
      have hnext := turn_grows hturn
      rw [ih hrun] at hnext
      exact prefix_nil.mp hnext
    · unfold turn at hend
      split at hend
      · exact ok.inj (Sum.inr.inj hend)
      · dsimp only at hend
        split at hend
        · cases hend
        · cases hend
        · split at hend
          · cases Sum.inr.inj hend
          · cases hend
        · split at hend
          · cases Sum.inr.inj hend
          · cases hend

variable {tasks : List SchemaWalkTask}

theorem Accepts.enter (h : Accepts heap n w) (htasks : w.tasks = .enter value path :: tasks) :
    ∃ w' m, n = m + 1 ∧ enterSchemaNode heap { w with tasks } value path = .ok w' ∧ Accepts heap m w' := by
  rcases Loop.run_cases h with ⟨w', m, hturn, hm, hrun⟩ | hend
  · refine ⟨w', m, hm, ?_, hrun⟩
    unfold turn at hturn
    rw [htasks] at hturn
    dsimp only at hturn
    split at hturn
    · cases hturn
    · next hentered =>
      cases hturn
      exact hentered
  · unfold turn at hend
    rw [htasks] at hend
    dsimp only at hend
    split at hend
    · cases Sum.inr.inj hend
    · cases hend

/-- A clean walk does one piece of closing work cleanly, and goes on. -/
theorem Accepts.close {task : SchemaWalkTask}
    (h : Accepts heap n w) (htasks : w.tasks = task :: tasks) (hnot : ∀ value p, task ≠ .enter value p) :
    task.Clean heap ∧ ∃ w' m, m ≤ n ∧ w'.tasks = tasks ∧ Accepts heap m w' := by
  rcases Loop.run_cases h with ⟨w', m, hturn, hm, hrun⟩ | hend
  · unfold turn at hturn
    rw [htasks] at hturn
    cases task with
    | enter value p => exact absurd rfl (hnot value p)
    | leave place | oneOfTail node path =>
      cases hturn
      exact ⟨trivial, _, m, by omega, rfl, hrun⟩
    | objectTail node path properties =>
      dsimp only at hturn
      split at hturn
      · cases hturn
      · next violations hviolations =>
        cases hturn
        -- what the tail pushes would still be there at the end
        obtain ⟨-, rfl⟩ := append_eq_nil_iff.mp (Accepts.clean hrun)
        exact ⟨hviolations, _, m, by omega, rfl, hrun⟩
  · unfold turn at hend
    rw [htasks] at hend
    cases task with
    | enter value p => exact absurd rfl (hnot value p)
    | leave place | oneOfTail node path => cases hend
    | objectTail node path properties =>
      dsimp only at hend
      split at hend
      · cases Sum.inr.inj hend
      · cases hend

theorem Accepts.tail {tail : List SchemaWalkTask} : ∀ {n : Nat} {w : SchemaWalk}
    {tasks : List SchemaWalkTask}, Accepts heap n w → w.tasks = tail ++ tasks →
    (∀ task ∈ tail, ∀ value p, task ≠ .enter value p) →
    (∀ task ∈ tail, task.Clean heap) ∧ ∃ w' m, m ≤ n ∧ w'.tasks = tasks ∧ Accepts heap m w' := by
  induction tail with
  | nil =>
    intro n w tasks h htasks _
    exact ⟨forall_mem_nil _, w, n, le_rfl, htasks, h⟩
  | cons task tail ih =>
    intro n w tasks h htasks hnot
    have hnext : task.Clean heap ∧ ∃ w' m, m ≤ n ∧ w'.tasks = tail ++ tasks ∧ Accepts heap m w' :=
      h.close htasks (hnot task mem_cons_self)
    obtain ⟨hclean, w', m, hm, hw', haccepts⟩ := hnext
    obtain ⟨hcleans, w'', k, hk, hw'', haccepts'⟩ :=
      ih haccepts hw' fun task htask => hnot task (mem_cons_of_mem _ htask)
    exact ⟨forall_mem_cons.mpr ⟨hclean, hcleans⟩, w'', k, hk.trans hm, hw'', haccepts'⟩

/-- **What the walk enters reads as a schema**, and the walk goes on behind it. -/
theorem reads_of_enter : ∀ (n : Nat) {w : SchemaWalk} {value : RuntimeValue} {path : String}
    {tasks : List SchemaWalkTask}, Accepts heap n w → w.tasks = .enter value path :: tasks →
    (∃ schema, Reads heap value schema) ∧ ∃ w' m, m < n ∧ w'.tasks = tasks ∧ Accepts heap m w' := by
  intro n
  induction n using Nat.strongRecOn with
  | ind n ih =>
    intro w value path tasks h htasks
    obtain ⟨w', m, rfl, hentered, hrun⟩ := h.enter htasks
    obtain ⟨children, tail, htasks', htail, hreads⟩ := enterSchemaNode_clean hentered hrun.clean
    -- the children are entered within fewer turns
    have hchildren : ∀ (children : List (RuntimeValue × String)) (k : Nat) (w : SchemaWalk)
        (rest : List SchemaWalkTask), k ≤ m → Accepts heap k w → w.tasks = children.map childTask ++ rest →
        (∃ schemas, ReadsAll heap (children.map (·.1)) schemas) ∧
          ∃ w' l, l ≤ k ∧ w'.tasks = rest ∧ Accepts heap l w' := by
      intro children
      induction children with
      | nil =>
        intro k w rest _ haccepts hw
        exact ⟨⟨[], .nil⟩, w, k, le_rfl, hw, haccepts⟩
      | cons child children ihc =>
        intro k w rest hk haccepts hw
        obtain ⟨⟨schema, hschema⟩, w₁, k₁, hk₁, hw₁, haccepts₁⟩ := ih k (by omega) haccepts hw
        obtain ⟨⟨schemas, hschemas⟩, w₂, k₂, hk₂, hw₂, haccepts₂⟩ := ihc k₁ w₁ rest (by omega) haccepts₁ hw₁
        exact ⟨⟨schema :: schemas, .cons hschema hschemas⟩, w₂, k₂, by omega, hw₂, haccepts₂⟩
    obtain ⟨⟨schemas, hschemas⟩, w₁, k₁, hk₁, hw₁, haccepts₁⟩ := hchildren children m w' _ le_rfl hrun htasks'
    obtain ⟨hcleans, w₂, k₂, hk₂, hw₂, haccepts₂⟩ := haccepts₁.tail hw₁ htail
    exact ⟨hreads schemas hschemas hcleans, w₂, k₂, by omega, hw₂, haccepts₂⟩

/-- **An accepted raw schema reads as a schema.** -/
theorem reads_of_accepted {schema : RuntimeValue} {fuel : Nat}
    (h : assertSupportedJsonSchema heap schema fuel = some (.ok ())) : ∃ tree, Reads heap schema tree := by
  obtain ⟨result, hresult, h⟩ := Option.map_eq_some_iff.mp h
  have haccepts : Accepts heap fuel { tasks := [.enter schema "schema"] } := by
    cases result with
    | error e => cases h
    | ok violations =>
      cases violations with
      | nil => exact hresult
      | cons _ _ => cases h
  exact (reads_of_enter fuel haccepts rfl).1

end CocoHarness.Tools
