/-
# CocoHarness.Tools.ValidatorRuns — the validator computes the recursive reading.

`Evaluates` is the rule a frame keeps: pushed on any stack, for any value, it comes to a result that goes
to the frame below, and the result is empty exactly when the value is good.  A frame whose children keep
the rule keeps it (`results_of_children` for the loop, one lemma for each kind of node), and so every
node that reads as a schema keeps it for the values the schema accepts (`evaluates_of_reads`), by
induction on the reading.
-/
import CocoHarness.Tools.SchemaValidator

namespace CocoHarness.Tools

open Lib SessionLog List ValueWalk Schema
open Loop (Leads Ends)

/-! ## Lossless values -/

section Lossless

variable {g : ObjectGraph} {value : RuntimeValue}

def graphAt (g : ObjectGraph) {value : RuntimeValue} {j : Json} (h : Lossless g.objects 0 value j) : ObjectGraph :=
  { g with
    root := value
    rooted := by
      rintro place rfl
      cases h with
      | array _ hobject => exact (List.getElem?_eq_some_iff.mp hobject).1
      | object _ hobject => exact (List.getElem?_eq_some_iff.mp hobject).1 }

/-- **What `isJsonValue` accepts is lossless JSON.** -/
theorem safelyIsJsonValue_iff : safelyIsJsonValue g.objects value = true ↔ ∃ j, Lossless g.objects 0 value j := by
  unfold safelyIsJsonValue isJsonValue
  constructor
  · intro h
    cases hread : readJson g.objects (g.objects.length + 1) [] value with
    | ok j => exact ⟨j, lossless_of_readJson hread⟩
    | error stop =>
      rw [hread] at h
      cases stop <;> cases h
  · rintro ⟨j, hj⟩
    have hread : readJson g.objects (g.objects.length + 1) [] value = .ok j := (graphAt g hj).reading_eq hj
    rw [hread]

variable {heap : List HeapObject}

theorem readOwn_cons (name : String) (p : Property) (properties : Properties) (key : String) :
    readOwn ((.string name, p) :: properties) key = if key = name then p.value else readOwn properties key := by
  unfold readOwn
  rw [lookup_cons]
  by_cases heq : key = name
  · rw [if_pos heq, heq, beq_self_eq_true]
  · have hne : (PropertyKey.string key == PropertyKey.string name) = false := by simpa using heq
    rw [if_neg heq, hne]

variable {properties : Properties} {fields : List (String × Json)}

theorem readOwn_of_lossless (h : LosslessFields heap 0 properties fields) (key : String) :
    (readOwn properties key = .ok .undefined ∧ fields.lookup key = none) ∨
      ∃ v j, readOwn properties key = .ok v ∧ v ≠ .undefined ∧ Lossless heap 0 v j ∧ fields.lookup key = some j := by
  induction properties generalizing fields with
  | nil =>
    cases h
    exact Or.inl ⟨rfl, rfl⟩
  | cons q properties ih =>
    cases h with
    | @cons name p v j _ fs _ hvalue hhead htail =>
      rw [readOwn_cons, lookup_cons]
      by_cases heq : key = name
      · subst heq
        rw [if_pos rfl, beq_self_eq_true]
        refine Or.inr ⟨v, j, hvalue, ?_, hhead, rfl⟩
        rintro rfl
        cases hhead
      · have hne : (key == name) = false := by simpa using heq
        rw [if_neg heq, hne]
        exact ih htail

theorem objectKeys_of_lossless
    (h : LosslessFields heap 0 properties fields) : objectKeys properties = Json.keys fields := by
  induction properties generalizing fields with
  | nil =>
    cases h
    rfl
  | cons q properties ih =>
    cases h with
    | @cons name p v j _ fs henumerable hvalue hhead htail =>
      show filterMap _ _ = name :: Json.keys fs
      rw [← ih htail]
      simp [objectKeys, henumerable]

theorem lookup_isSome_iff {key : String} : (∃ j, fields.lookup key = some j) ↔ key ∈ Json.keys fields := by
  induction fields with
  | nil =>
    constructor
    · rintro ⟨j, hj⟩
      cases hj
    · intro h
      cases h
  | cons f fields ih =>
    obtain ⟨name, v⟩ := f
    show _ ↔ key ∈ name :: Json.keys fields
    rw [lookup_cons, mem_cons, ← ih]
    by_cases heq : key = name
    · simp [heq]
    · have hne : (key == name) = false := by simpa using heq
      simp [hne, heq]

theorem plainJsonRecord_of_lossless (h : Lossless heap 0 value (.obj fields)) :
    ∃ properties, plainJsonRecord heap value = some properties ∧ LosslessFields heap 0 properties fields := by
  cases h with
  | @object place chain properties _ _ hobject hplain hitems =>
    refine ⟨properties, ?_, hitems⟩
    unfold plainJsonRecord
    dsimp only
    rw [hobject]
    dsimp only
    rw [if_pos hplain]

theorem slotsOf_of_lossless {values : List Json} (h : Lossless heap 0 value (.arr values)) :
    isArray heap value = true ∧ LosslessElements heap 0 (slotsOf heap value) values := by
  cases h with
  | @array place chain elements _ _ hobject hplain hitems =>
    unfold isArray slotsOf
    dsimp only
    rw [hobject]
    exact ⟨rfl, hitems⟩

end Lossless

/-! ## Good values -/

def Good (g : ObjectGraph) (schema : Schema) (value : RuntimeValue) : Prop :=
  ∃ j, Lossless g.objects 0 value j ∧ schema.accepts j = true

theorem good_iff {g : ObjectGraph} {value : RuntimeValue} {schema : Schema} {j : Json}
    (h : Lossless g.objects 0 value j) : Good g schema value ↔ schema.accepts j = true := by
  constructor
  · rintro ⟨j', hj', haccepts⟩
    rwa [h.unique hj']
  · intro haccepts
    exact ⟨j, h, haccepts⟩

/-! ## The rule of a frame -/

/-- On any stack a frame comes to a result, which is empty exactly when the value is good. -/
def Evaluates (heap : List HeapObject) (rootPath : String) (node : RuntimeValue) (good : RuntimeValue → Prop) : Prop :=
  ∀ (value : RuntimeValue) (path : String) (w : ValueWalk), ∃ result,
    Leads (ValueWalk.turn heap rootPath) { w with frames := valueFrame ⟨node, value, path⟩ :: w.frames }
      (w.receive result) ∧ (result = [] ↔ good value)

variable {heap : List HeapObject} {rootPath : String}

/-- A child of a frame keeps the rule, and its value is good when `good` says so. -/
def ChildEvaluates (heap : List HeapObject) (rootPath : String) (child : ValueChild) (good : Prop) : Prop :=
  ∃ p, Evaluates heap rootPath child.node p ∧ (p child.value ↔ good)

variable {frame : ValueFrame}

theorem turn_child {child : ValueChild} (w : ValueWalk) (hphase : frame.phase = .children)
    (hchild : frame.children[frame.childIndex]? = some child) :
    turn heap rootPath { w with frames := frame :: w.frames } = .inl { w with
          frames := valueFrame child :: { frame with childIndex := frame.childIndex + 1 } :: w.frames } := by
  unfold turn
  dsimp only
  rw [hphase]
  dsimp only
  rw [hchild]

theorem turn_finish (w : ValueWalk) (hphase : frame.phase = .children)
    (hdone : frame.children.length ≤ frame.childIndex) :
    turn heap rootPath { w with frames := frame :: w.frames } = .inl (w.receive (frame.finish heap)) := by
  unfold turn
  dsimp only
  rw [hphase]
  dsimp only
  rw [getElem?_eq_none hdone]

theorem receive_childIndex (frame : ValueFrame) (n : Nat) (result : List String) :
    ({ frame with childIndex := n } : ValueFrame).receive result = { frame.receive result with childIndex := n } := by
  unfold ValueFrame.receive
  dsimp only
  split
  · split <;> rfl
  · rfl

theorem foldl_childIndex (results : List (List String)) (n : Nat) : ∀ frame : ValueFrame,
    results.foldl ValueFrame.receive { frame with childIndex := n }
      = { results.foldl ValueFrame.receive frame with childIndex := n } := by
  induction results with
  | nil => exact fun _ => rfl
  | cons result results ih =>
    intro frame
    rw [foldl_cons, foldl_cons, receive_childIndex, ih]

theorem receive_frame (frame : ValueFrame) (result : List String) :
    (frame.receive result).phase = frame.phase ∧ (frame.receive result).children = frame.children ∧
      (frame.receive result).childIndex = frame.childIndex := by
  unfold ValueFrame.receive
  split
  · split <;> exact ⟨rfl, rfl, rfl⟩
  · exact ⟨rfl, rfl, rfl⟩

/-- **The loop over the children** takes one result of each in, and finishes the frame. -/
theorem results_of_children {goods : List Prop} : ∀ {children : List ValueChild} {frame : ValueFrame}
    (w : ValueWalk), frame.phase = .children → frame.children.drop frame.childIndex = children →
    Forall₂ (ChildEvaluates heap rootPath) children goods →
    ∃ results : List (List String), Forall₂ (fun result good => result = [] ↔ good) results goods ∧
      Leads (turn heap rootPath) { w with frames := frame :: w.frames }
        (w.receive ((results.foldl ValueFrame.receive frame).finish heap)) := by
  induction goods with
  | nil =>
    intro children frame w hphase hdrop hchildren
    cases hchildren
    exact ⟨[], .nil, .step (turn_finish w hphase (drop_eq_nil_iff.mp hdrop))⟩
  | cons good goods ih =>
    intro children frame w hphase hdrop hchildren
    cases hchildren with
    | @cons child _ children _ hchild hchildren =>
      obtain ⟨p, heval, hp⟩ := hchild
      have hlt : frame.childIndex < frame.children.length := by
        by_contra hge
        rw [drop_eq_nil_iff.mpr (not_lt.mp hge)] at hdrop
        cases hdrop
      rw [drop_eq_getElem_cons hlt] at hdrop
      obtain ⟨hhead, htail⟩ := cons.inj hdrop
      have hget : frame.children[frame.childIndex]? = some child := by rw [getElem?_eq_getElem hlt, hhead]
      -- the child's frame comes to a result, which the frame takes in
      let next : ValueFrame := { frame with childIndex := frame.childIndex + 1 }
      obtain ⟨result, hleads, hresult⟩ := heval child.value child.path { w with frames := next :: w.frames }
      obtain ⟨hphase', hchildren', hindex'⟩ := receive_frame next result
      obtain ⟨results, hresults, hrest⟩ := @ih children (next.receive result) w (hphase'.trans hphase)
        (by rw [hchildren', hindex']; exact htail) hchildren
      refine ⟨result :: results, .cons (hresult.trans hp) hresults, ?_⟩
      have hfinish : (results.foldl ValueFrame.receive (next.receive result)).finish heap
          = ((result :: results).foldl ValueFrame.receive frame).finish heap := by
        rw [receive_childIndex, foldl_childIndex]
        rfl
      rw [hfinish] at hrest
      exact ((Leads.step (turn_child w hphase hget)).trans hleads).trans hrest

/-! ## Starting and finishing a frame -/

section Frame

variable {place : Nat} {node : Properties} {nodeType value : RuntimeValue} {path : String}

def typedFrame (place : Nat) (value : RuntimeValue) (path : String) : ValueFrame :=
  { valueFrame ⟨.ref place, value, path⟩ with catches := true }

theorem startFrame_typed (hnode : propertiesOf heap (.ref place) = node) (htype : readOwn node "type" = .ok nodeType)
    (hvalid : nodeType = .undefined ∨ (declaredType nodeType).isSome = true) :
    startFrame heap (valueFrame ⟨.ref place, value, path⟩) =
      (typedFrame place value path, startTyped heap (typedFrame place value path) node nodeType) := by
  unfold startFrame
  rw [show propertiesOf heap (valueFrame ⟨.ref place, value, path⟩).node = node from hnode]
  dsimp only
  rw [htype]
  have hcatches : (decide (nodeType = .undefined) || (declaredType nodeType).isSome) = true := by
    rcases hvalid with hvalid | hvalid
    · simp [hvalid]
    · simp [hvalid]
  dsimp only
  rw [hcatches]
  rfl

theorem turn_start (w : ValueWalk) (frame : ValueFrame) (hphase : frame.phase = .start) :
    turn heap rootPath { w with frames := frame :: w.frames } =
      match startFrame heap frame with
      | (_, .ok (.finish result)) => .inl (w.receive result)
      | (_, .ok (.children frame)) => .inl { w with frames := frame :: w.frames }
      | (frame, .error error) => contain { w with frames := frame :: w.frames } error := by
  unfold turn
  rcases hstart : startFrame heap frame with ⟨started, error | result | children⟩
  · simp only [hphase, hstart]
  · simp only [hphase, hstart]
  · simp only [hphase, hstart]

theorem leads_finish {result : List String} (w : ValueWalk) (hnode : propertiesOf heap (.ref place) = node)
    (htype : readOwn node "type" = .ok nodeType)
    (hvalid : nodeType = .undefined ∨ (declaredType nodeType).isSome = true)
    (h : startTyped heap (typedFrame place value path) node nodeType = .ok (.finish result)) :
    Leads (turn heap rootPath) { w with frames := valueFrame ⟨.ref place, value, path⟩ :: w.frames }
      (w.receive result) := by
  apply Leads.step
  rw [turn_start w _ rfl, startFrame_typed hnode htype hvalid, h]

theorem leads_children {frame : ValueFrame} (w : ValueWalk) (hnode : propertiesOf heap (.ref place) = node)
    (htype : readOwn node "type" = .ok nodeType)
    (hvalid : nodeType = .undefined ∨ (declaredType nodeType).isSome = true)
    (h : startTyped heap (typedFrame place value path) node nodeType = .ok (.children frame)) :
    Leads (turn heap rootPath) { w with frames := valueFrame ⟨.ref place, value, path⟩ :: w.frames }
      { w with frames := frame :: w.frames } := by
  apply Leads.step
  rw [turn_start w _ rfl, startFrame_typed hnode htype hvalid, h]

/-- What is thrown while a frame starts is contained by the frame itself, once it catches. -/
theorem leads_contained {error : RuntimeValue} (w : ValueWalk)
    (hnode : propertiesOf heap (.ref place) = node) (htype : readOwn node "type" = .ok nodeType)
    (hvalid : nodeType = .undefined ∨ (declaredType nodeType).isSome = true)
    (h : startTyped heap (typedFrame place value path) node nodeType = .error error) :
    Leads (turn heap rootPath) { w with frames := valueFrame ⟨.ref place, value, path⟩ :: w.frames }
      (w.receive (losslessValueViolation path)) := by
  apply Leads.step
  rw [turn_start w _ rfl, startFrame_typed hnode htype hvalid, h]
  rfl

end Frame

theorem foldl_oneOf (results : List (List String)) : ∀ frame : ValueFrame, frame.kind = some .oneOf →
    (results.foldl ValueFrame.receive frame).kind = some .oneOf ∧ (results.foldl ValueFrame.receive frame).matched
        = frame.matched + results.countP (·.isEmpty) := by
  induction results with
  | nil => exact fun frame hkind => ⟨hkind, rfl⟩
  | cons result results ih =>
    intro frame hkind
    have hreceive : (frame.receive result).kind = some .oneOf ∧
        (frame.receive result).matched = frame.matched + if result.isEmpty then 1 else 0 := by
      unfold ValueFrame.receive
      rw [if_pos hkind]
      split
      · exact ⟨hkind, rfl⟩
      · exact ⟨hkind, rfl⟩
    obtain ⟨hkind', hmatched⟩ := ih (frame.receive result) hreceive.1
    refine ⟨hkind', ?_⟩
    rw [foldl_cons, hmatched, hreceive.2, countP_cons]
    omega

theorem foldl_container (results : List (List String)) : ∀ frame : ValueFrame, frame.kind ≠ some .oneOf →
    results.foldl ValueFrame.receive frame = { frame with violations := frame.violations ++ results.flatten } := by
  induction results with
  | nil =>
    intro frame _
    rw [flatten_nil, append_nil]
    rfl
  | cons result results ih =>
    intro frame hkind
    have hreceive : frame.receive result = { frame with violations := frame.violations ++ result } := by
      unfold ValueFrame.receive
      rw [if_neg hkind]
    rw [foldl_cons, hreceive, ih { frame with violations := frame.violations ++ result } hkind,
      flatten_cons, append_assoc]

variable {frame : ValueFrame}

/-- A container has no violation when none of its parts has one and its value is lossless JSON. -/
theorem finish_container (hkind : frame.kind ≠ some .oneOf) :
    frame.finish heap = [] ↔ frame.violations = [] ∧ frame.tailViolations = [] ∧
      safelyIsJsonValue heap frame.value = true := by
  unfold ValueFrame.finish
  rw [if_neg hkind]
  dsimp only
  split
  · next hempty =>
    obtain ⟨hviolations, htail⟩ := append_eq_nil_iff.mp (isEmpty_iff.mp hempty)
    split
    · next hsafe => exact ⟨fun _ => ⟨hviolations, htail, hsafe⟩, fun _ => rfl⟩
    · next hlossy => split <;> exact ⟨fun h => absurd h (cons_ne_nil _ _), fun h => absurd h.2.2 hlossy⟩
  · next hsome =>
    constructor
    · intro h
      exact absurd (isEmpty_iff.mpr h) hsome
    · rintro ⟨hviolations, htail, -⟩
      rw [hviolations, htail] at hsome
      exact absurd rfl hsome

theorem finish_oneOf (hkind : frame.kind = some .oneOf) : frame.finish heap = [] ↔ frame.matched = 1 := by
  unfold ValueFrame.finish
  rw [if_pos hkind]
  split
  · next hone => exact ⟨fun _ => hone, fun _ => rfl⟩
  · next hother => exact ⟨fun h => absurd h (cons_ne_nil _ _), fun h => absurd h hother⟩

theorem flatten_eq_nil_iff {results : List (List String)} {goods : List Prop}
    (h : Forall₂ (fun result good => result = [] ↔ good) results goods) :
    results.flatten = [] ↔ ∀ good ∈ goods, good := by
  induction h with
  | nil => exact ⟨fun _ => forall_mem_nil _, fun _ => rfl⟩
  | cons hhead _ ih => rw [flatten_cons, append_eq_nil_iff, forall_mem_cons, hhead, ih]

/-! ## Each kind of node -/

section Nodes

variable {g : ObjectGraph} {place : Nat} {node : Properties}

theorem evaluates_any (hnode : propertiesOf g.objects (.ref place) = node)
    (htype : readOwn node "type" = .ok .undefined) (honeOf : readOwn node "oneOf" = .ok .undefined) :
    Evaluates g.objects rootPath (.ref place) (Good g .any) := by
  intro value path w
  have hstart : startTyped g.objects (typedFrame place value path) node .undefined = .ok (.finish
      (if safelyIsJsonValue g.objects value then [] else losslessValueViolation path)) := by
    unfold startTyped
    rw [honeOf]
    rfl
  refine ⟨_, leads_finish w hnode htype (Or.inl rfl) hstart, ?_⟩
  have hgood : Good g .any value ↔ safelyIsJsonValue g.objects value = true := by
    rw [safelyIsJsonValue_iff]
    constructor
    · rintro ⟨j, hj, -⟩
      exact ⟨j, hj⟩
    · rintro ⟨j, hj⟩
      exact ⟨j, hj, accepts_any j⟩
  rw [hgood]
  split
  · next hsafe => exact ⟨fun _ => hsafe, fun _ => rfl⟩
  · next hlossy => exact ⟨fun h => absurd h (cons_ne_nil _ _), fun h => absurd h hlossy⟩

variable {j : Json} {branches : List Schema} {results : List (List String)}

theorem countP_results {value : RuntimeValue} (hj : Lossless g.objects 0 value j)
    (h : Forall₂ (fun result good => result = [] ↔ good) results
      (branches.map fun branch => Good g branch value)) :
    results.countP (·.isEmpty) = branches.countP (·.accepts j) := by
  induction branches generalizing results with
  | nil =>
    cases h
    rfl
  | cons branch branches ih =>
    cases h with
    | @cons result _ results _ hhead htail =>
      have hempty : result.isEmpty = branch.accepts j := by
        rw [Bool.eq_iff_iff, List.isEmpty_iff, hhead]
        exact good_iff hj
      rw [countP_cons, countP_cons, ih htail, hempty]

variable {goods : List Prop}

theorem countP_bad
    (h : Forall₂ (fun result good => result = [] ↔ good) results goods) (hbad : ∀ good ∈ goods, ¬ good) :
    results.countP (·.isEmpty) = 0 := by
  induction h with
  | nil => rfl
  | cons hhead _ ih =>
    obtain ⟨hfirst, hrest⟩ := forall_mem_cons.mp hbad
    rw [countP_cons_of_neg, ih hrest]
    rw [List.isEmpty_iff, hhead]
    exact hfirst

theorem evaluates_oneOf {array : RuntimeValue} {values : List RuntimeValue}
    (hnode : propertiesOf g.objects (.ref place) = node) (htype : readOwn node "type" = .ok .undefined)
    (honeOf : readOwn node "oneOf" = .ok array) (harray : array ≠ .undefined)
    (hvalues : elementsOf g.objects array = .ok values)
    (hbranches : Forall₂ (fun v schema => Evaluates g.objects rootPath v (Good g schema)) values branches) :
    Evaluates g.objects rootPath (.ref place) (Good g (.oneOf branches)) := by
  intro value path w
  let frame : ValueFrame := { typedFrame place value path with
    kind := some .oneOf
    children := values.map fun branch => ⟨branch, value, path⟩
    childIndex := 0
    matched := 0
    phase := .children }
  have hstart : startTyped g.objects (typedFrame place value path) node .undefined = .ok (.children frame) := by
    unfold startTyped
    rw [honeOf, ok_bind, if_pos harray, hvalues]
    rfl
  have hchildren : Forall₂ (ChildEvaluates g.objects rootPath) frame.children
      (branches.map fun branch => Good g branch value) := by
    show Forall₂ _ (values.map _) (branches.map _)
    rw [forall₂_map_left_iff, forall₂_map_right_iff]
    exact hbranches.imp fun v schema h => ⟨_, h, Iff.rfl⟩
  obtain ⟨results, hresults, hleads⟩ := results_of_children w (show frame.phase = .children from rfl)
    (show frame.children.drop 0 = frame.children from rfl) hchildren
  refine ⟨_, (leads_children w hnode htype (Or.inl rfl) hstart).trans hleads, ?_⟩
  obtain ⟨hkind, hmatched⟩ := foldl_oneOf results frame rfl
  rw [finish_oneOf hkind, hmatched, show frame.matched = 0 from rfl, Nat.zero_add]
  by_cases hlossless : ∃ j, Lossless g.objects 0 value j
  · obtain ⟨j, hj⟩ := hlossless
    rw [countP_results hj hresults, good_iff hj, accepts_oneOf]
  · -- no branch is good for a value that is no JSON
    have hbad : ∀ schema, ¬ Good g schema value := fun schema h => hlossless ⟨h.choose, h.choose_spec.1⟩
    have hnone : results.countP (·.isEmpty) = 0 := by
      apply countP_bad hresults
      intro good hgood
      obtain ⟨branch, -, rfl⟩ := mem_map.mp hgood
      exact hbad branch
    rw [hnone]
    exact ⟨fun h => absurd h (by decide), fun h => absurd h (hbad _)⟩

theorem evaluates_container {nodeType value : RuntimeValue} {path : String} {frame : ValueFrame}
    {good : Prop} (w : ValueWalk) (hnode : propertiesOf g.objects (.ref place) = node)
    (htype : readOwn node "type" = .ok nodeType) (hvalid : (declaredType nodeType).isSome = true)
    (hstart : startTyped g.objects (typedFrame place value path) node nodeType = .ok (.children frame))
    (hphase : frame.phase = .children) (hindex : frame.childIndex = 0) (hkind : frame.kind ≠ some .oneOf)
    (hvalue : frame.value = value)
    (hchildren : Forall₂ (ChildEvaluates g.objects rootPath) frame.children goods)
    (hgood : good ↔ frame.violations = [] ∧ (∀ good ∈ goods, good) ∧ frame.tailViolations = [] ∧
      ∃ j, Lossless g.objects 0 value j) :
    ∃ result, Leads (turn g.objects rootPath)
        { w with frames := valueFrame ⟨.ref place, value, path⟩ :: w.frames } (w.receive result) ∧
      (result = [] ↔ good) := by
  obtain ⟨results, hresults, hleads⟩ := results_of_children w hphase
    (show frame.children.drop frame.childIndex = frame.children by rw [hindex, drop_zero]) hchildren
  refine ⟨_, (leads_children w hnode htype (Or.inr hvalid) hstart).trans hleads, ?_⟩
  have hfinish := @finish_container g.objects
    { frame with violations := frame.violations ++ results.flatten } hkind
  rw [foldl_container results frame hkind, hfinish, hgood]
  rw [append_eq_nil_iff, flatten_eq_nil_iff hresults, hvalue, safelyIsJsonValue_iff, and_assoc]

/-! ### Arrays -/

variable {items : RuntimeValue}

theorem node_of_presentElements {path : String} : ∀ {index : Nat}
    {slots : List (Option Property)} {children : List ValueChild},
    presentElements items path index slots = .ok children → ∀ child ∈ children, child.node = items := by
  intro index slots
  induction slots generalizing index with
  | nil =>
    rintro children h
    cases h
    exact forall_mem_nil _
  | cons slot slots ih =>
    intro children h
    cases slot with
    | none => exact ih h
    | some element =>
      obtain ⟨found, -, h⟩ := bind_eq_ok_iff.mp h
      obtain ⟨more, hmore, h⟩ := bind_eq_ok_iff.mp h
      cases h
      exact forall_mem_cons.mpr ⟨rfl, ih hmore⟩

theorem presentElements_of_lossless {path : String} {slots : List (Option Property)}
    {values : List Json} (h : LosslessElements g.objects 0 slots values) : ∀ index, ∃ children,
      presentElements items path index slots = .ok children ∧
        Forall₂ (fun child value => Lossless g.objects 0 child.value value) children values := by
  induction slots generalizing values with
  | nil =>
    cases h
    exact fun _ => ⟨[], rfl, .nil⟩
  | cons slot slots ih =>
    intro index
    cases h with
    | @cons element v j _ js hvalue hhead htail =>
      obtain ⟨children, hchildren, hall⟩ := ih htail (index + 1)
      refine ⟨⟨items, v, s!"{path}[{index}]"⟩ :: children, ?_, .cons hhead hall⟩
      rw [presentElements, hvalue, ok_bind, hchildren]
      rfl

variable {schema : Option Schema}

theorem not_good_array {value : RuntimeValue} (h : isArray g.objects value = false) : ¬ Good g (.array schema) value := by
  rintro ⟨j, hj, haccepts⟩
  cases j with
  | arr values =>
    rw [(slotsOf_of_lossless hj).1] at h
    cases h
  | null | bool _ | num _ | str _ | obj _ =>
    rw [accepts] at haccepts
    · cases haccepts
    all_goals
      intros
      contradiction

theorem goods_iff {children : List ValueChild} {values : List Json} {schema : Schema}
    (h : Forall₂ (fun child value => Lossless g.objects 0 child.value value) children values) :
    (∀ good ∈ children.map fun child => Good g schema child.value, good) ↔
      ∀ value ∈ values, schema.accepts value = true := by
  induction h with
  | nil => exact ⟨fun _ => forall_mem_nil _, fun _ => forall_mem_nil _⟩
  | cons hhead _ ih => rw [map_cons, forall_mem_cons, forall_mem_cons, ih, good_iff hhead]

theorem lossless_array {value : RuntimeValue} (harray : isArray g.objects value = true)
    (hj : Lossless g.objects 0 value j) : ∃ values, j = .arr values := by
  cases hj with
  | array _ _ _ _ => exact ⟨_, rfl⟩
  | object _ hobject _ _ =>
    unfold isArray at harray
    dsimp only at harray
    rw [hobject] at harray
    cases harray
  | null | bool | num | str => cases harray

theorem evaluates_array {value : RuntimeValue} {path : String} (w : ValueWalk) (hnode : propertiesOf g.objects (.ref place) = node)
    (htype : readOwn node "type" = .ok (.str "array")) (honeOf : readOwn node "oneOf" = .ok .undefined)
    (hitems : readOwn node "items" = .ok items) (hnone : items = .undefined ↔ schema = none)
    (hschema : ∀ tree, schema = some tree → Evaluates g.objects rootPath items (Good g tree)) :
    ∃ result, Leads (turn g.objects rootPath)
        { w with frames := valueFrame ⟨.ref place, value, path⟩ :: w.frames } (w.receive result) ∧
      (result = [] ↔ Good g (.array schema) value) := by
  have hstart : startTyped g.objects (typedFrame place value path) node (.str "array")
      = startArray g.objects (typedFrame place value path) node := by
    unfold startTyped
    rw [honeOf]
    rfl
  unfold startArray at hstart
  cases harray : isArray g.objects value with
  | false =>
    rw [show (typedFrame place value path).value = value from rfl, harray] at hstart
    refine ⟨_, leads_finish w hnode htype (Or.inr rfl) hstart, ?_⟩
    exact ⟨fun h => absurd h (cons_ne_nil _ _), fun h => absurd h (not_good_array harray)⟩
  | true =>
    rw [show (typedFrame place value path).value = value from rfl, harray, hitems] at hstart
    replace hstart : startTyped g.objects (typedFrame place value path) node (.str "array") = (do
          let children ← if items = .undefined then .ok []
            else presentElements items path 0 (slotsOf g.objects value)
          return Started.children { typedFrame place value path with
            kind := some .array, children, childIndex := 0, violations := [], phase := .children }) := hstart
    cases schema with
    | none =>
      rw [if_pos (hnone.mpr rfl)] at hstart
      refine evaluates_container w hnode htype rfl hstart rfl rfl nofun rfl .nil ?_
      constructor
      · rintro ⟨j, hj, -⟩
        exact ⟨rfl, forall_mem_nil _, rfl, j, hj⟩
      · rintro ⟨-, -, -, j, hj⟩
        obtain ⟨values, rfl⟩ := lossless_array harray hj
        exact ⟨_, hj, (accepts_array none values).mpr nofun⟩
    | some tree =>
      rw [if_neg fun h => Option.some_ne_none _ (hnone.mp h)] at hstart
      cases hpresent : presentElements items path 0 (slotsOf g.objects value) with
      | error error =>
        rw [hpresent] at hstart
        refine ⟨_, leads_contained w hnode htype (Or.inr rfl) hstart, ?_⟩
        refine ⟨fun h => absurd h (cons_ne_nil _ _), ?_⟩
        rintro ⟨j, hj, -⟩
        obtain ⟨values, rfl⟩ := lossless_array harray hj
        obtain ⟨children, hchildren, -⟩ := @presentElements_of_lossless g items path _ _ (slotsOf_of_lossless hj).2 0
        rw [hpresent] at hchildren
        cases hchildren
      | ok children =>
        rw [hpresent] at hstart
        have heval : Forall₂ (ChildEvaluates g.objects rootPath) children
            (children.map fun child => Good g tree child.value) := by
          rw [forall₂_map_right_iff, forall₂_same]
          intro child hchild
          rw [show ChildEvaluates g.objects rootPath child (Good g tree child.value) ↔
            ∃ p, Evaluates g.objects rootPath child.node p ∧ (p child.value ↔ Good g tree child.value) from Iff.rfl,
            node_of_presentElements hpresent child hchild]
          exact ⟨_, hschema tree rfl, Iff.rfl⟩
        refine evaluates_container w hnode htype rfl hstart rfl rfl nofun rfl heval ?_
        constructor
        · rintro ⟨j, hj, haccepts⟩
          obtain ⟨values, rfl⟩ := lossless_array harray hj
          obtain ⟨children', hchildren', hall⟩ :=
            @presentElements_of_lossless g items path _ _ (slotsOf_of_lossless hj).2 0
          cases hpresent.symm.trans hchildren'
          refine ⟨rfl, ?_, rfl, _, hj⟩
          exact (goods_iff hall).mpr ((accepts_array _ _).mp haccepts tree rfl)
        · rintro ⟨-, hgoods, -, j, hj⟩
          obtain ⟨values, rfl⟩ := lossless_array harray hj
          obtain ⟨children', hchildren', hall⟩ :=
            @presentElements_of_lossless g items path _ _ (slotsOf_of_lossless hj).2 0
          cases hpresent.symm.trans hchildren'
          refine ⟨_, hj, (accepts_array _ _).mpr fun tree' htree => ?_⟩
          cases htree
          exact (goods_iff hall).mp hgoods

/-! ### Objects -/

variable {fields : List (String × Json)}

theorem missingRequired_of_lossless {value : Properties}
    (h : LosslessFields g.objects 0 value fields) (path : String) (names : List String) :
    ∃ violations, missingRequired value path (names.map .str) = .ok violations ∧
      (violations = [] ↔ ∀ key ∈ names, key ∈ Json.keys fields) := by
  induction names with
  | nil => exact ⟨[], rfl, fun _ => forall_mem_nil _, fun _ => rfl⟩
  | cons key names ih =>
    obtain ⟨violations, hviolations, hiff⟩ := ih
    have hread : ∃ found, readOwn value key = .ok found ∧ (found = .undefined ↔ key ∉ Json.keys fields) := by
      rcases readOwn_of_lossless h key with ⟨hread, hlookup⟩ | ⟨v, j, hread, hdefined, -, hlookup⟩
      · refine ⟨_, hread, fun _ hkey => ?_, fun _ => rfl⟩
        obtain ⟨j, hj⟩ := lookup_isSome_iff.mpr hkey
        rw [hlookup] at hj
        cases hj
      · exact ⟨v, hread, fun hv => absurd hv hdefined, fun hkey => absurd (lookup_isSome_iff.mp ⟨j, hlookup⟩) hkey⟩
    obtain ⟨found, hread, hfound⟩ := hread
    let missing := violationIf (found = .undefined)
      (let property := propertyPath path key; s!"missing required property \"{property}\"")
    refine ⟨missing ++ violations, ?_, ?_⟩
    · rw [map_cons, missingRequired, hread, ok_bind, hviolations]
      rfl
    · rw [append_eq_nil_iff, violationIf_eq_nil_iff, hiff, forall_mem_cons, decide_eq_false_iff_not, hfound, not_not]

/-- The children of a record keep the rule, and are good when the declared properties are. -/
theorem evaluates_of_presentProperties {value : Properties} {path : String} :
    ∀ {entries : List (String × RuntimeValue)} {schemas : List Schema} {children : List ValueChild},
    Forall₂ (fun v schema => Evaluates g.objects rootPath v (Good g schema)) (entries.map (·.2)) schemas →
    presentProperties value path entries = .ok children →
    ∃ goods, Forall₂ (ChildEvaluates g.objects rootPath) children goods ∧
      ∀ fields, LosslessFields g.objects 0 value fields → ((∀ good ∈ goods, good) ↔
        ∀ p ∈ (entries.map (·.1)).zip schemas, ∀ v, fields.lookup p.1 = some v → p.2.accepts v = true) := by
  intro entries
  induction entries with
  | nil =>
    intro schemas children _ h
    cases h
    exact ⟨[], .nil, fun _ _ => ⟨fun _ => forall_mem_nil _, fun _ => forall_mem_nil _⟩⟩
  | cons entry entries ih =>
    obtain ⟨key, raw⟩ := entry
    intro schemas children heval h
    obtain ⟨found, hfound, h⟩ := bind_eq_ok_iff.mp h
    obtain ⟨more, hmore, h⟩ := bind_eq_ok_iff.mp h
    cases h
    cases heval with
    | @cons _ schema _ schemas hhead htail =>
      obtain ⟨goods, hgoods, hiff⟩ := ih htail hmore
      rw [map_cons, zip_cons_cons]
      simp only [forall_mem_cons]
      by_cases hmissing : found = .undefined
      · rw [if_pos hmissing]
        refine ⟨goods, hgoods, fun fields hfields => ?_⟩
        rw [hiff fields hfields]
        rcases readOwn_of_lossless hfields key with ⟨-, hlookup⟩ | ⟨v, j, hread, hdefined, -, -⟩
        · constructor
          · intro hrest
            refine ⟨fun v hv => ?_, hrest⟩
            rw [hlookup] at hv
            cases hv
          · exact fun hboth => hboth.2
        · rw [hfound] at hread
          exact absurd ((Except.ok.inj hread).symm.trans hmissing) hdefined
      · rw [if_neg hmissing]
        refine ⟨Good g schema found :: goods, .cons ⟨_, hhead, Iff.rfl⟩ hgoods, fun fields hfields => ?_⟩
        rw [forall_mem_cons, hiff fields hfields]
        refine and_congr_left fun _ => ?_
        rcases readOwn_of_lossless hfields key with ⟨hread, -⟩ | ⟨v, j, hread, -, hj, hlookup⟩
        · rw [hfound] at hread
          exact absurd (Except.ok.inj hread) hmissing
        · rw [hfound] at hread
          cases hread
          rw [good_iff hj, hlookup]
          exact ⟨fun haccepts _ hv => Option.some.inj hv ▸ haccepts, fun hall => hall j rfl⟩

theorem presentProperties_of_lossless {value : Properties}
    (h : LosslessFields g.objects 0 value fields) (path : String) (entries : List (String × RuntimeValue)) :
    ∃ children, presentProperties value path entries = .ok children := by
  induction entries with
  | nil => exact ⟨[], rfl⟩
  | cons entry entries ih =>
    obtain ⟨key, raw⟩ := entry
    obtain ⟨children, hchildren⟩ := ih
    have hread : ∃ found, readOwn value key = .ok found := by
      rcases readOwn_of_lossless h key with ⟨hread, -⟩ | ⟨v, j, hread, -, -, -⟩
      · exact ⟨_, hread⟩
      · exact ⟨v, hread⟩
    obtain ⟨found, hread⟩ := hread
    exact ⟨_, by rw [presentProperties, hread, ok_bind, hchildren]; rfl⟩

theorem undeclaredKeys_eq_nil_iff {value declared : Properties} {path : String} :
    undeclaredKeys value declared path = [] ↔ ∀ key ∈ objectKeys value, hasOwn declared key = true := by
  unfold undeclaredKeys
  rw [flatMap_eq_nil_iff]
  refine forall_congr' fun key => imp_congr_right fun _ => ?_
  dsimp only
  rw [violationIf_eq_nil_iff]
  cases hasOwn declared key <;> simp

theorem good_object {value : RuntimeValue} {properties : List (String × Schema)} {required : List String}
    {additional : Bool} (h : Good g (.object properties required additional) value) :
    ∃ fields record, Lossless g.objects 0 value (.obj fields) ∧
      plainJsonRecord g.objects value = some record ∧ LosslessFields g.objects 0 record fields ∧
      (object properties required additional).accepts (.obj fields) = true := by
  obtain ⟨j, hj, haccepts⟩ := h
  cases j with
  | obj fields =>
    obtain ⟨record, hrecord, hfields⟩ := plainJsonRecord_of_lossless hj
    exact ⟨fields, record, hj, hrecord, hfields, haccepts⟩
  | null | bool _ | num _ | str _ | arr _ =>
    rw [accepts] at haccepts
    · cases haccepts
    all_goals
      intros
      contradiction

theorem lossless_object {value : RuntimeValue} {record : Properties}
    (hrecord : plainJsonRecord g.objects value = some record) (hj : Lossless g.objects 0 value j) :
    ∃ fields, j = .obj fields ∧ LosslessFields g.objects 0 record fields := by
  unfold plainJsonRecord at hrecord
  cases hj with
  | @object place chain properties fields _ hobject hplain hitems =>
    dsimp only at hrecord
    rw [hobject] at hrecord
    dsimp only at hrecord
    rw [if_pos hplain] at hrecord
    cases hrecord
    exact ⟨fields, rfl, hitems⟩
  | array _ hobject _ _ =>
    dsimp only at hrecord
    rw [hobject] at hrecord
    cases hrecord
  | null | bool | num | str => cases hrecord

theorem evaluates_object {declared required additional : RuntimeValue}
    {entries : List (String × RuntimeValue)} {schemas : List Schema} {names : List String}
    (hnode : propertiesOf g.objects (.ref place) = node)
    (htype : readOwn node "type" = .ok (.str "object")) (honeOf : readOwn node "oneOf" = .ok .undefined)
    (hdeclared : readOwn node "properties" = .ok declared)
    (hentries : objectEntries (propertiesOf g.objects declared) = .ok entries)
    (hkeys : ∀ key, hasOwn (propertiesOf g.objects declared) key = true ↔ key ∈ entries.map (·.1))
    (hschemas : Forall₂ (fun v schema => Evaluates g.objects rootPath v (Good g schema))
      (entries.map (·.2)) schemas)
    (hrequired : readOwn node "required" = .ok required)
    (hnames : elementsOf g.objects required = .ok (names.map .str))
    (hadditional : readOwn node "additionalProperties" = .ok additional) :
    Evaluates g.objects rootPath (.ref place)
      (Good g (.object ((entries.map (·.1)).zip schemas) names (additional ≠ .bool false))) := by
  intro value path w
  have hstart : startTyped g.objects (typedFrame place value path) node (.str "object")
      = startObject g.objects (typedFrame place value path) node := by
    unfold startTyped
    rw [honeOf]
    rfl
  unfold startObject at hstart
  have hzip : ((entries.map (·.1)).zip schemas).map (·.1) = entries.map (·.1) := by
    have hlength := hschemas.length_eq
    rw [length_map] at hlength
    exact map_fst_zip (by rw [length_map]; omega)
  cases hrecord : plainJsonRecord g.objects value with
  | none =>
    rw [show (typedFrame place value path).value = value from rfl, hrecord] at hstart
    refine ⟨_, leads_finish w hnode htype (Or.inr rfl) hstart, ?_⟩
    refine ⟨fun h => absurd h (cons_ne_nil _ _), fun h => ?_⟩
    obtain ⟨_, _, -, hsome, -⟩ := good_object h
    rw [hrecord] at hsome
    cases hsome
  | some record =>
    rw [show (typedFrame place value path).value = value from rfl, hrecord] at hstart
    dsimp only at hstart
    rw [hdeclared, ok_bind, hrequired, ok_bind, hnames, ok_bind, hentries, hadditional] at hstart
    -- what a good value is, in the frame's terms
    have hlossless : Good g (.object ((entries.map (·.1)).zip schemas) names (additional ≠ .bool false)) value →
        ∃ fields, LosslessFields g.objects 0 record fields := by
      intro h
      obtain ⟨fields, record', -, hrecord', hfields, -⟩ := good_object h
      cases hrecord.symm.trans hrecord'
      exact ⟨fields, hfields⟩
    cases hmissing : missingRequired record path (names.map .str) with
    | error error =>
      rw [show (typedFrame place value path).path = path from rfl, hmissing] at hstart
      refine ⟨_, leads_contained w hnode htype (Or.inr rfl) hstart, ?_⟩
      refine ⟨fun h => absurd h (cons_ne_nil _ _), fun h => ?_⟩
      obtain ⟨fields, hfields⟩ := hlossless h
      obtain ⟨violations, hviolations, -⟩ := missingRequired_of_lossless hfields path names
      rw [hmissing] at hviolations
      cases hviolations
    | ok missing =>
      cases hpresent : presentProperties record path entries with
      | error error =>
        rw [show (typedFrame place value path).path = path from rfl, hmissing, ok_bind, ok_bind, hpresent]
          at hstart
        refine ⟨_, leads_contained w hnode htype (Or.inr rfl) hstart, ?_⟩
        refine ⟨fun h => absurd h (cons_ne_nil _ _), fun h => ?_⟩
        obtain ⟨fields, hfields⟩ := hlossless h
        obtain ⟨children, hchildren⟩ := presentProperties_of_lossless hfields path entries
        rw [hpresent] at hchildren
        cases hchildren
      | ok children =>
        rw [show (typedFrame place value path).path = path from rfl, hmissing, ok_bind, ok_bind, hpresent]
          at hstart
        obtain ⟨goods, hgoods, hiff⟩ := evaluates_of_presentProperties hschemas hpresent
        refine evaluates_container w hnode htype rfl hstart rfl rfl nofun rfl hgoods ?_
        show _ ↔ missing = [] ∧ (∀ good ∈ goods, good) ∧
          (if additional = .bool false then undeclaredKeys record (propertiesOf g.objects declared) path else [])
            = [] ∧ ∃ j, Lossless g.objects 0 value j
        have hsame : ∀ fields, LosslessFields g.objects 0 record fields →
            ((object ((entries.map (·.1)).zip schemas) names (additional ≠ .bool false)).accepts
                (.obj fields) = true ↔ missing = [] ∧ (∀ good ∈ goods, good) ∧
              (if additional = .bool false then undeclaredKeys record (propertiesOf g.objects declared) path
                else []) = []) := by
          intro fields hfields
          obtain ⟨violations, hviolations, hmissingIff⟩ := missingRequired_of_lossless hfields path names
          cases hmissing.symm.trans hviolations
          rw [accepts_object, hmissingIff, hiff fields hfields, hzip]
          refine and_congr_right fun _ => and_congr_right fun _ => ?_
          split
          · next hclosed =>
            rw [undeclaredKeys_eq_nil_iff, objectKeys_of_lossless hfields]
            simp only [hkeys]
            exact ⟨fun h => h (by simpa using hclosed), fun h _ => h⟩
          · next hopen => exact ⟨fun _ => rfl, fun _ h => absurd h (by simpa using hopen)⟩
        constructor
        · rintro ⟨j, hj, haccepts⟩
          obtain ⟨fields, rfl, hfields⟩ := lossless_object hrecord hj
          obtain ⟨hfirst, hchildren, htail⟩ := (hsame fields hfields).mp haccepts
          exact ⟨hfirst, hchildren, htail, _, hj⟩
        · rintro ⟨hfirst, hchildren, htail, j, hj⟩
          obtain ⟨fields, rfl, hfields⟩ := lossless_object hrecord hj
          exact ⟨_, hj, (hsame fields hfields).mpr ⟨hfirst, hchildren, htail⟩⟩

/-! ### Scalars -/

theorem lossless_literal (literal : JsonSchemaScalar) : Lossless g.objects 0 literal.toRuntime literal.toJson := by
  cases literal with
  | string s => exact .str s
  | number n => exact .num n
  | boolean b => exact .bool b
  | null => exact .null

variable {l k : JsonSchemaScalar}

theorem toRuntime_inj : l.toRuntime = k.toRuntime ↔ l = k := by
  cases l <;> cases k <;> simp [JsonSchemaScalar.toRuntime]

theorem toJson_inj : l.toJson = k.toJson ↔ l = k := by cases l <;> cases k <;> simp [JsonSchemaScalar.toJson]

theorem accepts_toJson (type : JsonSchemaScalarType) (literal : JsonSchemaScalar) :
    type.accepts literal.toJson = scalarMatches type literal.toRuntime := by
  rcases literal with s | (n | n) | b | _ <;> cases type <;> rfl

variable {type : JsonSchemaScalarType}

theorem literal_of_accepts (h : type.accepts j = true) : ∃ literal : JsonSchemaScalar, literal.toJson = j := by
  cases j with
  | null => exact ⟨.null, rfl⟩
  | bool b => exact ⟨.boolean b, rfl⟩
  | num n => exact ⟨.number n, rfl⟩
  | str s => exact ⟨.string s, rfl⟩
  | arr _ | obj _ => cases type <;> cases h

theorem toRuntime_of_lossless {value : RuntimeValue} {literal : JsonSchemaScalar}
    (h : Lossless g.objects 0 value literal.toJson) : value = literal.toRuntime := by
  cases literal <;> cases h <;> rfl

theorem scalarMismatch_eq_none_iff {value : RuntimeValue} : scalarMismatch type value = none ↔ scalarMatches type value = true := by
  rcases value with _ | _ | b | (n | n) | _ | s | _ | place <;> cases type <;>
    simp [scalarMismatch, scalarMatches]

/-- Good for a scalar schema is a literal of the type, among those listed, and the constant. -/
theorem good_scalar_iff {value : RuntimeValue} {allowed : Option (List JsonSchemaScalar)} {literal : Option JsonSchemaScalar} :
    Good g (.scalar type allowed literal) value ↔ scalarMatches type value = true ∧
      ∃ l : JsonSchemaScalar, l.toRuntime = value ∧ (∀ ls, allowed = some ls → l ∈ ls) ∧
        ∀ k, literal = some k → k = l := by
  constructor
  · rintro ⟨j, hj, haccepts⟩
    obtain ⟨htype, hallowed, hliteral⟩ := (accepts_scalar _ _ _ _).mp haccepts
    obtain ⟨l, rfl⟩ := literal_of_accepts htype
    obtain rfl := toRuntime_of_lossless hj
    rw [accepts_toJson] at htype
    refine ⟨htype, l, rfl, fun ls hls => ?_, fun k hk => toJson_inj.mp (hliteral k hk)⟩
    obtain ⟨k, hk, hjson⟩ := hallowed ls hls
    obtain rfl := toJson_inj.mp hjson
    exact hk
  · rintro ⟨htype, l, rfl, hallowed, hliteral⟩
    refine ⟨l.toJson, lossless_literal l, (accepts_scalar _ _ _ _).mpr ⟨?_, ?_, ?_⟩⟩
    · rw [accepts_toJson]
      exact htype
    · exact fun ls hls => ⟨l, hallowed ls hls, rfl⟩
    · exact fun k hk => toJson_inj.mpr (hliteral k hk)

theorem checkScalarValue_of_reads {path : String} {allowed : Option (List JsonSchemaScalar)}
    {literal : Option JsonSchemaScalar} (hallowed : ReadsAllowed g.objects node allowed)
    (hliteral : ReadsLiteral node literal) (l : JsonSchemaScalar) :
    ∃ result, checkScalarValue g.objects node l.toRuntime path = .ok result ∧
      (result = [] ↔ (∀ ls, allowed = some ls → l ∈ ls) ∧ ∀ k, literal = some k → k = l) := by
  -- the part behind the listed literals
  have hconst : ∃ result, (if hasOwn node "const" then do
        let literal ← readOwn node "const"
        if l.toRuntime ≠ literal then
          let text := stringify (literalJson literal)
          return [diagnostic path s!"must be {text}"]
        else return []
      else return [] : Except RuntimeValue (List String)) = .ok result ∧
      (result = [] ↔ ∀ k, literal = some k → k = l) := by
    cases literal with
    | none =>
      rw [show hasOwn node "const" = false from hliteral]
      refine ⟨[], rfl, fun _ k hk => ?_, fun _ => rfl⟩
      cases hk
    | some k =>
      obtain ⟨hown, hread⟩ := hliteral
      rw [hown, if_pos rfl, hread, ok_bind]
      by_cases hsame : l = k
      · rw [if_neg fun hne => hne (congrArg _ hsame)]
        exact ⟨[], rfl, fun _ _ hk => (Option.some.inj hk).symm.trans hsame.symm, fun _ => rfl⟩
      · rw [if_pos fun heq => hsame (toRuntime_inj.mp heq)]
        refine ⟨_, rfl, fun h => absurd h (cons_ne_nil _ _), fun h => ?_⟩
        exact absurd (h k rfl).symm hsame
  obtain ⟨result, hresult, hiff⟩ := hconst
  unfold checkScalarValue
  cases allowed with
  | none =>
    rw [show readOwn node "enum" = .ok .undefined from hallowed]
    refine ⟨result, hresult, hiff.trans ⟨fun h => ⟨fun ls hls => ?_, h⟩, fun h => h.2⟩⟩
    cases hls
  | some ls =>
    obtain ⟨array, harray, hdefined, helements⟩ := hallowed
    rw [harray, ok_bind, helements, ok_bind]
    have hmem : (ls.map (·.toRuntime)).contains l.toRuntime = true ↔ l ∈ ls := by
      rw [contains_iff_mem, mem_map]
      constructor
      · rintro ⟨k, hk, heq⟩
        rwa [← toRuntime_inj.mp heq]
      · exact fun h => ⟨l, h, rfl⟩
    by_cases hin : l ∈ ls
    · rw [if_neg (by rw [hmem.mpr hin]; simp)]
      refine ⟨result, hresult, hiff.trans ⟨fun h => ⟨fun _ hls => Option.some.inj hls ▸ hin, h⟩, fun h => h.2⟩⟩
    · have hout : (ls.map (·.toRuntime)).contains l.toRuntime = false := by
        rw [← Bool.not_eq_true, hmem]
        exact hin
      rw [if_pos ⟨hdefined, by rw [hout]; rfl⟩]
      exact ⟨_, rfl, fun h => absurd h (cons_ne_nil _ _), fun h => absurd (h.1 ls rfl) hin⟩

theorem declaredType_name (type : JsonSchemaScalarType) : declaredType (.str type.name) = some (.scalar type) := by
  cases type <;> rfl

theorem evaluates_scalar {allowed : Option (List JsonSchemaScalar)}
    {literal : Option JsonSchemaScalar} (hnode : propertiesOf g.objects (.ref place) = node)
    (htype : readOwn node "type" = .ok (.str type.name)) (honeOf : readOwn node "oneOf" = .ok .undefined)
    (hallowed : ReadsAllowed g.objects node allowed) (hliteral : ReadsLiteral node literal) :
    Evaluates g.objects rootPath (.ref place) (Good g (.scalar type allowed literal)) := by
  intro value path w
  have hvalid : (declaredType (.str type.name)).isSome = true := by
    rw [declaredType_name]
    rfl
  have hstart : startTyped g.objects (typedFrame place value path) node (.str type.name)
      = (scalarMismatch type value).elim ((checkScalarValue g.objects node value path).map .finish)
          fun message => .ok (.finish [diagnostic path message]) := by
    unfold startTyped
    rw [honeOf, ok_bind, if_neg fun h => h rfl, if_neg (fun h => by cases h), declaredType_name]
    dsimp only
    rw [show (typedFrame place value path).value = value from rfl,
      show (typedFrame place value path).path = path from rfl]
    cases scalarMismatch type value with
    | some message => rfl
    | none => cases checkScalarValue g.objects node value path <;> rfl
  rw [good_scalar_iff]
  cases hmismatch : scalarMismatch type value with
  | some message =>
    rw [hmismatch] at hstart
    refine ⟨_, leads_finish w hnode htype (Or.inr hvalid) hstart, ?_⟩
    refine ⟨fun h => absurd h (cons_ne_nil _ _), fun h => ?_⟩
    rw [scalarMismatch_eq_none_iff.mpr h.1] at hmismatch
    cases hmismatch
  | none =>
    have hmatches := scalarMismatch_eq_none_iff.mp hmismatch
    obtain ⟨l, rfl⟩ := exists_literal hmatches
    obtain ⟨result, hresult, hiff⟩ := @checkScalarValue_of_reads g node path _ _ hallowed hliteral l
    rw [hmismatch, hresult] at hstart
    refine ⟨result, leads_finish w hnode htype (Or.inr hvalid) hstart, hiff.trans ?_⟩
    constructor
    · rintro ⟨hlisted, hconstant⟩
      exact ⟨hmatches, l, rfl, hlisted, hconstant⟩
    · rintro ⟨-, k, hk, hlisted, hconstant⟩
      obtain rfl := toRuntime_inj.mp hk
      exact ⟨hlisted, hconstant⟩

end Nodes

/-! ## Every node that reads as a schema -/

mutual

/-- **A node keeps the rule** for the values its schema accepts. -/
theorem evaluates_of_reads {g : ObjectGraph} (rootPath : String) {node : RuntimeValue} {schema : Schema} :
    Reads g.objects node schema → Evaluates g.objects rootPath node (Good g schema)
  | .any hnode htype honeOf => evaluates_any hnode htype honeOf
  | .oneOf hnode htype honeOf harray hvalues hbranches =>
    evaluates_oneOf hnode htype honeOf harray hvalues (evaluates_of_readsAll rootPath hbranches)
  | .object hnode htype honeOf hdeclared hentries hkeys hschemas hrequired hnames hadditional =>
    evaluates_object hnode htype honeOf hdeclared hentries hkeys (evaluates_of_readsAll rootPath hschemas)
      hrequired hnames hadditional
  | .arrayAny hnode htype honeOf hitems => fun _ _ w =>
    evaluates_array w hnode htype honeOf hitems ⟨fun _ => rfl, fun _ => rfl⟩ (fun _ h => nomatch h)
  | .array hnode htype honeOf hitems hschema => by
    have hdefined := hschema.ne_undefined
    intro value path w
    apply evaluates_array w hnode htype honeOf hitems
    · exact ⟨fun h => absurd h hdefined, fun h => nomatch h⟩
    · intro tree htree
      cases htree
      exact evaluates_of_reads rootPath hschema
  | .scalar hnode htype honeOf hallowed hliteral => evaluates_scalar hnode htype honeOf hallowed hliteral

theorem evaluates_of_readsAll {g : ObjectGraph} (rootPath : String) {values : List RuntimeValue}
    {schemas : List Schema} : ReadsAll g.objects values schemas →
    Forall₂ (fun v schema => Evaluates g.objects rootPath v (Good g schema)) values schemas
  | .nil => .nil
  | .cons hhead htail => .cons (evaluates_of_reads rootPath hhead) (evaluates_of_readsAll rootPath htail)

end

/-! ## The validator -/

theorem checkValue_ends {g : ObjectGraph} {schema : RuntimeValue} {tree : Schema} (h : Reads g.objects schema tree)
    (value : RuntimeValue) (path : String) : ∃ violations,
      Ends (turn g.objects path) { frames := [valueFrame ⟨schema, value, path⟩] } (.ok violations) ∧
      (violations = [] ↔ Good g tree value) := by
  obtain ⟨violations, hleads, hiff⟩ := evaluates_of_reads path h value path { frames := [] }
  refine ⟨violations, hleads.ends (Ends.step ?_), hiff⟩
  rfl

/-- **The explicit-stack validator is the recursive reading.**  An accepted schema is a tree, and for every value the
validator ends, without a violation exactly when the tree accepts it as JSON. -/
theorem validateJsonSchemaValue_iff (g : ObjectGraph) (schema : RuntimeValue) (fuel : Nat)
    (haccepted : assertSupportedJsonSchema g.objects schema fuel = some (.ok ())) :
    (∃ tree, Reads g.objects schema tree) ∧ ∀ tree, Reads g.objects schema tree →
      ∀ (value : RuntimeValue) (path : String), ∃ violations, (∃ enough, ∀ fuel, enough ≤ fuel →
          validateJsonSchemaValue g.objects schema value fuel path = some (.ok violations)) ∧
        (violations = [] ↔ ∃ j, Lossless g.objects 0 value j ∧ tree.accepts j = true) := by
  refine ⟨reads_of_accepted haccepted, fun tree htree value path => ?_⟩
  obtain ⟨violations, hends, hiff⟩ := checkValue_ends htree value path
  exact ⟨violations, hends.enough, hiff⟩

/-- A closed record of an array whose items are texts or small numbers. -/
def nestedSchema : ObjectGraph :=
  ObjectGraph.ofObjects
    [.object objectChain [(.string "type", .data (.str "object")), (.string "properties", .data (.ref 1)),
      (.string "required", .data (.ref 2)), (.string "additionalProperties", .data (.bool false))],
    .object objectChain [(.string "xs", .data (.ref 3))],
    .array arrayChain [some (.data (.str "xs"))] [],
    .object objectChain [(.string "type", .data (.str "array")), (.string "items", .data (.ref 4))],
    .object objectChain [(.string "oneOf", .data (.ref 5))],
    .array arrayChain [some (.data (.ref 6)), some (.data (.ref 7))] [],
    .object objectChain [(.string "type", .data (.str "string"))],
    .object objectChain [(.string "type", .data (.str "integer")), (.string "enum", .data (.ref 8))],
    .array arrayChain [some (.data (.num (.int 1))), some (.data (.num (.int 2)))] []]
    (.ref 0) (by decide) (by decide)

theorem validateJsonSchemaValue_nested : assertSupportedJsonSchema nestedSchema.objects (.ref 0) 40 = some (.ok ()) ∧
    (∃ tree, Reads nestedSchema.objects (.ref 0) tree) ∧ ∀ tree, Reads nestedSchema.objects (.ref 0) tree →
      ∀ (value : RuntimeValue) (path : String), ∃ violations, (∃ enough, ∀ fuel, enough ≤ fuel →
          validateJsonSchemaValue nestedSchema.objects (.ref 0) value fuel path = some (.ok violations)) ∧
        (violations = [] ↔ ∃ j, Lossless nestedSchema.objects 0 value j ∧ tree.accepts j = true) :=
  have haccepted : assertSupportedJsonSchema nestedSchema.objects (.ref 0) 40 = some (.ok ()) := by decide +kernel
  ⟨haccepted, validateJsonSchemaValue_iff nestedSchema (.ref 0) 40 haccepted⟩

end CocoHarness.Tools
