/-
# CocoHarness.SessionLog.LosslessGraph — what `walkJsonValue` accepts, as a property of the graph.

The recursive reading answers exactly the values that have a finite JSON tree, and these are the values
behind which there is no cycle and no node JSON cannot carry: a tree shrinks along every reference, so
nothing behind a lossless value leads back to it, and a reading that stops has either met such a node or
come back to an object it was inside of.  With the walk following the reading in both modes this settles
`walkJsonValue` (`walkJsonValue_agrees`).
-/
import CocoHarness.SessionLog.JsonWalk

namespace CocoHarness.SessionLog

open Lib List

variable {heap : List HeapObject} {base : Nat}

/-! ## A lossless value has one tree -/

mutual

theorem Lossless.unique : ∀ {v : RuntimeValue} {j j' : Json}, Lossless heap base v j → Lossless heap base v j' → j = j'
  | _, _, _, .null, .null => rfl
  | _, _, _, .bool _, .bool _ => rfl
  | _, _, _, .num _, .num _ => rfl
  | _, _, _, .str _, .str _ => rfl
  | _, _, _, .array _ hobject _ hitems, .array _ hobject' _ hitems' => by
    cases hobject.symm.trans hobject'
    rw [hitems.unique hitems']
  | _, _, _, .object _ hobject _ hitems, .object _ hobject' _ hitems' => by
    cases hobject.symm.trans hobject'
    rw [hitems.unique hitems']
  | _, _, _, .array _ hobject _ _, .object _ hobject' _ _ => by cases Option.some.inj (hobject.symm.trans hobject')
  | _, _, _, .object _ hobject _ _, .array _ hobject' _ _ => by cases Option.some.inj (hobject.symm.trans hobject')

theorem LosslessElements.unique : ∀ {elements : List (Option Property)} {js js' : List Json},
    LosslessElements heap base elements js → LosslessElements heap base elements js' → js = js'
  | _, _, _, .nil, .nil => rfl
  | _, _, _, .cons hvalue hhead htail, .cons hvalue' hhead' htail' => by
    cases hvalue.symm.trans hvalue'
    rw [hhead.unique hhead', htail.unique htail']

theorem LosslessFields.unique : ∀ {properties : List (PropertyKey × Property)}
    {fs fs' : List (String × Json)}, LosslessFields heap base properties fs →
    LosslessFields heap base properties fs' → fs = fs'
  | _, _, _, .nil, .nil => rfl
  | _, _, _, .cons _ hvalue hhead htail, .cons _ hvalue' hhead' htail' => by
    cases hvalue.symm.trans hvalue'
    rw [hhead.unique hhead', htail.unique htail']

end

/-! ## What the reading answers -/

section Reading

variable {read : RuntimeValue → Except Stop Json}

theorem losslessElements_of_readItems (hread : ∀ v j, read v = .ok j → Lossless heap base v j) :
    ∀ {elements : List (Option Property)} {js : List Json}, readItems read elements = .ok js →
      LosslessElements heap base elements js := by
  intro elements
  induction elements with
  | nil => rintro js ⟨⟩; exact .nil
  | cons p elements ih =>
    intro js h
    obtain _ | p := p
    · cases h
    · cases hvalue : p.value with
      | error thrown => rw [readItems_throws hvalue] at h; cases h
      | ok v =>
        cases hj : read v with
        | error stop => rw [readItems_error hvalue hj] at h; cases h
        | ok j =>
          rw [readItems_ok hvalue hj] at h
          obtain ⟨tail, htail, rfl⟩ := map_ok h
          exact .cons hvalue (hread v j hj) (ih htail)

theorem losslessFields_of_elements : ∀ {properties : List (PropertyKey × Property)}
    {keys : List String} {js : List Json}, properties.map (·.1) = keys.map .string →
    (∀ q ∈ properties, q.2.enumerable = true) →
    LosslessElements heap base (properties.map fun q => some q.2) js →
    LosslessFields heap base properties (keys.zip js) := by
  intro properties
  induction properties with
  | nil =>
    intro keys js hkeys _ h
    cases h
    rw [zip_nil_right]
    exact .nil
  | cons q properties ih =>
    obtain ⟨key, p⟩ := q
    intro keys js hkeys henumerable h
    obtain _ | ⟨name, keys⟩ := keys
    · cases hkeys
    · rw [map_cons, map_cons, cons_eq_cons] at hkeys
      obtain ⟨rfl, hkeys⟩ := hkeys
      rw [forall_mem_cons] at henumerable
      obtain ⟨hp, henumerable⟩ := henumerable
      cases h with
      | cons hvalue hhead htail => exact .cons hp hvalue hhead (ih hkeys henumerable htail)

theorem LosslessElements.count {elements : List (Option Property)} {js : List Json}
    (h : LosslessElements heap base elements js) : elements.countP (·.isSome) = elements.length := by
  rw [countP_eq_length]
  induction elements generalizing js with
  | nil => exact nofun
  | cons p elements ih =>
    cases h with
    | cons hvalue hhead htail => exact forall_mem_cons.mpr ⟨rfl, ih htail⟩

/-- **What the reading answers is lossless.** -/
theorem lossless_of_readJson {objects : List HeapObject} : ∀ {fuel : Nat} {ancestors : List Nat}
    {v : RuntimeValue} {j : Json}, readJson objects fuel ancestors v = .ok j →
    Lossless objects 0 v j := by
  intro fuel
  induction fuel with
  | zero =>
    intro ancestors v j h
    cases v <;> cases h
    · exact .null
    · exact .bool _
    · exact .num _
    · exact .str _
  | succ fuel ih =>
    intro ancestors v j h
    cases v with
    | undefined | unserializableNumber | other => cases h
    | null => cases h; exact .null
    | bool b => cases h; exact .bool b
    | num n => cases h; exact .num n
    | str s => cases h; exact .str s
    | ref place =>
      rw [readJson] at h
      by_cases hmem : place ∈ ancestors
      · rw [if_pos hmem] at h
        cases h
      rw [if_neg hmem] at h
      cases hobject : objects[place]? with
      | none => rw [hobject] at h; cases h
      | some object =>
        rw [hobject] at h
        dsimp only at h
        cases object with
        | array chain elements extra =>
          rw [readObject] at h
          split at h
          · cases h
          · next hplain =>
            split at h
            · cases h
            · next hcount =>
              obtain ⟨js, hjs, rfl⟩ := map_ok h
              have hitems := losslessElements_of_readItems (fun v j => ih) hjs
              obtain rfl : extra = [] := by
                rw [← length_eq_zero_iff]
                rw [ownKeysLength, hitems.count] at hcount
                omega
              exact .array (Nat.zero_le _) hobject (by simpa using hplain) hitems
        | object chain properties =>
          rw [readObject] at h
          split at h
          · cases h
          · next hplain =>
            cases hkeys : enumerableStringKeys properties with
            | none => rw [hkeys] at h; cases h
            | some keys =>
              rw [hkeys] at h
              obtain ⟨js, hjs, rfl⟩ := map_ok h
              obtain ⟨hnames, henumerable⟩ := JsonWalk.keys_of_enumerableStringKeys hkeys
              apply Lossless.object (Nat.zero_le _) hobject (by simpa using hplain)
              apply losslessFields_of_elements hnames henumerable
              exact losslessElements_of_readItems (fun v j => ih) hjs

/-- A reading that stops has met a hole, a throwing getter, or a value whose reading stops. -/
theorem exists_of_readItems_error {items : List (Option Property)} {stop : Stop}
    (h : readItems read items = .error stop) :
    none ∈ items ∨ (∃ p thrown, some p ∈ items ∧ p.value = .error thrown) ∨
      ∃ p v stop, some p ∈ items ∧ p.value = .ok v ∧ read v = .error stop := by
  induction items with
  | nil => cases h
  | cons p items ih =>
    obtain _ | p := p
    · exact .inl (mem_cons_self ..)
    · cases hvalue : p.value with
      | error thrown => exact .inr (.inl ⟨p, thrown, mem_cons_self .., hvalue⟩)
      | ok v =>
        cases hj : read v with
        | error stop => exact .inr (.inr ⟨p, v, stop, mem_cons_self .., hvalue, hj⟩)
        | ok j =>
          rw [readItems_ok hvalue hj] at h
          rcases ih (map_error h) with hhole | ⟨p, thrown, hp, ht⟩ | ⟨p, v, stop, hp, hv, hs⟩
          · exact .inl (mem_cons_of_mem _ hhole)
          · exact .inr (.inl ⟨p, thrown, mem_cons_of_mem _ hp, ht⟩)
          · exact .inr (.inr ⟨p, v, stop, mem_cons_of_mem _ hp, hv, hs⟩)

end Reading

/-! ## Behind a lossless value -/

variable {w : RuntimeValue}

theorem LosslessElements.child {p : Property} (hp : p.value = .ok w) :
    ∀ {elements : List (Option Property)} {js : List Json}, LosslessElements heap base elements js →
      some p ∈ elements → ∃ j ∈ js, Lossless heap base w j := by
  intro elements
  induction elements with
  | nil => exact fun _ => nofun
  | cons q elements ih =>
    intro js h hmem
    cases h with
    | cons hvalue hhead htail =>
      rcases mem_cons.mp hmem with heq | hmem
      · cases heq
        cases hvalue.symm.trans hp
        exact ⟨_, mem_cons_self .., hhead⟩
      · obtain ⟨j, hj, hlossless⟩ := ih htail hmem
        exact ⟨j, mem_cons_of_mem _ hj, hlossless⟩

theorem LosslessFields.child {q : PropertyKey × Property} (hq : q.2.value = .ok w) :
    ∀ {properties : List (PropertyKey × Property)} {fs : List (String × Json)},
      LosslessFields heap base properties fs → q ∈ properties → ∃ f ∈ fs, Lossless heap base w f.2 := by
  intro properties
  induction properties with
  | nil => exact fun _ => nofun
  | cons r properties ih =>
    intro fs h hmem
    cases h with
    | cons henumerable hvalue hhead htail =>
      rcases mem_cons.mp hmem with rfl | hmem
      · cases hvalue.symm.trans hq
        exact ⟨_, mem_cons_self .., hhead⟩
      · obtain ⟨f, hf, hlossless⟩ := ih htail hmem
        exact ⟨f, mem_cons_of_mem _ hf, hlossless⟩

variable {v : RuntimeValue} {j : Json}

/-- **A tree shrinks along every reference.** -/
theorem Lossless.child (h : Lossless heap base v j) (href : RefersTo heap v w) :
    ∃ j', Lossless heap base w j' ∧ sizeOf j' < sizeOf j := by
  obtain ⟨place, object, rfl, hobject, hw⟩ := href
  cases h with
  | array hplace hobject' hplain hitems =>
    cases hobject.symm.trans hobject'
    obtain ⟨p, hp, hvalue⟩ := mem_filterMap.mp hw
    obtain _ | p := p
    · cases hvalue
    · cases hpv : p.value with
      | error thrown => rw [Option.bind_some, hpv] at hvalue; cases hvalue
      | ok v =>
        rw [Option.bind_some, hpv] at hvalue
        cases hvalue
        obtain ⟨j, hj, hlossless⟩ := hitems.child hpv hp
        refine ⟨j, hlossless, ?_⟩
        have := sizeOf_lt_of_mem hj
        rw [Json.arr.sizeOf_spec]
        omega
  | object hplace hobject' hplain hitems =>
    cases hobject.symm.trans hobject'
    obtain ⟨q, hq, hvalue⟩ := mem_filterMap.mp hw
    cases hqv : q.2.value with
    | error thrown => rw [hqv] at hvalue; cases hvalue
    | ok v =>
      rw [hqv] at hvalue
      cases hvalue
      obtain ⟨⟨key, j⟩, hf, hlossless⟩ := hitems.child hqv hq
      refine ⟨j, hlossless, ?_⟩
      have := sizeOf_lt_of_mem hf
      rw [Prod.mk.sizeOf_spec] at this
      rw [Json.obj.sizeOf_spec]
      omega

theorem Lossless.reaches (h : Lossless heap base v j) (hreach : Reaches heap v w) : ∃ j', Lossless heap base w j' := by
  induction hreach with
  | refl => exact ⟨j, h⟩
  | tail _ href ih =>
    obtain ⟨j', h'⟩ := ih
    obtain ⟨j'', h'', -⟩ := h'.child href
    exact ⟨j'', h''⟩

theorem Lossless.behind (h : Lossless heap base v j) (hbehind : Relation.TransGen (RefersTo heap) v w) :
    ∃ j', Lossless heap base w j' ∧ sizeOf j' < sizeOf j := by
  induction hbehind with
  | single href => exact h.child href
  | tail _ href ih =>
    obtain ⟨j', h', hlt'⟩ := ih
    obtain ⟨j'', h'', hlt''⟩ := h'.child href
    exact ⟨j'', h'', hlt''.trans hlt'⟩

/-- Nothing behind a lossless value leads back to itself: its tree would be smaller than itself. -/
theorem Lossless.acyclic (h : Lossless heap base v j) : Acyclic heap v := by
  have hself : ∀ n w j, sizeOf j < n → Lossless heap base w j → ¬ Relation.TransGen (RefersTo heap) w w := by
    intro n
    induction n with
    | zero => intro w j hlt; omega
    | succ n ih =>
      intro w j hlt hw hcycle
      obtain ⟨j', hw', hlt'⟩ := hw.behind hcycle
      exact ih w j' (by omega) hw' hcycle
  intro w hreach
  obtain ⟨j', hw⟩ := h.reaches hreach
  exact hself _ w j' (Nat.lt_succ_self _) hw

theorem LosslessElements.readable {elements : List (Option Property)} {js : List Json}
    (h : LosslessElements heap base elements js) :
    ∀ p ∈ elements, ∃ q v, p = some q ∧ q.value = .ok v := by
  induction elements generalizing js with
  | nil => exact nofun
  | cons p elements ih =>
    cases h with
    | cons hvalue hhead htail => exact forall_mem_cons.mpr ⟨⟨_, _, rfl, hvalue⟩, ih htail⟩

variable {properties : List (PropertyKey × Property)}

theorem LosslessFields.readable {fs : List (String × Json)} (h : LosslessFields heap base properties fs) :
    ∀ q ∈ properties, (∃ key, q.1 = .string key) ∧ q.2.enumerable = true ∧ ∃ v, q.2.value = .ok v := by
  induction properties generalizing fs with
  | nil => exact nofun
  | cons q properties ih =>
    cases h with
    | cons henumerable hvalue hhead htail => exact forall_mem_cons.mpr ⟨⟨⟨_, rfl⟩, henumerable, _, hvalue⟩, ih htail⟩

theorem Lossless.node (h : Lossless heap base v j) : LosslessNode heap v := by
  cases h with
  | null | bool b | num n | str s => trivial
  | array hplace hobject hplain hitems => exact .inl ⟨_, _, hobject, hplain, hitems.readable⟩
  | object hplace hobject hplain hitems => exact .inr ⟨_, _, hobject, hplain, hitems.readable⟩

/-! ## Why a reading stops -/

/-- Something behind `v` is not lossless or leads back to itself, or `v` leads back to an object it is in. -/
def StopReason (objects : List HeapObject) (ancestors : List Nat) (v : RuntimeValue) : Prop :=
  (∃ w, Reaches objects v w ∧ ¬ LosslessNode objects w) ∨
    (∃ w, Reaches objects v w ∧ Relation.TransGen (RefersTo objects) w w) ∨
    ∃ a ∈ ancestors, Reaches objects v (.ref a)

theorem StopReason.parent {objects : List HeapObject} {ancestors : List Nat} {place : Nat}
    (href : RefersTo objects (.ref place) w) (h : StopReason objects (place :: ancestors) w) :
    StopReason objects ancestors (.ref place) := by
  rcases h with ⟨u, hreach, hnode⟩ | ⟨u, hreach, hcycle⟩ | ⟨a, ha, hreach⟩
  · exact .inl ⟨u, hreach.head href, hnode⟩
  · exact .inr (.inl ⟨u, hreach.head href, hcycle⟩)
  · rcases mem_cons.mp ha with rfl | ha
    · -- back at this very object
      exact .inr (.inl ⟨_, .refl, Relation.TransGen.head' href hreach⟩)
    · exact .inr (.inr ⟨a, ha, hreach.head href⟩)

theorem enumerableStringKeys_isSome
    (h : ∀ q ∈ properties, (∃ key, q.1 = .string key) ∧ q.2.enumerable = true ∧ ∃ v, q.2.value = .ok v) :
    ∃ keys, enumerableStringKeys properties = some keys := by
  induction properties with
  | nil => exact ⟨[], rfl⟩
  | cons q properties ih =>
    rw [forall_mem_cons] at h
    obtain ⟨⟨⟨key, hkey⟩, henumerable, -⟩, htail⟩ := h
    obtain ⟨keys, hkeys⟩ := ih htail
    obtain ⟨_, p⟩ := q
    obtain rfl := hkey
    exact ⟨key :: keys, by rw [enumerableStringKeys, if_pos henumerable, hkeys]; rfl⟩

namespace ObjectGraph

variable (g : ObjectGraph)

/-- **A reading that stops has a reason in the graph.** -/
theorem stopReason : ∀ {fuel : Nat} {ancestors : List Nat} {v : RuntimeValue} {stop : Stop},
    ancestors.Nodup → (∀ a ∈ ancestors, a < g.objects.length) →
    g.objects.length < fuel + ancestors.length → (∀ place, v = .ref place → place < g.objects.length) →
    readJson g.objects fuel ancestors v = .error stop → StopReason g.objects ancestors v := by
  intro fuel
  induction fuel with
  | zero =>
    intro ancestors v stop hnodup hin hfuel
    have hle : ancestors.length ≤ (List.range g.objects.length).length :=
      (hnodup.subperm fun a ha => mem_range.mpr (hin a ha)).length_le
    rw [length_range] at hle
    omega
  | succ fuel ih =>
    intro ancestors v stop hnodup hin hfuel hplace h
    cases v with
    | undefined | unserializableNumber | other => exact .inl ⟨_, .refl, id⟩
    | null | bool b | num n | str s => cases h
    | ref place =>
      have hlt := hplace place rfl
      have hobject := List.getElem?_eq_getElem hlt
      rw [readJson] at h
      by_cases hmem : place ∈ ancestors
      · exact .inr (.inr ⟨place, hmem, .refl⟩)
      rw [if_neg hmem, hobject] at h
      have hnext : ∀ {w stop}, (∀ inner, w = .ref inner → inner < g.objects.length) →
          RefersTo g.objects (.ref place) w →
          readJson g.objects fuel (place :: ancestors) w = .error stop →
          StopReason g.objects ancestors (.ref place) := by
        intro w stop hw href hstop
        apply StopReason.parent href
        exact ih (nodup_cons.mpr ⟨hmem, hnodup⟩) (forall_mem_cons.mpr ⟨hlt, hin⟩)
          (by rw [length_cons]; omega) hw hstop
      have hat := getElem_mem hlt
      generalize g.objects[place] = object at hobject h hat
      dsimp only at h
      cases object with
      | array chain elements extra =>
        -- the node itself, or one of its elements
        by_cases hnode : LosslessNode g.objects (.ref place)
        · rcases hnode with ⟨chain', elements', hobject', hplain, hreadable⟩ | ⟨_, _, hobject', -⟩
          · cases hobject.symm.trans hobject'
            have hcount : ownKeysLength elements [] = elements.length + 1 := by
              rw [ownKeysLength, countP_eq_length.mpr]
              · rfl
              · intro p hp
                obtain ⟨q, -, rfl, -⟩ := hreadable p hp
                rfl
            rw [readObject, if_neg (by simpa using hplain), if_neg (by simpa using hcount)] at h
            rcases exists_of_readItems_error (map_error h) with
              hhole | ⟨p, thrown, hp, hthrows⟩ | ⟨p, w, stop, hp, hvalue, hstop⟩
            · obtain ⟨_, _, hsome, -⟩ := hreadable none hhole
              cases hsome
            · obtain ⟨q, v, hsome, hv⟩ := hreadable _ hp
              cases hsome
              rw [hv] at hthrows
              cases hthrows
            · apply hnext (w := w) _ ⟨place, _, rfl, hobject, ?_⟩ hstop
              · rintro inner rfl
                exact g.closedArrays _ _ _ hat p hp inner hvalue
              · refine mem_filterMap.mpr ⟨some p, hp, ?_⟩
                rw [Option.bind_some, hvalue]
                rfl
          · cases Option.some.inj (hobject.symm.trans hobject')
        · exact .inl ⟨_, .refl, hnode⟩
      | object chain properties =>
        by_cases hnode : LosslessNode g.objects (.ref place)
        · rcases hnode with ⟨_, _, hobject', -⟩ | ⟨chain', properties', hobject', hplain, hreadable⟩
          · cases Option.some.inj (hobject.symm.trans hobject')
          · cases hobject.symm.trans hobject'
            obtain ⟨keys, hkeys⟩ := enumerableStringKeys_isSome hreadable
            rw [readObject, if_neg (by simpa using hplain), hkeys] at h
            rcases exists_of_readItems_error (map_error h) with
              hhole | ⟨p, thrown, hp, hthrows⟩ | ⟨p, w, stop, hp, hvalue, hstop⟩
            · obtain ⟨_, -, hsome⟩ := mem_map.mp hhole
              cases hsome
            · obtain ⟨q, hq, hsome⟩ := mem_map.mp hp
              cases hsome
              obtain ⟨-, -, v, hv⟩ := hreadable q hq
              rw [hv] at hthrows
              cases hthrows
            · obtain ⟨q, hq, hsome⟩ := mem_map.mp hp
              cases hsome
              apply hnext (w := w) _ ⟨place, _, rfl, hobject, ?_⟩ hstop
              · rintro inner rfl
                exact g.closedObjects _ _ hat q hq inner hvalue
              · refine mem_filterMap.mpr ⟨q, hq, ?_⟩
                rw [hvalue]
                rfl
        · exact .inl ⟨_, .refl, hnode⟩

def reading : Except Stop Json := readJson g.objects (g.objects.length + 1) [] g.root

theorem reading_ok_iff : (∃ j, g.reading = .ok j) ↔
    Acyclic g.objects g.root ∧ ∀ v, Reaches g.objects g.root v → LosslessNode g.objects v := by
  constructor
  · rintro ⟨j, hj⟩
    have h := lossless_of_readJson hj
    refine ⟨h.acyclic, fun v hreach => ?_⟩
    obtain ⟨j', hv⟩ := h.reaches hreach
    exact hv.node
  · rintro ⟨hacyclic, hnodes⟩
    cases hstop : g.reading with
    | ok j => exact ⟨j, rfl⟩
    | error stop =>
      rcases g.stopReason nodup_nil nofun (Nat.lt_succ_self _) g.rooted hstop with
        ⟨w, hreach, hnode⟩ | ⟨w, hreach, hcycle⟩ | ⟨a, ha, -⟩
      · exact absurd (hnodes w hreach) hnode
      · exact absurd hcycle (hacyclic w hreach)
      · cases ha

theorem reading_eq {j : Json} (h : Lossless g.objects 0 g.root j) : g.reading = .ok j := by
  obtain ⟨j', hj'⟩ := g.reading_ok_iff.mpr ⟨h.acyclic, fun v hreach => by
    obtain ⟨j', hv⟩ := h.reaches hreach
    exact hv.node⟩
  rw [hj', (lossless_of_readJson hj').unique h]

def verdict : Except RuntimeValue Bool :=
  match g.reading with
  | .ok _ => .ok true
  | .error stop => stop.verdict

theorem verdict_iff : g.verdict = .ok true ↔ ∃ j, g.reading = .ok j := by
  rw [verdict]
  cases hreading : g.reading with
  | ok j => exact ⟨fun _ => ⟨j, rfl⟩, fun _ => rfl⟩
  | error stop => cases stop <;> exact ⟨nofun, nofun⟩

open JsonWalk in
/-- **Both modes end, with the verdict of the reading**, and leave the graph as it was. -/
theorem walk_ends (detach : Bool) : ∃ enough outcome,
    (∀ fuel, enough ≤ fuel → g.walkJsonValue detach fuel = some outcome) ∧
    outcome.verdict = g.verdict ∧
    ∀ j, g.reading = .ok j → detach = true → ∃ snapshot new, outcome = .returned snapshot (g.objects ++ new) ∧
      Lossless (g.objects ++ new) g.objects.length snapshot j := by
  have hfresh : Fresh g.objects g.objects detach (if detach then some .root else none) := by
    cases detach with
    | false => exact ⟨rfl, nofun⟩
    | true =>
      refine ⟨rfl, ?_⟩
      rintro _ target ⟨⟩ ⟨⟩
  have hfollows := @visit_follows g detach (g.objects.length + 1) [] nodup_nil nofun
    (Nat.lt_succ_self _)
  obtain ⟨hstops, hgoes⟩ := hfollows g.root [] g.objects .undefined _ g.rooted
    ⟨Nat.le_refl _, fun _ _ => rfl⟩ hfresh
  have hmore : ∀ (k : Nat) outcome, (∀ fuel, run detach (fuel + k) ⟨g.objects, [], .undefined,
        [.visit g.root (if detach then some .root else none)]⟩ = some outcome) →
      ∀ fuel, k ≤ fuel → g.walkJsonValue detach fuel = some outcome := by
    intro k outcome hrun fuel hle
    have h := hrun (fuel - k)
    rw [Nat.sub_add_cancel hle] at h
    exact h
  rw [verdict]
  cases hreading : g.reading with
  | error stop =>
    obtain ⟨k, outcome, hverdict, hrun⟩ := hstops stop hreading
    exact ⟨k, outcome, hmore k outcome hrun, hverdict, nofun⟩
  | ok j =>
    obtain ⟨heap', root', ⟨k, hrun⟩, hstored⟩ := hgoes j hreading
    -- one more turn, on an empty stack
    refine ⟨1 + k, .returned (if detach then root' else .bool true) heap', ?_, ?_, ?_⟩
    · apply hmore
      intro fuel
      rw [← Nat.add_assoc, hrun]
      rfl
    · cases hdetach : detach with
      | false => rfl
      | true =>
        subst hdetach
        obtain ⟨item, new, -, hroot, hitem⟩ := hstored
        obtain rfl : root' = item := hroot
        show Except.ok (decide (root' ≠ .undefined)) = .ok true
        cases hitem <;> rfl
    · rintro _ ⟨⟩ rfl
      obtain ⟨item, new, rfl, hroot, hitem⟩ := hstored
      obtain rfl : root' = item := hroot
      exact ⟨root', new, rfl, hitem⟩

/-- **`walkJsonValue` accepts the lossless graphs and nothing else.**  Both modes end and agree, whether they accept,
reject or pass on what a getter throws; they accept exactly when there is no cycle behind the root and JSON carries
every node, which are the values with a JSON tree; and a snapshot has the tree of its original, leaves it as it was,
and is made of new objects. -/
theorem walkJsonValue_agrees : ∃ enough plain detached,
    (∀ fuel, enough ≤ fuel → g.walkJsonValue false fuel = some plain ∧ g.walkJsonValue true fuel = some detached) ∧
    detached.verdict = plain.verdict ∧
    (plain.verdict = .ok true ↔ Acyclic g.objects g.root ∧
      ∀ v, Reaches g.objects g.root v → LosslessNode g.objects v) ∧
    (plain.verdict = .ok true ↔ ∃ j, Lossless g.objects 0 g.root j) ∧
    (detached.verdict = .ok true → ∃ snapshot heap, detached = .returned snapshot heap ∧
      (∃ j, Lossless g.objects 0 g.root j ∧ Lossless heap 0 snapshot j) ∧
      heap.take g.objects.length = g.objects ∧
      ∀ place, Reaches heap snapshot (.ref place) → g.objects.length ≤ place) := by
  obtain ⟨k, plain, hplain, hverdict, -⟩ := g.walk_ends false
  obtain ⟨l, detached, hdetached, hverdict', hsnapshot⟩ := g.walk_ends true
  refine ⟨max k l, plain, detached, ?_, ?_, ?_, ?_, ?_⟩
  · intro fuel hle
    exact ⟨hplain fuel (by omega), hdetached fuel (by omega)⟩
  · rw [hverdict, hverdict']
  · rw [hverdict, g.verdict_iff, g.reading_ok_iff]
  · rw [hverdict, g.verdict_iff]
    constructor
    · rintro ⟨j, hj⟩
      exact ⟨j, lossless_of_readJson hj⟩
    · rintro ⟨j, hj⟩
      exact ⟨j, g.reading_eq hj⟩
  · intro haccepts
    rw [hverdict', g.verdict_iff] at haccepts
    obtain ⟨j, hj⟩ := haccepts
    obtain ⟨snapshot, new, rfl, hlossless⟩ := hsnapshot j hj rfl
    refine ⟨snapshot, _, rfl, ⟨j, lossless_of_readJson hj, ?_⟩, take_left, ?_⟩
    · exact hlossless.transfer (Nat.zero_le _) fun _ _ _ h => h
    · intro place hreach
      obtain ⟨j', hplace⟩ := hlossless.reaches hreach
      cases hplace with
      | array hbehind | object hbehind => exact hbehind

/-- A diamond is accepted; an array inside itself is not. -/
example :
    let shared : HeapObject := .array arrayChain [some (.data (.num (.int 1)))] []
    let loop : HeapObject := .array arrayChain [some (.data (.ref 1))] []
    let record : HeapObject := .object objectChain [(.string "a", .data (.ref 1)), (.string "b", .data (.ref 1))]
    (JsonWalk.run true 20 { heap := [record, shared], tasks := [.visit (.ref 0) (some .root)] }).map
        WalkOutcome.verdict = some (.ok true) ∧
      (JsonWalk.run true 20 { heap := [record, loop], tasks := [.visit (.ref 0) (some .root)] }).map
        WalkOutcome.verdict = some (.ok false) := by
  decide +kernel

end ObjectGraph

end CocoHarness.SessionLog
