/-
# CocoHarness.SessionLog.JsonWalk — the walk computes the recursive reading of a value.

`readJson` reads a value by recursion, carrying the objects it is inside of.  `visit_follows` shows that the loop of
`walkJsonValue` does the same from any state of its stack: where the reading stops the walk ends with the same
verdict, and where it answers a value the walk takes the visit off the stack, leaves the ancestors as they were and,
when it detaches, has stored a fresh copy at the destination.
-/
import CocoHarness.SessionLog.ObjectGraph

namespace CocoHarness.SessionLog

open Lib List

/-! ## The recursive reading -/

inductive Stop where
  | rejected
  | threw (error : RuntimeValue)

def Stop.verdict : Stop → Except RuntimeValue Bool
  | rejected => .ok false
  | threw error => .error error

def readItems (read : RuntimeValue → Except Stop Json) : List (Option Property) → Except Stop (List Json)
  | [] => .ok []
  | none :: _ => .error .rejected
  | some p :: items =>
    match p.value with
    | .error error => .error (.threw error)
    | .ok v =>
      match read v with
      | .error stop => .error stop
      | .ok j => (readItems read items).map (j :: ·)

variable {α β ε : Type} {f : α → β} {x : Except ε α}

theorem map_error {e : ε} (h : x.map f = .error e) : x = .error e := by
  cases x with
  | error e' => exact congrArg _ (Except.error.inj h)
  | ok a => cases h

theorem map_ok {b : β} (h : x.map f = .ok b) : ∃ a, x = .ok a ∧ f a = b := by
  cases x with
  | error e => cases h
  | ok a => exact ⟨a, rfl, Except.ok.inj h⟩

section Items

variable {read : RuntimeValue → Except Stop Json} {p : Property} {items : List (Option Property)}

theorem readItems_throws {error : RuntimeValue} (h : p.value = .error error) :
    readItems read (some p :: items) = .error (.threw error) := by
  rw [readItems, h]

variable {v : RuntimeValue}

theorem readItems_error {stop : Stop} (h : p.value = .ok v)
    (hread : read v = .error stop) : readItems read (some p :: items) = .error stop := by
  rw [readItems, h]
  simp only [hread]

theorem readItems_ok {j : Json} (h : p.value = .ok v) (hread : read v = .ok j) :
    readItems read (some p :: items) = (readItems read items).map (j :: ·) := by
  rw [readItems, h]
  simp only [hread]

end Items

def readObject (read : RuntimeValue → Except Stop Json) : HeapObject → Except Stop Json
  | .array chain elements extra =>
    if !hasPlainArrayPrototype chain then .error .rejected
    else if ownKeysLength elements extra ≠ elements.length + 1 then .error .rejected
    else (readItems read elements).map .arr
  | .object chain properties =>
    if !hasPlainObjectPrototype chain then .error .rejected
    else
      match enumerableStringKeys properties with
      | none => .error .rejected
      | some keys => (readItems read (properties.map fun q => some q.2)).map fun js => .obj (keys.zip js)

/-- A value; `ancestors` are the objects the reading is inside of, and `fuel` bounds how many more it
enters. -/
def readJson (objects : List HeapObject) : Nat → List Nat → RuntimeValue → Except Stop Json
  | _, _, .null => .ok .null
  | _, _, .bool b => .ok (.bool b)
  | _, _, .num n => .ok (.num n)
  | _, _, .str s => .ok (.str s)
  | _, _, .undefined | _, _, .unserializableNumber | _, _, .other => .error .rejected
  | 0, _, .ref _ => .error .rejected
  | fuel + 1, ancestors, .ref place =>
    if place ∈ ancestors then .error .rejected
    else
      match objects[place]? with
      | none => .error .rejected
      | some object => readObject (readJson objects fuel (place :: ancestors)) object

def SnapshotDestination.target : SnapshotDestination → Option Nat
  | .root => none
  | .array target _ | .object target _ => some target

/-! ## Runs of the loop -/

namespace JsonWalk

variable {detach : Bool} {w w' w'' : JsonWalk}

def Leads (detach : Bool) (w w' : JsonWalk) : Prop := ∃ k, ∀ fuel, run detach (fuel + k) w = run detach fuel w'

def Ends (detach : Bool) (w : JsonWalk) (verdict : Except RuntimeValue Bool) : Prop :=
  ∃ k outcome, outcome.verdict = verdict ∧ ∀ fuel, run detach (fuel + k) w = some outcome

theorem Leads.refl (w : JsonWalk) : Leads detach w w := ⟨0, fun _ => rfl⟩

theorem Leads.step (h : w.step detach = .inl w') : Leads detach w w' := ⟨1, fun fuel => by rw [run, h]⟩

theorem Leads.trans (h : Leads detach w w') (h' : Leads detach w' w'') : Leads detach w w'' := by
  obtain ⟨k, hk⟩ := h
  obtain ⟨l, hl⟩ := h'
  refine ⟨l + k, fun fuel => ?_⟩
  rw [← Nat.add_assoc, hk, hl]

theorem Ends.step {outcome : WalkOutcome} (h : w.step detach = .inr outcome) : Ends detach w outcome.verdict :=
  ⟨1, outcome, rfl, fun fuel => by rw [run, h]⟩

variable {heap : List HeapObject}

theorem Ends.reject (h : w.step detach = .inr (.returned .undefined heap)) : Ends detach w Stop.rejected.verdict :=
  Ends.step h

theorem Leads.ends {verdict : Except RuntimeValue Bool} (h : Leads detach w w')
    (h' : Ends detach w' verdict) : Ends detach w verdict := by
  obtain ⟨k, hk⟩ := h
  obtain ⟨l, outcome, hv, hl⟩ := h'
  refine ⟨l + k, outcome, hv, fun fuel => ?_⟩
  rw [← Nat.add_assoc, hk, hl]

/-! ## Storing in the snapshot -/

variable {α : Type} {f : α → α} {i : Nat} {l : List α}

theorem modify_append_left (h : i < l.length) (m : List α) : (l ++ m).modify i f = l.modify i f ++ m := by
  rw [modify_eq_take_cons_drop (by simp; omega), modify_eq_take_cons_drop h,
    take_append_of_le_length (by omega), drop_append_of_le_length (by omega),
    getElem_append_left h, append_assoc, cons_append]

theorem modify_eq_set_of_getElem? {a : α} (h : l[i]? = some a) : l.modify i f = l.set i (f a) := by
  obtain ⟨hlt, rfl⟩ := List.getElem?_eq_some_iff.mp h
  rw [modify_eq_take_cons_drop hlt, set_eq_take_append_cons_drop, if_pos hlt]

def storeAt (destination : Option SnapshotDestination) (item : RuntimeValue) (heap : List HeapObject) :
    List HeapObject :=
  match destination with
  | none | some .root => heap
  | some (.array target index) => heap.modify target (HeapObject.store item (.array target index))
  | some (.object target key) => heap.modify target (HeapObject.store item (.object target key))

def rootAt (destination : Option SnapshotDestination) (item root : RuntimeValue) : RuntimeValue :=
  match destination with
  | some .root => item
  | _ => root

theorem assign_eq (w : JsonWalk) (d : Option SnapshotDestination) (item : RuntimeValue) :
    w.assign d item = { w with heap := storeAt d item w.heap, root := rootAt d item w.root } := by
  rcases d with _ | _ | _ | _ <;> rfl

@[simp] theorem length_storeAt (d : Option SnapshotDestination) (item : RuntimeValue)
    (heap : List HeapObject) : (storeAt d item heap).length = heap.length := by
  rcases d with _ | _ | _ | _ <;> simp [storeAt]

theorem storeAt_append {d : Option SnapshotDestination} (h : ∀ dest target, d = some dest → dest.target = some target → target < heap.length)
    (item : RuntimeValue) (more : List HeapObject) :
    storeAt d item (heap ++ more) = storeAt d item heap ++ more := by
  rcases d with _ | _ | ⟨target, index⟩ | ⟨target, key⟩
  · rfl
  · rfl
  · have hlt := h _ target rfl rfl
    simp only [storeAt]
    exact modify_append_left hlt _
  · have hlt := h _ target rfl rfl
    simp only [storeAt]
    exact modify_append_left hlt _

theorem getElem?_storeAt {d : Option SnapshotDestination} {place : Nat} (h : ∀ dest, d = some dest → dest.target ≠ some place) (item : RuntimeValue) :
    (storeAt d item heap)[place]? = heap[place]? := by
  rcases d with _ | _ | ⟨target, index⟩ | ⟨target, key⟩
  · rfl
  · rfl
  · have hne : target ≠ place := fun heq => h _ rfl (by rw [heq]; rfl)
    exact getElem?_modify_ne _ _ hne
  · have hne : target ≠ place := fun heq => h _ rfl (by rw [heq]; rfl)
    exact getElem?_modify_ne _ _ hne

/-- The graph's own objects stand at the front of the heap, as they were. -/
def Keeps (objects heap : List HeapObject) : Prop :=
  objects.length ≤ heap.length ∧ ∀ place, place < objects.length → heap[place]? = objects[place]?

/-- There is a destination exactly when the walk detaches, in an object that is not the graph's. -/
structure Fresh (objects heap : List HeapObject) (detach : Bool) (d : Option SnapshotDestination) : Prop where
  isSome : d.isSome = detach
  target : ∀ dest target, d = some dest → dest.target = some target → objects.length ≤ target ∧ target < heap.length

/-- What a visit leaves: the item at the destination, behind it the snapshot's new objects. -/
def Stored (detach : Bool) (d : Option SnapshotDestination) (j : Json) (heap : List HeapObject)
    (root : RuntimeValue) (heap' : List HeapObject) (root' : RuntimeValue) : Prop :=
  if detach then
    ∃ item new, heap' = storeAt d item heap ++ new ∧ root' = rootAt d item root ∧ Lossless heap' heap.length item j
  else heap' = heap ∧ root' = root

end JsonWalk

/-! ## Readings of the heap -/

mutual

variable {heap' : List HeapObject} {base base' : Nat}

/-- A reading holds in every heap that agrees behind `base`, and from every earlier base. -/
theorem Lossless.transfer {heap : List HeapObject} (hbase : base' ≤ base)
    (h : ∀ place object, base ≤ place → heap[place]? = some object → heap'[place]? = some object) :
    ∀ {v : RuntimeValue} {j : Json}, Lossless heap base v j → Lossless heap' base' v j
  | _, _, .null => .null
  | _, _, .bool b => .bool b
  | _, _, .num n => .num n
  | _, _, .str s => .str s
  | _, _, .array hplace hobject hplain hitems =>
    .array (hbase.trans hplace) (h _ _ hplace hobject) hplain (hitems.transfer hbase h)
  | _, _, .object hplace hobject hplain hitems =>
    .object (hbase.trans hplace) (h _ _ hplace hobject) hplain (hitems.transfer hbase h)

theorem LosslessElements.transfer {heap : List HeapObject} (hbase : base' ≤ base)
    (h : ∀ place object, base ≤ place → heap[place]? = some object → heap'[place]? = some object) :
    ∀ {elements : List (Option Property)} {js : List Json}, LosslessElements heap base elements js →
      LosslessElements heap' base' elements js
  | _, _, .nil => .nil
  | _, _, .cons hvalue hhead htail => .cons hvalue (hhead.transfer hbase h) (htail.transfer hbase h)

theorem LosslessFields.transfer {heap : List HeapObject} (hbase : base' ≤ base)
    (h : ∀ place object, base ≤ place → heap[place]? = some object → heap'[place]? = some object) :
    ∀ {properties : List (PropertyKey × Property)} {fs : List (String × Json)},
      LosslessFields heap base properties fs → LosslessFields heap' base' properties fs
  | _, _, .nil => .nil
  | _, _, .cons henumerable hvalue hhead htail =>
    .cons henumerable hvalue (hhead.transfer hbase h) (htail.transfer hbase h)

end

variable {base : Nat} {keys : List String} {vs : List RuntimeValue} {js : List Json}

theorem losslessElements_of_forall₂ {heap : List HeapObject} (h : Forall₂ (Lossless heap base) vs js) :
    LosslessElements heap base (vs.map fun v => some (.data v)) js := by
  induction h with
  | nil => exact .nil
  | cons hhead _ ih => exact .cons rfl hhead ih

theorem losslessFields_of_forall₂ {heap : List HeapObject} (h : Forall₂ (Lossless heap base) vs js) (hlength : keys.length = vs.length) :
    LosslessFields heap base (zipWith (fun key v => (.string key, .data v)) keys vs)
      (keys.zip js) := by
  induction h generalizing keys with
  | nil =>
    rw [length_nil, length_eq_zero_iff] at hlength
    subst hlength
    exact .nil
  | cons hhead _ ih =>
    obtain _ | ⟨key, keys⟩ := keys
    · cases hlength
    · exact .cons rfl rfl hhead (ih (by simpa using hlength))

/-! ## The walk follows the reading -/

namespace JsonWalk

variable {objects : List HeapObject} {detach : Bool} {ancestors : List Nat}
  {read : RuntimeValue → Except Stop Json}

/-- From every state with these ancestors, visiting a value of the graph does what `read` says. -/
def Follows (objects : List HeapObject) (detach : Bool) (ancestors : List Nat)
    (read : RuntimeValue → Except Stop Json) : Prop :=
  ∀ (v : RuntimeValue) (rest : List JsonWalkTask) (heap : List HeapObject) (root : RuntimeValue)
    (d : Option SnapshotDestination), (∀ place, v = .ref place → place < objects.length) →
    Keeps objects heap → Fresh objects heap detach d →
    (∀ stop, read v = .error stop → Ends detach ⟨heap, ancestors, root, .visit v d :: rest⟩ stop.verdict) ∧
    ∀ j, read v = .ok j → ∃ heap' root',
      Leads detach ⟨heap, ancestors, root, .visit v d :: rest⟩ ⟨heap', ancestors, root', rest⟩ ∧
      Stored detach d j heap root heap' root'

structure WalkItem where
  task : JsonWalkTask
  destination : Option SnapshotDestination
  property : Option Property

/-- The items of an object the walk is inside of, and the snapshot object `fill` they go to. -/
structure Items (objects : List HeapObject) (detach : Bool) (ancestors : List Nat) (target : Nat)
    (fill : List RuntimeValue → HeapObject) (items : List WalkItem) : Prop where
  behind : objects.length ≤ target
  closed : ∀ i ∈ items, ∀ p, i.property = some p → ∀ place, p.value = .ok (.ref place) → place < objects.length
  missing : ∀ i ∈ items, i.property = none → ∀ heap root rest, Keeps objects heap →
    step ⟨heap, ancestors, root, i.task :: rest⟩ detach = .inr (.returned .undefined heap)
  throws : ∀ i ∈ items, ∀ p error, i.property = some p → p.value = .error error →
    ∀ heap root rest, Keeps objects heap → step ⟨heap, ancestors, root, i.task :: rest⟩ detach = .inr (.threw error)
  reads : ∀ i ∈ items, ∀ p v, i.property = some p → p.value = .ok v →
    ∀ heap root rest, Keeps objects heap → step ⟨heap, ancestors, root, i.task :: rest⟩ detach
      = .inl ⟨heap, ancestors, root, .visit v i.destination :: rest⟩
  kept : detach = false → ∀ i ∈ items, i.destination = none
  stores : detach = true → ∀ before i after, items = before ++ i :: after →
    ∃ dest, i.destination = some dest ∧ dest.target = some target ∧
      ∀ vs item, vs.length = before.length → (fill vs).store item dest = fill (vs ++ [item])

variable {heap : List HeapObject}

theorem Keeps.append (h : Keeps objects heap) (more : List HeapObject) : Keeps objects (heap ++ more) := by
  refine ⟨by rw [length_append]; exact Nat.le_add_right_of_le h.1, fun place hlt => ?_⟩
  rw [getElem?_append_left (Nat.lt_of_lt_of_le hlt h.1)]
  exact h.2 place hlt

variable {target : Nat}

theorem Keeps.set (h : Keeps objects heap) (htarget : objects.length ≤ target) (object : HeapObject) :
    Keeps objects (heap.set target object) := by
  refine ⟨by rw [length_set]; exact h.1, fun place hlt => ?_⟩
  rw [getElem?_set_ne (by omega)]
  exact h.2 place hlt

variable {fill : List RuntimeValue → HeapObject} {items before after : List WalkItem}
  {i : WalkItem} {vs : List RuntimeValue}

theorem Items.storeAt (h : Items objects detach ancestors target fill items) (hdetach : detach = true) (hitems : items = before ++ i :: after)
    (hlength : vs.length = before.length) (hfill : heap[target]? = some (fill vs))
    (item root : RuntimeValue) :
    storeAt i.destination item heap = heap.set target (fill (vs ++ [item])) ∧
      rootAt i.destination item root = root := by
  obtain ⟨dest, hdest, htarget, hstore⟩ := h.stores hdetach before i after hitems
  have hnext := hstore vs item hlength
  obtain ⟨hlt, hget⟩ := List.getElem?_eq_some_iff.mp hfill
  rw [hdest]
  rcases dest with _ | ⟨t, index⟩ | ⟨t, key⟩
  · cases htarget
  · cases htarget
    refine ⟨?_, rfl⟩
    rw [JsonWalk.storeAt, modify_eq_set_of_getElem? hfill, ← hnext]
  · cases htarget
    refine ⟨?_, rfl⟩
    rw [JsonWalk.storeAt, modify_eq_set_of_getElem? hfill, ← hnext]

theorem Items.fresh (h : Items objects detach ancestors target fill items)
    (hsplit : items = before ++ i :: after) (hlt : detach = true → target < heap.length) :
    Fresh objects heap detach i.destination := by
  have hmem : i ∈ items := by rw [hsplit]; exact mem_append_right _ (mem_cons_self ..)
  cases hdetach : detach with
  | false => rw [h.kept hdetach i hmem]; exact ⟨rfl, nofun⟩
  | true =>
    obtain ⟨dest, hdest, htarget, -⟩ := h.stores hdetach before i after hsplit
    rw [hdest]
    refine ⟨rfl, ?_⟩
    rintro _ t ⟨⟩ ht
    cases htarget.symm.trans ht
    exact ⟨h.behind, hlt hdetach⟩

/-- The snapshot object holds the values of the items done, and the new objects stand behind the heap. -/
def Filled (detach : Bool) (target : Nat) (fill : List RuntimeValue → HeapObject)
    (vs : List RuntimeValue) (js : List Json) (heap heap' : List HeapObject) : Prop :=
  if detach then
    ∃ values new, heap' = heap.set target (fill (vs ++ values)) ++ new ∧
      List.Forall₂ (Lossless heap' heap.length) values js
  else heap' = heap

variable {root : RuntimeValue} {j : Json}

theorem Items.advance (h : Items objects detach ancestors target fill items)
    (hsplit : items = before ++ i :: after) {heap₁ : List HeapObject}
    {root₁ : RuntimeValue} (hkeeps : Keeps objects heap)
    (hfill : detach = true → vs.length = before.length ∧ heap[target]? = some (fill vs))
    (hstored : Stored detach i.destination j heap root heap₁ root₁) :
    ∃ vs₁, root₁ = root ∧ Keeps objects heap₁ ∧
      (detach = true → vs₁.length = (before ++ [i]).length ∧ heap₁[target]? = some (fill vs₁)) ∧
      ∀ js heap', Filled detach target fill vs₁ js heap₁ heap' →
        Filled detach target fill vs (j :: js) heap heap' := by
  cases hdetach : detach with
  | false =>
    subst hdetach
    obtain ⟨rfl, rfl⟩ := hstored
    refine ⟨vs, rfl, hkeeps, nofun, ?_⟩
    rintro js heap' rfl
    exact rfl
  | true =>
    obtain ⟨hlength, hget⟩ := hfill hdetach
    subst hdetach
    obtain ⟨item, new, hheap, hroot, hlossless⟩ := hstored
    obtain ⟨hstore, hrootAt⟩ := h.storeAt rfl hsplit hlength hget item root
    rw [hstore] at hheap
    rw [hrootAt] at hroot
    obtain ⟨hlt, -⟩ := List.getElem?_eq_some_iff.mp hget
    refine ⟨vs ++ [item], hroot, ?_, fun _ => ⟨?_, ?_⟩, ?_⟩
    · rw [hheap]
      exact (hkeeps.set h.behind _).append new
    · rw [length_append, length_append, hlength]
      rfl
    · rw [hheap, getElem?_append_left (by rwa [length_set]), getElem?_set_self hlt]
    · rintro js heap' ⟨values, new', hheap', hvalues⟩
      have hle : heap.length ≤ heap₁.length := by
        rw [hheap, length_append, length_set]
        omega
      refine ⟨item :: values, new ++ new', ?_, ?_⟩
      · rw [hheap', hheap, set_append_left _ _ (by rwa [length_set]), set_set, append_assoc, append_assoc]
        rfl
      · -- what is behind the snapshot object does not change any more
        have hbehind : ∀ place object, heap.length ≤ place → heap₁[place]? = some object →
            heap'[place]? = some object := by
          intro place object hplace hobject
          obtain ⟨hin, -⟩ := List.getElem?_eq_some_iff.mp hobject
          rw [hheap', getElem?_append_left (by rwa [length_set]), getElem?_set_ne (by omega)]
          exact hobject
        apply Forall₂.cons (hlossless.transfer (Nat.le_refl _) hbehind)
        exact hvalues.imp fun v j h => h.transfer hle fun _ _ _ h => h

/-- **The items of an object follow their reading**, one after the other. -/
theorem items_follow (hread : Follows objects detach ancestors read)
    (hitems : Items objects detach ancestors target fill items) :
    ∀ (todo before : List WalkItem) (vs : List RuntimeValue) (heap : List HeapObject)
      (root : RuntimeValue) (rest : List JsonWalkTask), items = before ++ todo → Keeps objects heap →
      (detach = true → vs.length = before.length ∧ heap[target]? = some (fill vs)) →
      (∀ stop, readItems read (todo.map (·.property)) = .error stop →
        Ends detach ⟨heap, ancestors, root, todo.map (·.task) ++ rest⟩ stop.verdict) ∧
      ∀ js, readItems read (todo.map (·.property)) = .ok js → ∃ heap',
        Leads detach ⟨heap, ancestors, root, todo.map (·.task) ++ rest⟩ ⟨heap', ancestors, root, rest⟩ ∧
        Filled detach target fill vs js heap heap' := by
  intro todo
  induction todo with
  | nil =>
    intro before vs heap root rest _ _ hfill
    refine ⟨nofun, ?_⟩
    rintro js ⟨⟩
    refine ⟨heap, .refl _, ?_⟩
    cases hdetach : detach with
    | false => exact rfl
    | true =>
      obtain ⟨hlt, hget⟩ := List.getElem?_eq_some_iff.mp (hfill hdetach).2
      refine ⟨[], [], ?_, .nil⟩
      rw [append_nil, append_nil, ← hget, set_getElem_self]
  | cons i todo ih =>
    intro before vs heap root rest hsplit hkeeps hfill
    have hmem : i ∈ items := by rw [hsplit]; exact mem_append_right _ (mem_cons_self ..)
    rw [map_cons, map_cons, cons_append]
    cases hproperty : i.property with
    | none =>
      -- a hole
      refine ⟨?_, nofun⟩
      rintro stop ⟨⟩
      exact Ends.step (hitems.missing i hmem hproperty heap root _ hkeeps)
    | some p =>
      cases hvalue : p.value with
      | error thrown =>
        -- the getter throws
        rw [readItems_throws hvalue]
        refine ⟨?_, nofun⟩
        rintro stop ⟨⟩
        exact Ends.step (hitems.throws i hmem p thrown hproperty hvalue heap root _ hkeeps)
      | ok v =>
        have hvisit := Leads.step
          (hitems.reads i hmem p v hproperty hvalue heap root (todo.map (·.task) ++ rest) hkeeps)
        have hplace : ∀ place, v = .ref place → place < objects.length := by
          rintro place rfl
          exact hitems.closed i hmem p hproperty place hvalue
        have hfresh : Fresh objects heap detach i.destination := by
          apply hitems.fresh hsplit
          intro hdetach
          exact (List.getElem?_eq_some_iff.mp (hfill hdetach).2).1
        obtain ⟨hstop, hgo⟩ := hread v (todo.map (·.task) ++ rest) heap root i.destination hplace hkeeps
          hfresh
        cases hj : read v with
        | error stop =>
          rw [readItems_error hvalue hj]
          refine ⟨?_, nofun⟩
          rintro _ ⟨⟩
          exact hvisit.ends (hstop stop hj)
        | ok j =>
          obtain ⟨heap₁, root₁, hleads, hstored⟩ := hgo j hj
          obtain ⟨vs₁, rfl, hkeeps₁, hfill₁, hfilled⟩ := hitems.advance hsplit hkeeps hfill hstored
          have hsplit₁ : items = (before ++ [i]) ++ todo := by rw [hsplit, append_assoc]; rfl
          obtain ⟨hends, hruns⟩ := ih (before ++ [i]) vs₁ heap₁ root₁ rest hsplit₁ hkeeps₁ hfill₁
          rw [readItems_ok hvalue hj]
          cases hrest : readItems read (todo.map (·.property)) with
          | error stop =>
            refine ⟨?_, nofun⟩
            rintro _ ⟨⟩
            exact (hvisit.trans hleads).ends (hends stop hrest)
          | ok js =>
            refine ⟨nofun, ?_⟩
            rintro _ ⟨⟩
            obtain ⟨heap', hleads', hdone⟩ := hruns js hrest
            exact ⟨heap', (hvisit.trans hleads).trans hleads', hfilled js heap' hdone⟩

/-! ## Arrays -/

def arrayItems (place : Nat) (target : Option Nat) (elements : List (Option Property)) : List WalkItem :=
  (List.range elements.length).map fun index =>
    ⟨.arrayItem place index target, target.map fun t => .array t index, (elements[index]?).join⟩

def arrayFill (vs : List RuntimeValue) : HeapObject := .array arrayChain (vs.map fun v => some (.data v)) []

theorem arrayItems_task (place : Nat) (target : Option Nat) (elements : List (Option Property)) :
    (arrayItems place target elements).map (·.task)
      = (range elements.length).map fun index => .arrayItem place index target := by
  rw [arrayItems, map_map]
  rfl

theorem arrayItems_property (place : Nat) (target : Option Nat) (elements : List (Option Property)) :
    (arrayItems place target elements).map (·.property) = elements := by
  apply ext_getElem (by simp [arrayItems])
  intro k h h'
  simp [arrayItems, h']

theorem setElement_length (elements : List (Option Property)) (p : Property) :
    setElement elements elements.length p = elements ++ [some p] := by
  rw [setElement, if_neg (Nat.lt_irrefl _), Nat.sub_self]
  simp

variable {place : Nat} {chain : List PrototypeObject}

theorem items_array {elements : List (Option Property)}
    {extra : List (PropertyKey × Property)} (hplace : place < objects.length)
    (hobject : objects[place]? = some (.array chain elements extra))
    (hclosed : ∀ p, some p ∈ elements → ∀ inner, p.value = .ok (.ref inner) → inner < objects.length)
    (htarget : objects.length ≤ target) :
    Items objects detach ancestors target arrayFill
      (arrayItems place (if detach then some target else none) elements) := by
  have hmem : ∀ i ∈ arrayItems place (if detach then some target else none) elements,
      ∃ index, index < elements.length ∧ i = ⟨.arrayItem place index (if detach then some target else none),
          (if detach then some target else none : Option Nat).map fun t => .array t index,
          (elements[index]?).join⟩ := by
    intro i hi
    obtain ⟨index, hindex, rfl⟩ := mem_map.mp hi
    exact ⟨index, mem_range.mp hindex, rfl⟩
  have hread : ∀ (heap : List HeapObject) root rest index, Keeps objects heap →
      readElement ⟨heap, ancestors, root, rest⟩ place index = (elements[index]?).join := by
    intro heap root rest index hkeeps
    rw [readElement, hkeeps.2 place hplace, hobject]
  refine ⟨htarget, ?_, ?_, ?_, ?_, ?_, ?_⟩
  · intro i hi p hproperty
    obtain ⟨index, hindex, rfl⟩ := hmem i hi
    apply hclosed p
    rw [← Option.join_eq_some_iff.mp hproperty |> List.getElem?_eq_some_iff.mp |>.2]
    exact getElem_mem _
  · intro i hi hproperty heap root rest hkeeps
    obtain ⟨index, hindex, rfl⟩ := hmem i hi
    simp only [step, hread heap root _ index hkeeps]
    rw [show (elements[index]?).join = none from hproperty]
  · intro i hi p thrown hproperty hvalue heap root rest hkeeps
    obtain ⟨index, hindex, rfl⟩ := hmem i hi
    obtain ⟨enumerable, value⟩ := p
    obtain rfl : value = .error thrown := hvalue
    simp only [step, hread heap root _ index hkeeps]
    rw [show (elements[index]?).join = _ from hproperty]
  · intro i hi p v hproperty hvalue heap root rest hkeeps
    obtain ⟨index, hindex, rfl⟩ := hmem i hi
    obtain ⟨enumerable, value⟩ := p
    obtain rfl : value = .ok v := hvalue
    simp only [step, hread heap root _ index hkeeps]
    rw [show (elements[index]?).join = _ from hproperty]
  · rintro rfl i hi
    obtain ⟨index, hindex, rfl⟩ := hmem i hi
    rfl
  · rintro rfl before i after hsplit
    have hget : (arrayItems place (some target) elements)[before.length]? = some i := by
      rw [show arrayItems place (some target) elements = _ from hsplit]
      simp
    rw [arrayItems, getElem?_map] at hget
    obtain ⟨index, hindex, rfl⟩ := Option.map_eq_some_iff.mp hget
    obtain ⟨hlt, rfl⟩ := List.getElem?_eq_some_iff.mp hindex
    refine ⟨_, rfl, rfl, ?_⟩
    intro vs item hlength
    rw [arrayFill, HeapObject.store, getElem_range, ← hlength,
      ← length_map (fun v => some (Property.data v)), setElement_length, arrayFill, map_append]
    rfl

/-! ## Records -/

def objectItems (place : Nat) (target : Option Nat) (keys : List String)
    (properties : List (PropertyKey × Property)) : List WalkItem :=
  List.zipWith (fun key q => ⟨.objectProperty place key target, target.map fun t => .object t key, some q.2⟩)
    keys properties

def objectFill (keys : List String) (vs : List RuntimeValue) : HeapObject :=
  .object objectChain (List.zipWith (fun key v => (.string key, .data v)) keys vs)

variable {properties : List (PropertyKey × Property)} {keys : List String}

theorem keys_of_enumerableStringKeys (h : enumerableStringKeys properties = some keys) :
    properties.map (·.1) = keys.map .string ∧ ∀ q ∈ properties, q.2.enumerable = true := by
  induction properties generalizing keys with
  | nil => cases h; exact ⟨rfl, nofun⟩
  | cons q properties ih =>
    obtain ⟨_ | _, p⟩ := q
    · rw [enumerableStringKeys] at h
      split at h
      · next henumerable =>
        obtain ⟨tail, htail, rfl⟩ := Option.map_eq_some_iff.mp h
        obtain ⟨hkeys, hall⟩ := ih htail
        exact ⟨congrArg _ hkeys, forall_mem_cons.mpr ⟨henumerable, hall⟩⟩
      · cases h
    · cases h

theorem objectItems_task {target : Option Nat} (h : properties.map (·.1) = keys.map .string) :
    (objectItems place target keys properties).map (·.task)
      = keys.map fun key => .objectProperty place key target := by
  have hlength := congrArg length h
  rw [length_map, length_map] at hlength
  apply ext_getElem (by simp [objectItems, hlength])
  intro k _ _
  simp [objectItems]

theorem objectItems_property {target : Option Nat} (h : properties.map (·.1) = keys.map .string) :
    (objectItems place target keys properties).map (·.property) = properties.map fun q => some q.2 := by
  have hlength := congrArg length h
  rw [length_map, length_map] at hlength
  apply ext_getElem (by simp [objectItems, hlength])
  intro k _ _
  simp [objectItems]

theorem lookup_getElem (h : (properties.map (·.1)).Nodup) {k : Nat} {q : PropertyKey × Property}
    (hk : properties[k]? = some q) : properties.lookup q.1 = some q.2 := by
  induction properties generalizing k with
  | nil => cases hk
  | cons first properties ih =>
    obtain ⟨key, p⟩ := first
    rw [map_cons, nodup_cons] at h
    rw [lookup_cons]
    cases k with
    | zero =>
      cases hk
      rw [beq_self_eq_true]
    | succ k =>
      rw [getElem?_cons_succ] at hk
      have hne : q.1 ≠ key := by
        rintro rfl
        exact h.1 (mem_map.mpr ⟨q, mem_of_getElem? hk, rfl⟩)
      rw [beq_eq_false_iff_ne.mpr hne]
      exact ih h.2 hk

theorem items_object (hplace : place < objects.length) (hobject : objects[place]? = some (.object chain properties))
    (hnodup : (properties.map (·.1)).Nodup) (hkeys : properties.map (·.1) = keys.map .string)
    (hclosed : ∀ q ∈ properties, ∀ inner, q.2.value = .ok (.ref inner) → inner < objects.length)
    (htarget : objects.length ≤ target) :
    Items objects detach ancestors target (objectFill keys)
      (objectItems place (if detach then some target else none) keys properties) := by
  have hlength := congrArg length hkeys
  rw [length_map, length_map] at hlength
  have hget : ∀ (k : Nat) i, (objectItems place (if detach then some target else none) keys properties)[k]? = some i →
      ∃ key q, keys[k]? = some key ∧ properties[k]? = some q ∧ q.1 = .string key ∧
        i = ⟨.objectProperty place key (if detach then some target else none),
          (if detach then some target else none : Option Nat).map fun t => .object t key, some q.2⟩ := by
    intro k i hk
    obtain ⟨key, q, hkey, hq, rfl⟩ := getElem?_zipWith_eq_some.mp hk
    have hmap := congrArg (·[k]?) hkeys
    simp only [getElem?_map, hkey, hq, Option.map_some] at hmap
    exact ⟨key, q, hkey, hq, Option.some.inj hmap, rfl⟩
  have hread : ∀ (heap : List HeapObject) root rest (k : Nat) key q, Keeps objects heap →
      properties[k]? = some q → q.1 = .string key →
      readProperty ⟨heap, ancestors, root, rest⟩ place key = some q.2 := by
    intro heap root rest k key q hkeeps hq hkey
    rw [readProperty, hkeeps.2 place hplace, hobject]
    exact hkey ▸ lookup_getElem hnodup hq
  have hmem : ∀ i ∈ objectItems place (if detach then some target else none) keys properties,
      ∃ k : Nat, (objectItems place (if detach then some target else none) keys properties)[k]? = some i :=
    fun i hi => mem_iff_getElem?.mp hi
  refine ⟨htarget, ?_, ?_, ?_, ?_, ?_, ?_⟩
  · intro i hi p hproperty
    obtain ⟨k, hk⟩ := hmem i hi
    obtain ⟨key, q, -, hq, -, rfl⟩ := hget k i hk
    cases hproperty
    exact hclosed q (mem_of_getElem? hq)
  · intro i hi hproperty
    obtain ⟨k, hk⟩ := hmem i hi
    obtain ⟨key, q, -, hq, -, rfl⟩ := hget k i hk
    cases hproperty
  · intro i hi p thrown hproperty hvalue heap root rest hkeeps
    obtain ⟨k, hk⟩ := hmem i hi
    obtain ⟨key, q, -, hq, hkey, rfl⟩ := hget k i hk
    cases hproperty
    simp only [step, hread heap root _ k key q hkeeps hq hkey]
    obtain ⟨_, enumerable, value⟩ := q
    obtain rfl : value = .error thrown := hvalue
    rfl
  · intro i hi p v hproperty hvalue heap root rest hkeeps
    obtain ⟨k, hk⟩ := hmem i hi
    obtain ⟨key, q, -, hq, hkey, rfl⟩ := hget k i hk
    cases hproperty
    simp only [step, hread heap root _ k key q hkeeps hq hkey]
    obtain ⟨_, enumerable, value⟩ := q
    obtain rfl : value = .ok v := hvalue
    rfl
  · rintro rfl i hi
    obtain ⟨k, hk⟩ := hmem i hi
    obtain ⟨key, q, -, -, -, rfl⟩ := hget k i hk
    rfl
  · rintro rfl before i after hsplit
    have hi : (objectItems place (some target) keys properties)[before.length]? = some i := by
      rw [show objectItems place (some target) keys properties = _ from hsplit]
      simp
    obtain ⟨key, q, hkey, hq, -, rfl⟩ := hget _ i hi
    refine ⟨_, rfl, rfl, ?_⟩
    intro vs item hcount
    -- the keys before this one hold the values before this one
    obtain ⟨hlt, rfl⟩ := List.getElem?_eq_some_iff.mp hkey
    have hsplitKeys : keys = keys.take before.length ++ keys[before.length] :: keys.drop (before.length + 1) := by
      rw [cons_getElem_drop_succ, take_append_drop]
    have htake : (keys.take before.length).length = vs.length := by
      rw [length_take, hcount]
      omega
    have hdistinct : keys.Nodup := by
      rw [hkeys] at hnodup
      exact hnodup.of_map _
    have hfill : ∀ more, zipWith (fun key v => (PropertyKey.string key, Property.data v)) keys (vs ++ more)
        = zipWith (fun key v => (.string key, .data v)) (keys.take before.length) vs
          ++ zipWith (fun key v => (.string key, .data v))
            (keys[before.length] :: keys.drop (before.length + 1)) more := by
      intro more
      conv_lhs => rw [hsplitKeys]
      exact zipWith_append htake
    have hold := hfill []
    rw [append_nil, zipWith_nil_right, append_nil] at hold
    have hfresh : PropertyKey.string keys[before.length] ∉
        (zipWith (fun key v => (PropertyKey.string key, Property.data v)) (keys.take before.length) vs).map
          (·.1) := by
      intro hin
      obtain ⟨_, hpair, heq⟩ := mem_map.mp hin
      obtain ⟨k, hk⟩ := mem_iff_getElem?.mp hpair
      obtain ⟨key', v, hkey', -, rfl⟩ := getElem?_zipWith_eq_some.mp hk
      obtain rfl : key' = keys[before.length] := PropertyKey.string.inj heq
      rw [hsplitKeys] at hdistinct
      exact (nodup_append.mp hdistinct).2.2 _ (mem_of_getElem? hkey') _ (mem_cons_self ..) rfl
    rw [objectFill, HeapObject.store, hold, defineProperty, if_neg hfresh, objectFill, hfill [item],
      zipWith_cons_cons, zipWith_nil_right]

/-! ## Visits -/

variable {d : Option SnapshotDestination}

theorem follows_primitive {v : RuntimeValue} {rest : List JsonWalkTask} (hfresh : Fresh objects heap detach d)
    (hstep : step ⟨heap, ancestors, root, .visit v d :: rest⟩ detach = .inl (assign ⟨heap, ancestors, root, rest⟩ d v))
    (hlossless : ∀ heap base, Lossless heap base v j) :
    ∃ heap' root', Leads detach ⟨heap, ancestors, root, .visit v d :: rest⟩ ⟨heap', ancestors, root', rest⟩ ∧
      Stored detach d j heap root heap' root' := by
  rw [assign_eq] at hstep
  refine ⟨_, _, Leads.step hstep, ?_⟩
  cases hdetach : detach with
  | false =>
    obtain rfl : d = none := Option.not_isSome_iff_eq_none.mp (by rw [hfresh.isSome, hdetach]; nofun)
    exact ⟨rfl, rfl⟩
  | true => exact ⟨v, [], (append_nil _).symm, rfl, hlossless _ _⟩

theorem follows_items (hplace : place ∉ ancestors) (hread : Follows objects detach (place :: ancestors) read)
    (hitems : Items objects detach (place :: ancestors) target fill items) (hkeeps : Keeps objects heap)
    (hfill : detach = true → heap[target]? = some (fill [])) (root : RuntimeValue)
    (rest : List JsonWalkTask) :
    (∀ stop, readItems read (items.map (·.property)) = .error stop →
      Ends detach ⟨heap, place :: ancestors, root, items.map (·.task) ++ .leave place :: rest⟩
        stop.verdict) ∧
    ∀ js, readItems read (items.map (·.property)) = .ok js → ∃ heap',
      Leads detach ⟨heap, place :: ancestors, root, items.map (·.task) ++ .leave place :: rest⟩
        ⟨heap', ancestors, root, rest⟩ ∧ Filled detach target fill [] js heap heap' := by
  obtain ⟨hends, hruns⟩ := items_follow hread hitems items [] [] heap root (.leave place :: rest) rfl hkeeps
    fun hdetach => ⟨rfl, hfill hdetach⟩
  refine ⟨hends, ?_⟩
  intro js hjs
  obtain ⟨heap', hleads, hfilled⟩ := hruns js hjs
  have hleave : step ⟨heap', place :: ancestors, root, .leave place :: rest⟩ detach
      = .inl ⟨heap', ancestors, root, rest⟩ := by
    have hself : ancestors.filter (· ≠ place) = ancestors := by
      rw [filter_eq_self]
      rintro a ha
      rw [decide_eq_true_eq]
      rintro rfl
      exact hplace ha
    rw [step]
    simp only [filter_cons, ne_eq, not_true_eq_false, decide_false, Bool.false_eq_true, if_false]
    exact congrArg (fun ancestors => Sum.inl (JsonWalk.mk heap' ancestors root rest)) hself
  exact ⟨heap', hleads.trans (.step hleave), hfilled⟩

def created (detach : Bool) (d : Option SnapshotDestination) (object : HeapObject)
    (heap : List HeapObject) : List HeapObject :=
  if detach then storeAt d (.ref heap.length) heap ++ [object] else heap

theorem created_eq (hfresh : Fresh objects heap detach d) (object : HeapObject) (root : RuntimeValue)
    (rest : List JsonWalkTask) :
    (if detach then create ⟨heap, ancestors, root, rest⟩ d object else ⟨heap, ancestors, root, rest⟩)
      = ⟨created detach d object heap, ancestors, rootAt d (.ref heap.length) root, rest⟩ := by
  cases hdetach : detach with
  | false =>
    obtain rfl : d = none := Option.not_isSome_iff_eq_none.mp (by rw [hfresh.isSome, hdetach]; nofun)
    rfl
  | true =>
    rw [if_pos rfl, create, assign_eq, storeAt_append fun dest target hd ht => (hfresh.target dest target hd ht).2]
    rfl

theorem created_target (object : HeapObject) (hdetach : detach = true) :
    (created detach d object heap)[heap.length]? = some object := by
  rw [created, if_pos hdetach, getElem?_append_right (by rw [length_storeAt]), length_storeAt, Nat.sub_self]
  rfl

theorem Keeps.created (hkeeps : Keeps objects heap) (hfresh : Fresh objects heap detach d)
    (object : HeapObject) : Keeps objects (created detach d object heap) := by
  rw [JsonWalk.created]
  split
  · apply Keeps.append
    refine ⟨by rw [length_storeAt]; exact hkeeps.1, fun place hlt => ?_⟩
    rw [getElem?_storeAt _ _, hkeeps.2 place hlt]
    intro dest hd ht
    have := (hfresh.target dest place hd ht).1
    omega
  · exact hkeeps

theorem stored_of_filled {heap' : List HeapObject} (root : RuntimeValue) (hfresh : Fresh objects heap detach d)
    (hlossless : ∀ heap' base vs, base ≤ heap.length → heap'[heap.length]? = some (fill vs) →
      Forall₂ (Lossless heap' base) vs js → Lossless heap' base (.ref heap.length) j)
    (hfilled : Filled detach heap.length fill [] js (created detach d (fill []) heap) heap') :
    Stored detach d j heap root heap' (rootAt d (.ref heap.length) root) := by
  cases hdetach : detach with
  | false =>
    subst hdetach
    obtain rfl : d = none := Option.not_isSome_iff_eq_none.mp (by rw [hfresh.isSome]; nofun)
    exact ⟨hfilled, rfl⟩
  | true =>
    subst hdetach
    obtain ⟨values, new, hheap', hvalues⟩ := hfilled
    rw [created, if_pos rfl, set_append_right _ _ (by rw [length_storeAt]), length_storeAt,
      Nat.sub_self, set_cons_zero, nil_append, append_assoc] at hheap'
    refine ⟨.ref heap.length, _, hheap', rfl, ?_⟩
    apply hlossless heap' heap.length values (Nat.le_refl _)
    · rw [hheap', getElem?_append_right (by rw [length_storeAt]), length_storeAt, Nat.sub_self]
      rfl
    · apply hvalues.imp
      intro v j h
      refine h.transfer ?_ fun _ _ _ h => h
      rw [created, if_pos rfl, length_append, length_storeAt]
      exact Nat.le_add_right _ _

end JsonWalk

theorem length_readItems {read : RuntimeValue → Except Stop Json} {items : List (Option Property)}
    {js : List Json} (h : readItems read items = .ok js) : js.length = items.length := by
  induction items generalizing js with
  | nil => cases h; rfl
  | cons p items ih =>
    obtain _ | p := p
    · cases h
    · cases hvalue : p.value with
      | error thrown => rw [readItems_throws hvalue] at h; cases h
      | ok v =>
        cases hread : read v with
        | error stop => rw [readItems_error hvalue hread] at h; cases h
        | ok j =>
          rw [readItems_ok hvalue hread] at h
          cases htail : readItems read items with
          | error stop => rw [htail] at h; cases h
          | ok tail =>
            rw [htail] at h
            cases h
            rw [length_cons, length_cons, ih htail]

namespace ObjectGraph

open JsonWalk

variable (g : ObjectGraph) {detach : Bool}

/-- **The walk follows the recursive reading**, by induction on how many objects are still to be entered. -/
theorem visit_follows (fuel : Nat) : ∀ (ancestors : List Nat), ancestors.Nodup →
    (∀ a ∈ ancestors, a < g.objects.length) → g.objects.length < fuel + ancestors.length →
    Follows g.objects detach ancestors (readJson g.objects fuel ancestors) := by
  induction fuel with
  | zero =>
    -- more ancestors than objects
    intro ancestors hnodup hin hfuel
    have hle : ancestors.length ≤ (range g.objects.length).length :=
      (hnodup.subperm fun a ha => mem_range.mpr (hin a ha)).length_le
    rw [length_range] at hle
    omega
  | succ fuel ih =>
    intro ancestors hnodup hin hfuel v rest heap root d hplace hkeeps hfresh
    cases v with
    | undefined | unserializableNumber | other => exact ⟨fun _ h => by cases h; exact Ends.reject rfl, nofun⟩
    | null => exact ⟨nofun, fun _ h => by cases h; exact follows_primitive hfresh rfl fun _ _ => .null⟩
    | bool b => exact ⟨nofun, fun _ h => by cases h; exact follows_primitive hfresh rfl fun _ _ => .bool b⟩
    | num n => exact ⟨nofun, fun _ h => by cases h; exact follows_primitive hfresh rfl fun _ _ => .num n⟩
    | str s => exact ⟨nofun, fun _ h => by cases h; exact follows_primitive hfresh rfl fun _ _ => .str s⟩
    | ref place =>
      have hlt := hplace place rfl
      have hobject := getElem?_eq_getElem hlt
      rw [readJson]
      by_cases hmem : place ∈ ancestors
      · -- the value contains itself
        rw [if_pos hmem]
        refine ⟨?_, nofun⟩
        rintro _ ⟨⟩
        apply Ends.reject
        show enter _ detach place d = _
        rw [enter, if_pos hmem]
      rw [if_neg hmem, hobject]
      have hheap : heap[place]? = some g.objects[place] := by rw [hkeeps.2 place hlt, hobject]
      have hread := ih (place :: ancestors) (nodup_cons.mpr ⟨hmem, hnodup⟩)
        (forall_mem_cons.mpr ⟨hlt, hin⟩) (by rw [length_cons]; omega)
      have hat := getElem_mem hlt
      generalize g.objects[place] = object at hobject hheap hat
      dsimp only
      cases object with
      | array chain elements extra =>
        rw [readObject]
        cases hplain : hasPlainArrayPrototype chain with
        | false =>
          -- a subclass or a forged prototype
          refine ⟨?_, nofun⟩
          rintro _ ⟨⟩
          apply Ends.reject
          show enter _ detach place d = _
          rw [enter, if_neg hmem, hheap]
          simp only [hplain]
          rfl
        | true =>
          rw [if_neg (by decide)]
          by_cases hcount : ownKeysLength elements extra = elements.length + 1
          · have henter : step ⟨heap, ancestors, root, .visit (.ref place) d :: rest⟩ detach
                = .inl ⟨created detach d (arrayFill []) heap, place :: ancestors, rootAt d (.ref heap.length) root,
                    (arrayItems place (if detach then some heap.length else none) elements).map (·.task)
                      ++ .leave place :: rest⟩ := by
              show enter _ detach place d = _
              rw [enter, if_neg hmem, hheap, arrayItems_task]
              simp only [hplain, hcount, Bool.not_true, Bool.false_eq_true, if_false, ne_eq, not_true_eq_false]
              rw [created_eq hfresh]
              rfl
            rw [if_neg (by simpa using hcount)]
            have hitems : Items g.objects detach (place :: ancestors) heap.length arrayFill _ :=
              items_array hlt hobject (g.closedArrays chain elements extra hat) hkeeps.1
            obtain ⟨hends, hruns⟩ := follows_items hmem hread hitems (hkeeps.created hfresh (arrayFill []))
              (created_target _) (rootAt d (.ref heap.length) root) rest
            rw [arrayItems_property] at hends hruns
            refine ⟨?_, ?_⟩
            · intro stop hstop
              exact (Leads.step henter).ends (hends stop (map_error hstop))
            · intro j hj
              obtain ⟨js, hjs, rfl⟩ := map_ok hj
              obtain ⟨heap', hleads, hfilled⟩ := hruns js hjs
              refine ⟨heap', _, (Leads.step henter).trans hleads, ?_⟩
              apply stored_of_filled root hfresh _ hfilled
              intro heap' base vs hbase hget hvs
              exact .array hbase hget rfl (losslessElements_of_forall₂ hvs)
          · -- extra keys, or holes without them
            rw [if_pos (by simpa using hcount)]
            refine ⟨?_, nofun⟩
            rintro _ ⟨⟩
            apply Ends.reject
            show enter _ detach place d = _
            rw [enter, if_neg hmem, hheap]
            simp only [hplain, hcount, Bool.not_true, Bool.false_eq_true, if_false, ne_eq, not_false_eq_true, if_true]
            rfl
      | object chain properties =>
        rw [readObject]
        cases hplain : hasPlainObjectPrototype chain with
        | false =>
          -- a class instance
          refine ⟨?_, nofun⟩
          rintro _ ⟨⟩
          apply Ends.reject
          show enter _ detach place d = _
          rw [enter, if_neg hmem, hheap]
          simp only [hplain]
          rfl
        | true =>
          rw [if_neg (by decide)]
          cases hkeys : enumerableStringKeys properties with
          | none =>
            -- a symbol key, or one that is not enumerable
            refine ⟨?_, nofun⟩
            rintro _ ⟨⟩
            apply Ends.reject
            show enter _ detach place d = _
            rw [enter, if_neg hmem, hheap]
            simp only [hplain, hkeys]
            rfl
          | some keys =>
            obtain ⟨hnames, -⟩ := keys_of_enumerableStringKeys hkeys
            have henter : step ⟨heap, ancestors, root, .visit (.ref place) d :: rest⟩ detach
                = .inl ⟨created detach d (objectFill keys []) heap, place :: ancestors,
                    rootAt d (.ref heap.length) root,
                    (objectItems place (if detach then some heap.length else none) keys properties).map
                      (·.task) ++ .leave place :: rest⟩ := by
              show enter _ detach place d = _
              rw [enter, if_neg hmem, hheap, objectItems_task hnames]
              simp only [hplain, hkeys, Bool.not_true, Bool.false_eq_true, if_false]
              rw [created_eq hfresh, objectFill, zipWith_nil_right]
            have hitems : Items g.objects detach (place :: ancestors) heap.length (objectFill keys) _ :=
              items_object hlt hobject (g.keysDistinct chain properties hat) hnames
                (g.closedObjects chain properties hat) hkeeps.1
            obtain ⟨hends, hruns⟩ := follows_items hmem hread hitems
              (hkeeps.created hfresh (objectFill keys [])) (created_target _)
              (rootAt d (.ref heap.length) root) rest
            rw [objectItems_property hnames] at hends hruns
            refine ⟨?_, ?_⟩
            · intro stop hstop
              exact (Leads.step henter).ends (hends stop (map_error hstop))
            · intro j hj
              obtain ⟨js, hjs, rfl⟩ := map_ok hj
              obtain ⟨heap', hleads, hfilled⟩ := hruns js hjs
              refine ⟨heap', _, (Leads.step henter).trans hleads, ?_⟩
              apply stored_of_filled root hfresh _ hfilled
              intro heap' base vs hbase hget hvs
              have hcount : keys.length = vs.length := by
                have hlength := congrArg length hnames
                rw [length_map, length_map] at hlength
                rw [hvs.length_eq]
                have := length_readItems hjs
                rw [length_map] at this
                omega
              exact .object hbase hget rfl (losslessFields_of_forall₂ hvs hcount)

end ObjectGraph

end CocoHarness.SessionLog
