/-
# CocoHarness.SessionLog.JsonValue — the lossless-JSON boundary of the session log.

Everything a session stores passes `snapshotJsonValue` first: it accepts exactly the values that survive a JSON round
trip and detaches a copy.  `JsValue` is the runtime value handed to it; what JSON cannot carry is kept apart only as
far as the code tells it apart.
-/
import CocoHarness.Lib.JsonText

namespace CocoHarness.SessionLog

open Lib Option List Json
open Lib.JsonText (setField)

/-- An `Error` raised by the code, the `TypeError` of reading `key` of a nullish `base`, or that of printing an
object. -/
inductive JsError where
  | error (message : String)
  | typeError (base key : String)
  | notPrimitive
  deriving DecidableEq

def JsError.message : JsError → String
  | error message => message
  | typeError base key => s!"Cannot read properties of {base} (reading '{key}')"
  | notPrimitive => "Cannot convert object to primitive value"

/-! ## Reading JSON values through their static types -/

/-- What an object spread copies. A string is indexed by character, where the engine indexes units. -/
def ownFields : Option Json → List (String × Json)
  | some (.obj fields) => fields
  | some (.arr xs) => xs.mapIdx fun i x => (toString i, x)
  | some (.str s) => s.toList.mapIdx fun i c => (toString i, .str (String.singleton c))
  | _ => []

def utf16Length (s : String) : Nat := (s.toList.map fun c => if c.toNat < 65536 then 1 else 2).sum

/-- The property read `v.key`, for a key that no built-in prototype answers to. -/
def jsGet (v : Option Json) (key : String) : Except JsError (Option Json) :=
  match v with
  | none => .error (.typeError "undefined" key)
  | some .null => .error (.typeError "null" key)
  | some (.arr xs) => if key = "length" then .ok (some (.num (.int xs.length))) else .ok ((ownFields v).lookup key)
  | some (.str s) =>
    if key = "length" then .ok (some (.num (.int (utf16Length s))))
    else .ok ((ownFields v).lookup key)
  | some _ => .ok ((ownFields v).lookup key)

def truthy : Json → Bool
  | .null => false
  | .bool b => b
  | .num n => n != .int 0
  | .str s => s != ""
  | .arr _ | .obj _ => true

/-! ## The snapshot boundary -/

inductive JsValue where
  | undefined
  | null
  | bool (b : Bool)
  | num (n : Number)
  /-- `NaN`, an infinity or negative zero. -/
  | unserializableNumber
  | str (s : String)
  /-- A dense array with no own properties beside its elements. -/
  | arr (xs : List JsValue)
  /-- A plain object with enumerable string keys only. -/
  | obj (fields : List (String × JsValue))
  /-- What JSON cannot carry, or an object that contains itself. -/
  | exotic

mutual

/-- Validate lossless JSON and detach it; `none` when the value is not losslessly serializable. -/
def snapshotJsonValue : JsValue → Option Json
  | .undefined => none
  | .null => some .null
  | .bool b => some (.bool b)
  | .num n => some (.num n)
  | .unserializableNumber => none
  | .str s => some (.str s)
  | .arr xs => (snapshotElements xs).map .arr
  | .obj fields => (snapshotFields fields []).map .obj
  | .exotic => none

def snapshotElements : List JsValue → Option (List Json)
  | [] => some []
  | x :: xs => do
    let j ← snapshotJsonValue x
    (snapshotElements xs).map (j :: ·)

def snapshotFields : List (String × JsValue) → List (String × Json) → Option (List (String × Json))
  | [], target => some target
  | (k, x) :: fs, target => do
    let j ← snapshotJsonValue x
    snapshotFields fs (setField target k j)

end

mutual

def JsValue.ofJson : Json → JsValue
  | .null => .null
  | .bool b => .bool b
  | .num n => .num n
  | .str s => .str s
  | .arr xs => .arr (JsValue.ofElements xs)
  | .obj fs => .obj (JsValue.ofFields fs)

def JsValue.ofElements : List Json → List JsValue
  | [] => []
  | x :: xs => JsValue.ofJson x :: JsValue.ofElements xs

def JsValue.ofFields : List (String × Json) → List (String × JsValue)
  | [] => []
  | (k, x) :: fs => (k, JsValue.ofJson x) :: JsValue.ofFields fs

end

/-! ## JSON is its own snapshot -/

theorem snapshotElements_ofElements {xs : List Json} (h : ∀ x ∈ xs, snapshotJsonValue (.ofJson x) = some x) :
    snapshotElements (JsValue.ofElements xs) = some xs := by
  induction xs with
  | nil => rfl
  | cons x xs ih =>
    have hx := h x (by simp)
    have hxs := ih (fun y hy => h y (by simp [hy]))
    simp [JsValue.ofElements, snapshotElements, hx, hxs]

variable {fs : List (String × Json)}

theorem snapshotFields_ofFields (h : ∀ f ∈ fs, snapshotJsonValue (.ofJson f.2) = some f.2) :
    ∀ target, (Json.keys (target ++ fs)).Nodup →
      snapshotFields (JsValue.ofFields fs) target = some (target ++ fs) := by
  induction fs with
  | nil => intro target _; simp [JsValue.ofFields, snapshotFields]
  | cons f fs ih =>
    intro target hnodup
    obtain ⟨k, v⟩ := f
    have hv : snapshotJsonValue (.ofJson v) = some v := h (k, v) (by simp)
    have hk : k ∉ Json.keys target := by
      intro hmem
      simp only [Json.keys, map_append, map_cons, nodup_append] at hnodup
      exact hnodup.2.2 k hmem k (by simp) rfl
    have hrest := ih (fun g hg => h g (by simp [hg])) (target ++ [(k, v)]) (by simpa using hnodup)
    simp [JsValue.ofFields, snapshotFields, hv, JsonText.setField_of_notMem hk, hrest]

variable {v : Json}

theorem snapshotJsonValue_ofJson (hwf : v.WF) : snapshotJsonValue (.ofJson v) = some v := by
  induction v using induct with
  | null | bool _ | num _ | str _ => rfl
  | arr xs ih =>
    rw [wf_arr] at hwf
    simp [JsValue.ofJson, snapshotJsonValue, snapshotElements_ofElements (fun x hx => ih x hx (hwf x hx))]
  | obj fs ih =>
    rw [wf_obj] at hwf
    simp [JsValue.ofJson, snapshotJsonValue,
      snapshotFields_ofFields (fun f hf => ih f hf (hwf.2 f hf)) [] (by simpa using hwf.1)]

/-! ## A snapshot is well formed -/

theorem setField_wf {k : String} (hfs : (obj fs).WF) (hv : v.WF) : (obj (setField fs k v)).WF := by
  rw [wf_obj] at hfs ⊢
  unfold setField
  split
  · have hkeys : Json.keys (fs.map fun f => if f.1 = k then (k, v) else f) = Json.keys fs := by
      simp only [Json.keys, List.map_map]
      refine List.map_congr_left fun f _ => ?_
      simp only [Function.comp]
      split
      · next h => exact h.symm
      · rfl
    refine ⟨hkeys ▸ hfs.1, ?_⟩
    intro f hf
    obtain ⟨g, hg, rfl⟩ := mem_map.mp hf
    split
    · exact hv
    · exact hfs.2 g hg
  · next hk =>
    refine ⟨?_, ?_⟩
    · simp only [Json.keys, map_append, map_cons, map_nil]
      rw [nodup_append]
      refine ⟨hfs.1, by simp, ?_⟩
      rintro a ha b hb rfl
      rw [mem_singleton] at hb
      exact hk (hb ▸ ha)
    · intro f hf
      rcases mem_append.mp hf with hf | hf
      · exact hfs.2 f hf
      · rw [mem_singleton] at hf; subst hf; exact hv

mutual

theorem snapshotJsonValue_wf : ∀ (x : JsValue) {v : Json}, snapshotJsonValue x = some v → v.WF
  | .undefined, _, h | .unserializableNumber, _, h | .exotic, _, h => by simp [snapshotJsonValue] at h
  | .null, _, h | .bool _, _, h | .num _, _, h | .str _, _, h => by
    simp only [snapshotJsonValue, Option.some.injEq] at h
    subst h; trivial
  | .arr xs, v, h => by
    simp only [snapshotJsonValue, map_eq_some_iff] at h
    obtain ⟨ys, hys, rfl⟩ := h
    rw [wf_arr]
    exact snapshotElements_wf xs hys
  | .obj fs, v, h => by
    simp only [snapshotJsonValue, map_eq_some_iff] at h
    obtain ⟨gs, hgs, rfl⟩ := h
    exact snapshotFields_wf fs (by simp [Json.keys]) hgs

theorem snapshotElements_wf : ∀ (xs : List JsValue) {ys : List Json}, snapshotElements xs = some ys → ∀ y ∈ ys, y.WF
  | [], ys, h => by
    simp only [snapshotElements, Option.some.injEq] at h
    subst h; simp
  | x :: xs, ys, h => by
    simp only [snapshotElements, bind_eq_bind, bind_eq_some_iff, map_eq_some_iff] at h
    obtain ⟨j, hj, zs, hzs, rfl⟩ := h
    intro y hy
    rcases mem_cons.mp hy with rfl | hy
    · exact snapshotJsonValue_wf x hj
    · exact snapshotElements_wf xs hzs y hy

theorem snapshotFields_wf : ∀ (fs : List (String × JsValue)) {target gs : List (String × Json)},
    (obj target).WF → snapshotFields fs target = some gs → (obj gs).WF
  | [], target, gs, ht, h => by
    simp only [snapshotFields, Option.some.injEq] at h
    subst h; exact ht
  | (k, x) :: fs, target, gs, ht, h => by
    simp only [snapshotFields, bind_eq_bind, bind_eq_some_iff] at h
    obtain ⟨j, hj, h⟩ := h
    exact snapshotFields_wf fs (setField_wf ht (snapshotJsonValue_wf x hj)) h

end

/-! ## The fields of a snapshot -/

variable {target result : List (String × Json)} {k : String}

theorem lookup_snapshotFields {fields : List (String × JsValue)}
    (h : snapshotFields fields target = some result) (hk : k ∉ fields.map Prod.fst) :
    result.lookup k = target.lookup k := by
  induction fields generalizing target with
  | nil =>
    cases h
    rfl
  | cons field fields ih =>
    obtain ⟨l, x⟩ := field
    simp only [snapshotFields, bind_eq_bind, bind_eq_some_iff] at h
    obtain ⟨j, -, hrest⟩ := h
    simp only [map_cons, mem_cons, not_or] at hk
    rw [ih hrest hk.2, JsonText.lookup_setField, if_neg hk.1]

theorem snapshotFields_append (fields more : List (String × JsValue)) (target : List (String × Json)) :
    snapshotFields (fields ++ more) target = (snapshotFields fields target).bind (snapshotFields more) := by
  induction fields generalizing target with
  | nil => rfl
  | cons field fields ih =>
    obtain ⟨k, x⟩ := field
    simp only [cons_append, snapshotFields, bind_eq_bind, bind_assoc]
    exact congrArg _ (funext fun j => ih _)

theorem lookup_snapshotFields_set {before after : List (String × JsValue)} {x : JsValue}
    (h : snapshotFields (before ++ (k, x) :: after) target = some result)
    (hk : k ∉ after.map Prod.fst) : result.lookup k = snapshotJsonValue x := by
  rw [snapshotFields_append, bind_eq_some_iff] at h
  obtain ⟨target', -, h⟩ := h
  simp only [snapshotFields, bind_eq_bind, bind_eq_some_iff] at h
  obtain ⟨j, hj, hrest⟩ := h
  rw [lookup_snapshotFields hrest hk, JsonText.lookup_setField, if_pos rfl, hj]

end CocoHarness.SessionLog
