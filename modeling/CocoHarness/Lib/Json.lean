/-
# CocoHarness.Lib.Json — JSON values as a JavaScript engine holds them.

An object is the list of its own fields in the order they were added, which is the order `JSON.stringify` writes them
in; `WF` says that no object lists a field twice.  A number is the decimal numeral `Number.prototype.toString` prints
for it: an integer, or `m / 10 ^ (p + 1)` with `m` not divisible by ten.  Two doubles are equal exactly when these
numerals are, and the numerals that are not finite (`NaN`, the infinities) and negative zero, which JSON cannot
carry, have no representation.

`Same` is equality up to that order.
-/
import Mathlib.Data.List.Perm.Basic
import Mathlib.Data.List.Nodup

namespace CocoHarness.Lib

open List

/-! ## Values -/

/-- A finite number other than negative zero, by the numeral it prints as. -/
inductive Number where
  /-- An integer. -/
  | int (n : Int)
  /-- `m / 10 ^ (p + 1)`, in lowest decimal terms. -/
  | frac (m : Int) (p : Nat) (h : ¬ (10 ∣ m))
  deriving DecidableEq

inductive Json where
  | null
  | bool (b : Bool)
  | num (n : Number)
  | str (s : String)
  | arr (xs : List Json)
  | obj (fields : List (String × Json))

namespace Json

mutual

def decEq : (a b : Json) → Decidable (a = b)
  | .null, .null => isTrue rfl
  | .bool a, .bool b => decidable_of_iff (a = b) (by simp)
  | .num a, .num b => decidable_of_iff (a = b) (by simp)
  | .str a, .str b => decidable_of_iff (a = b) (by simp)
  | .arr a, .arr b =>
    match decEqList a b with
    | isTrue h => isTrue (h ▸ rfl)
    | isFalse h => isFalse (fun e => h (Json.arr.inj e))
  | .obj a, .obj b =>
    match decEqFields a b with
    | isTrue h => isTrue (h ▸ rfl)
    | isFalse h => isFalse (fun e => h (Json.obj.inj e))
  | .null, .bool _ | .null, .num _ | .null, .str _ | .null, .arr _ | .null, .obj _
  | .bool _, .null | .bool _, .num _ | .bool _, .str _ | .bool _, .arr _ | .bool _, .obj _
  | .num _, .null | .num _, .bool _ | .num _, .str _ | .num _, .arr _ | .num _, .obj _
  | .str _, .null | .str _, .bool _ | .str _, .num _ | .str _, .arr _ | .str _, .obj _
  | .arr _, .null | .arr _, .bool _ | .arr _, .num _ | .arr _, .str _ | .arr _, .obj _
  | .obj _, .null | .obj _, .bool _ | .obj _, .num _ | .obj _, .str _ | .obj _, .arr _ =>
    isFalse nofun

def decEqList : (xs ys : List Json) → Decidable (xs = ys)
  | [], [] => isTrue rfl
  | [], _ :: _ | _ :: _, [] => isFalse nofun
  | x :: xs, y :: ys =>
    match decEq x y, decEqList xs ys with
    | isTrue h, isTrue hs => isTrue (h ▸ hs ▸ rfl)
    | isFalse h, _ => isFalse (fun e => h (List.cons.inj e).1)
    | _, isFalse hs => isFalse (fun e => hs (List.cons.inj e).2)

def decEqFields : (xs ys : List (String × Json)) → Decidable (xs = ys)
  | [], [] => isTrue rfl
  | [], _ :: _ | _ :: _, [] => isFalse nofun
  | (k, x) :: xs, (l, y) :: ys =>
    match decEq x y, decEqFields xs ys with
    | isTrue h, isTrue hs => decidable_of_iff (k = l) (by subst h hs; simp)
    | isFalse h, _ => isFalse (fun e => h (Prod.mk.inj (List.cons.inj e).1).2)
    | _, isFalse hs => isFalse (fun e => hs (List.cons.inj e).2)

end

instance : DecidableEq Json := decEq

/-- Induction on a value, with the hypothesis for every element and every field value. -/
@[elab_as_elim]
theorem induct {P : Json → Prop} (null : P .null) (bool : ∀ b, P (.bool b))
    (num : ∀ n, P (.num n)) (str : ∀ s, P (.str s))
    (arr : ∀ xs, (∀ x ∈ xs, P x) → P (.arr xs))
    (obj : ∀ fields, (∀ f ∈ fields, P f.2) → P (.obj fields)) (v : Json) : P v :=
  @Json.rec P (fun xs => ∀ x ∈ xs, P x) (fun fs => ∀ f ∈ fs, P f.2) (fun f => P f.2)
    null bool num str arr obj (by simp) (fun _ _ h hs => by simpa using ⟨h, hs⟩)
    (by simp) (fun _ _ h hs => by
      intro f hf
      rcases mem_cons.mp hf with rfl | hf
      · exact h
      · exact hs f hf) (fun _ _ h => h) v

/-! ## Reading a value -/

/-- The value of an own field, `none` for a field that is absent or a value that has no fields. -/
def get? : Json → String → Option Json
  | .obj fields, k => fields.lookup k
  | _, _ => none

def str? : Json → Option String
  | .str s => some s
  | _ => none

def num? : Json → Option Number
  | .num n => some n
  | _ => none

def int? : Json → Option Int
  | .num (.int n) => some n
  | _ => none

def arr? : Json → Option (List Json)
  | .arr xs => some xs
  | _ => none

def obj? : Json → Option (List (String × Json))
  | .obj fields => some fields
  | _ => none

@[simp] theorem get?_obj (fields : List (String × Json)) (k : String) :
    (Json.obj fields).get? k = fields.lookup k := rfl

def keys (fields : List (String × Json)) : List String := fields.map Prod.fst

variable {v : Json}

@[simp] theorem str?_eq_some_iff {s : String} : v.str? = some s ↔ v = .str s := by cases v <;> simp [str?]

@[simp] theorem num?_eq_some_iff {n : Number} : v.num? = some n ↔ v = .num n := by cases v <;> simp [num?]

variable {fs : List (String × Json)}

theorem lookup_eq_of_mem (hnodup : (keys fs).Nodup) {f : String × Json} (hf : f ∈ fs) : fs.lookup f.1 = some f.2 := by
  induction fs with
  | nil => simp at hf
  | cons g fs ih =>
    obtain ⟨hg, hrest⟩ := nodup_cons.mp hnodup
    rcases mem_cons.mp hf with rfl | hmem
    · rw [lookup_cons, beq_self_eq_true]
    · have hne : f.1 ≠ g.1 := fun h => hg (h ▸ mem_map_of_mem hmem)
      rw [lookup_cons, beq_eq_false_iff_ne.mpr hne]
      exact ih hrest hmem

theorem mem_of_lookup {k : String} (h : fs.lookup k = some v) : ∃ f ∈ fs, f.2 = v := by
  induction fs with
  | nil => simp at h
  | cons f fs ih =>
    obtain ⟨l, w⟩ := f
    rw [lookup_cons] at h
    split at h
    · exact ⟨(l, w), by simp, Option.some.inj h⟩
    · obtain ⟨g, hg, hv⟩ := ih h
      exact ⟨g, mem_cons_of_mem _ hg, hv⟩

/-! ## Well-formed values -/

mutual

def WF : Json → Prop
  | .arr xs => WFList xs
  | .obj fields => (keys fields).Nodup ∧ WFFields fields
  | _ => True

def WFList : List Json → Prop
  | [] => True
  | x :: xs => x.WF ∧ WFList xs

def WFFields : List (String × Json) → Prop
  | [] => True
  | f :: fs => f.2.WF ∧ WFFields fs

end

theorem wfList_iff (xs : List Json) : WFList xs ↔ ∀ x ∈ xs, x.WF := by
  induction xs with
  | nil => simp [WFList]
  | cons x xs ih => simp [WFList, ih]

theorem wfFields_iff (fs : List (String × Json)) : WFFields fs ↔ ∀ f ∈ fs, f.2.WF := by
  induction fs with
  | nil => simp [WFFields]
  | cons f fs ih => simp only [WFFields, ih, forall_mem_cons]

@[simp] theorem wf_null : Json.null.WF := trivial
@[simp] theorem wf_bool (b : Bool) : (Json.bool b).WF := trivial
@[simp] theorem wf_num (n : Number) : (Json.num n).WF := trivial
@[simp] theorem wf_str (s : String) : (Json.str s).WF := trivial

@[simp] theorem wf_arr (xs : List Json) : (Json.arr xs).WF ↔ ∀ x ∈ xs, x.WF := by rw [WF, wfList_iff]

@[simp] theorem wf_obj (fs : List (String × Json)) :
    (Json.obj fs).WF ↔ (keys fs).Nodup ∧ ∀ f ∈ fs, f.2.WF := by
  rw [WF, wfFields_iff]

/-! ## Equality up to field order -/

mutual

inductive Same : Json → Json → Prop
  | refl (v : Json) : Same v v
  | arr {xs ys : List Json} : SameList xs ys → Same (.arr xs) (.arr ys)
  | obj {xs ys zs : List (String × Json)} :
      xs.Perm ys → SameFields ys zs → Same (.obj xs) (.obj zs)

inductive SameList : List Json → List Json → Prop
  | nil : SameList [] []
  | cons {x y : Json} {xs ys : List Json} : Same x y → SameList xs ys → SameList (x :: xs) (y :: ys)

/-- The same field names in the same order, with values pointwise `Same`. -/
inductive SameFields : List (String × Json) → List (String × Json) → Prop
  | nil : SameFields [] []
  | cons {k : String} {x y : Json} {xs ys : List (String × Json)} : Same x y → SameFields xs ys →
      SameFields ((k, x) :: xs) ((k, y) :: ys)

end

theorem SameFields.refl (fs : List (String × Json)) : SameFields fs fs := by
  induction fs with
  | nil => exact .nil
  | cons f fs ih => exact .cons (.refl _) ih

theorem Same.of_perm {xs ys : List (String × Json)} (h : xs.Perm ys) : Same (.obj xs) (.obj ys) := .obj h (.refl ys)

end Json

end CocoHarness.Lib
